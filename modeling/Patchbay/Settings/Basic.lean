import Patchbay.Error
import Patchbay.Text.Blank

/-!
Settings of a compilation.
-/
namespace Patchbay

/-- Width of the floats of the emitted program. -/
inductive BitDepth where
  | bits32
  | bits64
  deriving DecidableEq, Repr

namespace BitDepth

def bits : BitDepth → Nat
  | bits32 => 32
  | bits64 => 64

def ofBits? (n : Nat) : Option BitDepth :=
  if n = 32 then some bits32 else if n = 64 then some bits64 else none

/-- The array type of that width. -/
def floatArray : BitDepth → String
  | bits32 => "Float32Array"
  | bits64 => "Float64Array"

end BitDepth

structure Settings where
  bitDepth : BitDepth := .bits64
  /-- In Hz. -/
  sampleRate : Float := 44100
  /-- The first part of every name that belongs to a node. -/
  variablePrefix : String := "n"
  logFilter : String := "info"

namespace Settings

/-- What is wrong with the settings: a sample rate that is not positive and finite, or else a
prefix that is no identifier. -/
def fault? (s : Settings) : Option SettingsFault :=
  if !(s.sampleRate.isFinite && s.sampleRate > 0) then some (.invalidSampleRate s.sampleRate)
  else if !Text.isIdentifier s.variablePrefix.toList then
    some (.invalidVariablePrefix s.variablePrefix)
  else none

def validate (s : Settings) : Except Error Settings :=
  match s.fault? with
  | some cause => .error (.settings cause)
  | none => .ok s

end Settings

end Patchbay
