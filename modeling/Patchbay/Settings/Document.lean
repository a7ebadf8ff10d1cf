import Patchbay.Settings.Basic
import Patchbay.Toml.Document
import Patchbay.Toml.Writer

/-!
Settings as TOML documents, with one key for each setting.
-/
namespace Patchbay.Settings

inductive Field where
  | bitDepth
  | sampleRate
  | variablePrefix
  | logFilter
  deriving DecidableEq, Repr

namespace Field

def all : List Field := [bitDepth, sampleRate, variablePrefix, logFilter]

def key : Field → String
  | bitDepth => "bit_depth"
  | sampleRate => "sample_rate"
  | variablePrefix => "variable_prefix"
  | logFilter => "log_filter"

def ofKey? (key : String) : Option Field := all.find? (·.key = key)

@[simp] theorem ofKey?_key (f : Field) : ofKey? f.key = some f := by cases f <;> decide

end Field

/-- The document that holds all settings. -/
def toToml (s : Settings) : String :=
  String.ofList (
    Toml.writeLine Field.bitDepth.key (Toml.writeInteger s.bitDepth.bits) ++
    Toml.writeLine Field.sampleRate.key (Toml.writeFloat s.sampleRate) ++
    Toml.writeLine Field.variablePrefix.key (Toml.writeText s.variablePrefix.toList) ++
    Toml.writeLine Field.logFilter.key (Toml.writeText s.logFilter.toList))

/-- The bit depth that an integer stands for. Integers beyond a byte are not looked at. -/
def bitDepthOf (n : Int) : Except SettingsFault BitDepth :=
  if n < 0 ∨ 255 < n then .error .unreadable
  else match BitDepth.ofBits? n.toNat with
    | some depth => .ok depth
    | none => .error (.unsupportedBitDepth n.toNat)

/-- Changes one setting. A sample rate may be written as an integer. -/
def set (s : Settings) : Field → Toml.Value → Except SettingsFault Settings
  | .bitDepth, .integer n => do return { s with bitDepth := ← bitDepthOf n }
  | .sampleRate, .integer n => .ok { s with sampleRate := Float.ofInt n }
  | .sampleRate, .float x => .ok { s with sampleRate := x }
  | .variablePrefix, .text t => .ok { s with variablePrefix := t }
  | .logFilter, .text t => .ok { s with logFilter := t }
  | _, _ => .error .unreadable

def setEntry (s : Settings) (key : String) (item : Toml.Item) : Except SettingsFault Settings :=
  match Field.ofKey? key, item with
  | some field, .value v => s.set field v
  | _, _ => .error .unreadable

/-- The settings of a document, before they are validated. Keys that are missing leave the
defaults. -/
def ofEntries (entries : Toml.Entries) : Except SettingsFault Settings :=
  entries.foldlM (fun s (key, item) => s.setEntry key item) {}

/-- Reads a document and validates the settings in it. -/
def ofToml (text : String) : Except Error Settings :=
  match Toml.read text.toList with
  | none => .error (.settings .unreadable)
  | some entries =>
    match ofEntries entries with
    | .error cause => .error (.settings cause)
    | .ok s => s.validate

/-- Reads the contents of a file, which must be UTF-8. -/
def ofBytes (bytes : ByteArray) : Except Error Settings :=
  match String.fromUTF8? bytes with
  | some text => ofToml text
  | none => .error (.settings .unreadable)

end Patchbay.Settings
