import Patchbay.Helper.Library

/-!
Signal functions: one sample in, one sample out.
-/
namespace Patchbay

namespace Pitch

/-- The frequency in Hz of a MIDI note: zero from -1500 down, and constant above 1499. -/
def frequency (note : Float) : Float :=
  if note <= -1500 then 0
  else 8.17579891564 * (0.0577622650 * (if note > 1499 then 1499 else note)).exp

/-- The MIDI note of a frequency in Hz. -/
def note (frequency : Float) : Float :=
  if frequency > 0 then 17.3123405046 * (0.12231220585 * frequency).log else -1500

end Pitch

inductive SignalFunction where
  | absolute
  | cosine
  | wrap
  | squareRoot
  | noteToFrequency
  | frequencyToNote
  deriving DecidableEq, Repr

namespace SignalFunction

def all : List SignalFunction :=
  [absolute, cosine, wrap, squareRoot, noteToFrequency, frequencyToNote]

def nodeType : SignalFunction → String
  | absolute => "abs~"
  | cosine => "cos~"
  | wrap => "wrap~"
  | squareRoot => "sqrt~"
  | noteToFrequency => "mtof~"
  | frequencyToNote => "ftom~"

/-- A full turn in radians. -/
def turn : Float := 6.283185307179586476925286766559

/-- The value at `x`. Wrapping brings every finite number into the interval from 0 to 1. -/
def apply (x : Float) : SignalFunction → Float
  | absolute => x.abs
  | cosine => (x * turn).cos
  | wrap => Number.fraction (1 + Number.fraction x)
  | squareRoot => if x >= 0 then x.sqrt else 0
  | noteToFrequency => Pitch.frequency x
  | frequencyToNote => Pitch.note x

/-- The function of `input` as an expression of the emitted language. -/
def expression (input : String) : SignalFunction → String
  | absolute => s!"Math.abs({input})"
  | cosine => s!"Math.cos({input} * 2 * Math.PI)"
  | wrap => s!"(1 + ({input} % 1)) % 1"
  | squareRoot => s!"{input} >= 0 ? Math.pow({input}, 0.5) : 0"
  | noteToFrequency => s!"mtof({input})"
  | frequencyToNote => s!"ftom({input})"

def needs : SignalFunction → List Helper.Builtin
  | noteToFrequency => [.noteToFrequency]
  | frequencyToNote => [.frequencyToNote]
  | _ => []

end SignalFunction

end Patchbay
