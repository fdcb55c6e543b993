import Montage.Options.Text
import Montage.Script.Writer

/-!
# Letter effects

An effect moves the letters of a text. It has a name, and it can define a function of that name
that says where a letter is at a time. Effects may be of any type; two of them are built in. A
script takes its effects from a registry, which may know one under several names, or none at all.
-/

namespace Montage

open Script (Action Writer)

/-- A type of effects. To define its function, an effect is shown the writer and answers what is to
be done with it. -/
class TextEffect (E : Type) where
  name : E → String
  description : E → String
  definition : E → Writer → List Action

namespace LetterEffect

/-- What an effect looks like. -/
def description : LetterEffect → String
  | grouping => "Letters converge from a rotating ring onto their final position"
  | falling => "Letters fall from the top of the frame in a cascade"

/-- Defines the function that says where the letters of an effect are. -/
def definition : LetterEffect → List Action
  | grouping =>
    [.line "def grouping(screenpos, i, nletters):", .indent,
      .line "d = lambda t: 1.0 / (0.3 + t**8)",
      .line "a = i * np.pi / nletters",
      .line "v = rotMatrix(a).dot([-1, 0])",
      .line "if i % 2:", .indent,
      .line "v[1] = -v[1]", .dedent,
      .line "return lambda t: screenpos + 400 * d(t) * rotMatrix(0.5 * d(t) * a).dot(v)", .dedent,
      .line ""]
  | falling =>
    [.line "def falling(screenpos, i, nletters):", .indent,
      .line "v = np.array([0, -1])",
      .line "d = lambda t: 1 if t < 0 else abs(np.sinc(t) / (1 + t**4))",
      .line "return lambda t: screenpos + v * 400 * d(t - 0.15 * i)", .dedent,
      .line ""]

end LetterEffect

/-- The built-in effects are defined alike wherever the writer is. -/
instance : TextEffect LetterEffect where
  name := LetterEffect.name
  description := LetterEffect.description
  definition effect _ := effect.definition

/-- The effects a script can use, by name. -/
structure EffectRegistry (E : Type) where
  effects : List (String × E)
  deriving DecidableEq, Repr

namespace EffectRegistry

variable {E : Type}

/-- A registry without effects. -/
def empty : EffectRegistry E :=
  ⟨[]⟩

/-- Puts an effect under a name, in the place of one that had the name before. -/
def register (r : EffectRegistry E) (name : String) (effect : E) : EffectRegistry E :=
  ⟨(name, effect) :: r.effects.filter fun e => e.1 ≠ name⟩

/-- Every built-in effect under its own name. -/
def standard : EffectRegistry LetterEffect :=
  (empty.register "grouping" .grouping).register "falling" .falling

/-- The effect of a name. -/
def find? (r : EffectRegistry E) (name : String) : Option E :=
  r.effects.lookup name

/-- All names, in order. -/
def names (r : EffectRegistry E) : List String :=
  (r.effects.map Prod.fst).mergeSort fun a b => a ≤ b

end EffectRegistry

end Montage
