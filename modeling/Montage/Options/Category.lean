/-!
# Categories of options

Video, audio and text have options of their own. All three categories say when two options
compete for one place, and in which order the options of an element are presented.
-/

namespace Montage

/-- What the options of a category have in common. -/
class OptionCategory (O : Type) where
  /-- What two competing options agree in. -/
  Key : Type
  decEqKey : DecidableEq Key
  key : O → Key
  /-- The place of an option in the order of presentation, if it has one. -/
  rank : O → Option Nat

instance {O : Type} [c : OptionCategory O] : DecidableEq (OptionCategory.Key O) :=
  c.decEqKey

end Montage
