import Montage.Options.Category

/-!
# Audio options
-/

namespace Montage

/-- A volume for each ear. -/
structure StereoVolume where
  left : Float
  right : Float
  deriving DecidableEq, Repr

/-- An adjustment of an audio clip. -/
inductive AudioOption where
  | volume (factor : Float)
  | fadeIn (seconds : Float)
  | fadeOut (seconds : Float)
  | stereoVolume (v : StereoVolume)
  | normalize
  deriving DecidableEq, Repr

/-- What an audio option adjusts. -/
inductive AudioOption.Kind where
  | volume
  | fadeIn
  | fadeOut
  | stereoVolume
  | normalize
  deriving DecidableEq, Repr

namespace AudioOption

/-- What an option adjusts. -/
def kind : AudioOption → Kind
  | volume _ => .volume
  | fadeIn _ => .fadeIn
  | fadeOut _ => .fadeOut
  | stereoVolume _ => .stereoVolume
  | normalize => .normalize

/-- The order of presentation. -/
def Kind.rank : Kind → Option Nat
  | volume => some 0
  | fadeIn => some 1
  | fadeOut => some 2
  | stereoVolume => some 3
  | normalize => none

instance : OptionCategory AudioOption where
  Key := Kind
  decEqKey := inferInstance
  key := kind
  rank option := option.kind.rank

end AudioOption

end Montage
