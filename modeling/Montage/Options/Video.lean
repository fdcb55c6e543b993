import Montage.Options.Category
import Montage.Options.Position

/-!
# Video options
-/

namespace Montage

/-- A fade at the beginning or at the end of a clip. -/
inductive Transition where
  | fadeIn
  | fadeOut
  deriving DecidableEq, Repr

/-- A named frame size. -/
inductive ResolutionPreset where
  | webcam
  deriving DecidableEq, Repr

/-- The frame a name stands for. -/
def ResolutionPreset.size : ResolutionPreset → PixelSize
  | webcam => ⟨640, 480⟩

/-- An adjustment of a video clip. -/
inductive VideoOption where
  | brightness (factor : Float)
  | scale (factor : Float)
  | opacity (value : Float)
  | contrast (value : Float)
  | saturation (value : Float)
  | rotation (degrees : Float)
  | transition (t : Transition)
  | resolution (preset : ResolutionPreset)
  | size (s : PixelSize)
  | position (p : Position)
  deriving DecidableEq, Repr

/-- What a video option adjusts. -/
inductive VideoOption.Kind where
  | brightness
  | scale
  | opacity
  | contrast
  | saturation
  | rotation
  | transition
  | resolution
  | size
  | position
  deriving DecidableEq, Repr

/-- What competing video options agree in: their kind, and for fades also the direction. -/
inductive VideoOption.Key where
  | kind (k : VideoOption.Kind)
  | transition (t : Transition)
  deriving DecidableEq, Repr

namespace VideoOption

/-- What an option adjusts. -/
def kind : VideoOption → Kind
  | brightness _ => .brightness
  | scale _ => .scale
  | opacity _ => .opacity
  | contrast _ => .contrast
  | saturation _ => .saturation
  | rotation _ => .rotation
  | transition _ => .transition
  | resolution _ => .resolution
  | size _ => .size
  | position _ => .position

/-- Fades in different directions do not compete; a named size competes with a size. -/
def key : VideoOption → Key
  | transition t => .transition t
  | resolution _ => .kind .size
  | option => .kind option.kind

/-- Sizes come first and positions after them, since alignment depends on the size. -/
def Kind.rank : Kind → Option Nat
  | resolution => some 0
  | size => some 1
  | position => some 2
  | _ => none

/-- The size an option sets. -/
def size? : VideoOption → Option PixelSize
  | size s => some s
  | resolution preset => some preset.size
  | _ => none

instance : OptionCategory VideoOption where
  Key := Key
  decEqKey := inferInstance
  key := key
  rank option := option.kind.rank

end VideoOption

end Montage
