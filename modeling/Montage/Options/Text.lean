import Montage.Options.Category
import Montage.Options.Position

/-!
# Text options
-/

namespace Montage

/-- Alignment of the lines of a text. -/
inductive TextAlign where
  | left
  | center
  | right
  deriving DecidableEq, Repr

/-- The word for an alignment. -/
def TextAlign.text : TextAlign → String
  | left => "left"
  | center => "center"
  | right => "right"

/-- A way for the letters of a text to come in. -/
inductive LetterEffect where
  | grouping
  | falling
  deriving DecidableEq, Repr

/-- The name of an effect. -/
def LetterEffect.name : LetterEffect → String
  | grouping => "grouping"
  | falling => "falling"

/-- An adjustment of a text. -/
inductive TextOption where
  | font (name : String)
  | fontSize (size : UInt32)
  | fontColor (color : String)
  | alignment (a : TextAlign)
  | background (color : String)
  | size (s : PixelSize)
  | position (p : Position)
  | effect (e : LetterEffect)
  deriving DecidableEq, Repr

/-- What a text option adjusts. -/
inductive TextOption.Kind where
  | font
  | fontSize
  | fontColor
  | alignment
  | background
  | size
  | position
  | effect
  deriving DecidableEq, Repr

namespace TextOption

/-- What an option adjusts. -/
def kind : TextOption → Kind
  | font _ => .font
  | fontSize _ => .fontSize
  | fontColor _ => .fontColor
  | alignment _ => .alignment
  | background _ => .background
  | size _ => .size
  | position _ => .position
  | effect _ => .effect

/-- What options of a kind set. -/
abbrev Kind.Value : Kind → Type
  | font => String
  | fontSize => UInt32
  | fontColor => String
  | alignment => TextAlign
  | background => String
  | size => PixelSize
  | position => Position
  | effect => LetterEffect

/-- The value that an option sets, if it is of a kind. -/
def value? : (k : Kind) → TextOption → Option k.Value
  | .font, font name => some name
  | .fontSize, fontSize n => some n
  | .fontColor, fontColor color => some color
  | .alignment, alignment a => some a
  | .background, background color => some color
  | .size, size s => some s
  | .position, position p => some p
  | .effect, effect e => some e
  | _, _ => none

/-- The size comes first and the position after it. -/
def Kind.rank : Kind → Option Nat
  | size => some 0
  | position => some 1
  | _ => none

instance : OptionCategory TextOption where
  Key := Kind
  decEqKey := inferInstance
  key := kind
  rank option := option.kind.rank

end TextOption

end Montage
