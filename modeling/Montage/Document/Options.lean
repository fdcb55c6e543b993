import Montage.Json.Decoder
import Montage.Options.Video
import Montage.Options.Audio
import Montage.Options.Text

/-!
# Options in documents

An option is a pair of a kind and a value. The value is a number, a name, a frame or a position,
as the kind says.
-/

namespace Montage

open Json

/-- A member that is left out when there is no value. -/
def optionalMember {α : Type} (key : String) (encode : α → Json) : Option α → List (String × Json)
  | some a => [(key, encode a)]
  | none => []

/-! ## Frames and positions -/

namespace PixelSize

/-- The fields of a frame. -/
def record : Record PixelSize :=
  PixelSize.mk <$> Record.field "width" asUInt32 <*> Record.field "height" asUInt32

/-- Reads a frame. -/
def decode : Decoder PixelSize :=
  record.decode

/-- Writes a frame. -/
def encode (s : PixelSize) : Json :=
  .object [("width", .int s.width.toNat), ("height", .int s.height.toNat)]

end PixelSize

namespace Canvas

/-- Reads a canvas. -/
def decode : Decoder Canvas :=
  (Canvas.mk <$> Record.field "width" asUInt32 <*> Record.field "height" asUInt32 :
    Record Canvas).decode

/-- Writes a canvas. -/
def encode (c : Canvas) : Json :=
  .object [("width", .int c.width.toNat), ("height", .int c.height.toNat)]

end Canvas

/-- Reads a horizontal alignment. -/
def HorizontalAlign.decode : Decoder HorizontalAlign :=
  asName [("left", .left), ("center", .center), ("right", .right)]

/-- Writes a horizontal alignment. -/
def HorizontalAlign.encode : HorizontalAlign → Json
  | left => .string "left"
  | center => .string "center"
  | right => .string "right"

/-- Reads a vertical alignment. -/
def VerticalAlign.decode : Decoder VerticalAlign :=
  asName [("top", .top), ("center", .center), ("bottom", .bottom)]

/-- Writes a vertical alignment. -/
def VerticalAlign.encode : VerticalAlign → Json
  | top => .string "top"
  | center => .string "center"
  | bottom => .string "bottom"

namespace AxisPosition

/-- Reads a coordinate or an alignment. -/
def decode {A : Type} (align : Decoder A) : Decoder (AxisPosition A) :=
  asFirstOf [fun ctx v => (asInt32 ctx v).map pixels, fun ctx v => (align ctx v).map aligned]

/-- Writes a coordinate or an alignment. -/
def encode {A : Type} (align : A → Json) : AxisPosition A → Json
  | pixels n => .int n.toInt
  | aligned a => align a

end AxisPosition

namespace Position

/-- Reads a position. -/
def decode : Decoder Position :=
  (Position.mk <$> Record.optional "x" (AxisPosition.decode HorizontalAlign.decode)
    <*> Record.optional "y" (AxisPosition.decode VerticalAlign.decode) : Record Position).decode

/-- Writes a position. -/
def encode (p : Position) : Json :=
  .object (optionalMember "x" (AxisPosition.encode HorizontalAlign.encode) p.x ++
    optionalMember "y" (AxisPosition.encode VerticalAlign.encode) p.y)

end Position

/-! ## The three categories -/

/-- Reads the value of a kind. -/
def kindOf {α β : Type} (name : String) (make : α → β) (d : Decoder α) : String × Payload β :=
  (name, .value fun ctx v => (d ctx v).map make)

/-- Writes a kind with its value. -/
def encodeKind (kind : String) (value : Json) : Json :=
  .object [("kind", .string kind), ("value", value)]

/-- Reads a fade. -/
def Transition.decode : Decoder Transition :=
  asName [("fadein", .fadeIn), ("fadeout", .fadeOut)]

/-- Writes a fade. -/
def Transition.encode : Transition → Json
  | fadeIn => .string "fadein"
  | fadeOut => .string "fadeout"

/-- Reads the name of a frame. -/
def ResolutionPreset.decode : Decoder ResolutionPreset :=
  asName [("webcam", .webcam)]

/-- Writes the name of a frame. -/
def ResolutionPreset.encode : ResolutionPreset → Json
  | webcam => .string "webcam"

namespace VideoOption

/-- Reads a video option. -/
def decode : Decoder VideoOption :=
  asKind [
    kindOf "brightness" brightness asFloat,
    kindOf "scale" scale asFloat,
    kindOf "opacity" opacity asFloat,
    kindOf "contrast" contrast asFloat,
    kindOf "saturation" saturation asFloat,
    kindOf "rotation" rotation asFloat,
    kindOf "transition" transition Transition.decode,
    kindOf "resolution" resolution ResolutionPreset.decode,
    kindOf "size" size PixelSize.decode,
    kindOf "position" position Position.decode]

/-- Writes a video option. -/
def encode : VideoOption → Json
  | brightness x => encodeKind "brightness" (.real x)
  | scale x => encodeKind "scale" (.real x)
  | opacity x => encodeKind "opacity" (.real x)
  | contrast x => encodeKind "contrast" (.real x)
  | saturation x => encodeKind "saturation" (.real x)
  | rotation x => encodeKind "rotation" (.real x)
  | transition t => encodeKind "transition" t.encode
  | resolution preset => encodeKind "resolution" preset.encode
  | size s => encodeKind "size" s.encode
  | position p => encodeKind "position" p.encode

end VideoOption

namespace StereoVolume

/-- Reads the volumes of both ears. -/
def decode : Decoder StereoVolume :=
  (StereoVolume.mk <$> Record.field "left" asFloat <*> Record.field "right" asFloat :
    Record StereoVolume).decode

/-- Writes the volumes of both ears. -/
def encode (v : StereoVolume) : Json :=
  .object [("left", .real v.left), ("right", .real v.right)]

end StereoVolume

namespace AudioOption

/-- Reads an audio option. -/
def decode : Decoder AudioOption :=
  asKind [
    kindOf "volume" volume asFloat,
    kindOf "fade-in" fadeIn asFloat,
    kindOf "fade-out" fadeOut asFloat,
    kindOf "stereo-volume" stereoVolume StereoVolume.decode,
    ("normalize", .nothing normalize)]

/-- Writes an audio option. -/
def encode : AudioOption → Json
  | volume x => encodeKind "volume" (.real x)
  | fadeIn x => encodeKind "fade-in" (.real x)
  | fadeOut x => encodeKind "fade-out" (.real x)
  | stereoVolume v => encodeKind "stereo-volume" v.encode
  | normalize => .object [("kind", .string "normalize")]

end AudioOption

/-- Reads an alignment of lines. -/
def TextAlign.decode : Decoder TextAlign :=
  asName [("left", .left), ("center", .center), ("right", .right)]

/-- Writes an alignment of lines. -/
def TextAlign.encode (a : TextAlign) : Json :=
  .string a.text

/-- Reads the name of an effect. -/
def LetterEffect.decode : Decoder LetterEffect :=
  asName [("grouping", .grouping), ("falling", .falling)]

/-- Writes the name of an effect. -/
def LetterEffect.encode (e : LetterEffect) : Json :=
  .string e.name

namespace TextOption

/-- Reads a text option. -/
def decode : Decoder TextOption :=
  asKind [
    kindOf "font" font asString,
    kindOf "font-size" fontSize asUInt32,
    kindOf "font-color" fontColor asString,
    kindOf "alignment" alignment TextAlign.decode,
    kindOf "background" background asString,
    kindOf "size" size PixelSize.decode,
    kindOf "position" position Position.decode,
    kindOf "effect" effect LetterEffect.decode]

/-- Writes a text option. -/
def encode : TextOption → Json
  | font name => encodeKind "font" (.string name)
  | fontSize n => encodeKind "font-size" (.int n.toNat)
  | fontColor color => encodeKind "font-color" (.string color)
  | alignment a => encodeKind "alignment" a.encode
  | background color => encodeKind "background" (.string color)
  | size s => encodeKind "size" s.encode
  | position p => encodeKind "position" p.encode
  | effect e => encodeKind "effect" e.encode

end TextOption

end Montage
