import Montage.Document.Options
import Montage.Document.Time
import Montage.Element

/-!
# Elements in documents

An element names its type in the member `type`. Its options may be left out when it is read and
are always written.
-/

namespace Montage

open Json

/-- Writes a list of options. -/
def encodeOptions {O : Type} (encode : O → Json) (options : List O) : String × Json :=
  ("options", .array (options.map encode))

/-- Reads a list of options that may be left out. -/
def optionsField {O : Type} (d : Decoder O) : Record (List O) :=
  Record.fieldOr "options" [] (asList d)

namespace VideoFile

/-- The fields of a video file. -/
def record : Record VideoFile :=
  VideoFile.mk <$> Record.field "name" asString <*> Record.field "path" asString
    <*> Record.optional "size" PixelSize.decode <*> optionsField VideoOption.decode

/-- Writes the fields of a video file. -/
def members (v : VideoFile) : List (String × Json) :=
  [("name", .string v.name), ("path", .string v.path)] ++
    optionalMember "size" PixelSize.encode v.size ++
    [encodeOptions VideoOption.encode v.options]

end VideoFile

namespace AudioFile

/-- The fields of an audio file. -/
def record : Record AudioFile :=
  AudioFile.mk <$> Record.field "name" asString <*> Record.field "path" asString
    <*> optionsField AudioOption.decode

/-- Writes the fields of an audio file. -/
def members (a : AudioFile) : List (String × Json) :=
  [("name", .string a.name), ("path", .string a.path),
    encodeOptions AudioOption.encode a.options]

end AudioFile

namespace Extract

/-- The fields of a piece. -/
def record {O : Type} (d : Decoder O) : Record (Extract O) :=
  Extract.mk <$> Record.field "name" asString <*> Record.field "source" asString
    <*> Record.field "start" Timestamp.decode <*> Record.field "end" Timestamp.decode
    <*> optionsField d

/-- Writes the fields of a piece. -/
def members {O : Type} (encode : O → Json) (e : Extract O) : List (String × Json) :=
  [("name", .string e.name), ("source", .string e.source), ("start", e.start.encode),
    ("end", e.stop.encode), encodeOptions encode e.options]

end Extract

namespace TextBlock

/-- The fields of a text. -/
def record : Record TextBlock :=
  TextBlock.mk <$> Record.field "name" asString <*> Record.field "text" asString
    <*> optionsField TextOption.decode

/-- Writes the fields of a text. -/
def members (t : TextBlock) : List (String × Json) :=
  [("name", .string t.name), ("text", .string t.text),
    encodeOptions TextOption.encode t.options]

end TextBlock

namespace Element

/-- Reads an element. -/
def decode : Decoder Element :=
  asTagged "type" [
    ("video", video <$> VideoFile.record),
    ("video-extract", videoExtract <$> Extract.record VideoOption.decode),
    ("audio", audio <$> AudioFile.record),
    ("audio-extract", audioExtract <$> Extract.record AudioOption.decode),
    ("text", text <$> TextBlock.record),
    ("subtitle", subtitle <$> TextBlock.record)]

/-- The name of an element's type. -/
def typeName : Element → String
  | video _ => "video"
  | videoExtract _ => "video-extract"
  | audio _ => "audio"
  | audioExtract _ => "audio-extract"
  | text _ => "text"
  | subtitle _ => "subtitle"

/-- Writes the fields of an element. -/
def members : Element → List (String × Json)
  | video v => v.members
  | videoExtract e => e.members VideoOption.encode
  | audio a => a.members
  | audioExtract e => e.members AudioOption.encode
  | text t => t.members
  | subtitle t => t.members

/-- Writes an element. -/
def encode (e : Element) : Json :=
  .object (("type", .string e.typeName) :: e.members)

end Element

end Montage
