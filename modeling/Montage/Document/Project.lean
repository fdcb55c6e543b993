import Montage.Document.Element
import Montage.Json.Writer
import Montage.Project

/-!
# Project documents

The JSON form of a whole project. Elements, groups and the timeline may be left out when it is
read and are always written.
-/

namespace Montage

open Json

/-- Reads an end of an entry. -/
def Anchor.decode : Decoder Anchor :=
  asName [("start", .start), ("end", .stop)]

/-- Writes an end of an entry. -/
def Anchor.encode : Anchor → Json
  | start => .string "start"
  | stop => .string "end"

namespace Placement

/-- A start at an instant. -/
def fixedRecord : Record Placement :=
  fixed <$> Record.field "at" Timestamp.decode

/-- A start relative to another entry. -/
def relativeRecord : Record Placement :=
  relative <$> Record.field "relative_to" asString <*> Record.field "anchor" Anchor.decode
    <*> Record.optional "offset" Offset.decode

/-- Reads null as an implicit start. -/
def decodeImplicit : Decoder Placement
  | _, .null => .ok implicit
  | _, _ => .error .unreadable

/-- Reads a placement: an instant if there is one, else a relation, else null. -/
def decode : Decoder Placement :=
  asFirstOf [fixedRecord.objectOnly, relativeRecord.objectOnly, decodeImplicit]

/-- Writes a placement. -/
def encode : Placement → Json
  | fixed instant => .object [("at", instant.encode)]
  | relative target anchor offset =>
    .object ([("relative_to", .string target), ("anchor", anchor.encode)] ++
      optionalMember "offset" Offset.encode offset)
  | implicit => .null

end Placement

namespace LayerRelation

/-- Reads a stacking relation. -/
def decode : Decoder LayerRelation :=
  asKeyed [
    ("above", fun ctx v => (asString ctx v).map above),
    ("under", fun ctx v => (asString ctx v).map under)]

/-- Writes a stacking relation. -/
def encode : LayerRelation → Json
  | above target => .object [("above", .string target)]
  | under target => .object [("under", .string target)]

end LayerRelation

namespace Entry

/-- Reads an entry. -/
def decode : Decoder Entry :=
  (Entry.mk <$> Record.field "name" asString <*> Record.field "element" asString
    <*> Record.fieldOr "placement" .implicit Placement.decode
    <*> Record.optional "duration" Timestamp.decode
    <*> Record.optional "layer" LayerRelation.decode : Record Entry).decode

/-- Writes an entry; an implicit placement is left out. -/
def encode (e : Entry) : Json :=
  .object ([("name", .string e.name), ("element", .string e.element)] ++
    (if e.placement.isImplicit then [] else [("placement", e.placement.encode)]) ++
    optionalMember "duration" Timestamp.encode e.duration ++
    optionalMember "layer" LayerRelation.encode e.layer)

end Entry

namespace Group

/-- The fields of a group. -/
def record {O : Type} (d : Decoder O) : Record (Group O) :=
  Group.mk <$> Record.field "name" asString <*> Record.field "elements" (asList asString)
    <*> optionsField d

/-- Writes the fields of a group. -/
def fields {O : Type} (encode : O → Json) (g : Group O) : List (String × Json) :=
  [("name", .string g.name), ("elements", .array (g.members.map Json.string)),
    encodeOptions encode g.options]

end Group

namespace OptionGroup

/-- Reads a group. -/
def decode : Decoder OptionGroup :=
  asTagged "type" [
    ("video", video <$> Group.record VideoOption.decode),
    ("audio", audio <$> Group.record AudioOption.decode),
    ("text", text <$> Group.record TextOption.decode)]

/-- Writes a group. -/
def encode : OptionGroup → Json
  | video g => .object (("type", .string "video") :: g.fields VideoOption.encode)
  | audio g => .object (("type", .string "audio") :: g.fields AudioOption.encode)
  | text g => .object (("type", .string "text") :: g.fields TextOption.encode)

end OptionGroup

namespace Project

/-- The fields of a project. -/
def record : Record Project :=
  Project.mk <$> Record.field "output_name" asString
    <*> Record.fieldOr "elements" [] (asList Element.decode)
    <*> Record.fieldOr "groups" [] (asList OptionGroup.decode)
    <*> Record.fieldOr "timeline" [] (asList Entry.decode)

/-- Reads a project. -/
def decode : Decoder Project :=
  record.decode

/-- The members a project is written as. -/
def members (p : Project) : List (String × Json) :=
  [("output_name", .string p.outputName),
    ("elements", .array (p.elements.map Element.encode)),
    ("groups", .array (p.groups.map OptionGroup.encode)),
    ("timeline", .array (p.timeline.map Entry.encode))]

/-- Writes a project. -/
def encode (p : Project) : Json :=
  .object p.members

/-- Reads a project from the text of its document. -/
def parse (s : String) : Except Error Project :=
  (decodeText decode s).mapError Error.document

/-- The document of a project. -/
def text (style : Json.Style) (p : Project) : String :=
  p.encode.text style

end Project

end Montage
