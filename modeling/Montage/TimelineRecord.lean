import Montage.Document.Project
import Montage.Resolution

/-!
# Timeline records

What an editor needs to draw a timeline: for each entry its element, its layer, how its start was
given, and when it starts and ends in seconds.
-/

namespace Montage

open Json

/-- The element of a record, as far as an editor shows it. -/
inductive ElementView where
  | videoFile (name path : String)
  | videoExtract (name : String)
  | audioFile (name path : String)
  | audioExtract (name : String)
  | text (name : String) (isSubtitle : Bool)
  deriving DecidableEq, Repr

/-- A start that was given relative to another entry. -/
structure RelativeStart where
  /-- Signed, in seconds. -/
  offset : Float
  anchor : Anchor
  target : String
  deriving DecidableEq, Repr

/-- An entry as an editor shows it. -/
structure TimelineRecord where
  name : String
  layer : Int
  duration : Option Float
  startAt : Option Float
  startAfterPrevious : Option Bool
  relativeStart : Option RelativeStart
  element : ElementView
  startTime : Float
  /-- The start when the duration is unknown. -/
  endTime : Float
  deriving DecidableEq, Repr

/-! ## Making records -/

/-- What an editor shows of an element. -/
def ElementView.ofElement : Element → ElementView
  | .video v => .videoFile v.name v.path
  | .videoExtract e => .videoExtract e.name
  | .audio a => .audioFile a.name a.path
  | .audioExtract e => .audioExtract e.name
  | .text t => .text t.name false
  | .subtitle t => .text t.name true

/-- The record of the entry at an index. The first entry starts at zero when nothing else is said.
-/
def TimelineRecord.make (i : Nat) (layer : Int) (entry : Entry) (element : Element)
    (span : Span Float) : TimelineRecord where
  name := entry.name
  layer := layer
  duration := span.duration
  startAt :=
    match entry.placement with
    | .fixed instant => some instant.toFloat
    | .implicit => if i = 0 then some 0.0 else none
    | .relative _ _ _ => none
  startAfterPrevious :=
    match entry.placement with
    | .implicit => if i = 0 then none else some true
    | _ => none
  relativeStart :=
    match entry.placement with
    | .relative target anchor offset =>
      some ⟨(offset.map Offset.seconds).getD 0.0, anchor, target⟩
    | _ => none
  element := .ofElement element
  startTime := span.start
  endTime := span.stop

/-- The records of all entries, in the order of the timeline. -/
def Resolved.records (r : Resolved) (known : KnownDurations Float) (defaultText : Float) :
    Except Error (List TimelineRecord) := do
  let spans ← r.project.schedule known defaultText
  (r.project.timeline.zip spans).zipIdx.mapM fun e => do
    let element ← r.requireElement e.1.1
    return .make e.2 (r.layer e.2) e.1.1 element e.1.2

/-! ## Records in documents -/

/-- Reads an anchor in capitals. -/
def decodePlace : Decoder Anchor :=
  asName [("START", .start), ("END", .stop)]

/-- Writes an anchor in capitals. -/
def encodePlace : Anchor → Json
  | .start => .string "START"
  | .stop => .string "END"

namespace RelativeStart

/-- Reads a relative start. -/
def decode : Decoder RelativeStart :=
  (RelativeStart.mk <$> Record.field "offset" asFloat <*> Record.field "place" decodePlace
    <*> Record.field "relativeTo" asString : Record RelativeStart).decode

/-- Writes a relative start. -/
def encode (s : RelativeStart) : Json :=
  .object [("offset", .real s.offset), ("place", encodePlace s.anchor),
    ("relativeTo", .string s.target)]

end RelativeStart

namespace ElementView

/-- The shapes of an element, by key. -/
def shapes : List (String × Record ElementView) :=
  [("videoOriginalElement",
      videoFile <$> Record.field "name" asString <*> Record.field "filePath" asString),
    ("videoExtractElement", videoExtract <$> Record.field "name" asString),
    ("audioOriginalElement",
      audioFile <$> Record.field "name" asString <*> Record.field "filePath" asString),
    ("audioExtractElement", audioExtract <$> Record.field "name" asString),
    ("textElement",
      text <$> Record.field "name" asString <*> Record.field "isSubtitle" asBool)]

/-- The member an element is written as. -/
def member : ElementView → String × Json
  | videoFile name path =>
    ("videoOriginalElement", .object [("name", .string name), ("filePath", .string path)])
  | videoExtract name => ("videoExtractElement", .object [("name", .string name)])
  | audioFile name path =>
    ("audioOriginalElement", .object [("name", .string name), ("filePath", .string path)])
  | audioExtract name => ("audioExtractElement", .object [("name", .string name)])
  | text name isSubtitle =>
    ("textElement", .object [("name", .string name), ("isSubtitle", .bool isSubtitle)])

/-- Reads the first member that is an element. -/
def ofMembers : List (String × Json) → Except Fault ElementView
  | [] => .error .unreadable
  | (key, v) :: rest =>
    match shapes.lookup key with
    | some r => r.decode Context.held v
    | none => ofMembers rest

end ElementView

namespace TimelineRecord

/-- The fields of a record beside its element, which is one of the other members. -/
def fields : Record (ElementView → TimelineRecord) :=
  (fun name layer duration startAt after relative startTime endTime element =>
      ⟨name, layer, duration, startAt, after, relative, element, startTime, endTime⟩) <$>
    Record.field "name" asString
    <*> Record.field "layer" (asIntIn Int32.minValue.toInt Int32.maxValue.toInt)
    <*> Record.optional "duration" asFloat <*> Record.optional "startAt" asFloat
    <*> Record.optional "startAfterPrevious" asBool
    <*> Record.optional "relativePlacement" RelativeStart.decode
    <*> Record.field "startTime" asFloat <*> Record.field "endTime" asFloat

/-- Reads a record. Members that are no fields are set aside, and the first element among them is
the element of the record. -/
def decode : Decoder TimelineRecord
  | ctx, .object ms => do
    let others := ms.filter fun m => !fields.keys.contains m.1
    let make ← fields.members ctx.enter ms
    if others.all fun m => canHold ctx.enter m.2 then
      return make (← ElementView.ofMembers others)
    else .error .unreadable
  | _, _ => .error .unreadable

/-- Writes a record. -/
def encode (r : TimelineRecord) : Json :=
  .object ([("name", .string r.name), ("layer", .int r.layer)] ++
    optionalMember "duration" Json.real r.duration ++
    optionalMember "startAt" Json.real r.startAt ++
    optionalMember "startAfterPrevious" Json.bool r.startAfterPrevious ++
    optionalMember "relativePlacement" RelativeStart.encode r.relativeStart ++
    [r.element.member, ("startTime", .real r.startTime), ("endTime", .real r.endTime)])

end TimelineRecord

end Montage
