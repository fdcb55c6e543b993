import Montage.Document.Diagnostic
import Montage.TimelineRecord

/-!
# Changes

What a build publishes: the document of a project together with its script, its timeline records
and whether it is usable, and beside the document the findings. The additions are members of the
document whose keys start with a dollar sign, so the document can still be read as a project.
-/

namespace Montage

open Json

/-- What one build publishes. -/
structure Change where
  uri : String
  /-- The document with its additions. -/
  content : String
  diagnostics : List Diagnostic
  deriving DecidableEq, Repr

namespace Change

/-- Whether the project was usable. -/
def isValid (c : Change) : Bool :=
  !Diagnostic.anyError c.diagnostics

/-- The document of a project with its additions, its keys in order. -/
def envelope (p : Project) (valid : Bool) (script : String) (records : List TimelineRecord) :
    Json :=
  (Json.object (p.members ++
    [("$pythonCode", .string script),
      ("$timelineElementInfos", .array (records.map TimelineRecord.encode)),
      ("$isValid", .bool valid)])).sorted

/-- Reads a change. -/
def decode : Decoder Change :=
  (Change.mk <$> Record.field "uri" asString <*> Record.field "content" asString
    <*> Record.field "diagnostics" (asList Diagnostic.decode) : Record Change).decode

/-- Writes a change. -/
def encode (c : Change) : Json :=
  .object [("uri", .string c.uri), ("content", .string c.content),
    ("diagnostics", .array (c.diagnostics.map Diagnostic.encode))]

end Change

end Montage
