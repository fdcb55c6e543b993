import Montage.Decimal.Reading
import Montage.Json.Decoder
import Montage.Text.Blank

/-!
# Probing media files

The length of a media file is asked from another program, which answers with a JSON text. What
counts is how its run ended; here the run is turned into a length or a failure.
-/

namespace Montage

open Json

/-- How the run of a probing program ended. -/
inductive ProbeRun where
  /-- The program could not be run. -/
  | notStarted (reason : String)
  | finished (success : Bool) (output errors : String)
  deriving DecidableEq, Repr

namespace ProbeRun

/-- What the program is told besides the path. -/
def arguments : List String :=
  ["-v", "error", "-print_format", "json", "-show_format"]

/-- Reads the text of a length, if it is given. -/
def decodeFormat : Decoder (Option String) :=
  (Record.listedOptional "duration" asString).decode

/-- Reads the text of a length out of an answer. -/
def decodeAnswer : Decoder (Option (Option String)) :=
  (Record.listedOptional "format" decodeFormat).decode

/-- The length an answer tells, in seconds: a number that is neither negative nor infinite. -/
def durationIn? (output : String) : Option Float := do
  let answer ← (decodeText decodeAnswer output).toOption
  let text ← (← answer)
  let duration ← Decimal.float? text
  if duration.isFinite && 0.0 ≤ duration then some duration else none

/-- The length a run found out. -/
def duration (program path : String) : ProbeRun → Except Error Float
  | notStarted reason => .error (.probeFailed path s!"failed to run {program}: {reason}")
  | finished false _ errors => .error (.probeFailed path (Text.trim errors))
  | finished true output _ =>
    match durationIn? output with
    | some duration => .ok duration
    | none => .error (.probeFailed path "no duration in ffprobe output")

end ProbeRun

end Montage
