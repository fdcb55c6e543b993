import Montage.Json.Decoder
import Montage.Time.Offset

/-!
# Timestamps and offsets in documents

Both are strings. A string that is none of them is refused with the wording of the refusal.
-/

namespace Montage

open Json

/-- Reads a timestamp. -/
def Timestamp.decode : Decoder Timestamp
  | _, .string s =>
    match Timestamp.ofChars? s.toList with
    | some t => .ok t
    | none => .error (.timestamp s)
  | _, _ => .error .unreadable

/-- Writes a timestamp. -/
def Timestamp.encode (t : Timestamp) : Json :=
  .string t.text

/-- Reads an offset. -/
def Offset.decode : Decoder Offset
  | _, .string s =>
    match Offset.ofChars? s.toList with
    | some o => .ok o
    | none => .error (.offset s)
  | _, _ => .error .unreadable

/-- Writes an offset. -/
def Offset.encode (o : Offset) : Json :=
  .string o.text

end Montage
