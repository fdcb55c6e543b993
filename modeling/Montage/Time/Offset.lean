import Montage.Time.Timestamp

/-!
# Offsets

A signed length of time, `+mm:ss` or `-mm:ss`. The sign is kept apart from the magnitude, so
that a negative zero is not lost and scripts can write the sign as an operator.
-/

namespace Montage

/-- The direction of an offset. -/
inductive Sign where
  | plus
  | minus
  deriving DecidableEq, Repr, Inhabited

/-- The character of a sign. -/
def Sign.symbol : Sign → Char
  | plus => '+'
  | minus => '-'

/-- A length of time with a direction. -/
structure Offset where
  sign : Sign
  magnitude : Timestamp
  deriving DecidableEq, Repr, Inhabited

namespace Offset

/-- Reads a sign followed by a timestamp. -/
def ofChars? : List Char → Option Offset
  | '+' :: rest => (Timestamp.ofChars? rest).map (⟨.plus, ·⟩)
  | '-' :: rest => (Timestamp.ofChars? rest).map (⟨.minus, ·⟩)
  | _ => none

/-- Writes an offset. -/
def toChars (o : Offset) : List Char :=
  o.sign.symbol :: o.magnitude.toChars

/-- The text of an offset. -/
def text (o : Offset) : String :=
  String.ofList o.toChars

/-- Reads an offset, or refuses the text. -/
def parse (s : String) : Except Error Offset :=
  match ofChars? s.toList with
  | some o => .ok o
  | none => .error (.invalidOffset s)

end Offset

end Montage
