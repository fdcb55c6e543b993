import Montage.Decimal.Digits
import Montage.Error

/-!
# Timestamps

An instant or a length of time written `mm:ss`, with up to three digits of a fraction. The
bounds of the fields are part of the type, so every timestamp can be written.
-/

namespace Montage

/-- An instant below one hour, to the millisecond. -/
structure Timestamp where
  minutes : Fin 60
  seconds : Fin 60
  millis : Fin 1000
  deriving DecidableEq, Repr, Inhabited

namespace Timestamp

/-- The beginning of the timeline. -/
def zero : Timestamp :=
  ⟨0, 0, 0⟩

/-- Whether a timestamp is the beginning of the timeline. -/
def isZero (t : Timestamp) : Bool :=
  t = zero

/-- What stands before and behind the first occurrence of a character. -/
def splitOnce? (separator : Char) (cs : List Char) : Option (List Char × List Char) :=
  match cs.dropWhile (· != separator) with
  | [] => none
  | _ :: rest => some (cs.takeWhile (· != separator), rest)

/-- The bytes of some characters. -/
def bytes (cs : List Char) : List UInt8 :=
  cs.flatMap String.utf8EncodeChar

/-- Whether a byte is an ASCII digit. -/
def isDigitByte (b : UInt8) : Bool :=
  48 ≤ b && b ≤ 57

/-- Whether a text is made of digits, at least and at most so many bytes of them. -/
def isDigits (least most : Nat) (cs : List Char) : Bool :=
  least ≤ (bytes cs).length && (bytes cs).length ≤ most && (bytes cs).all isDigitByte

/-- A number that is below a bound. -/
def below? (bound n : Nat) : Option (Fin bound) :=
  if h : n < bound then some ⟨n, h⟩ else none

/-- Reads a field of two digits below sixty. -/
def field? (cs : List Char) : Option (Fin 60) :=
  if isDigits 2 2 cs then below? 60 (Decimal.value cs) else none

/-- Reads a fraction of one to three digits. Zeros on the right make them milliseconds, so that a
five stands for half a second. -/
def fraction? (cs : List Char) : Option (Fin 1000) :=
  if isDigits 1 3 cs then below? 1000 (Decimal.value (cs.rightpad 3 '0')) else none

/-- Reads the seconds with the fraction that may follow them. -/
def secondsAndMillis? (cs : List Char) : Option (Fin 60 × Fin 1000) :=
  match splitOnce? '.' cs with
  | some (seconds, fraction) => do
    let seconds ← field? seconds
    let millis ← fraction? fraction
    return (seconds, millis)
  | none => do
    let seconds ← field? cs
    return (seconds, 0)

/-- Reads `mm:ss` with an optional fraction. The text is divided at its first colon, and what
follows that at its first point. -/
def ofChars? (cs : List Char) : Option Timestamp := do
  let (minutes, rest) ← splitOnce? ':' cs
  let minutes ← field? minutes
  let (seconds, millis) ← secondsAndMillis? rest
  return ⟨minutes, seconds, millis⟩

/-- Writes a timestamp; a fraction is written with three digits, and only if there is one. -/
def toChars (t : Timestamp) : List Char :=
  let whole := Decimal.padded 2 t.minutes.val ++ ':' :: Decimal.padded 2 t.seconds.val
  if t.millis.val = 0 then whole else whole ++ '.' :: Decimal.padded 3 t.millis.val

/-- The text of a timestamp. -/
def text (t : Timestamp) : String :=
  String.ofList t.toChars

/-- Reads a timestamp, or refuses the text. -/
def parse (s : String) : Except Error Timestamp :=
  match ofChars? s.toList with
  | some t => .ok t
  | none => .error (.invalidTimestamp s)

/-- A timestamp of whole minutes and seconds. -/
def ofMinutes (minutes seconds : Nat) : Except Error Timestamp :=
  if h : minutes < 60 ∧ seconds < 60 then .ok ⟨⟨minutes, h.1⟩, ⟨seconds, h.2⟩, 0⟩
  else
    .error (.invalidTimestamp
      (String.ofList (Decimal.padded 2 minutes ++ ':' :: Decimal.padded 2 seconds)))

end Timestamp

end Montage
