/-!
# Decimal digits

Natural numbers and integers written in base ten, and digit strings read back. Texts are
lists of characters here, so that lemmas follow the recursion of the list.
-/

namespace Montage.Decimal

/-- The decimal digits of a number, the most significant first; zero is the single digit `0`. -/
def digits (n : Nat) : List Char :=
  Nat.toDigits 10 n

/-- The value of one decimal digit. -/
def digitValue (c : Char) : Nat :=
  c.toNat - '0'.toNat

/-- The number a digit string denotes, continuing from the digits already read. -/
def valueFrom (start : Nat) (ds : List Char) : Nat :=
  ds.foldl (fun acc c => 10 * acc + digitValue c) start

/-- The number a digit string denotes. -/
def value (ds : List Char) : Nat :=
  valueFrom 0 ds

/-- The text of a natural number. -/
def natText (n : Nat) : String :=
  String.ofList (digits n)

/-- The text of an integer, with a sign only when it is negative. -/
def intText (i : Int) : String :=
  if i < 0 then "-" ++ natText i.natAbs else natText i.natAbs

/-- The digits of a number, filled up with zeros on the left to a least width. -/
def padded (width n : Nat) : List Char :=
  let ds := digits n
  List.replicate (width - ds.length) '0' ++ ds

/-- One hexadecimal digit in lower case. -/
def hexDigit (n : Nat) : Char :=
  if n < 10 then Char.ofNat ('0'.toNat + n) else Char.ofNat ('a'.toNat + (n - 10))

/-- The value of a hexadecimal digit of either case. -/
def hexValue? (c : Char) : Option Nat :=
  if '0' ≤ c ∧ c ≤ '9' then some (c.toNat - '0'.toNat)
  else if 'a' ≤ c ∧ c ≤ 'f' then some (c.toNat - 'a'.toNat + 10)
  else if 'A' ≤ c ∧ c ≤ 'F' then some (c.toNat - 'A'.toNat + 10)
  else none

/-- Splits a text into the digits it starts with and what follows them. -/
def spanDigits (cs : List Char) : List Char × List Char :=
  (cs.takeWhile Char.isDigit, cs.dropWhile Char.isDigit)

end Montage.Decimal
