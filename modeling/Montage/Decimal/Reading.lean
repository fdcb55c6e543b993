import Montage.Decimal.Digits

/-!
# Reading decimals as doubles

Two readings of a decimal text. The exact one rounds the decimal to the nearest double. The
stepwise one, which project documents use, keeps the leading digits as a 64-bit coefficient,
rounds that, and scales it by a rounded power of ten; it may miss the nearest double by a
last place.
-/

namespace Montage.Decimal

/-- The pieces of a decimal text. -/
structure Numeral where
  negative : Bool
  whole : List Char
  fraction : List Char
  exponent : Int
  deriving DecidableEq, Repr

/-- Gives a magnitude its sign; a negative zero keeps it. -/
def signed (negative : Bool) (x : Float) : Float :=
  if negative then -x else x

/-- The double nearest to `coefficient * 10 ^ exponent`; infinite when it is out of range. -/
def nearest (coefficient : Nat) (exponent : Int) : Float :=
  let magnitude := exponent + (digits coefficient).length
  if coefficient = 0 ∨ magnitude < -330 then 0.0
  else if 310 < magnitude then 1.0 / 0.0
  else Float.ofScientific coefficient (exponent < 0) exponent.natAbs

/-- The double nearest to a numeral. -/
def Numeral.nearest (n : Numeral) : Float :=
  signed n.negative
    (Decimal.nearest (value (n.whole ++ n.fraction)) (n.exponent - n.fraction.length))

/-- The largest coefficient kept by the stepwise reading. -/
def coefficientLimit : Nat :=
  UInt64.size - 1

/-- A coefficient that has taken digits, and how many it could not take. -/
structure Intake where
  coefficient : Nat
  dropped : Nat
  deriving DecidableEq, Repr

/-- Takes one more digit unless one was dropped before or the coefficient would pass its limit. -/
def Intake.push (s : Intake) (c : Char) : Intake :=
  let next := 10 * s.coefficient + digitValue c
  if s.dropped = 0 ∧ next ≤ coefficientLimit then ⟨next, 0⟩
  else ⟨s.coefficient, s.dropped + 1⟩

/-- Takes the digits of a text into a coefficient. -/
def Intake.take (coefficient : Nat) (ds : List Char) : Intake :=
  ds.foldl Intake.push ⟨coefficient, 0⟩

/-- Divides by `10 ^ 308` as long as the power left over is larger than that. -/
def scaleDown : Nat → Float → Nat → Float
  | 0, x, _ => x
  | fuel + 1, x, k =>
    if k ≤ 308 then x / nearest 1 k
    else if x == 0.0 then x
    else scaleDown fuel (x / nearest 1 308) (k - 308)

/-- Scales a rounded coefficient by a power of ten, or fails when the result is too large. -/
def scaled? (coefficient : Nat) (exponent : Int) : Option Float :=
  let x := nearest coefficient 0
  if 0 ≤ exponent then
    if x == 0.0 then some x
    else if 308 < exponent then none
    else
      let y := x * nearest 1 exponent
      if y.isInf then none else some y
  else
    -- each division takes 308 orders of magnitude off a number below `10 ^ 20`
    some (scaleDown 4 x exponent.natAbs)

/-- The stepwise reading of a numeral; fails when the number is too large for a double. -/
def Numeral.stepwise? (n : Numeral) : Option Float :=
  let whole := Intake.take 0 n.whole
  let all := Intake.take whole.coefficient n.fraction
  let places := n.fraction.length - all.dropped
  (scaled? all.coefficient (whole.dropped - places + n.exponent)).map (signed n.negative)

/-! ## Texts -/

/-- Takes the sign off a text. -/
def takeSign : List Char → Bool × List Char
  | '+' :: rest => (false, rest)
  | '-' :: rest => (true, rest)
  | cs => (false, cs)

/-- The exponent that makes up the rest of a text; none at all counts as zero. -/
def exponentOf? : List Char → Option Int
  | [] => some 0
  | c :: rest =>
    if c = 'e' ∨ c = 'E' then
      match takeSign rest with
      | (_, []) => none
      | (negative, ds) =>
        if ds.all Char.isDigit then
          let n : Int := value ds
          some (if negative then -n else n)
        else none
    else none

/-- The fraction a text starts with, and what follows it. -/
def takeFraction : List Char → List Char × List Char
  | '.' :: rest => spanDigits rest
  | cs => ([], cs)

/-- Reads a decimal without its sign: digits on at least one side of the point, and an exponent. -/
def unsignedNumeral? (negative : Bool) (cs : List Char) : Option Numeral :=
  let (whole, rest) := spanDigits cs
  let (fraction, rest) := takeFraction rest
  if whole.isEmpty && fraction.isEmpty then none
  else (exponentOf? rest).map fun exponent => ⟨negative, whole, fraction, exponent⟩

/-- Reads a double from a text: a decimal, rounded to the nearest double, or the word for
infinity or for no number, in any case. -/
def float? (s : String) : Option Float :=
  let (negative, cs) := takeSign s.toList
  let word := String.ofList (cs.map Char.toLower)
  if word = "inf" ∨ word = "infinity" then some (signed negative (1.0 / 0.0))
  else if word = "nan" then some (0.0 / 0.0)
  else (unsignedNumeral? negative cs).map Numeral.nearest

end Montage.Decimal
