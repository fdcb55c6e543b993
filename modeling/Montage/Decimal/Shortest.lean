import Montage.Decimal.Digits

/-!
# Shortest decimal digits of a double

A finite double stands for an exact binary fraction and for the interval of reals that round
to it. The shortest digits are those of a decimal inside that interval with as few digits as
possible and, among those, nearest to the exact value. All arithmetic is on natural numbers.
-/

namespace Montage.Decimal

/-- Which of two equally near decimals is written. -/
inductive Tie where
  | up
  | even
  deriving DecidableEq, Repr

/-- The exact magnitude `mantissa * 2 ^ exponent` of a finite double. -/
structure Binary where
  mantissa : Nat
  exponent : Int
  /-- The gap to the next smaller double is half the gap to the next larger one. -/
  narrowBelow : Bool
  deriving DecidableEq, Repr

/-- Takes a double apart, without its sign. -/
def Binary.ofFloat (x : Float) : Binary :=
  let bits : Nat := x.toBits.toNat
  let fraction : Nat := bits % Nat.pow 2 52
  let biased : Nat := bits / Nat.pow 2 52 % Nat.pow 2 11
  if biased = 0 then ⟨fraction, -1074, false⟩
  else ⟨Nat.pow 2 52 + fraction, (biased : Int) - 1075, fraction = 0 && biased > 1⟩

/-- A decimal `coefficient * 10 ^ exponent`. -/
structure Scientific where
  coefficient : Nat
  exponent : Int
  deriving DecidableEq, Repr

/-- Moves zeros at the end of the coefficient into the exponent. -/
def Scientific.trim : Nat → Scientific → Scientific
  | 0, s => s
  | fuel + 1, s =>
    if s.coefficient ≠ 0 ∧ s.coefficient % 10 = 0 then
      trim fuel ⟨s.coefficient / 10, s.exponent + 1⟩
    else s

/-- A rounding interval over a common scale: each field times `unit / scale` is a real number. -/
structure Interval where
  low : Nat
  middle : Nat
  high : Nat
  scale : Nat
  /-- The ends round to the double too. -/
  closed : Bool
  deriving DecidableEq, Repr

/-- The reals that round to a double, in quarters of its last place. -/
def Binary.interval (b : Binary) : Interval :=
  let shift := b.exponent - 2
  let factor := Nat.pow 2 shift.toNat
  let m := 4 * b.mantissa
  ⟨(m - if b.narrowBelow then 1 else 2) * factor, m * factor, (m + 2) * factor,
    Nat.pow 2 (-shift).toNat, b.mantissa % 2 = 0⟩

/-- Whether the decimal `c * 10 ^ g` lies in the interval. -/
def Interval.contains (r : Interval) (c : Nat) (g : Int) : Bool :=
  let x := c * Nat.pow 10 g.toNat * r.scale
  let unit := Nat.pow 10 (-g).toNat
  if r.closed then r.low * unit ≤ x && x ≤ r.high * unit
  else r.low * unit < x && x < r.high * unit

/-- The exponent of the leading decimal digit of the interval's middle. -/
def Interval.leading (r : Interval) : Int :=
  let guess : Int := (digits r.middle).length - (digits r.scale).length
  if Nat.pow 10 guess.toNat * r.scale ≤ r.middle * Nat.pow 10 (-guess).toNat then guess
  else guess - 1

/-- The decimal of the grid `10 ^ g` that lies in the interval and is nearest to its middle. -/
def Interval.nearest? (r : Interval) (tie : Tie) (g : Int) : Option Scientific :=
  let top := r.middle * Nat.pow 10 (-g).toNat
  let unit := Nat.pow 10 g.toNat * r.scale
  let c := top / unit
  match r.contains c g, r.contains (c + 1) g with
  | false, false => none
  | true, false => some ⟨c, g⟩
  | false, true => some ⟨c + 1, g⟩
  | true, true =>
    let twice := 2 * (top % unit)
    if twice < unit then some ⟨c, g⟩
    else if unit < twice then some ⟨c + 1, g⟩
    else if tie = .even && c % 2 = 0 then some ⟨c, g⟩
    else some ⟨c + 1, g⟩

/-- Tries grids of one digit more each time, starting at a grid. -/
def Interval.search (r : Interval) (tie : Tie) : Nat → Int → Scientific
  | 0, g => ⟨r.middle * Nat.pow 10 (-g).toNat / (Nat.pow 10 g.toNat * r.scale), g⟩
  | fuel + 1, g =>
    match r.nearest? tie g with
    | some s => s
    | none => search r tie fuel (g - 1)

/-- The shortest decimal that reads back as the magnitude of a finite double. -/
def shortest (tie : Tie) (x : Float) : Scientific :=
  let b := Binary.ofFloat x
  if b.mantissa = 0 then ⟨0, 0⟩
  else
    let r := b.interval
    (r.search tie 17 r.leading).trim 18

end Montage.Decimal
