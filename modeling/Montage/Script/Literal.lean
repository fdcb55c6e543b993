import Montage.Decimal.Layout
import Montage.Options.Position

/-!
# Literals in scripts

Texts are written between double quotes on one line, whatever they contain. Numbers are written
without a fraction when they are whole, and never with an exponent.
-/

namespace Montage.Script

/-- Whether a character is a control character. -/
def isControl (c : Char) : Bool :=
  c.toNat < 32 || (127 ≤ c.toNat && c.toNat < 160)

/-- Writes one character of a text. -/
def escape (c : Char) : List Char :=
  if c = '"' then ['\\', '"']
  else if c = '\\' then ['\\', '\\']
  else if c = '\n' then ['\\', 'n']
  else if c = '\r' then ['\\', 'r']
  else if c = '\t' then ['\\', 't']
  else if isControl c then
    ['\\', 'x', Decimal.hexDigit (c.toNat / 16), Decimal.hexDigit (c.toNat % 16)]
  else [c]

/-- A text between double quotes. -/
def textLiteral (s : String) : String :=
  String.ofList ('"' :: (s.toList.flatMap escape ++ ['"']))

/-- The whole number a finite double stands for, without its sign. -/
def wholeMagnitude? (b : Decimal.Binary) : Option Nat :=
  if 0 ≤ b.exponent then some (b.mantissa * Nat.pow 2 b.exponent.toNat)
  else
    let scale := Nat.pow 2 (-b.exponent).toNat
    if b.mantissa % scale = 0 then some (b.mantissa / scale) else none

/-- The text of a whole number; zero has no sign. -/
def wholeText (negative : Bool) (n : Nat) : String :=
  Decimal.intText (if negative then -(n : Int) else n)

/-- A number. -/
def numberLiteral (x : Float) : String :=
  if x.isNaN then "float(\"nan\")"
  else if x.isInf then (if 0.0 < x then "float(\"inf\")" else "-float(\"inf\")")
  else
    match wholeMagnitude? (Decimal.Binary.ofFloat x) with
    | some n =>
      if n < Nat.pow 10 15 then wholeText (Decimal.isNegative x) n else Decimal.Layout.plain.text x
    | none => Decimal.Layout.plain.text x

/-- A coordinate. -/
def coordinateLiteral : Coordinate → String
  | .pixels n => Decimal.intText n
  | .center => textLiteral "center"

/-- A pair of coordinates. -/
def pointLiteral (p : Point) : String :=
  s!"({coordinateLiteral p.x}, {coordinateLiteral p.y})"

/-- A number of pixels. -/
def pixelsLiteral (n : UInt32) : String :=
  Decimal.natText n.toNat

/-- The width and the height of a frame. -/
def sizeLiteral (s : PixelSize) : String :=
  s!"({pixelsLiteral s.width}, {pixelsLiteral s.height})"

/-- The greatest common divisor of two lengths: the last remainder of repeated division that is not
zero. -/
def commonDivisor (a b : UInt32) : UInt32 :=
  if b = 0 then a else commonDivisor b (a % b)
termination_by b.toNat
decreasing_by
  rename_i hb
  rw [UInt32.toNat_mod]
  exact Nat.mod_lt _ (Nat.pos_of_ne_zero fun hzero => hb (UInt32.toNat_inj.mp hzero))

/-- The quotient of two lengths in lowest terms. -/
def ratioLiteral (width height : UInt32) : String :=
  let divisor := max (commonDivisor width height) 1
  s!"{pixelsLiteral (width / divisor)}/{pixelsLiteral (height / divisor)}"

end Montage.Script
