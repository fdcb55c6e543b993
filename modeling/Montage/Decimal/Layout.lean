import Montage.Decimal.Shortest

/-!
# Layout of floating-point texts

The digits of a double are chosen once; how they are laid out depends on where they are
written. A layout says which magnitudes are written positionally, what a whole number ends
in, and how ties between shortest digits go.
-/

namespace Montage.Decimal

/-- Where the decimal point stands and how a whole number ends. -/
structure Layout where
  /-- Whether a number whose leading digit has this exponent is written positionally. -/
  positional : Int → Bool
  /-- What is appended to a positional number without a fraction. -/
  wholeEnd : String
  tie : Tie

/-- Project documents: positional from `0.00001` to fifteen zeros, always with a fraction. -/
def Layout.document : Layout :=
  ⟨fun e => -5 ≤ e && e ≤ 15, ".0", .even⟩

/-- Scripts and messages: always positional, no fraction on whole numbers. -/
def Layout.plain : Layout :=
  ⟨fun _ => true, "", .up⟩

/-- Settings files: always positional, always with a fraction. -/
def Layout.settings : Layout :=
  ⟨fun _ => true, ".0", .up⟩

/-- Writes a decimal with all its places. -/
def Scientific.positional (wholeEnd : String) (s : Scientific) : String :=
  let ds := digits s.coefficient
  let places := (-s.exponent).toNat
  if 0 ≤ s.exponent then
    String.ofList (ds ++ List.replicate s.exponent.toNat '0') ++ wholeEnd
  else if places < ds.length then
    String.ofList (ds.take (ds.length - places) ++ '.' :: ds.drop (ds.length - places))
  else
    String.ofList ('0' :: '.' :: (List.replicate (places - ds.length) '0' ++ ds))

/-- The exponent of the leading digit. -/
def Scientific.leading (s : Scientific) : Int :=
  s.exponent + (digits s.coefficient).length - 1

/-- Writes a decimal as one leading digit, a fraction if any, and a signed exponent. -/
def Scientific.exponential (s : Scientific) : String :=
  let e := s.leading
  let mantissa :=
    match digits s.coefficient with
    | d :: rest@(_ :: _) => d :: '.' :: rest
    | short => short
  let sign := if e < 0 then "e-" else "e+"
  String.ofList mantissa ++ sign ++ natText e.natAbs

/-- Whether a double carries a minus sign, negative zero included. -/
def isNegative (x : Float) : Bool :=
  x.toBits.toNat / Nat.pow 2 63 = 1

/-- The text of a finite double. -/
def Layout.text (layout : Layout) (x : Float) : String :=
  let s := shortest layout.tie x
  let body := if layout.positional s.leading then s.positional layout.wholeEnd else s.exponential
  if isNegative x then "-" ++ body else body

end Montage.Decimal
