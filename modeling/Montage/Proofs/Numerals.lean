import Mathlib.Data.List.Basic
import Mathlib.Algebra.Order.Ring.Nat
import Montage.Json.Reader
import Montage.Json.Writer

/-!
# Numbers in documents

A number is written by the digits of its decimal, with all its places or with an exponent. Every
text written this way is in the grammar of numbers, whatever the double: digits are never missing
and a zero never leads, since only zero itself has the coefficient zero. The reader splits such a
text at the places where the writer joined it and makes one leaf of its parts.
-/

namespace Montage

/-! ## Digits -/

namespace Decimal

/-- Every number has a digit. -/
theorem digits_ne_nil (n : ℕ) : digits n ≠ [] :=
  Nat.toDigits_ne_nil

/-- The digits of a number are digits. -/
theorem isDigit_of_mem_digits {n : ℕ} {c : Char} (h : c ∈ digits n) : c.isDigit = true :=
  Nat.isDigit_of_mem_toDigits (by decide) (by decide) h

/-- Digits denote the number they were made from. -/
theorem value_digits (n : ℕ) : value (digits n) = n :=
  Nat.ofDigitChars_ten_toDigits

/-- The last digit is the remainder by ten. -/
theorem digits_eq (n : ℕ) :
    digits n = if n < 10 then [n.digitChar] else digits (n / 10) ++ [(n % 10).digitChar] :=
  Nat.toDigits_eq_if (by decide)

/-- No zero leads the digits of a positive number. -/
theorem head?_digits {n : ℕ} (hn : n ≠ 0) : (digits n).head? ≠ some '0' := by
  induction n using Nat.strongRecOn with
  | ind n ih =>
    rw [digits_eq]
    split_ifs with hlt
    · have hdigit : ∀ m < 10, m ≠ 0 → m.digitChar ≠ '0' := by decide
      simpa using hdigit n hlt hn
    · rw [List.head?_append_of_ne_nil _ (digits_ne_nil _)]
      exact ih (n / 10) (by omega) (by omega)

/-- A number is below the power of ten that its digits reach. -/
theorem lt_pow_length_digits (n : ℕ) : n < 10 ^ (digits n).length :=
  (Nat.length_toDigits_le_iff (by decide) Nat.length_toDigits_pos).1 le_rfl

/-- A positive number is at least every power of ten that its digits pass. -/
theorem pow_le_of_lt_length_digits {n k : ℕ} (hn : n ≠ 0) (h : k < (digits n).length) :
    10 ^ k ≤ n := by
  rcases Nat.eq_zero_or_pos k with rfl | hk
  · exact Nat.one_le_iff_ne_zero.2 hn
  · by_contra hlt
    exact absurd ((Nat.length_toDigits_le_iff (by decide) hk).2 (not_le.1 hlt)) (not_le.2 h)

/-- Digits are split off where they end. -/
theorem spanDigits_append {ds rest : List Char} (hds : ∀ c ∈ ds, c.isDigit = true)
    (hrest : ∀ c, rest.head? = some c → c.isDigit = false) :
    spanDigits (ds ++ rest) = (ds, rest) := by
  have hnone : rest.takeWhile Char.isDigit = [] ∧ rest.dropWhile Char.isDigit = rest := by
    cases rest with
    | nil => exact ⟨rfl, rfl⟩
    | cons c rest => simp [hrest c rfl]
  rw [spanDigits, List.takeWhile_append_of_pos hds, List.dropWhile_append_of_pos hds, hnone.1,
    hnone.2, List.append_nil]

end Decimal

namespace Json

open Decimal

/-! ## The grammar of numbers -/

/-- What may follow a number: nothing, or a character that does not continue it. -/
def EndsNumber (rest : List Char) : Prop :=
  ∀ c, rest.head? = some c → c.isDigit = false ∧ c ≠ '.' ∧ c ≠ 'e' ∧ c ≠ 'E'

/-- A number as it is written: its digits before the point, those behind it, and the sign and the
digits of its exponent. -/
structure NumeralText where
  negative : Bool
  whole : List Char
  fraction : Option (List Char)
  exponent : Option (Bool × List Char)

namespace NumeralText

/-- The point and the digits behind it. -/
def fractionText : Option (List Char) → List Char
  | none => []
  | some ds => '.' :: ds

/-- The mark, the sign and the digits of an exponent. -/
def exponentText : Option (Bool × List Char) → List Char
  | none => []
  | some (negative, ds) => 'e' :: (if negative then '-' else '+') :: ds

/-- The characters of a number. -/
def text (n : NumeralText) : List Char :=
  (if n.negative then ['-'] else []) ++ n.whole ++ fractionText n.fraction ++
    exponentText n.exponent

/-- The leaf a number is read as. -/
def leaf (n : NumeralText) : Json :=
  match n.fraction, n.exponent with
  | none, none => wholeLeaf n.negative n.whole
  | fraction, exponent =>
    realLeaf ⟨n.negative, n.whole, fraction.getD [],
      exponent.elim 0 fun e => if e.1 then -(value e.2 : Int) else value e.2⟩

/-- Some digits, and nothing but digits. -/
structure IsDigits (ds : List Char) : Prop where
  ne_nil : ds ≠ []
  isDigit : ∀ c ∈ ds, c.isDigit = true

/-- A number that follows the grammar. -/
structure Sound (n : NumeralText) : Prop where
  whole : IsDigits n.whole
  leading : n.whole.head? = some '0' → n.whole = ['0']
  fraction : ∀ ds, n.fraction = some ds → IsDigits ds
  exponent : ∀ negative ds, n.exponent = some (negative, ds) → IsDigits ds

/-- A number with a fraction or an exponent. -/
def Fractional (n : NumeralText) : Prop :=
  n.fraction.isSome ∨ n.exponent.isSome

/-- A number with a fraction or an exponent is no whole number, whatever its value. -/
theorem Fractional.exists_leaf_eq {n : NumeralText} (h : n.Fractional) :
    ∃ m, n.leaf = realLeaf m := by
  obtain ⟨negative, whole, fraction, exponent⟩ := n
  match fraction, exponent, h with
  | some _, none, _ => exact ⟨_, rfl⟩
  | some _, some _, _ => exact ⟨_, rfl⟩
  | none, some _, _ => exact ⟨_, rfl⟩

/-- Behind the fraction stands no digit and no second point. -/
theorem head?_exponentText {rest : List Char} (hrest : EndsNumber rest)
    (exponent : Option (Bool × List Char)) (c : Char)
    (h : (exponentText exponent ++ rest).head? = some c) : c.isDigit = false ∧ c ≠ '.' := by
  match exponent with
  | none => exact ⟨(hrest c h).1, (hrest c h).2.1⟩
  | some (negative, ds) =>
    obtain rfl : 'e' = c := Option.some.inj h
    decide

/-- Behind the whole part stands no digit. -/
theorem head?_fractionText {rest : List Char}
    (hrest : ∀ c, rest.head? = some c → c.isDigit = false) (fraction : Option (List Char))
    (c : Char) (h : (fractionText fraction ++ rest).head? = some c) : c.isDigit = false := by
  cases fraction with
  | none => exact hrest c h
  | some ds =>
    obtain rfl : '.' = c := Option.some.inj h
    decide

/-- The whole part is read up to what follows it. -/
theorem wholePart?_append {ds rest : List Char} (hds : IsDigits ds)
    (hzero : ds.head? = some '0' → ds = ['0'])
    (hrest : ∀ c, rest.head? = some c → c.isDigit = false) :
    wholePart? (ds ++ rest) = some (ds, rest) := by
  rw [wholePart?, spanDigits_append hds.isDigit hrest]
  split
  · rename_i heq
    exact absurd (Prod.mk.inj heq).1 hds.ne_nil
  · rename_i heq
    obtain ⟨rfl, -⟩ := Prod.mk.inj heq
    exact absurd (hzero rfl) (by simp)
  · rename_i heq
    obtain ⟨rfl, rfl⟩ := Prod.mk.inj heq
    rfl

/-- The fraction is read up to what follows it. -/
theorem fractionPart?_append {fraction : Option (List Char)} {rest : List Char}
    (hds : ∀ ds, fraction = some ds → IsDigits ds)
    (hrest : ∀ c, rest.head? = some c → c.isDigit = false ∧ c ≠ '.') :
    fractionPart? (fractionText fraction ++ rest) = some (fraction, rest) := by
  cases fraction with
  | none =>
    rw [fractionText, List.nil_append]
    unfold fractionPart?
    split
    · exact absurd rfl (hrest '.' rfl).2
    · rfl
  | some ds =>
    have hdigits := hds ds rfl
    rw [fractionText, List.cons_append, fractionPart?,
      spanDigits_append hdigits.isDigit fun c hc => (hrest c hc).1]
    split
    · rename_i heq
      exact absurd (Prod.mk.inj heq).1 hdigits.ne_nil
    · rename_i heq
      obtain ⟨rfl, rfl⟩ := Prod.mk.inj heq
      rfl

/-- The digits of an exponent are read up to what follows them. -/
theorem exponentDigits?_append {negative : Bool} {ds rest : List Char} (hds : IsDigits ds)
    (hrest : ∀ c, rest.head? = some c → c.isDigit = false) :
    exponentDigits? negative (ds ++ rest) =
      some (some (if negative then -(value ds : Int) else value ds), rest) := by
  rw [exponentDigits?, spanDigits_append hds.isDigit hrest]
  split
  · rename_i heq
    exact absurd (Prod.mk.inj heq).1 hds.ne_nil
  · rename_i heq
    obtain ⟨rfl, rfl⟩ := Prod.mk.inj heq
    rfl

/-- The exponent is read up to what follows it. -/
theorem exponentPart?_append {exponent : Option (Bool × List Char)} {rest : List Char}
    (hds : ∀ negative ds, exponent = some (negative, ds) → IsDigits ds) (hrest : EndsNumber rest) :
    exponentPart? (exponentText exponent ++ rest) =
      some (exponent.map fun e => if e.1 then -(value e.2 : Int) else value e.2, rest) := by
  have hend : ∀ c, rest.head? = some c → c.isDigit = false := fun c hc => (hrest c hc).1
  match exponent with
  | none =>
    rw [exponentText, List.nil_append]
    cases rest with
    | nil => rfl
    | cons c rest =>
      obtain ⟨-, -, hlower, hupper⟩ := hrest c rfl
      simp [exponentPart?, hlower, hupper]
  | some (true, ds) => exact exponentDigits?_append (hds true ds rfl) hend
  | some (false, ds) => exact exponentDigits?_append (hds false ds rfl) hend

/-- The parts of a number behind its sign make its leaf. -/
theorem magnitude?_text {n : NumeralText} (h : n.Sound) {rest : List Char}
    (hrest : EndsNumber rest) :
    magnitude? n.negative
        (n.whole ++ (fractionText n.fraction ++ (exponentText n.exponent ++ rest))) =
      some (n.leaf, rest) := by
  have hexponent := head?_exponentText hrest n.exponent
  have hwhole := wholePart?_append h.whole h.leading
    (head?_fractionText (fun c hc => (hexponent c hc).1) n.fraction)
  simp only [magnitude?, hwhole, fractionPart?_append h.fraction hexponent,
    exponentPart?_append h.exponent hrest, Option.bind_eq_bind, Option.bind_some, leaf]
  obtain ⟨negative, whole, fraction, exponent⟩ := n
  cases fraction <;> cases exponent <;> rfl

/-- A number that follows the grammar is read as its leaf, up to what follows it. -/
theorem number?_text {n : NumeralText} (h : n.Sound) {rest : List Char} (hrest : EndsNumber rest) :
    number? (n.text ++ rest) = some (n.leaf, rest) := by
  have hmagnitude := magnitude?_text h hrest
  obtain ⟨c, ds, hcons⟩ := List.exists_cons_of_ne_nil h.whole.ne_nil
  have hdigit : c.isDigit = true := h.whole.isDigit c (by simp [hcons])
  unfold text
  simp only [List.append_assoc]
  cases hsign : n.negative with
  | true =>
    rw [hsign] at hmagnitude
    exact hmagnitude
  | false =>
    rw [hsign] at hmagnitude
    rw [← hmagnitude, hcons]
    unfold number?
    split
    · rename_i heq
      obtain ⟨rfl, -⟩ := List.cons.inj heq
      exact absurd hdigit (by decide)
    · rfl

end NumeralText

end Json

/-! ## Shortest digits -/

namespace Decimal

/-- One step of a decimal grid is at most the middle of an interval. -/
def Interval.Reaches (r : Interval) (g : ℤ) : Prop :=
  10 ^ g.toNat * r.scale ≤ r.middle * 10 ^ (-g).toNat

/-- A finer grid has smaller steps. -/
theorem Interval.Reaches.pred {r : Interval} {g : ℤ} (h : r.Reaches g) : r.Reaches (g - 1) := by
  unfold Reaches at *
  rcases le_or_gt g 0 with hg | hg
  · have hg' : (g - 1).toNat = 0 := by omega
    have hneg : (-(g - 1)).toNat = (-g).toNat + 1 := by omega
    have hzero : g.toNat = 0 := by omega
    rw [hg', hneg, pow_succ, ← mul_assoc]
    rw [hzero] at h
    exact h.trans (Nat.le_mul_of_pos_right _ (by decide))
  · have hpos : g.toNat = (g - 1).toNat + 1 := by omega
    have hzero : (-g).toNat = 0 := by omega
    have hneg : (-(g - 1)).toNat = 0 := by omega
    rw [hpos, hzero, pow_succ, mul_right_comm] at h
    rw [hneg]
    exact (Nat.le_mul_of_pos_right _ (by decide)).trans h

/-- The grid of the leading digit has steps below the middle. -/
theorem Interval.reaches_leading {r : Interval} (hmiddle : r.middle ≠ 0) :
    r.Reaches r.leading := by
  unfold leading
  dsimp only
  split_ifs with h
  · exact h
  · have hscale := lt_pow_length_digits r.scale
    have hpos : 0 < (digits r.middle).length := Nat.length_toDigits_pos
    have hlow : 10 ^ ((digits r.middle).length - 1) ≤ r.middle :=
      pow_le_of_lt_length_digits hmiddle (by omega)
    obtain ⟨k, hk⟩ : ∃ k : ℤ, k = (digits r.middle).length - (digits r.scale).length - 1 :=
      ⟨_, rfl⟩
    unfold Reaches
    rw [← hk]
    calc 10 ^ k.toNat * r.scale ≤ 10 ^ k.toNat * 10 ^ (digits r.scale).length :=
          Nat.mul_le_mul_left _ hscale.le
      _ = 10 ^ ((digits r.middle).length - 1) * 10 ^ (-k).toNat := by
          rw [← pow_add, ← pow_add]
          congr 1
          omega
      _ ≤ r.middle * 10 ^ (-k).toNat := Nat.mul_le_mul_right _ hlow

/-- Zero is in no interval of positive numbers. -/
theorem Interval.ne_zero_of_contains {r : Interval} (hlow : 0 < r.low) {c : ℕ} {g : ℤ}
    (h : r.contains c g = true) : c ≠ 0 := by
  rintro rfl
  have hunit : 0 < r.low * Nat.pow 10 (-g).toNat := Nat.mul_pos hlow (Nat.pow_pos (by decide))
  unfold contains at h
  split_ifs at h with hclosed
  · simp only [Nat.zero_mul, Bool.and_eq_true, decide_eq_true_eq] at h
    omega
  · simp only [Nat.zero_mul, Bool.and_eq_true, decide_eq_true_eq] at h
    omega

/-- A decimal that names a positive double is not zero. -/
theorem Interval.nearest?_ne_zero {r : Interval} (hlow : 0 < r.low) {tie : Tie} {g : ℤ}
    {s : Scientific} (h : r.nearest? tie g = some s) : s.coefficient ≠ 0 := by
  unfold nearest? at h
  dsimp only at h
  split at h
  · exact absurd h (by simp)
  · rename_i hcontains _
    obtain rfl := Option.some.inj h
    exact ne_zero_of_contains hlow hcontains
  · obtain rfl := Option.some.inj h
    exact Nat.succ_ne_zero _
  · rename_i hcontains _
    split_ifs at h <;> obtain rfl := Option.some.inj h
    · exact ne_zero_of_contains hlow hcontains
    · exact Nat.succ_ne_zero _
    · exact ne_zero_of_contains hlow hcontains
    · exact Nat.succ_ne_zero _

/-- The search for the shortest decimal of a positive double does not end at zero, even when it
stops for want of digits. -/
theorem Interval.search_ne_zero {r : Interval} (hlow : 0 < r.low) (hscale : 0 < r.scale)
    (tie : Tie) (fuel : ℕ) {g : ℤ} (hg : r.Reaches g) : (r.search tie fuel g).coefficient ≠ 0 := by
  induction fuel generalizing g with
  | zero =>
    exact (Nat.div_pos hg (Nat.mul_pos (Nat.pow_pos (by decide)) hscale)).ne'
  | succ fuel ih =>
    rw [search]
    split
    · rename_i s hs
      exact nearest?_ne_zero hlow hs
    · exact ih hg.pred

/-- Taking zeros off the end keeps a coefficient from being zero. -/
theorem Scientific.trim_ne_zero {s : Scientific} (h : s.coefficient ≠ 0) (fuel : ℕ) :
    (s.trim fuel).coefficient ≠ 0 := by
  induction fuel generalizing s with
  | zero => exact h
  | succ fuel ih =>
    rw [trim]
    split_ifs with hten
    · exact ih (by simp only; omega)
    · exact h

/-- The decimal of zero has the exponent zero, so its digits are not filled up. -/
theorem shortest_exponent_eq_zero (tie : Tie) (x : Float)
    (h : (shortest tie x).coefficient = 0) : (shortest tie x).exponent = 0 := by
  unfold shortest at *
  dsimp only at *
  split_ifs at * with hmantissa
  · rfl
  · refine absurd h (Scientific.trim_ne_zero (Interval.search_ne_zero ?_ ?_ tie 17
      (Interval.reaches_leading ?_)) 18)
    · refine Nat.mul_pos ?_ (Nat.pow_pos (by decide))
      split_ifs <;> omega
    · exact Nat.pow_pos (by decide)
    · exact (Nat.mul_pos (by omega) (Nat.pow_pos (by decide))).ne'

end Decimal

/-! ## Texts of numbers -/

namespace Json

open Decimal NumeralText

/-- The digits of a number are some digits. -/
theorem isDigits_digits (n : ℕ) : IsDigits (digits n) :=
  ⟨digits_ne_nil n, fun _ => isDigit_of_mem_digits⟩

/-- Only zero starts with a zero. -/
theorem leading_digits (n : ℕ) (h : (digits n).head? = some '0') : digits n = ['0'] := by
  rcases Nat.eq_zero_or_pos n with rfl | hn
  · rfl
  · exact absurd h (head?_digits hn.ne')

/-- A text that is written as a number with a fraction or an exponent. -/
def IsReal (negative : Bool) (cs : List Char) : Prop :=
  ∃ n : NumeralText, n.Sound ∧ n.Fractional ∧ n.negative = negative ∧ n.text = cs

/-- A number keeps its form when it gets a sign. -/
theorem IsReal.signed {cs : List Char} (h : IsReal false cs) (negative : Bool) :
    IsReal negative ((if negative then ['-'] else []) ++ cs) := by
  obtain ⟨n, hsound, hfractional, hsign, rfl⟩ := h
  refine ⟨{ n with negative := negative },
    ⟨hsound.whole, hsound.leading, hsound.fraction, hsound.exponent⟩, hfractional, rfl, ?_⟩
  simp [NumeralText.text, hsign]

/-- An integer is written as a sign and digits. -/
theorem toList_intText (i : ℤ) :
    (intText i).toList = NumeralText.text ⟨i < 0, digits i.natAbs, none, none⟩ := by
  unfold intText natText NumeralText.text
  by_cases h : i < 0
  · simp [h, fractionText, exponentText]
  · simp [h, fractionText, exponentText]

/-- The text of an integer follows the grammar. -/
theorem sound_int (i : ℤ) : Sound ⟨i < 0, digits i.natAbs, none, none⟩ where
  whole := isDigits_digits _
  leading := leading_digits _
  fraction := nofun
  exponent := nofun

/-- Some digits with more digits behind them. -/
theorem NumeralText.IsDigits.append {ds es : List Char} (hds : IsDigits ds)
    (hes : ∀ c ∈ es, c.isDigit = true) : IsDigits (ds ++ es) :=
  ⟨by simp [hds.ne_nil], fun c hc => (List.mem_append.1 hc).elim (hds.isDigit c) (hes c)⟩

/-- Zeros are digits. -/
theorem isDigit_of_mem_replicate {k : ℕ} {c : Char} (h : c ∈ List.replicate k '0') :
    c.isDigit = true := by
  rw [List.eq_of_mem_replicate h]
  decide

/-- A decimal written with all its places is a number with a fraction. -/
theorem isReal_positional {s : Scientific} (h : s.coefficient = 0 → s.exponent = 0) :
    IsReal false (s.positional ".0").toList := by
  have hdigits := isDigits_digits s.coefficient
  have hleading (hzero : (digits s.coefficient).head? = some '0') : s.coefficient = 0 := by
    by_contra hne
    exact head?_digits hne hzero
  unfold Scientific.positional
  dsimp only
  split_ifs with hexponent hplaces
  -- all digits stand before the point
  · refine ⟨⟨false, digits s.coefficient ++ List.replicate s.exponent.toNat '0', some ['0'], none⟩,
      ⟨hdigits.append fun c => isDigit_of_mem_replicate, fun hzero => ?_, ?_, nofun⟩, .inl rfl,
      rfl, ?_⟩
    · rw [List.head?_append_of_ne_nil _ hdigits.ne_nil] at hzero
      have hcoefficient := hleading hzero
      rw [hcoefficient, h hcoefficient]
      rfl
    · rintro _ ⟨⟩
      exact ⟨by simp, by simp⟩
    · simp [NumeralText.text, fractionText, exponentText]
  -- the point stands among the digits
  · obtain ⟨k, hk⟩ : ∃ k, k = (digits s.coefficient).length - (-s.exponent).toNat := ⟨_, rfl⟩
    rw [← hk]
    refine ⟨⟨false, (digits s.coefficient).take k, some ((digits s.coefficient).drop k), none⟩,
      ⟨⟨?_, fun c hc => hdigits.isDigit c (List.mem_of_mem_take hc)⟩, fun hzero => ?_, ?_, nofun⟩,
      .inl rfl, rfl, ?_⟩
    · rw [Ne, List.take_eq_nil_iff, not_or]
      exact ⟨by omega, hdigits.ne_nil⟩
    · rw [List.head?_take, if_neg (by omega)] at hzero
      have := h (hleading hzero)
      omega
    · rintro _ ⟨⟩
      refine ⟨?_, fun c hc => hdigits.isDigit c (List.mem_of_mem_drop hc)⟩
      rw [Ne, List.drop_eq_nil_iff]
      omega
    · simp [NumeralText.text, fractionText, exponentText]
  -- zeros stand between the point and the digits
  · refine ⟨⟨false, ['0'], some (List.replicate
      ((-s.exponent).toNat - (digits s.coefficient).length) '0' ++ digits s.coefficient), none⟩,
      ⟨⟨by simp, by simp⟩, fun _ => rfl, ?_, nofun⟩, .inl rfl, rfl, ?_⟩
    · rintro _ ⟨⟩
      refine ⟨by simp [hdigits.ne_nil], fun c hc => ?_⟩
      exact (List.mem_append.1 hc).elim isDigit_of_mem_replicate (hdigits.isDigit c)
    · simp [NumeralText.text, fractionText, exponentText]

/-- A decimal written with one digit before the point is a number with an exponent. -/
theorem isReal_exponential (s : Scientific) : IsReal false s.exponential.toList := by
  have hdigits := isDigits_digits s.coefficient
  have hexponent : exponentText (some (decide (s.leading < 0), digits s.leading.natAbs)) =
      (if s.leading < 0 then "e-" else "e+").toList ++ digits s.leading.natAbs := by
    by_cases hneg : s.leading < 0 <;> simp [exponentText, hneg]
  obtain ⟨d, rest, heq⟩ := List.exists_cons_of_ne_nil hdigits.ne_nil
  have hlead : IsDigits [d] := ⟨by simp, by simpa using hdigits.isDigit d (by simp [heq])⟩
  have hdigit : ∀ c ∈ rest, c.isDigit = true := fun c hc => hdigits.isDigit c (by simp [heq, hc])
  have hpower : ∀ negative ds, some (decide (s.leading < 0), digits s.leading.natAbs) =
      some (negative, ds) → IsDigits ds := by
    rintro _ _ ⟨⟩
    exact isDigits_digits _
  unfold Scientific.exponential natText
  dsimp only
  rw [heq]
  cases rest with
  | nil =>
    refine ⟨⟨false, [d], none, some (decide (s.leading < 0), digits s.leading.natAbs)⟩,
      ⟨hlead, by simp, nofun, hpower⟩, .inr rfl, rfl, ?_⟩
    simp [NumeralText.text, fractionText, hexponent]
  | cons c rest =>
    refine ⟨⟨false, [d], some (c :: rest),
      some (decide (s.leading < 0), digits s.leading.natAbs)⟩,
      ⟨hlead, by simp, ?_, hpower⟩, .inr rfl, rfl, ?_⟩
    · rintro _ ⟨⟩
      exact ⟨by simp, hdigit⟩
    · simp [NumeralText.text, fractionText, hexponent]

/-- The text of a double is a number with a fraction or an exponent. -/
theorem isReal_document (x : Float) : IsReal (isNegative x) (Layout.document.text x).toList := by
  have hbody : IsReal false
      (if Layout.document.positional (shortest Layout.document.tie x).leading then
        (shortest Layout.document.tie x).positional Layout.document.wholeEnd
      else (shortest Layout.document.tie x).exponential).toList := by
    split_ifs
    · exact isReal_positional (shortest_exponent_eq_zero _ x)
    · exact isReal_exponential _
  have hnumber := hbody.signed (isNegative x)
  unfold Layout.text
  by_cases hnegative : isNegative x = true <;> simpa [hnegative] using hnumber

end Json

end Montage
