import Mathlib
import Montage.Proofs.Rounding
import Montage.Time.Scale

/-!
# Doubles as whole numbers

A finite double that is not negative is a whole number of units, where the unit is the least
positive double. Sums, products and quotients of such doubles are the exact results rounded to
fifty-three binary digits, and doubles compare as their units do. With this the seconds of
timestamps, which are computed in doubles, are in the order of the timestamps. What is said about
numbers that are not numbers stands at the end.

The equations of the model of doubles are shared with the library's own lemmas on doubles, which
come only with the whole library.
-/

namespace Montage.Double

open Float.Model UnpackedFloat

/-! ## Unpacked doubles as numbers of units -/

/-- The units of the number one. -/
def oneUnits : ℕ :=
  2 ^ 1074

/-- The number one has units. -/
theorem oneUnits_pos : 0 < oneUnits := by
  unfold oneUnits
  positivity

/-- The units of a power of two. -/
theorem two_pow_mul_oneUnits (k : ℕ) : 2 ^ k * oneUnits = 2 ^ (k + 1074) := by
  rw [pow_add, oneUnits]

/-- The units below which every whole number is a double. -/
def limit : ℕ :=
  2 ^ 53 * oneUnits

/-- An unpacked double is a number of units: it is in canonical form and not negative. -/
inductive HasUnits : UnpackedFloat → ℕ → Prop
  | zero (s : UnpackedFloat.Sign) : HasUnits (.zero s) 0
  | finite {m u : ℕ} (hpos : 0 < m) (hlt : m < 2 ^ 53) (hnorm : 2 ^ 52 ≤ m ∨ u = 0) :
      HasUnits (.finite .positive m (u - 1074) hpos) (m * 2 ^ u)

/-- The units of a double need no rounding. -/
theorem HasUnits.rounded_eq {x : UnpackedFloat} {a : ℕ} (h : HasUnits x a) : rounded a 1 = a := by
  cases h with
  | zero s => decide
  | finite hpos hlt hnorm => exact rounded_mul_two_pow hlt

/-- In canonical form the greater exponent decides. -/
theorem lt_of_canonical {m n u v : ℕ} (hm : m < 2 ^ 53) (hn : 2 ^ 52 ≤ n ∨ v = 0) (h : u < v) :
    m * 2 ^ u < n * 2 ^ v :=
  calc m * 2 ^ u < 2 ^ 53 * 2 ^ u := Nat.mul_lt_mul_of_pos_right hm (Nat.two_pow_pos u)
    _ = 2 ^ 52 * 2 ^ (u + 1) := by rw [pow_succ 2 52, pow_succ' 2 u, mul_assoc]
    _ ≤ n * 2 ^ v :=
      Nat.mul_le_mul (hn.resolve_right (by omega)) (Nat.pow_le_pow_right (by decide) h)

/-- Doubles compare as their units do. -/
theorem HasUnits.compare_eq {x y : UnpackedFloat} {a b : ℕ} (hx : HasUnits x a)
    (hy : HasUnits y b) : x.compare y = some (compare a b) := by
  cases hx with
  | zero s =>
    cases hy with
    | zero t => simp [UnpackedFloat.compare]
    | @finite n v hpos hlt hnorm =>
      have : 0 < n * 2 ^ v := Nat.mul_pos hpos (Nat.two_pow_pos v)
      simp [UnpackedFloat.compare, Nat.compare_eq_lt.2 this]
  | @finite m u hpos hlt hnorm =>
    cases hy with
    | zero t =>
      have : 0 < m * 2 ^ u := Nat.mul_pos hpos (Nat.two_pow_pos u)
      simp [UnpackedFloat.compare, Nat.compare_eq_gt.2 this]
    | @finite n v hpos' hlt' hnorm' =>
      simp only [UnpackedFloat.compare, Option.some.injEq]
      -- canonical numbers are ordered by their exponents, and by their mantissas on one exponent
      rcases lt_trichotomy u v with huv | rfl | huv
      · have hexp : compare ((u : ℤ) - 1074) (v - 1074) = .lt := by
          rw [Int.compare_eq_lt]
          omega
        rw [hexp, Nat.compare_eq_lt.2 (lt_of_canonical hlt hnorm' huv)]
        rfl
      · have hmul : compare (m * 2 ^ u) (n * 2 ^ u) = compare m n := by
          rcases lt_trichotomy m n with h | rfl | h
          · rw [Nat.compare_eq_lt.2 h,
              Nat.compare_eq_lt.2 (Nat.mul_lt_mul_of_pos_right h (Nat.two_pow_pos u))]
          · simp
          · rw [Nat.compare_eq_gt.2 h,
              Nat.compare_eq_gt.2 (Nat.mul_lt_mul_of_pos_right h (Nat.two_pow_pos u))]
        rw [hmul]
        simp
      · have hexp : compare ((u : ℤ) - 1074) (v - 1074) = .gt := by
          rw [Int.compare_eq_gt]
          omega
        rw [hexp, Nat.compare_eq_gt.2 (lt_of_canonical hlt' hnorm huv)]
        rfl

/-- The sign of what is packed as positive. -/
theorem sign_packComponents (e : BitVec 11) (m : BitVec 52) :
    UnpackedFloat.Sign.ofBitVec (unpackSign (packComponents Format.binary64 .positive e m)) =
      .positive := by
  have hsign : unpackSign (packComponents Format.binary64 .positive e m) = 0#1 := by
    change (0#1 ++ e ++ m).extractLsb' 63 1 = 0#1
    rw [BitVec.extractLsb'_append_eq_of_le (by decide),
      BitVec.extractLsb'_append_eq_of_le (by decide)]
    rfl
  rw [hsign]
  rfl

/-- A normal double has the units of its mantissa and exponent. -/
theorem hasUnits_normal {m u : ℕ} (hm : 2 ^ 52 ≤ m) (hm' : m < 2 ^ 53) (hu : u ≤ 2045) :
    HasUnits (UnpackedFloat.unpack Format.binary64
      (packComponents Format.binary64 .positive (BitVec.ofNat 11 (u + 1)) (BitVec.ofNat 52 m)))
      (m * 2 ^ u) := by
  have hexp : (BitVec.ofNat 11 (u + 1)).toNat = u + 1 := by
    rw [BitVec.toNat_ofNat]
    omega
  have hall : BitVec.ofNat 11 (u + 1) ≠ -1#11 := fun h => by
    have h' : (BitVec.ofNat 11 (u + 1)).toNat = 2047 := congrArg BitVec.toNat h
    omega
  have hzero : BitVec.ofNat 11 (u + 1) ≠ 0#11 := fun h => by
    have h' : (BitVec.ofNat 11 (u + 1)).toNat = 0 := congrArg BitVec.toNat h
    omega
  have hman : (1#1 ++ BitVec.ofNat 52 m).toNat = m := by
    rw [BitVec.toNat_append, BitVec.toNat_ofNat, BitVec.toNat_ofNat, Nat.shiftLeft_eq, Nat.or_comm]
    change m % 2 ^ 52 ||| 2 ^ 52 = m
    rw [Nat.or_two_pow_eq_add_of_lt (Nat.mod_lt m (Nat.two_pow_pos 52))]
    omega
  have hfin := HasUnits.finite (u := u) (Nat.lt_of_lt_of_le (by decide) hm) hm' (.inl hm)
  unfold UnpackedFloat.unpack
  simp only [unpackMantissa_packComponents, unpackExponent_packComponents, sign_packComponents,
    if_neg hall, if_neg hzero, hman, hexp]
  convert hfin using 2
  change ((u + 1 : ℕ) : ℤ) - ((1023 : ℕ) + (52 : ℕ)) = u - 1074
  omega

/-- A subnormal double has the units of its mantissa. -/
theorem hasUnits_subnormal {m : ℕ} (hpos : 0 < m) (hm : m < 2 ^ 52) :
    HasUnits (UnpackedFloat.unpack Format.binary64
      (packComponents Format.binary64 .positive 0#11 (BitVec.ofNat 52 m))) m := by
  have hman : (BitVec.ofNat 52 m).toNat = m := by
    rw [BitVec.toNat_ofNat, Nat.mod_eq_of_lt hm]
  have hzero : BitVec.ofNat 52 m ≠ 0#52 := fun h => by
    have h' : (BitVec.ofNat 52 m).toNat = 0 := congrArg BitVec.toNat h
    omega
  have hfin := HasUnits.finite (u := 0) hpos (hm.trans (by decide)) (.inr rfl)
  unfold UnpackedFloat.unpack
  simp only [unpackMantissa_packComponents, unpackExponent_packComponents, sign_packComponents,
    dif_neg hzero, hman]
  rw [if_neg (by decide), if_pos trivial]
  simpa [show Format.binary64.exponentBias = 1023 from rfl] using hfin

/-- Packing keeps a double that is not too great. -/
theorem HasUnits.unpack_pack {x : UnpackedFloat} {a : ℕ} (h : HasUnits x a) (ha : a < limit) :
    HasUnits (Float.Model.pack x).unpack a := by
  change HasUnits (UnpackedFloat.unpack Format.binary64 (UnpackedFloat.pack Format.binary64 x)) a
  cases h with
  | zero s =>
    have hzero : UnpackedFloat.unpack .binary64 (UnpackedFloat.pack .binary64 (.zero s)) =
        .zero s := by
      cases s <;> rfl
    rw [hzero]
    exact .zero s
  | @finite m u hpos hlt hnorm =>
    -- below the limit the exponent fits in its field
    have hu : u ≤ 2045 := by
      rcases hnorm with hnorm | rfl
      · have hpow : 2 ^ (52 + u) < 2 ^ (53 + 1074) := by
          rw [pow_add, ← two_pow_mul_oneUnits]
          exact (Nat.mul_le_mul_right _ hnorm).trans_lt ha
        have := (Nat.pow_lt_pow_iff_right (by decide)).1 hpow
        omega
      · omega
    have hbias : ((u : ℤ) - 1074 + Format.binary64.exponentBias +
        Format.binary64.mantissaBitsWithoutImplicit).toNat = u + 1 := by
      change ((u : ℤ) - 1074 + 1023 + 52).toNat = u + 1
      omega
    have hfit : ¬ 2 ^ Format.binary64.exponentBits ≤ u + 1 + 1 := by
      change ¬ 2 ^ 11 ≤ u + 1 + 1
      omega
    simp only [UnpackedFloat.pack, hbias, if_neg hfit]
    by_cases hlog : m.log2 + 1 = Format.binary64.mantissaBits
    · rw [if_pos hlog]
      have hm : 2 ^ 52 ≤ m := by
        have hlog' : m.log2 = 52 := Nat.succ_injective hlog
        exact hlog' ▸ Nat.log2_self_le hpos.ne'
      exact hasUnits_normal hm hlt hu
    · rw [if_neg hlog]
      have hm : m < 2 ^ 52 := by
        by_contra hge
        exact hlog (congrArg (· + 1) ((Nat.log2_eq_iff hpos.ne').2 ⟨not_lt.1 hge, hlt⟩))
      obtain rfl : u = 0 := hnorm.resolve_left (by omega)
      simpa using hasUnits_subnormal hpos hm

/-- Doubling a quotient repeatedly adds digits in front of the point. -/
theorem log2_mul_two_pow_div {a d : ℕ} (hd : 0 < d) (h : a / d ≠ 0) (n : ℕ) :
    (a * 2 ^ n / d).log2 = (a / d).log2 + n := by
  have hlow := (Nat.le_div_iff_mul_le hd).1 (Nat.log2_self_le h)
  have hhigh := (Nat.div_lt_iff_lt_mul hd).1 (Nat.lt_log2_self (n := a / d))
  have hpos := Nat.two_pow_pos n
  have hlow' : 2 ^ ((a / d).log2 + n) ≤ a * 2 ^ n / d := by
    rw [Nat.le_div_iff_mul_le hd, pow_add, mul_right_comm]
    exact Nat.mul_le_mul_right _ hlow
  refine (Nat.log2_eq_iff ?_).2 ⟨hlow', ?_⟩
  · have := Nat.two_pow_pos ((a / d).log2 + n)
    omega
  · rw [Nat.div_lt_iff_lt_mul hd, add_right_comm, pow_add, mul_right_comm]
    exact Nat.mul_lt_mul_of_pos_right hhigh hpos

/-- The digits in excess of a quotient that is multiplied by a power of two. -/
theorem excess_div {a d : ℕ} (hd : 0 < d) {k : ℤ} (hk : k ≤ 0 ∨ 2 ^ 52 ≤ a / d) :
    (excess (a * 2 ^ k.toNat / (d * 2 ^ (-k).toNat)) : ℤ) = max ((a / d).log2 + k - 52) 0 := by
  rcases le_total k 0 with hneg | hpos
  · obtain ⟨n, rfl⟩ : ∃ n : ℕ, k = -n := ⟨(-k).toNat, by omega⟩
    have hquot : a * 2 ^ (-(n : ℤ)).toNat / (d * 2 ^ (-(-(n : ℤ))).toNat) = a / d / 2 ^ n := by
      simp [Nat.div_div_eq_div_mul]
    rw [hquot, excess, Nat.log2_eq_log_two, Nat.log_div_base_pow, ← Nat.log2_eq_log_two]
    omega
  · obtain ⟨n, rfl⟩ : ∃ n : ℕ, k = n := ⟨k.toNat, by omega⟩
    have hquot : a * 2 ^ (n : ℤ).toNat / (d * 2 ^ (-(n : ℤ)).toNat) = a * 2 ^ n / d := by simp
    rw [hquot, excess]
    rcases hk with hk | hk
    · obtain rfl : n = 0 := by omega
      simp only [pow_zero, mul_one]
      omega
    · rw [log2_mul_two_pow_div hd (by omega)]
      omega

/-- The exponent of a rounded number, counted from the unit. -/
theorem targetExponent_eq (m : ℕ) (e : ℤ) :
    Format.binary64.targetExponent (totalExponent m e) =
      max (m.log2 + (e + 1074) - 52) 0 - 1074 := by
  simp only [Format.targetExponent, totalExponent, Format.mantissaBits, Format.minExponent]
  omega

/-- Shifting to a greater exponent divides the quotient. -/
theorem shiftToTargetExponent_eq {m a d n : ℕ} {acc : Accuracy} {e : ℤ} (hd : 0 < d)
    (hquot : .ofMantissaAndAccuracy m acc = quotient a d)
    (htarget : Format.binary64.targetExponent (totalExponent m e) = e + n) :
    shiftToTargetExponent Format.binary64 m e acc = (quotient a (d * 2 ^ n), e + n) := by
  have hamount : (e + n - e).toNat = n := by omega
  simp only [shiftToTargetExponent, shiftToExponent, htarget, hamount, hquot,
    shiftRight_quotient a hd]

/-- A rounded number, which has at most fifty-three digits or is the next power of two, is brought
into canonical form. -/
theorem hasUnits_shiftToTargetExponent {r s : ℕ} (hr : r ≤ 2 ^ 53) (hnorm : 2 ^ 52 ≤ r ∨ s = 0) :
    HasUnits
      (if h : (shiftToTargetExponent Format.binary64 r (s - 1074) .exact).1.mantissa = 0 then
        .zero .positive
      else
        .finite .positive _ (shiftToTargetExponent Format.binary64 r (s - 1074) .exact).2
          (Nat.pos_of_ne_zero h))
      (r * 2 ^ s) := by
  rcases hr.eq_or_lt with rfl | hlt
  -- rounding carried into one bit more, which an exact shift takes back
  · have hshift := shiftToTargetExponent_eq (n := 1) (e := (s : ℤ) - 1074) Nat.one_pos
      (quotient_one (2 ^ 53)).symm (by rw [targetExponent_eq, Nat.log2_two_pow]; omega)
    have hman : (quotient (2 ^ 53) (1 * 2 ^ 1)).mantissa = 2 ^ 52 := by decide
    have hexp : (s : ℤ) - 1074 + (1 : ℕ) = (s + 1 : ℕ) - 1074 := by omega
    have hvalue : 2 ^ 53 * 2 ^ s = 2 ^ 52 * 2 ^ (s + 1) := by
      rw [pow_succ 2 52, pow_succ' 2 s, mul_assoc]
    simp only [hshift, hman, hexp, hvalue]
    exact .finite (by decide) (by decide) (.inl le_rfl)
  · have htarget : Format.binary64.targetExponent (totalExponent r (s - 1074)) =
        s - 1074 + (0 : ℕ) := by
      rw [targetExponent_eq]
      rcases hnorm with hnorm | rfl
      · rw [(Nat.log2_eq_iff (by omega)).2 ⟨hnorm, hlt⟩]
        omega
      · by_cases hzero : r = 0
        · subst hzero
          decide
        · have := (Nat.log2_lt hzero).2 hlt
          omega
    have hshift := shiftToTargetExponent_eq Nat.one_pos (quotient_one r).symm htarget
    have hman : (quotient r (1 * 2 ^ 0)).mantissa = r := Nat.div_one r
    simp only [hshift, hman]
    by_cases hzero : r = 0
    · subst hzero
      simpa using HasUnits.zero .positive
    · rw [dif_neg hzero]
      simpa using HasUnits.finite (Nat.pos_of_ne_zero hzero) hlt hnorm

/-- A mantissa that is not too short is rounded as the exact quotient is. -/
theorem hasUnits_roundWithAccuracy {m : ℕ} {acc : Accuracy} {a d : ℕ} {e : ℤ} (hd : 0 < d)
    (hquot : .ofMantissaAndAccuracy m acc = quotient a d)
    (he : e ≤ -1074 ∨ 2 ^ 52 ≤ a / d) :
    HasUnits (roundWithAccuracy Format.binary64 .positive m e acc)
      (rounded (a * 2 ^ (e + 1074).toNat) (d * 2 ^ (-(e + 1074)).toNat)) := by
  have hm : m = a / d := by
    have hman : (ExtendedMantissa.ofMantissaAndAccuracy m acc).mantissa = m := by
      cases acc with
      | exact => rfl
      | inexact o => cases o <;> rfl
    rw [← hman, hquot]
    rfl
  -- the exponent counted from the least unit
  obtain ⟨k, hk⟩ : ∃ k : ℤ, k = e + 1074 := ⟨_, rfl⟩
  rw [← hk]
  have hexc := excess_div (a := a) hd (k := k) (by omega)
  have hd' : 0 < d * 2 ^ (-k).toNat := Nat.mul_pos hd (Nat.two_pow_pos _)
  have hr := nearest_excess_le (a * 2 ^ k.toNat) hd'
  have hnorm := le_nearest_excess (a := a * 2 ^ k.toNat) hd'
  unfold rounded
  generalize excess (a * 2 ^ k.toNat / (d * 2 ^ (-k).toNat)) = s at *
  have hlog : k ≤ 0 ∨ 52 ≤ (a / d).log2 := by
    rcases he with he | he
    · omega
    · exact .inr ((Nat.le_log2 (by omega)).2 he)
  have htarget : Format.binary64.targetExponent (totalExponent m e) = e + (s - k).toNat := by
    rw [targetExponent_eq, hm, ← hk]
    omega
  have hvalue : quotient a (d * 2 ^ (s - k).toNat) =
      quotient (a * 2 ^ k.toNat) (d * 2 ^ (-k).toNat * 2 ^ s) := by
    have hsum : (-k).toNat + s = (s - k).toNat + k.toNat := by omega
    rw [mul_assoc, ← pow_add, hsum, pow_add, ← mul_assoc,
      quotient_mul_right _ _ (Nat.two_pow_pos _)]
  have hexp : e + (s - k).toNat = (s : ℤ) - 1074 := by omega
  have hshift := shiftToTargetExponent_eq hd hquot htarget
  rw [hvalue, hexp] at hshift
  unfold roundWithAccuracy
  simp only [hshift]
  exact hasUnits_shiftToTargetExponent hr (by tauto)

/-- Doubling a number repeatedly adds digits. -/
theorem log2_mul_two_pow {n : ℕ} (hn : n ≠ 0) (k : ℕ) : (n * 2 ^ k).log2 = n.log2 + k := by
  simpa using log2_mul_two_pow_div (a := n) Nat.one_pos (by simpa) k

/-- A whole number with an exponent is rounded. -/
theorem hasUnits_round {m : ℕ} (hm : m ≠ 0) (u : ℕ) :
    HasUnits (UnpackedFloat.round Format.binary64 .positive m (u - 1074))
      (rounded (m * 2 ^ u) 1) := by
  simp only [UnpackedFloat.round, decreaseExponent, targetExponent_eq, Nat.shiftLeft_eq]
  obtain ⟨t, ht⟩ : ∃ t : ℕ, (t : ℤ) = max (m.log2 + ((u : ℤ) - 1074 + 1074) - 52) 0 :=
    ⟨_, Int.toNat_of_nonneg (by omega)⟩
  have hamount : ((u : ℤ) - 1074 - (t - 1074)).toNat = u - t := by omega
  rw [← ht, hamount]
  have hfit : (u : ℤ) - 1074 - (u - t : ℕ) ≤ -1074 ∨ 2 ^ 52 ≤ m * 2 ^ (u - t) / 1 := by
    by_cases hzero : t = 0
    · omega
    · right
      rw [Nat.div_one, ← Nat.le_log2 (Nat.mul_ne_zero hm (Nat.two_pow_pos _).ne'),
        log2_mul_two_pow hm]
      omega
  convert hasUnits_roundWithAccuracy Nat.one_pos (quotient_one _).symm hfit using 1
  have hexp : ((u : ℤ) - 1074 - (u - t : ℕ) + 1074).toNat = u - (u - t) := by omega
  have hneg : (-((u : ℤ) - 1074 - (u - t : ℕ) + 1074)).toNat = 0 := by omega
  rw [hexp, hneg, mul_assoc, ← pow_add, pow_zero, one_mul, Nat.add_sub_cancel' (Nat.sub_le u t)]

/-- A sum is the exact sum, rounded. -/
theorem HasUnits.add {x y : UnpackedFloat} {a b : ℕ} (hx : HasUnits x a) (hy : HasUnits y b) :
    HasUnits (x.add .binary64 y) (rounded (a + b) 1) := by
  cases hx with
  | zero s =>
    rw [Nat.zero_add, hy.rounded_eq]
    cases hy with
    | zero t => cases s <;> cases t <;> exact .zero _
    | finite hpos hlt hnorm => exact .finite hpos hlt hnorm
  | @finite m u hpos hlt hnorm =>
    cases hy with
    | zero t =>
      rw [Nat.add_zero, rounded_mul_two_pow hlt]
      exact .finite hpos hlt hnorm
    | @finite n v hpos' hlt' hnorm' =>
      have hu : ((u : ℤ) - 1074 - min ((u : ℤ) - 1074) (v - 1074)).toNat = u - min u v := by omega
      have hv : ((v : ℤ) - 1074 - min ((u : ℤ) - 1074) (v - 1074)).toNat = v - min u v := by omega
      have hmin : min ((u : ℤ) - 1074) (v - 1074) = (min u v : ℕ) - 1074 := by omega
      have hpos : m * 2 ^ (u - min u v) + n * 2 ^ (v - min u v) ≠ 0 :=
        (Nat.add_pos_left (Nat.mul_pos hpos (Nat.two_pow_pos _)) _).ne'
      have hsum : (m * 2 ^ (u - min u v) + n * 2 ^ (v - min u v)) * 2 ^ min u v =
          m * 2 ^ u + n * 2 ^ v := by
        rw [add_mul, mul_assoc, mul_assoc, ← pow_add, ← pow_add,
          Nat.sub_add_cancel (Nat.min_le_left u v), Nat.sub_add_cancel (Nat.min_le_right u v)]
      rw [← hsum]
      simp only [UnpackedFloat.add, decreaseExponent, UnpackedFloat.Sign.apply, Nat.shiftLeft_eq,
        hu, hv, ← Int.natCast_add, UnpackedFloat.normalize]
      rw [Int.compare_eq_gt.2 (by omega), Int.toNat_natCast, hmin]
      exact hasUnits_round hpos _

/-- A product is the exact product, rounded. -/
theorem HasUnits.mul {x y : UnpackedFloat} {a b : ℕ} (hx : HasUnits x a) (hy : HasUnits y b) :
    HasUnits (x.mul .binary64 y) (rounded (a * b) oneUnits) := by
  cases hx with
  | zero s =>
    rw [Nat.zero_mul, rounded_zero oneUnits_pos]
    cases hy with
    | zero t => exact .zero _
    | finite hpos hlt hnorm => exact .zero _
  | @finite m u hpos hlt hnorm =>
    cases hy with
    | zero t =>
      rw [Nat.mul_zero, rounded_zero oneUnits_pos]
      exact .zero _
    | @finite n v hpos' hlt' hnorm' =>
      have hfit : (u : ℤ) - 1074 + (v - 1074) ≤ -1074 ∨ 2 ^ 52 ≤ m * n / 1 := by
        rw [Nat.div_one]
        rcases hnorm with hnorm | rfl
        · exact .inr (hnorm.trans (Nat.le_mul_of_pos_right m hpos'))
        · rcases hnorm' with hnorm' | rfl
          · exact .inr (hnorm'.trans (Nat.le_mul_of_pos_left n hpos))
          · omega
      have hunits := hasUnits_roundWithAccuracy Nat.one_pos (quotient_one (m * n)).symm hfit
      have hsum : ((u : ℤ) - 1074 + (v - 1074) + 1074).toNat + 1074 =
          u + v + (-((u : ℤ) - 1074 + (v - 1074) + 1074)).toNat := by omega
      rw [rounded_congr (Nat.mul_pos Nat.one_pos (Nat.two_pow_pos _)) oneUnits_pos
        (c := m * 2 ^ u * (n * 2 ^ v))] at hunits
      · exact hunits
      · rw [one_mul, mul_mul_mul_comm m, ← pow_add 2 u, mul_assoc (m * n), mul_assoc (m * n),
          two_pow_mul_oneUnits, ← pow_add, hsum]

/-- The rest of a division says where the quotient lies. -/
theorem ofMantissaAndAccuracy_accuracyOfFraction (a : ℕ) {d : ℕ} (hd : 0 < d) :
    .ofMantissaAndAccuracy (a / d) (accuracyOfFraction (a % d) d) = quotient a d := by
  unfold accuracyOfFraction quotient
  by_cases hzero : a % d = 0
  · simp [hzero, ExtendedMantissa.ofMantissaAndAccuracy, hd.ne']
  · rw [if_neg hzero]
    rcases lt_trichotomy (2 * (a % d)) d with h | h | h
    · simp [Nat.compare_eq_lt.2 h, ExtendedMantissa.ofMantissaAndAccuracy, hzero, h, h.ne]
    · simp [h, ExtendedMantissa.ofMantissaAndAccuracy]
    · simp [Nat.compare_eq_gt.2 h, ExtendedMantissa.ofMantissaAndAccuracy, hzero, h.le, h.ne']

/-- A quotient is the exact quotient, rounded. -/
theorem HasUnits.div {x y : UnpackedFloat} {a b : ℕ} (hx : HasUnits x a) (hy : HasUnits y b)
    (hb : 0 < b) : HasUnits (x.div .binary64 y) (rounded (a * oneUnits) b) := by
  cases hy with
  | zero t => exact absurd hb (Nat.lt_irrefl 0)
  | @finite n v hpos' hlt' hnorm' =>
    cases hx with
    | zero s =>
      rw [Nat.zero_mul, rounded_zero hb]
      exact .zero _
    | @finite m u hpos hlt hnorm =>
      simp only [UnpackedFloat.div, divCore, Nat.shiftLeft_eq]
      -- the exponent of the quotient, and how far the dividend is shifted for it
      obtain ⟨e, he⟩ : ∃ e, e = min ((u : ℤ) - 1074 - (v - 1074)) (Format.binary64.targetExponent
        (totalExponent m (u - 1074) - totalExponent n (v - 1074))) := ⟨_, rfl⟩
      rw [← he]
      obtain ⟨k, hk⟩ : ∃ k : ℕ, k = ((u : ℤ) - 1074 - (v - 1074) - e).toNat := ⟨_, rfl⟩
      rw [← hk]
      have htarget : e ≤ max ((m.log2 : ℤ) + u - n.log2 - v - 53) (-1074) := by
        rw [he]
        simp only [Format.targetExponent, totalExponent, Format.mantissaBits, Format.minExponent]
        omega
      have hfit : e ≤ -1074 ∨ 2 ^ 52 ≤ m * 2 ^ k / n := by
        by_cases hlow : e ≤ -1074
        · exact .inl hlow
        · right
          have hlog : n.log2 + 53 ≤ (m * 2 ^ k).log2 := by
            rw [log2_mul_two_pow hpos.ne']
            omega
          have hle := (Nat.le_log2 (Nat.mul_pos hpos (Nat.two_pow_pos k)).ne').1 hlog
          rw [Nat.le_div_iff_mul_le hpos']
          have hn : n < 2 ^ (n.log2 + 1) := Nat.lt_log2_self
          calc 2 ^ 52 * n ≤ 2 ^ 52 * 2 ^ (n.log2 + 1) := Nat.mul_le_mul_left _ hn.le
            _ = 2 ^ (n.log2 + 53) := by rw [← pow_add]; congr 1; omega
            _ ≤ m * 2 ^ k := hle
      have hunits := hasUnits_roundWithAccuracy hpos'
        (ofMantissaAndAccuracy_accuracyOfFraction (m * 2 ^ k) hpos') hfit
      rw [rounded_congr (Nat.mul_pos hpos' (Nat.two_pow_pos _)) hb
        (c := m * 2 ^ u * oneUnits)] at hunits
      · exact hunits
      · have hsum : k + (e + 1074).toNat + v = u + 1074 + (-(e + 1074)).toNat := by omega
        rw [mul_assoc m, ← pow_add, mul_mul_mul_comm, ← pow_add, hsum, mul_assoc m (2 ^ u),
          two_pow_mul_oneUnits, mul_mul_mul_comm m, ← pow_add, mul_assoc m n]

/-! ## Doubles -/

/-- A double is a number of units. -/
def Units (x : Float) (a : ℕ) : Prop :=
  HasUnits x.toModel.unpack a

/-- The order of doubles is that of their unpacked forms. -/
theorem le_iff_compare (x y : Float) :
    x ≤ y ↔ (x.toModel.unpack.compare y.toModel.unpack).any (·.isLE) = true :=
  decide_eq_true_iff

/-- The strict order of doubles is that of their unpacked forms. -/
theorem lt_iff_compare (x y : Float) :
    x < y ↔ (x.toModel.unpack.compare y.toModel.unpack == some .lt) = true :=
  decide_eq_true_iff

/-- Doubles are in the order of their units. -/
theorem Units.le_iff {x y : Float} {a b : ℕ} (hx : Units x a) (hy : Units y b) :
    x ≤ y ↔ a ≤ b := by
  rw [le_iff_compare, HasUnits.compare_eq hx hy, Option.any_some, Nat.isLE_compare]

/-- The units of a sum. -/
theorem Units.add {x y : Float} {a b : ℕ} (hx : Units x a) (hy : Units y b)
    (h : rounded (a + b) 1 < limit) : Units (x + y) (rounded (a + b) 1) :=
  (HasUnits.add hx hy).unpack_pack h

/-- The units of a product. -/
theorem Units.mul {x y : Float} {a b : ℕ} (hx : Units x a) (hy : Units y b)
    (h : rounded (a * b) oneUnits < limit) : Units (x * y) (rounded (a * b) oneUnits) :=
  (HasUnits.mul hx hy).unpack_pack h

/-- The units of a quotient. -/
theorem Units.div {x y : Float} {a b : ℕ} (hx : Units x a) (hy : Units y b) (hb : 0 < b)
    (h : rounded (a * oneUnits) b < limit) : Units (x / y) (rounded (a * oneUnits) b) :=
  (HasUnits.div hx hy hb).unpack_pack h

/-- Whole numbers need no rounding. -/
theorem rounded_mul_oneUnits {n : ℕ} (hn : n < 2 ^ 53) :
    rounded (n * oneUnits) 1 = n * oneUnits := by
  unfold oneUnits
  exact rounded_mul_two_pow hn

/-- Whole numbers stay below the limit. -/
theorem mul_oneUnits_lt_limit {n : ℕ} (hn : n < 2 ^ 53) : n * oneUnits < limit :=
  Nat.mul_lt_mul_of_pos_right hn oneUnits_pos

/-- Products of whole numbers are exact. -/
theorem Units.mul_natCast {x y : Float} {m n : ℕ} (hx : Units x (m * oneUnits))
    (hy : Units y (n * oneUnits)) (h : m * n < 2 ^ 53) : Units (x * y) (m * n * oneUnits) := by
  have hexact : rounded (m * oneUnits * (n * oneUnits)) oneUnits = m * n * oneUnits := by
    rw [← rounded_mul_oneUnits h]
    refine rounded_congr oneUnits_pos Nat.one_pos ?_
    rw [mul_mul_mul_comm, mul_one, mul_assoc (m * n)]
  have hunits := hx.mul hy (by rw [hexact]; exact mul_oneUnits_lt_limit h)
  rwa [hexact] at hunits

/-- Sums of whole numbers are exact. -/
theorem Units.add_natCast {x y : Float} {m n : ℕ} (hx : Units x (m * oneUnits))
    (hy : Units y (n * oneUnits)) (h : m + n < 2 ^ 53) : Units (x + y) ((m + n) * oneUnits) := by
  have hexact : rounded (m * oneUnits + n * oneUnits) 1 = (m + n) * oneUnits := by
    rw [← add_mul, rounded_mul_oneUnits h]
  have hunits := hx.add hy (by rw [hexact]; exact mul_oneUnits_lt_limit h)
  rwa [hexact] at hunits

/-- The double of a whole number has its units. -/
theorem units_ofNat {n : ℕ} (hn : n < 2 ^ 53) : Units (Float.ofNat n) (n * oneUnits) := by
  have hfloat : Float.ofNat n = n.toUInt64.toFloat * Float.ofBits 0x3FF0000000000000 := by
    change Float.ofScientific n false 0 = _
    rw [Float.ofScientific, dif_pos ⟨hn, Nat.zero_le _⟩]
    rfl
  have hnat : n.toUInt64.toNat = n := by
    rw [Nat.toUInt64, UInt64.toNat_ofNat']
    omega
  have hx : Units n.toUInt64.toFloat (n * oneUnits) := by
    have hunits : HasUnits (.ofNat .binary64 n) (n * oneUnits) := by
      rcases Nat.eq_zero_or_pos n with rfl | hpos
      · rw [Nat.zero_mul]
        exact .zero .positive
      · have hround := hasUnits_round hpos.ne' 1074
        rw [rounded_mul_two_pow hn] at hround
        unfold UnpackedFloat.ofNat UnpackedFloat.ofInt UnpackedFloat.normalize
        rw [Int.compare_eq_gt.2 (by omega), Int.toNat_natCast]
        rw [oneUnits]
        rwa [show ((1074 : ℕ) : ℤ) - 1074 = 0 from rfl] at hround
    have hpack := hunits.unpack_pack (mul_oneUnits_lt_limit hn)
    rw [← hnat] at hpack
    nth_rewrite 2 [hnat] at hpack
    exact hpack
  have hy : Units (Float.ofBits 0x3FF0000000000000) (1 * oneUnits) := by
    have hfin := HasUnits.finite (m := 2 ^ 52) (u := 1022) (by decide) (by decide) (.inl le_rfl)
    have hone : 1 * oneUnits = 2 ^ 52 * 2 ^ 1022 := by
      rw [← pow_add, one_mul, oneUnits]
    rw [hone]
    exact hfin
  rw [hfloat]
  simpa using hx.mul_natCast hy (by omega)

/-! ## What is not a number -/

/-- Whether a double is a number is seen from its unpacked form. -/
theorem isNaN_eq (x : Float) : x.isNaN = x.toModel.unpack.isNaN := rfl

/-- What can be compared is a number. -/
theorem isNaN_of_le {x y : Float} (h : x ≤ y) : x.isNaN = false ∧ y.isNaN = false := by
  rw [le_iff_compare] at h
  rw [isNaN_eq, isNaN_eq]
  generalize x.toModel.unpack = a at *
  generalize y.toModel.unpack = b at *
  cases a <;> cases b <;> simp_all [UnpackedFloat.compare, UnpackedFloat.isNaN]

/-- A number that is not at most zero is above zero. -/
theorem pos_of_not_le {x : Float} (hnan : x.isNaN = false) (h : ¬ x ≤ 0.0) : 0.0 < x := by
  have hzero : (0.0 : Float).toModel.unpack = .zero .positive := rfl
  rw [le_iff_compare, hzero] at h
  rw [lt_iff_compare, hzero]
  rw [isNaN_eq] at hnan
  generalize x.toModel.unpack = a at *
  cases a with
  | infinity s => cases s <;> simp_all [UnpackedFloat.compare]
  | notANumber => exact absurd hnan (by decide)
  | zero s => simp [UnpackedFloat.compare] at h
  | finite s m e hm => cases s <;> simp_all [UnpackedFloat.compare]

end Montage.Double

/-! ## Timestamps -/

namespace Montage.Timestamp

open Double

/-- The whole seconds of a timestamp. -/
def whole (t : Timestamp) : ℕ :=
  t.minutes.val * 60 + t.seconds.val

/-- The milliseconds of a timestamp. -/
def total (t : Timestamp) : ℕ :=
  t.whole * 1000 + t.millis.val

/-- The units of a number of milliseconds. -/
def thousandths (n : ℕ) : ℕ :=
  rounded (n * oneUnits) 1000

/-- The units of more milliseconds are more. -/
theorem thousandths_mono {m n : ℕ} (h : m ≤ n) : thousandths m ≤ thousandths n :=
  rounded_mono (by decide) (Nat.mul_le_mul_right oneUnits h)

/-- A thousand milliseconds are a second. -/
theorem thousandths_thousand : thousandths 1000 = oneUnits := by
  have hone : rounded (1 * oneUnits) 1 = 1 * oneUnits := rounded_mul_oneUnits (by decide)
  have hsame : rounded (1000 * oneUnits) 1000 = rounded (1 * oneUnits) 1 :=
    rounded_congr (by decide) Nat.one_pos (by omega)
  rw [thousandths, hsame, hone, one_mul]

/-- The units of the fraction of a second do not reach a second. -/
theorem thousandths_le_oneUnits (t : Timestamp) : thousandths t.millis.val ≤ oneUnits := by
  rw [← thousandths_thousand]
  exact thousandths_mono (by omega)

/-- The units that are added up do not exceed the next whole second. -/
theorem units_le (t : Timestamp) :
    t.whole * oneUnits + thousandths t.millis.val ≤ (t.whole + 1) * oneUnits := by
  rw [add_mul _ 1, one_mul]
  exact Nat.add_le_add_left (thousandths_le_oneUnits t) _

/-- The seconds of a timestamp are the exact whole seconds and the rounded fraction, added and
rounded once more. -/
theorem units_toFloat (t : Timestamp) :
    Units t.toFloat (rounded (t.whole * oneUnits + thousandths t.millis.val) 1) := by
  have hminutes : Units (Float.ofNat t.minutes.val * 60.0) (t.minutes.val * 60 * oneUnits) := by
    have hsixty : (60.0 : Float) = Float.ofNat 60 := by decide +kernel
    rw [hsixty]
    exact (units_ofNat (by omega)).mul_natCast (units_ofNat (by decide)) (by omega)
  have hwhole := hminutes.add_natCast (units_ofNat (n := t.seconds.val) (by omega)) (by omega)
  have hmillis : Units (Float.ofNat t.millis.val / 1000.0) (thousandths t.millis.val) := by
    have hthousand : (1000.0 : Float) = Float.ofNat 1000 := by decide +kernel
    have hsame : rounded (t.millis.val * oneUnits * oneUnits) (1000 * oneUnits) =
        thousandths t.millis.val :=
      rounded_mul_right _ _ oneUnits_pos
    rw [hthousand, ← hsame]
    refine (units_ofNat (by omega)).div (units_ofNat (by decide))
      (Nat.mul_pos (by decide) oneUnits_pos) ?_
    rw [hsame]
    calc thousandths t.millis.val ≤ oneUnits := thousandths_le_oneUnits t
      _ = 1 * oneUnits := by rw [one_mul]
      _ < limit := mul_oneUnits_lt_limit (by decide)
  refine hwhole.add hmillis ?_
  have hlt : t.whole + 1 < 2 ^ 53 := by
    unfold whole
    omega
  calc rounded (t.whole * oneUnits + thousandths t.millis.val) 1
      ≤ rounded ((t.whole + 1) * oneUnits) 1 := rounded_mono Nat.one_pos (units_le t)
    _ = (t.whole + 1) * oneUnits := rounded_mul_oneUnits hlt
    _ < limit := mul_oneUnits_lt_limit hlt

/-- Seconds that are computed in doubles keep the order of timestamps. -/
theorem toFloat_mono {s t : Timestamp} (h : s.total ≤ t.total) : s.toFloat ≤ t.toFloat := by
  rw [(units_toFloat s).le_iff (units_toFloat t)]
  refine rounded_mono Nat.one_pos ?_
  unfold total at h
  rcases Nat.lt_or_ge s.whole t.whole with hlt | hge
  · calc s.whole * oneUnits + thousandths s.millis.val
        ≤ (s.whole + 1) * oneUnits := units_le s
      _ ≤ t.whole * oneUnits := Nat.mul_le_mul_right oneUnits hlt
      _ ≤ t.whole * oneUnits + thousandths t.millis.val := Nat.le_add_right _ _
  · have heq : s.whole = t.whole := by omega
    rw [heq]
    exact Nat.add_le_add_left (thousandths_mono (by omega)) _

end Montage.Timestamp
