import Mathlib.Algebra.Order.Ring.Nat

/-!
# Rounding to fifty-three binary digits

The arithmetic of doubles computes with a mantissa and two further bits: whether the exact result
reaches the middle of the unit above the mantissa, and whether it is off the middle and off the
mantissa. Here such a mantissa is the view of an exact quotient. Shifting it to the right divides
the quotient by a power of two, and the number that is kept in the end is the nearest one. So
rounding is a function of the exact quotient, and it keeps the order.
-/

namespace Montage.Double

open Float.Model UnpackedFloat

/-! ## Rounding a quotient -/

/-- The floor of a quotient, with the two bits that say where in the unit above it the quotient
lies. -/
def quotient (a d : ℕ) : ExtendedMantissa :=
  ⟨a / d, decide (d ≤ 2 * (a % d)), decide (a % d ≠ 0 ∧ 2 * (a % d) ≠ d)⟩

/-- A whole number is a quotient without a rest. -/
theorem quotient_one (a : ℕ) : quotient a 1 = .ofMantissaAndAccuracy a .exact := by
  simp [quotient, Nat.mod_one, ExtendedMantissa.ofMantissaAndAccuracy]

/-- The view depends on the value of a quotient only. -/
theorem quotient_mul_right (a d : ℕ) {c : ℕ} (hc : 0 < c) :
    quotient (a * c) (d * c) = quotient a d := by
  have hle : d * c ≤ 2 * (a % d * c) ↔ d ≤ 2 * (a % d) := by
    rw [← mul_assoc, Nat.mul_le_mul_right_iff hc]
  have hzero : a % d * c ≠ 0 ↔ a % d ≠ 0 := by simp [hc.ne']
  have heq : 2 * (a % d * c) ≠ d * c ↔ 2 * (a % d) ≠ d := by
    rw [← mul_assoc, Ne, Nat.mul_left_inj hc.ne']
  simp only [quotient, Nat.mul_div_mul_right _ _ hc, Nat.mul_mod_mul_right, hle, hzero, heq]

/-- Halving a quotient keeps what the two bits say about it. -/
theorem shiftRightOne_quotient (a : ℕ) {d : ℕ} (hd : 0 < d) :
    (quotient a d).shiftRightOne = quotient a (d * 2) := by
  have hdiv : a / (d * 2) = a / d / 2 := (Nat.div_div_eq_div_mul a d 2).symm
  have hmod : a % (d * 2) = a % d + d * (a / d % 2) := Nat.mod_mul
  have hlt : a % d < d := Nat.mod_lt a hd
  unfold quotient ExtendedMantissa.shiftRightOne
  rw [hdiv, hmod]
  rcases Nat.mod_two_eq_zero_or_one (a / d) with hbit | hbit
  · rw [hbit]
    congr 1
    · simp; omega
    · rw [← Bool.decide_or, decide_eq_decide]
      omega
  · rw [hbit]
    congr 1
    · simp; omega
    · rw [← Bool.decide_or, decide_eq_decide]
      omega

/-- Shifting a quotient to the right divides it by a power of two. -/
theorem shiftRight_quotient (a : ℕ) {d : ℕ} (hd : 0 < d) (n : ℕ) :
    quotient a d >>> n = quotient a (d * 2 ^ n) := by
  change n.repeat ExtendedMantissa.shiftRightOne (quotient a d) = _
  induction n with
  | zero => simp [Nat.repeat]
  | succ n ih =>
    rw [Nat.repeat, ih, shiftRightOne_quotient a (Nat.mul_pos hd (Nat.two_pow_pos n)), pow_succ,
      mul_assoc]

/-- The whole number nearest to a quotient; of two equally near the even one. -/
def nearest (a d : ℕ) : ℕ :=
  (quotient a d).roundedMantissa

/-- The nearest number is decided by twice the rest. -/
theorem nearest_eq (a : ℕ) {d : ℕ} (hd : 0 < d) :
    nearest a d =
      if 2 * (a % d) < d then a / d
      else if 2 * (a % d) = d then a / d + a / d % 2
      else a / d + 1 := by
  unfold nearest quotient ExtendedMantissa.roundedMantissa
  by_cases hlow : 2 * (a % d) < d
  · rw [if_pos hlow, decide_eq_false (by omega)]
    by_cases hzero : a % d = 0
    · simp [hzero, ExtendedMantissa.accuracy, Accuracy.roundToNearestEven]
    · simp [hzero, hlow.ne, ExtendedMantissa.accuracy, Accuracy.roundToNearestEven]
  · rw [if_neg hlow, decide_eq_true (by omega)]
    by_cases hhalf : 2 * (a % d) = d
    · simp [hhalf, ExtendedMantissa.accuracy, Accuracy.roundToNearestEven]
    · rw [if_neg hhalf]
      have hzero : a % d ≠ 0 := by omega
      simp [hzero, hhalf, ExtendedMantissa.accuracy, Accuracy.roundToNearestEven]

/-- No number below a quotient is passed over. -/
theorem le_nearest {a d k : ℕ} (hd : 0 < d) (h : k * d ≤ a) : k ≤ nearest a d := by
  have hk : k ≤ a / d := (Nat.le_div_iff_mul_le hd).2 h
  rw [nearest_eq a hd]
  split_ifs <;> omega

/-- No number above a quotient is passed over. -/
theorem nearest_le {a d k : ℕ} (hd : 0 < d) (h : a ≤ k * d) : nearest a d ≤ k := by
  have hdiv : d * (a / d) + a % d = a := Nat.div_add_mod a d
  have hfloor : a / d ≤ k := Nat.div_le_of_le_mul (by rwa [mul_comm])
  rcases hfloor.eq_or_lt with heq | hlt
  · -- the quotient is whole, so there is nothing to round
    have hzero : a % d = 0 := by
      rw [heq, mul_comm] at hdiv
      omega
    rw [nearest_eq a hd, hzero, if_pos (by omega)]
    exact hfloor
  · rw [nearest_eq a hd]
    split_ifs <;> omega

/-- A whole quotient is its own nearest number. -/
theorem nearest_mul_left (k : ℕ) {d : ℕ} (hd : 0 < d) : nearest (k * d) d = k :=
  le_antisymm (nearest_le hd le_rfl) (le_nearest hd le_rfl)

/-- The nearest number grows with the quotient. -/
theorem nearest_mono {a b d : ℕ} (hd : 0 < d) (h : a ≤ b) : nearest a d ≤ nearest b d := by
  have ha : d * (a / d) + a % d = a := Nat.div_add_mod a d
  have hb : d * (b / d) + b % d = b := Nat.div_add_mod b d
  have hdiv : a / d ≤ b / d := Nat.div_le_div_right h
  rcases hdiv.eq_or_lt with heq | hlt
  · have hmod : a % d ≤ b % d := by
      rw [heq] at ha
      omega
    rw [nearest_eq a hd, nearest_eq b hd, heq]
    split_ifs <;> omega
  · -- between the two lies the floor of the greater
    have hle : a ≤ b / d * d := by
      have := Nat.mul_le_mul_left d (Nat.succ_le_of_lt hlt)
      have := Nat.mod_lt a hd
      rw [mul_comm (b / d) d]
      rw [Nat.mul_succ] at *
      omega
    calc nearest a d ≤ b / d := nearest_le hd hle
      _ ≤ nearest b d := le_nearest hd (Nat.div_mul_le_self b d)

/-! ## Rounding to fifty-three binary digits -/

/-- The binary digits of a whole number beyond the first fifty-three. -/
def excess (n : ℕ) : ℕ :=
  n.log2 - 52

/-- The digits kept and the digits in excess are enough. -/
theorem lt_two_pow_excess (n : ℕ) : n < 2 ^ (excess n + 53) :=
  Nat.lt_log2_self.trans_le (Nat.pow_le_pow_right (by decide) (by unfold excess; omega))

/-- Where digits are in excess, all fifty-three are used. -/
theorem two_pow_excess_le {n : ℕ} (h : excess n ≠ 0) : 2 ^ (excess n + 52) ≤ n := by
  have hn : n ≠ 0 := by
    rintro rfl
    exact h (by decide)
  have heq : excess n + 52 = n.log2 := by
    unfold excess at *
    omega
  rw [heq]
  exact Nat.log2_self_le hn

/-- A number of few digits has no more than these in excess. -/
theorem excess_le {n s : ℕ} (h : n < 2 ^ (s + 53)) : excess n ≤ s := by
  by_contra hlt
  have hle : 2 ^ (s + 53) ≤ 2 ^ (excess n + 52) := Nat.pow_le_pow_right (by decide) (by omega)
  exact absurd (h.trans_le hle) (not_lt.2 (two_pow_excess_le (by omega)))

/-- Greater numbers have more digits in excess. -/
theorem excess_mono {m n : ℕ} (h : m ≤ n) : excess m ≤ excess n :=
  excess_le (h.trans_lt (lt_two_pow_excess n))

/-- The quotient `a / d`, rounded to fifty-three binary digits before the point. -/
def rounded (a d : ℕ) : ℕ :=
  nearest a (d * 2 ^ excess (a / d)) * 2 ^ excess (a / d)

/-- What fits fifty-three digits is not changed. -/
theorem rounded_mul_two_pow {m s : ℕ} (h : m < 2 ^ 53) : rounded (m * 2 ^ s) 1 = m * 2 ^ s := by
  have hle : excess (m * 2 ^ s) ≤ s := excess_le (by
    rw [add_comm, pow_add]
    exact Nat.mul_lt_mul_of_pos_right h (Nat.two_pow_pos s))
  have hsplit : m * 2 ^ s = m * 2 ^ (s - excess (m * 2 ^ s)) * 2 ^ excess (m * 2 ^ s) := by
    rw [mul_assoc, ← pow_add, Nat.sub_add_cancel hle]
  unfold rounded
  rw [Nat.div_one, one_mul]
  generalize excess (m * 2 ^ s) = t at hsplit
  rw [hsplit, nearest_mul_left _ (Nat.two_pow_pos t)]

/-- The digits that are kept are at most fifty-three, up to the next power of two. -/
theorem nearest_excess_le (a : ℕ) {d : ℕ} (hd : 0 < d) :
    nearest a (d * 2 ^ excess (a / d)) ≤ 2 ^ 53 := by
  refine nearest_le (Nat.mul_pos hd (Nat.two_pow_pos _)) ?_
  rw [mul_left_comm, ← pow_add, add_comm 53, mul_comm]
  exact ((Nat.div_lt_iff_lt_mul hd).1 (lt_two_pow_excess (a / d))).le

/-- Where digits are in excess, the first of the kept digits is one. -/
theorem le_nearest_excess {a d : ℕ} (hd : 0 < d) (h : excess (a / d) ≠ 0) :
    2 ^ 52 ≤ nearest a (d * 2 ^ excess (a / d)) := by
  refine le_nearest (Nat.mul_pos hd (Nat.two_pow_pos _)) ?_
  rw [mul_left_comm, ← pow_add, add_comm 52, mul_comm]
  exact (Nat.le_div_iff_mul_le hd).1 (two_pow_excess_le h)

/-- Rounding keeps the order. -/
theorem rounded_mono {a b d : ℕ} (hd : 0 < d) (h : a ≤ b) : rounded a d ≤ rounded b d := by
  have hdiv : a / d ≤ b / d := Nat.div_le_div_right h
  unfold rounded
  rcases (excess_mono hdiv).eq_or_lt with heq | hlt
  · rw [heq]
    exact Nat.mul_le_mul_right _ (nearest_mono (Nat.mul_pos hd (Nat.two_pow_pos _)) h)
  · -- a power of two lies between the two
    calc nearest a (d * 2 ^ excess (a / d)) * 2 ^ excess (a / d)
        ≤ 2 ^ 53 * 2 ^ excess (a / d) := Nat.mul_le_mul_right _ (nearest_excess_le a hd)
      _ = 2 ^ 52 * 2 ^ (excess (a / d) + 1) := by
        rw [pow_succ 2 52, pow_succ' 2 (excess _), mul_assoc]
      _ ≤ 2 ^ 52 * 2 ^ excess (b / d) :=
        Nat.mul_le_mul_left _ (Nat.pow_le_pow_right (by decide) hlt)
      _ ≤ _ := Nat.mul_le_mul_right _ (le_nearest_excess hd (by omega))

/-- Rounding does not see a common factor. -/
theorem rounded_mul_right (a d : ℕ) {c : ℕ} (hc : 0 < c) :
    rounded (a * c) (d * c) = rounded a d := by
  unfold rounded nearest
  rw [Nat.mul_div_mul_right _ _ hc, mul_right_comm d c, quotient_mul_right _ _ hc]

/-- Rounding depends on the value of a quotient only. -/
theorem rounded_congr {a b c d : ℕ} (hb : 0 < b) (hd : 0 < d) (h : a * d = c * b) :
    rounded a b = rounded c d := by
  rw [← rounded_mul_right a b hd, ← rounded_mul_right c d hb, h, mul_comm b d]

/-- Zero stays zero. -/
theorem rounded_zero {d : ℕ} (hd : 0 < d) : rounded 0 d = 0 := by
  have hle : nearest 0 (d * 2 ^ excess (0 / d)) ≤ 0 :=
    nearest_le (Nat.mul_pos hd (Nat.two_pow_pos _)) (Nat.zero_le _)
  unfold rounded
  rw [Nat.le_zero.1 hle, Nat.zero_mul]

end Montage.Double
