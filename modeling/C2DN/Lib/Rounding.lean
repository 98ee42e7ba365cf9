import Mathlib.Algebra.Order.Floor.Ring
import Mathlib.Data.Int.Log
import Mathlib.Data.Rat.Floor
import Mathlib.Tactic.FieldSimp
import Mathlib.Tactic.Linarith
import Mathlib.Tactic.Ring

/-!
# Rounding to significant bits

The result of an operation on binary floating-point numbers is the exact one, rounded to the nearest
number with `p` significant bits; of two such numbers it is the one whose last bit is 0. This is about
numbers from 0 on, whose exponents are neither too small nor too large for the format.
-/

namespace C2DN

/-- The nearest integer, of two the even one. -/
def roundEven (x : ℚ) : ℤ :=
  if 2 * Int.fract x < 1 then ⌊x⌋
  else if 1 < 2 * Int.fract x then ⌊x⌋ + 1
  else if ⌊x⌋ % 2 = 0 then ⌊x⌋ else ⌊x⌋ + 1

/-- The unit in the last of `p` places. -/
def ulp (p : ℕ) (x : ℚ) : ℚ := 2 ^ (Int.log 2 x + 1 - p)

/-- The nearest number with `p` significant bits. -/
def roundTo (p : ℕ) (x : ℚ) : ℚ := roundEven (x / ulp p x) * ulp p x

section
variable {x y : ℚ}

theorem floor_le_roundEven (x : ℚ) : ⌊x⌋ ≤ roundEven x := by
  unfold roundEven
  split_ifs <;> omega

theorem roundEven_le_floor_add_one (x : ℚ) : roundEven x ≤ ⌊x⌋ + 1 := by
  unfold roundEven
  split_ifs <;> omega

theorem roundEven_intCast (z : ℤ) : roundEven z = z := by
  unfold roundEven
  rw [Int.fract_intCast, mul_zero, if_pos zero_lt_one, Int.floor_intCast]

/-- Rounding adds a half at most. -/
theorem roundEven_le (x : ℚ) : (roundEven x : ℚ) ≤ x + 1 / 2 := by
  have hx := Int.floor_add_fract x
  have h0 := Int.fract_nonneg x
  unfold roundEven
  split_ifs with hlow hhigh heven
  · linarith
  · push_cast
    linarith
  · linarith
  · push_cast
    linarith

theorem roundEven_mono (h : x ≤ y) : roundEven x ≤ roundEven y := by
  have hfloor := Int.floor_mono h
  obtain hlt | heq := hfloor.lt_or_eq
  · calc roundEven x ≤ ⌊x⌋ + 1 := roundEven_le_floor_add_one x
      _ ≤ ⌊y⌋ := hlt
      _ ≤ roundEven y := floor_le_roundEven y
  · -- between the same integers the fractional parts decide
    have hfract : Int.fract x ≤ Int.fract y := by
      rw [Int.fract, Int.fract, heq]
      linarith
    unfold roundEven
    rw [heq]
    split_ifs <;> first | omega | linarith

end

section
variable {p : ℕ} {x y : ℚ}

theorem ulp_pos (p : ℕ) (x : ℚ) : 0 < ulp p x := zpow_pos two_pos _

theorem roundTo_zero (p : ℕ) : roundTo p 0 = 0 := by
  have hzero : roundEven 0 = 0 := roundEven_intCast 0
  rw [roundTo, zero_div, hzero, Int.cast_zero, zero_mul]

/-- A number from `2 ^ e` on is not rounded below it. -/
theorem zpow_le_roundTo (hp : 0 < p) (hx : 0 < x) : (2 : ℚ) ^ Int.log 2 x ≤ roundTo p x := by
  have hpow : (2 : ℚ) ^ Int.log 2 x = ((2 ^ (p - 1) : ℕ) : ℤ) * ulp p x := by
    rw [ulp]
    push_cast
    rw [← zpow_natCast, ← zpow_add₀ two_ne_zero]
    congr 1
    omega
  have hlog : ((2 : ℕ) : ℚ) ^ Int.log 2 x ≤ x := Int.zpow_log_le_self Nat.one_lt_two hx
  rw [Nat.cast_ofNat] at hlog
  rw [roundTo]
  conv_lhs => rw [hpow]
  refine mul_le_mul_of_nonneg_right ?_ (ulp_pos p x).le
  rw [Int.cast_le, ← roundEven_intCast ((2 ^ (p - 1) : ℕ) : ℤ)]
  refine roundEven_mono ((le_div_iff₀ (ulp_pos p x)).mpr ?_)
  rwa [← hpow]

/-- A number below `2 ^ e` is not rounded above it. -/
theorem roundTo_le_zpow (p : ℕ) (x : ℚ) : roundTo p x ≤ (2 : ℚ) ^ (Int.log 2 x + 1) := by
  have hpow : (2 : ℚ) ^ (Int.log 2 x + 1) = ((2 ^ p : ℕ) : ℤ) * ulp p x := by
    rw [ulp]
    push_cast
    rw [← zpow_natCast, ← zpow_add₀ two_ne_zero]
    congr 1
    omega
  have hlog : x < ((2 : ℕ) : ℚ) ^ (Int.log 2 x + 1) := Int.lt_zpow_succ_log_self Nat.one_lt_two x
  rw [Nat.cast_ofNat] at hlog
  rw [roundTo]
  conv_rhs => rw [hpow]
  refine mul_le_mul_of_nonneg_right ?_ (ulp_pos p x).le
  rw [Int.cast_le, ← roundEven_intCast ((2 ^ p : ℕ) : ℤ)]
  refine roundEven_mono ((div_le_iff₀ (ulp_pos p x)).mpr ?_)
  rw [← hpow]
  exact hlog.le

theorem roundTo_nonneg (hp : 0 < p) (hx : 0 ≤ x) : 0 ≤ roundTo p x := by
  obtain hx | rfl := hx.lt_or_eq'
  · exact (zpow_pos two_pos _).le.trans (zpow_le_roundTo hp hx)
  · exact (roundTo_zero p).ge

/-- **Rounding keeps the order.** -/
theorem roundTo_mono (hp : 0 < p) (hx : 0 ≤ x) (h : x ≤ y) : roundTo p x ≤ roundTo p y := by
  obtain hx | rfl := hx.lt_or_eq'
  · obtain hlt | heq := (Int.log_mono_right (b := 2) hx h).lt_or_eq
    · -- a power of two lies between them
      calc roundTo p x ≤ (2 : ℚ) ^ (Int.log 2 x + 1) := roundTo_le_zpow p x
        _ ≤ (2 : ℚ) ^ Int.log 2 y := zpow_le_zpow_right₀ one_le_two hlt
        _ ≤ roundTo p y := zpow_le_roundTo hp (hx.trans_le h)
    · have hulp : ulp p x = ulp p y := by rw [ulp, ulp, heq]
      rw [roundTo, roundTo, hulp]
      refine mul_le_mul_of_nonneg_right ?_ (ulp_pos p y).le
      rw [Int.cast_le]
      exact roundEven_mono (div_le_div_of_nonneg_right h (ulp_pos p y).le)
  · rw [roundTo_zero]
    exact roundTo_nonneg hp h

/-- Rounding adds one part in `2 ^ p` at most. -/
theorem roundTo_le (p : ℕ) (hx : 0 ≤ x) : roundTo p x ≤ x * (1 + 1 / 2 ^ p) := by
  obtain hx | rfl := hx.lt_or_eq'
  · have hlog : ((2 : ℕ) : ℚ) ^ Int.log 2 x ≤ x := Int.zpow_log_le_self Nat.one_lt_two hx
    rw [Nat.cast_ofNat] at hlog
    have hulp : ulp p x = 2 ^ Int.log 2 x * (2 / 2 ^ p) := by
      rw [ulp, zpow_sub₀ two_ne_zero, zpow_add₀ two_ne_zero, zpow_one, zpow_natCast]
      ring
    have hdiv : x / ulp p x * ulp p x = x := div_mul_cancel₀ x (ulp_pos p x).ne'
    calc roundTo p x ≤ (x / ulp p x + 1 / 2) * ulp p x :=
          mul_le_mul_of_nonneg_right (roundEven_le _) (ulp_pos p x).le
      _ = x + 2 ^ Int.log 2 x / 2 ^ p := by
          rw [add_mul, hdiv, hulp]
          ring
      _ ≤ x + x / 2 ^ p := by
          refine add_le_add_right ?_ x
          exact div_le_div_of_nonneg_right hlog (pow_nonneg two_pos.le p)
      _ = x * (1 + 1 / 2 ^ p) := by ring
  · rw [roundTo_zero, zero_mul]

/-- Numbers of at most `p` bits are not rounded. -/
theorem roundTo_natCast {m : ℕ} (h : m < 2 ^ p) : roundTo p m = m := by
  obtain rfl | hm := Nat.eq_zero_or_pos m
  · rw [Nat.cast_zero, roundTo_zero]
  · have hlog : Nat.log 2 m + 1 ≤ p := Nat.log_lt_of_lt_pow hm.ne' h
    have hulp : ulp p m = (2 ^ (p - (Nat.log 2 m + 1)))⁻¹ := by
      rw [ulp, Int.log_natCast, ← zpow_natCast, ← zpow_neg]
      congr 1
      omega
    have hdiv : (m : ℚ) / ulp p m = ((m * 2 ^ (p - (Nat.log 2 m + 1)) : ℕ) : ℤ) := by
      rw [hulp, div_inv_eq_mul]
      push_cast
      rfl
    rw [roundTo, hdiv, roundEven_intCast, ← hdiv, div_mul_cancel₀ _ (ulp_pos p m).ne']

end

end C2DN
