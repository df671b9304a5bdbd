import Mathlib.Data.Int.Log
import Mathlib.Data.Rat.Floor
import Mathlib.Tactic.FieldSimp
import Mathlib.Tactic.Linarith
import Mathlib.Tactic.Ring

/-!
# Rounding to doubles

The result of an operation on floats is the number that is nearest to the exact one
among those with 53 binary digits, and among two of these the one that is even.
Exponents are not limited.  Most facts need no more than that whole numbers of that many
digits are not passed.
-/

namespace Kukuruku.Doubles

/-! ## Whole numbers -/

/-- The nearest whole number; halves go to the even one. -/
def roundEven (x : ℚ) : Int :=
  if x - ⌊x⌋ < 1 / 2 then ⌊x⌋
  else if 1 / 2 < x - ⌊x⌋ then ⌊x⌋ + 1
  else if ⌊x⌋ % 2 = 0 then ⌊x⌋ else ⌊x⌋ + 1

variable {x : ℚ}

theorem roundEven_cases (x : ℚ) :
    roundEven x = ⌊x⌋ ∨ roundEven x = ⌊x⌋ + 1 ∧ (⌊x⌋ : ℚ) < x := by
  rw [roundEven]
  split_ifs with low high even
  · exact .inl rfl
  · exact .inr ⟨rfl, by linarith⟩
  · exact .inl rfl
  · exact .inr ⟨rfl, by linarith⟩

theorem le_roundEven {n : Int} (below : n ≤ x) : n ≤ roundEven x := by
  have floor : n ≤ ⌊x⌋ := Int.le_floor.mpr below
  rcases roundEven_cases x with same | ⟨next, -⟩ <;> omega

theorem roundEven_le {n : Int} (above : x ≤ n) : roundEven x ≤ n := by
  have floor : ⌊x⌋ ≤ n := Int.cast_le.mp ((Int.floor_le x).trans above)
  rcases roundEven_cases x with same | ⟨next, fraction⟩
  · omega
  · have strict : ⌊x⌋ < n := Int.cast_lt.mp (fraction.trans_le above)
    omega

/-! ## Doubles -/

/-- The last of the digits of a number. -/
def ulp (x : ℚ) : ℚ := 2 ^ (Int.log 2 |x| - 52)

def nearest (x : ℚ) : ℚ := roundEven (x / ulp x) * ulp x

theorem ulp_pos (x : ℚ) : 0 < ulp x := zpow_pos two_pos _

theorem le_nearest {m : Int} (below : m * ulp x ≤ x) : m * ulp x ≤ nearest x := by
  have scaled : (m : ℚ) ≤ x / ulp x := (le_div_iff₀ (ulp_pos x)).mpr below
  exact mul_le_mul_of_nonneg_right (Int.cast_le.mpr (le_roundEven scaled)) (ulp_pos x).le

theorem nearest_le {m : Int} (above : x ≤ m * ulp x) : nearest x ≤ m * ulp x := by
  have scaled : x / ulp x ≤ (m : ℚ) := (div_le_iff₀ (ulp_pos x)).mpr above
  exact mul_le_mul_of_nonneg_right (Int.cast_le.mpr (roundEven_le scaled)) (ulp_pos x).le

/-- Below 2^53 the last digit divides 1. -/
theorem whole_of_small (small : Int.log 2 |x| ≤ 52) (n : Int) :
    ∃ m : Int, (n : ℚ) = m * ulp x := by
  obtain ⟨k, digits⟩ := Int.eq_ofNat_of_zero_le (show 0 ≤ 52 - Int.log 2 |x| by omega)
  refine ⟨n * 2 ^ k, ?_⟩
  have exponent : Int.log 2 |x| - 52 = -(k : Int) := by omega
  rw [ulp, exponent, zpow_neg, zpow_natCast]
  push_cast
  field_simp

/-- From 2^53 on a number is at least as far from zero as its first digit says. -/
theorem large (big : 52 < Int.log 2 |x|) :
    (2 ^ 53 : ℚ) ≤ 2 ^ 52 * ulp x ∧ 2 ^ 52 * ulp x ≤ |x| := by
  have first : (2 ^ 52 * ulp x : ℚ) = 2 ^ Int.log 2 |x| := by
    rw [ulp, ← zpow_natCast, ← zpow_add₀ (two_ne_zero)]
    congr 1
    push_cast
    ring
  rw [first]
  constructor
  · have grows : ((2 : ℚ) ^ (53 : Int)) ≤ 2 ^ Int.log 2 |x| :=
      zpow_le_zpow_right₀ one_le_two (by omega)
    exact_mod_cast grows
  · have positive : 0 < |x| := by
      by_contra none
      rw [Int.log_of_right_le_zero 2 (not_lt.mp none)] at big
      omega
    exact_mod_cast Int.zpow_log_le_self (b := 2) one_lt_two positive

/-! ## What a rounding keeps -/

/-- No whole number of at most 53 digits is passed. -/
structure Rounding (round : ℚ → ℚ) : Prop where
  le_round : ∀ (n : Int) (x : ℚ), |n| ≤ 2 ^ 53 → n ≤ x → n ≤ round x
  round_le : ∀ (n : Int) (x : ℚ), |n| ≤ 2 ^ 53 → x ≤ n → round x ≤ n

theorem rounding_nearest : Rounding nearest where
  le_round n x digits below := by
    rcases le_or_gt (Int.log 2 |x|) 52 with small | big
    · obtain ⟨m, whole⟩ := whole_of_small small n
      rw [whole] at below ⊢
      exact le_nearest below
    · obtain ⟨top, far⟩ := large big
      obtain ⟨low, high⟩ := abs_le.mp digits
      have lower : (-2 ^ 53 : ℚ) ≤ n := by exact_mod_cast low
      have upper : (n : ℚ) ≤ 2 ^ 53 := by exact_mod_cast high
      rcases le_abs'.mp far with left | right
      · have same : (n : ℚ) = ((-2 ^ 52 : Int) : ℚ) * ulp x := by
          push_cast
          linarith
        rw [same] at below ⊢
        exact le_nearest below
      · have reached := le_nearest (m := 2 ^ 52) (x := x) (by push_cast; exact right)
        push_cast at reached
        linarith
  round_le n x digits above := by
    rcases le_or_gt (Int.log 2 |x|) 52 with small | big
    · obtain ⟨m, whole⟩ := whole_of_small small n
      rw [whole] at above ⊢
      exact nearest_le above
    · obtain ⟨top, far⟩ := large big
      obtain ⟨low, high⟩ := abs_le.mp digits
      have lower : (-2 ^ 53 : ℚ) ≤ n := by exact_mod_cast low
      have upper : (n : ℚ) ≤ 2 ^ 53 := by exact_mod_cast high
      rcases le_abs'.mp far with left | right
      · have reached := nearest_le (m := -2 ^ 52) (x := x) (by push_cast; linarith)
        push_cast at reached
        linarith
      · have same : (n : ℚ) = ((2 ^ 52 : Int) : ℚ) * ulp x := by
          push_cast
          linarith
        rw [same] at above ⊢
        exact nearest_le above

namespace Rounding

variable {round : ℚ → ℚ}

theorem whole (rounding : Rounding round) {n : Int} (digits : |n| ≤ 2 ^ 53) :
    round n = n :=
  le_antisymm (rounding.round_le n n digits le_rfl) (rounding.le_round n n digits le_rfl)

/-- What is rounded off a number that is not too large stays between two whole ones. -/
theorem between (rounding : Rounding round) (digits : |x| ≤ 2 ^ 53) :
    (⌊x⌋ : ℚ) ≤ round x ∧ round x ≤ ⌈x⌉ := by
  obtain ⟨low, high⟩ := abs_le.mp digits
  have lowest : -2 ^ 53 ≤ ⌊x⌋ := Int.le_floor.mpr (by push_cast; exact low)
  have highest : ⌈x⌉ ≤ 2 ^ 53 := Int.ceil_le.mpr (by push_cast; exact high)
  have order : ⌊x⌋ ≤ ⌈x⌉ := Int.floor_le_ceil x
  exact ⟨rounding.le_round _ x (abs_le.mpr ⟨lowest, order.trans highest⟩) (Int.floor_le x),
    rounding.round_le _ x (abs_le.mpr ⟨lowest.trans order, highest⟩) (Int.le_ceil x)⟩

/-- A number beyond the digits stays beyond them. -/
theorem digits_of_round (rounding : Rounding round) (digits : |round x| < 2 ^ 53) :
    |x| ≤ 2 ^ 53 := by
  obtain ⟨low, high⟩ := abs_lt.mp digits
  refine abs_le.mpr ⟨le_of_not_gt fun below => ?_, le_of_not_gt fun above => ?_⟩
  · have far := rounding.round_le (-2 ^ 53) x (by decide) (by push_cast; exact below.le)
    push_cast at far
    linarith
  · have far := rounding.le_round (2 ^ 53) x (by decide) (by push_cast; exact above.le)
    push_cast at far
    linarith

end Rounding

end Kukuruku.Doubles
