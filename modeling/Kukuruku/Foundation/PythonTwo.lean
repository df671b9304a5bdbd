import Mathlib.Algebra.Order.Field.Basic
import Mathlib.Tactic.Linarith
import Mathlib.Tactic.NormNum
import Kukuruku.Foundation.Truncate

/-!
# Numbers in Python 2

An integer and a float with one value are different numbers: a quotient of two integers
is rounded down, and one of floats is not.  Floats are exact.
-/

namespace Kukuruku.PythonTwo

inductive Number (K : Type*) where
  | int (n : Int)
  | float (x : K)
deriving DecidableEq

namespace Number

/-! ## Operations -/

section Operations

variable {K : Type*} [Field K]

def value : Number K → K
  | .int n => n
  | .float x => x

/-- The result is an integer only where both numbers are. -/
def lift (ints : Int → Int → Int) (floats : K → K → K) : Number K → Number K → Number K
  | .int m, .int n => .int (ints m n)
  | x, y => .float (floats x.value y.value)

instance : Add (Number K) := ⟨lift (· + ·) (· + ·)⟩

instance : Sub (Number K) := ⟨lift (· - ·) (· - ·)⟩

/-- The divisor is not zero, which would be an exception. -/
instance : Div (Number K) := ⟨lift Int.fdiv (· / ·)⟩

/-- `int(x)`. -/
def toInt [LinearOrder K] [FloorRing K] : Number K → Int
  | .int n => n
  | .float x => truncate x

@[simp] theorem value_int (n : Int) : (int n : Number K).value = n := rfl

@[simp] theorem value_float (x : K) : (float x).value = x := rfl

@[simp] theorem float_div (x : K) (y : Number K) : float x / y = float (x / y.value) := by
  cases y <;> rfl

@[simp] theorem div_float (x : Number K) (y : K) : x / float y = float (x.value / y) := by
  cases x <;> rfl

theorem value_add (x y : Number K) : (x + y).value = x.value + y.value := by
  cases x <;> cases y
  · exact Int.cast_add _ _
  all_goals rfl

theorem value_sub (x y : Number K) : (x - y).value = x.value - y.value := by
  cases x <;> cases y
  · exact Int.cast_sub _ _
  all_goals rfl

end Operations

/-! ## Rounding down -/

section Rounding

variable {K : Type*} [Field K] [LinearOrder K] [IsStrictOrderedRing K]

theorem fdiv_bounds_of_pos (m : Int) {n : Int} (positive : 0 < n) :
    ((m.fdiv n : Int) : K) ≤ m / n ∧ (m : K) / n < (m.fdiv n : Int) + 1 := by
  have divisor : (0 : K) < n := Int.cast_pos.mpr positive
  have low : m.fdiv n * n ≤ m := by
    rw [Int.fdiv_eq_ediv_of_nonneg m positive.le]
    exact Int.ediv_mul_le m positive.ne'
  have high : m < (m.fdiv n + 1) * n := by
    rw [Int.fdiv_eq_ediv_of_nonneg m positive.le]
    exact Int.lt_ediv_add_one_mul_self m positive
  rw [le_div_iff₀ divisor, div_lt_iff₀ divisor]
  exact ⟨by exact_mod_cast low, by exact_mod_cast high⟩

theorem fdiv_bounds (m : Int) {n : Int} (divides : n ≠ 0) :
    ((m.fdiv n : Int) : K) ≤ m / n ∧ (m : K) / n < (m.fdiv n : Int) + 1 := by
  rcases lt_or_gt_of_ne divides with negative | positive
  · have bounds := @fdiv_bounds_of_pos K _ _ _ (-m) _ (neg_pos.mpr negative)
    rwa [Int.neg_fdiv_neg, Int.cast_neg, Int.cast_neg, neg_div_neg_eq] at bounds
  · exact fdiv_bounds_of_pos m positive

/-- A quotient is rounded down by less than one. -/
theorem value_div_bounds (x : Number K) {y : Number K} (divides : y.value ≠ 0) :
    (x / y).value ≤ x.value / y.value ∧ x.value / y.value < (x / y).value + 1 := by
  match x, y with
  | .int m, .int n => exact fdiv_bounds m (Int.cast_ne_zero.mp divides)
  | .int m, .float y => exact ⟨le_rfl, lt_add_one _⟩
  | .float x, .int n => exact ⟨le_rfl, lt_add_one _⟩
  | .float x, .float y => exact ⟨le_rfl, lt_add_one _⟩

end Rounding

end Number

end Kukuruku.PythonTwo
