import Mathlib.Algebra.Order.Field.Basic
import Mathlib.Algebra.Order.Floor.Ring
import Mathlib.Tactic.Linarith

/-!
# Truncation towards zero

The conversion of a number to an integer type that is wide enough.
-/

namespace Kukuruku

variable {K : Type*} [Field K] [LinearOrder K] [FloorRing K]

def truncate (x : K) : Int := if 0 ≤ x then ⌊x⌋ else ⌈x⌉

variable {x : K}

theorem truncate_of_nonneg (nonneg : 0 ≤ x) : truncate x = ⌊x⌋ := if_pos nonneg

/-- A number from `0` up to a bound stays there. -/
theorem truncate_bounds {bound : Nat} (nonneg : 0 ≤ x) (below : x < bound) :
    0 ≤ truncate x ∧ truncate x < bound := by
  rw [truncate_of_nonneg nonneg]
  exact ⟨Int.floor_nonneg.mpr nonneg, Int.floor_lt.mpr (by exact_mod_cast below)⟩

variable [IsStrictOrderedRing K]

theorem abs_truncate_sub_lt (x : K) : |(truncate x : K) - x| < 1 := by
  rw [truncate, abs_lt]
  split_ifs
  · have low := Int.floor_le x
    have high := Int.lt_floor_add_one x
    constructor <;> linarith
  · have low := Int.le_ceil x
    have high := Int.ceil_lt_add_one x
    constructor <;> linarith

theorem truncate_le {k : Int} (below : x ≤ k) : truncate x ≤ k := by
  rw [truncate]
  split_ifs
  · exact (Int.floor_le_ceil x).trans (Int.ceil_le.mpr below)
  · exact Int.ceil_le.mpr below

theorem truncate_intCast (n : Int) : truncate (n : K) = n := by
  rw [truncate, Int.floor_intCast, Int.ceil_intCast, ite_self]

theorem le_truncate {k : Int} (above : k ≤ x) : k ≤ truncate x := by
  rw [truncate]
  split_ifs
  · exact Int.le_floor.mpr above
  · exact (Int.le_floor.mpr above).trans (Int.floor_le_ceil x)

theorem truncate_range {bound : Int} (within : |x| ≤ bound) :
    -bound ≤ truncate x ∧ truncate x ≤ bound := by
  obtain ⟨low, high⟩ := abs_le.mp within
  rw [truncate]
  split_ifs with nonneg
  · have positive := Int.floor_nonneg.mpr nonneg
    have limited : ⌊x⌋ ≤ bound := by exact_mod_cast (Int.floor_le x).trans high
    omega
  · have negative : ⌈x⌉ ≤ 0 := Int.ceil_le.mpr (by push_cast; linarith)
    have limited : -bound ≤ ⌈x⌉ := by
      have lower := low.trans (Int.le_ceil x)
      exact_mod_cast lower
    omega

end Kukuruku
