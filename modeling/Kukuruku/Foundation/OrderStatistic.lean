import Mathlib.Data.List.Sort
import Mathlib.Order.Defs.LinearOrder
import Kukuruku.Foundation.PythonList

/-!
# Order statistics

Which element stands at a place of the sorted list is said by two counts, without the
sorted list.
-/

namespace Kukuruku.OrderStatistic

open Kukuruku.PythonList

variable {α : Type*} [LinearOrder α]

/-- At most `rank` elements are below `x`, and more than `rank` of them are at most `x`. -/
def AtRank (xs : List α) (rank : Nat) (x : α) : Prop :=
  xs.countP (· < x) ≤ rank ∧ rank < xs.countP (· ≤ x)

/-- The element that a Python index finds in the sorted list: a negative rank counts from
the end. -/
def Ranked (xs : List α) (rank : Int) (x : α) : Prop :=
  ∃ k : Nat, (k : Int) = (if rank < 0 then rank + xs.length else rank) ∧ AtRank xs k x

/-! ## Counting -/

section Counting

variable {α : Type*} {xs : List α} {p : α → Bool} {k : Nat}

end Counting

/-! ## The sorted list -/

variable {xs : List α}

theorem AtRank.lt_length {k : Nat} {x : α} (at_k : AtRank xs k x) : k < xs.length :=
  at_k.2.trans_le List.countP_le_length

/-- `sorted`, which keeps equal elements in their order. -/
def sorted (xs : List α) : List α := xs.insertionSort (· ≤ ·)

end Kukuruku.OrderStatistic
