import Mathlib.Data.Int.Interval
import Mathlib.Data.List.Basic

/-!
# Indices of Python lists

A negative index counts from the end of a list.  An index outside the list is an
error where one element is read; the bounds of a slice are moved into the list.
-/

namespace Kukuruku.PythonList

variable {α : Type*} {xs : List α}

/-- `range(a, b)`. -/
def range (a b : Int) : List Int := (List.range (b - a).toNat).map fun k : Nat => a + k

/-- An index that does not count from the end, of a list of length `n`. -/
def InBounds (n : Nat) (i : Int) : Prop := 0 ≤ i ∧ i < n

instance (n : Nat) (i : Int) : Decidable (InBounds n i) := inferInstanceAs (Decidable (_ ∧ _))

/-- `xs[i]`, `none` on an IndexError. -/
def index? (xs : List α) (i : Int) : Option α :=
  if 0 ≤ i then xs[i.toNat]?
  else if -(xs.length : Int) ≤ i then xs[(i + xs.length).toNat]?
  else none

/-- Where a slice bound lies in a list of length `n`. -/
def bound (n : Nat) (i : Int) : Nat := (if i < 0 then i + n else i).toNat

/-- `xs[a:b]`. -/
def slice (xs : List α) (a b : Int) : List α :=
  (xs.take (bound xs.length b)).drop (bound xs.length a)

@[simp] theorem mem_range {a b i : Int} : i ∈ range a b ↔ a ≤ i ∧ i < b := by
  simp only [range, List.mem_map, List.mem_range]
  constructor
  · rintro ⟨k, inside, rfl⟩
    omega
  · rintro ⟨low, high⟩
    exact ⟨(i - a).toNat, by omega, by omega⟩

theorem index?_of_nonneg {i : Int} (nonneg : 0 ≤ i) : index? xs i = xs[i.toNat]? := if_pos nonneg

theorem index?_eq_some {i : Int} {x : α} (found : index? xs i = some x) :
    ∃ k : Nat, xs[k]? = some x := by
  rw [index?] at found
  split_ifs at found
  · exact ⟨_, found⟩
  · exact ⟨_, found⟩

end Kukuruku.PythonList
