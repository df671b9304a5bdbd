import Mathlib.Logic.Function.Basic
import Mathlib.Data.List.Basic
import Mathlib.Order.Bounds.Defs

/-!
# Ring buffers over a growing log

Entry `j` of a log lives in the slot of the absolute position `base + j`, taken
modulo the capacity with the remainder of C.  `Holds` says that the ring still
has every log entry from `low` on, `Within` that it has nothing else.  The two
operations of a writer, clearing the next slot and storing the next entry,
preserve the first as long as fewer than a capacity's worth of entries has to
stay, and the second always.
-/

namespace Kukuruku.Ring

variable {α : Type*}

/-- Slot contents; `none` is a slot that holds no complete entry. -/
abbrev Cells (α : Type*) := Int → Option α

/-- Positions less than one capacity apart have different slots. -/
theorem tmod_ne {capacity left right : Int} (nonneg : 0 ≤ left) (before : left < right)
    (near : right < left + capacity) : left.tmod capacity ≠ right.tmod capacity := by
  intro same
  rw [Int.tmod_eq_emod_of_nonneg nonneg, Int.tmod_eq_emod_of_nonneg (by omega)] at same
  have divides : capacity ∣ right - left :=
    Int.dvd_of_emod_eq_zero (Int.emod_eq_emod_iff_emod_sub_eq_zero.mp same.symm)
  have bound := Int.le_of_dvd (by omega) divides
  omega

theorem tmod_add_self {capacity position : Int} (nonneg : 0 ≤ position)
    (positive : 0 < capacity) :
    (position + capacity).tmod capacity = position.tmod capacity := by
  rw [Int.tmod_eq_emod_of_nonneg (by omega), Int.tmod_eq_emod_of_nonneg nonneg]
  exact Int.add_emod_right position capacity

/-- The ring still holds the log entries from `low` on. -/
def Holds (capacity base : Int) (cells : Cells α) (log : List α) (low : Nat) : Prop :=
  ∀ j : Nat, low ≤ j → j < log.length → cells ((base + j).tmod capacity) = log[j]?

namespace Holds

variable {capacity base : Int} {cells : Cells α} {log : List α} {low : Nat}

theorem nil : Holds capacity base cells [] low := by
  intro j _ inside
  exact absurd inside (Nat.not_lt_zero j)

/-- Fewer entries are held as well. -/
theorem weaken {later : Nat} (holds : Holds capacity base cells log low)
    (le : low ≤ later) : Holds capacity base cells log later :=
  fun j after inside => holds j (Nat.le_trans le after) inside

/-- Clearing the slot of the next entry loses the entry one capacity before. -/
theorem clear (holds : Holds capacity base cells log low) (nonneg : 0 ≤ base)
    (room : (log.length : Int) < low + capacity) :
    Holds capacity base
      (Function.update cells ((base + log.length).tmod capacity) none) log low := by
  intro j after inside
  rw [Function.update_of_ne]
  · exact holds j after inside
  · exact tmod_ne (by omega) (by omega) (by omega)

/-- Storing the next entry into its slot extends the log. -/
theorem store (holds : Holds capacity base cells log low) (nonneg : 0 ≤ base)
    (room : (log.length : Int) < low + capacity) (entry : α) :
    Holds capacity base
      (Function.update cells ((base + log.length).tmod capacity) (some entry))
      (log ++ [entry]) low := by
  intro j after inside
  rw [List.length_append, List.length_singleton] at inside
  by_cases last : j = log.length
  · subst last
    simp
  · rw [Function.update_of_ne, List.getElem?_append_left (by omega)]
    · exact holds j after (by omega)
    · exact tmod_ne (by omega) (by omega) (by omega)

end Holds

/-- Every entry in the ring is one of the log from `low` on, in its own slot. -/
def Within (capacity base : Int) (cells : Cells α) (log : List α) (low : Nat) : Prop :=
  ∀ slot entry, cells slot = some entry →
    ∃ j : Nat, low ≤ j ∧ log[j]? = some entry ∧ slot = (base + j).tmod capacity

namespace Within

variable {capacity base : Int} {cells : Cells α} {log : List α} {low : Nat}

theorem empty : Within capacity base (fun _ => none) log low := by
  intro slot entry found
  cases found

/-- Clearing a slot adds nothing. -/
theorem clear (within : Within capacity base cells log low) (position : Int) :
    Within capacity base (Function.update cells position none) log low := by
  intro slot entry found
  rw [Function.update_apply] at found
  split at found
  · cases found
  · exact within slot entry found

/-- In a full ring, clearing the next slot drops the oldest entry. -/
theorem clear_full (within : Within capacity base cells log low) (nonneg : 0 ≤ base)
    (positive : 0 < capacity) (full : (log.length : Int) = low + capacity) :
    Within capacity base
      (Function.update cells ((base + log.length).tmod capacity) none) log (low + 1) := by
  intro slot entry found
  rw [Function.update_apply] at found
  split at found
  · cases found
  · rename_i other
    obtain ⟨j, after, inLog, place⟩ := within slot entry found
    refine ⟨j, ?_, inLog, place⟩
    refine Nat.lt_of_le_of_ne after ?_
    rintro rfl
    apply other
    rw [place, full, ← Int.add_assoc, tmod_add_self (by omega) positive]

/-- Storing the next entry into its slot extends the log. -/
theorem store (within : Within capacity base cells log low) (low_le : low ≤ log.length)
    (entry : α) :
    Within capacity base
      (Function.update cells ((base + log.length).tmod capacity) (some entry))
      (log ++ [entry]) low := by
  intro slot other found
  rw [Function.update_apply] at found
  split at found
  · rename_i place
    obtain rfl := Option.some.inj found
    exact ⟨log.length, low_le, by simp, place⟩
  · obtain ⟨j, after, inLog, place⟩ := within slot other found
    refine ⟨j, after, ?_, place⟩
    obtain ⟨inside, _⟩ := List.getElem?_eq_some_iff.mp inLog
    rw [List.getElem?_append_left inside, inLog]

end Within

end Kukuruku.Ring
