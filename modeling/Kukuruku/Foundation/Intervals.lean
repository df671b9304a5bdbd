import Mathlib.Data.List.Basic
import Mathlib.Data.Set.Lattice
import Mathlib.Order.CompletePartialOrder
import Mathlib.Order.Interval.Set.Basic

/-!
# Lists of intervals and binary search

An interval is a pair of ends in a linear order; when the ends are reversed it
is empty.  A binary search halves a list by a test that fails on a front part
and succeeds on the rest.
-/

namespace Kukuruku.Intervals

/-! ## Binary search -/

section Bisect

variable {β : Type*} (before : β → Bool) (l : List β)

/-- The halving loop between two places of a list. -/
def bisectLoop (lo hi : Nat) : Nat :=
  if _open : lo < hi then
    match l[(lo + hi) / 2]? with
    | some entry =>
        if before entry then bisectLoop lo ((lo + hi) / 2)
        else bisectLoop ((lo + hi) / 2 + 1) hi
    | none => lo
  else lo
termination_by hi - lo
decreasing_by all_goals omega

/-- The place before which an element belongs that comes `before` what it tests. -/
def bisect : Nat := bisectLoop before l 0 l.length

variable {before l}

/-- Once the test succeeds it goes on to succeed. -/
def Halved (before : β → Bool) (l : List β) : Prop :=
  l.Pairwise fun first second => before first = true → before second = true

theorem Halved.later (halved : Halved before l) {i j : Nat} {first second : β}
    (order : i ≤ j) (at_i : l[i]? = some first) (at_j : l[j]? = some second)
    (yes : before first = true) : before second = true := by
  rcases Nat.lt_or_eq_of_le order with lt | rfl
  · obtain ⟨inside_i, rfl⟩ := List.getElem?_eq_some_iff.mp at_i
    obtain ⟨inside_j, rfl⟩ := List.getElem?_eq_some_iff.mp at_j
    exact List.pairwise_iff_getElem.mp halved i j inside_i inside_j lt yes
  · rw [at_i] at at_j
    exact Option.some.inj at_j ▸ yes

theorem bisectLoop_eq_findIdx (halved : Halved before l) {lo hi : Nat}
    (low : lo ≤ l.findIdx before) (high : l.findIdx before ≤ hi) (inside : hi ≤ l.length) :
    bisectLoop before l lo hi = l.findIdx before := by
  induction lo, hi using bisectLoop.induct before l with
  | case1 lo hi isOpen entry found yes ih =>
      rw [bisectLoop, dif_pos isOpen, found]
      simp only [yes, if_true]
      refine ih low ?_ (by omega)
      obtain ⟨bound, rfl⟩ := List.getElem?_eq_some_iff.mp found
      by_contra late
      exact Bool.false_ne_true ((List.not_of_lt_findIdx (Nat.not_le.mp late)).symm.trans yes)
  | case2 lo hi isOpen entry found no ih =>
      rw [bisectLoop, dif_pos isOpen, found]
      simp only [no]
      refine ih ?_ high inside
      by_contra early
      have first : l.findIdx before < l.length := by omega
      exact no (halved.later (by omega) (List.getElem?_eq_getElem first) found
        (List.findIdx_getElem (w := first)))
  | case3 lo hi isOpen absent =>
      have beyond := List.getElem?_eq_none_iff.mp absent
      omega
  | case4 lo hi closed =>
      rw [bisectLoop, dif_neg closed]
      omega

/-- The search finds the first element on which the test succeeds. -/
theorem bisect_eq_findIdx (halved : Halved before l) : bisect before l = l.findIdx before :=
  bisectLoop_eq_findIdx halved (Nat.zero_le _) List.findIdx_le_length (Nat.le_refl _)

end Bisect

/-! ## Intervals -/

variable {α : Type*} [LinearOrder α]

/-- What the intervals of a list cover. -/
def region (l : List (α × α)) : Set α := {x | ∃ I ∈ l, x ∈ Set.Icc I.1 I.2}

def SortedByStart (l : List (α × α)) : Prop := l.Pairwise fun I J => I.1 ≤ J.1

def PairwiseDisjoint (l : List (α × α)) : Prop :=
  l.Pairwise fun I J => Disjoint (Set.Icc I.1 I.2) (Set.Icc J.1 J.2)

/-- Every interval ends before the later ones start. -/
def Separated (l : List (α × α)) : Prop := l.Pairwise fun I J => I.2 < J.1

theorem Separated.pairwiseDisjoint {l : List (α × α)} (separated : Separated l) :
    PairwiseDisjoint l :=
  separated.imp fun apart => Set.disjoint_left.mpr fun _ inI inJ =>
    absurd (apart.trans_le (inJ.1.trans inI.2)) (lt_irrefl _)

/-- Of disjoint intervals only one holds a given point. -/
theorem PairwiseDisjoint.eq_of_mem {l : List (α × α)} (disjoint : PairwiseDisjoint l)
    {I J : α × α} (hasI : I ∈ l) (hasJ : J ∈ l) {x : α} (inI : x ∈ Set.Icc I.1 I.2)
    (inJ : x ∈ Set.Icc J.1 J.2) : I = J := by
  obtain ⟨i, at_i, rfl⟩ := List.getElem_of_mem hasI
  obtain ⟨j, at_j, rfl⟩ := List.getElem_of_mem hasJ
  have apart := List.pairwise_iff_getElem.mp disjoint
  rcases Nat.lt_trichotomy i j with lt | rfl | lt
  · exact absurd inJ (Set.disjoint_left.mp (apart i j at_i at_j lt) inI)
  · rfl
  · exact absurd inI (Set.disjoint_left.mp (apart j i at_j at_i lt) inJ)

/-- Between a point and the intervals that start after it there is room. -/
theorem exists_gap [DenselyOrdered α] (l : List (α × α)) {m e : α} (room : m < e)
    (after : ∀ K ∈ l, m < K.1) : ∃ x, m < x ∧ x < e ∧ ∀ K ∈ l, x < K.1 := by
  induction l with
  | nil =>
      obtain ⟨x, above, below⟩ := exists_between room
      exact ⟨x, above, below, fun K member => absurd member List.not_mem_nil⟩
  | cons first rest ih =>
      obtain ⟨y, above, below, early⟩ := ih fun K member => after K (List.mem_cons_of_mem _ member)
      obtain ⟨x, above, least⟩ := exists_between (lt_min above (after first List.mem_cons_self))
      refine ⟨x, above, (least.trans_le (min_le_left _ _)).trans below, fun K member => ?_⟩
      rcases List.mem_cons.mp member with rfl | later
      · exact least.trans_le (min_le_right _ _)
      · exact (least.trans_le (min_le_left _ _)).trans (early K later)

end Kukuruku.Intervals
