import Kukuruku.Scanner.FindPeaks
import Kukuruku.Scanner.IntervalList

/-!
# Looking up a frequency

`find_in_interval_list` searches the place of a key among the intervals, and
`filter_blacklist` drops and marks peaks by it.
-/

namespace Kukuruku.Scanner.Blacklist

open Kukuruku.Intervals
open Kukuruku.PythonTwo
open Kukuruku.Scanner.FindPeaks (Peak)
open Kukuruku.Scanner.IntervalList (PyError)

variable {α : Type} [LinearOrder α] {K : Type} [Field K] [LinearOrder K]

/-- `(key, None) < entry`.  Python 2 orders `None` before all numbers. -/
def keyBefore (key : α) (entry : α × α) : Bool :=
  if key = entry.1 then true else decide (key < entry.1)

def find_in_interval_list (l : List (α × α)) (key : α) : Except PyError Bool :=
  if l = [] then .ok false
  else
    let pos := bisect (keyBefore key) l
    let pos := if l.length ≤ pos then pos - 1 else pos
    match l[pos]? with
    | none => .error .indexError
    | some entry => .ok (decide (entry.1 < key ∧ key < entry.2))

/-- The loop over the peaks with the two lists of the configuration. -/
def filter_blacklist (blacklist archivelist : List (K × K)) (center : Number K) :
    List (Peak K) → Except PyError (List (Peak K))
  | [] => .ok []
  | peak :: rest => do
      let f := (peak.freq + center).value
      if ← find_in_interval_list blacklist f then
        filter_blacklist blacklist archivelist center rest
      else
        let archived ← find_in_interval_list archivelist f
        let ret ← filter_blacklist blacklist archivelist center rest
        return (if archived then { peak with archive := true } else peak) :: ret

/-! ## What the lookup is for -/

/-- The key lies within some interval. -/
def Inside (l : List (α × α)) (key : α) : Prop := ∃ I ∈ l, I.1 < key ∧ key < I.2

instance (l : List (α × α)) (key : α) : Decidable (Inside l key) :=
  inferInstanceAs (Decidable (∃ I ∈ l, I.1 < key ∧ key < I.2))

/-- Intervals in the order of their starts that have no inner point in common. -/
structure DisjointSorted (l : List (α × α)) : Prop where
  sorted : SortedByStart l
  disjoint : l.Pairwise fun I J => Disjoint (Set.Ioo I.1 I.2) (Set.Ioo J.1 J.2)

/-- The peaks outside the blacklist, with those in the archive list marked. -/
def filtered (blacklist archivelist : List (K × K)) (center : Number K)
    (peaks : List (Peak K)) : List (Peak K) :=
  (peaks.filter fun peak => ¬ Inside blacklist (peak.freq + center).value).map fun peak =>
    if Inside archivelist (peak.freq + center).value then { peak with archive := true } else peak

/-! ## The entry that is looked at -/

theorem keyBefore_iff {key : α} {entry : α × α} : keyBefore key entry = true ↔ key ≤ entry.1 := by
  rw [keyBefore]
  split
  · rename_i same
    exact iff_of_true rfl same.le
  · rename_i different
    rw [decide_eq_true_iff]
    exact ⟨le_of_lt, fun le => lt_of_le_of_ne le different⟩

theorem halved_keyBefore {l : List (α × α)} (sorted : SortedByStart l) (key : α) :
    Halved (keyBefore key) l :=
  sorted.imp fun order yes => keyBefore_iff.mpr ((keyBefore_iff.mp yes).trans order)

theorem inside_append {l l' : List (α × α)} {key : α} :
    Inside (l ++ l') key ↔ Inside l key ∨ Inside l' key := by
  simp only [Inside, List.mem_append, or_and_right, exists_or]

/-- The lookup answers by the last interval alone: of any other that it looks at
the start is not before the key. -/
theorem find_in_interval_list_eq {l : List (α × α)} (sorted : SortedByStart l) (key : α) :
    find_in_interval_list l key = .ok (decide (Inside l.getLast?.toList key)) := by
  cases final : l.getLast? with
  | none =>
      rw [find_in_interval_list, if_pos (List.getLast?_eq_none_iff.mp final)]
      rfl
  | some last =>
      have nonempty : l ≠ [] := fun empty => by
        rw [empty] at final
        cases final
      have length := List.length_pos_iff_ne_nil.mpr nonempty
      rw [find_in_interval_list, if_neg nonempty, bisect_eq_findIdx (halved_keyBefore sorted key)]
      rw [List.getLast?_eq_getElem?] at final
      have answer : decide (Inside (some last).toList key) =
          decide (last.1 < key ∧ key < last.2) := by simp [Inside]
      rw [answer]
      by_cases beyond : l.length ≤ l.findIdx (keyBefore key)
      · have atEnd : l.findIdx (keyBefore key) = l.length :=
          Nat.le_antisymm List.findIdx_le_length beyond
        simp only [atEnd, Nat.le_refl, if_true, final]
      · have found := Nat.not_le.mp beyond
        have starts : key ≤ (l[l.findIdx (keyBefore key)]).1 :=
          keyBefore_iff.mp (List.findIdx_getElem (w := found))
        obtain ⟨bound, rfl⟩ := List.getElem?_eq_some_iff.mp final
        have order : (l[l.findIdx (keyBefore key)]).1 ≤ (l[l.length - 1]).1 := by
          rcases Nat.lt_or_eq_of_le (Nat.le_sub_one_of_lt found) with lt | same
          · exact List.pairwise_iff_getElem.mp sorted _ _ found bound lt
          · exact le_of_eq (by simp only [same])
        simp only [beyond, if_false, List.getElem?_eq_getElem found]
        rw [decide_eq_false fun both => absurd both.1 (not_lt.mpr starts),
          decide_eq_false fun both => absurd both.1 (not_lt.mpr (starts.trans order))]

omit [LinearOrder α] in
theorem dropLast_append_toList (l : List (α × α)) : l.dropLast ++ l.getLast?.toList = l := by
  cases final : l.getLast? with
  | none =>
      rw [List.getLast?_eq_none_iff.mp final]
      rfl
  | some last => exact List.dropLast_append_getLast? last final

/-- A key within another interval than the last is not within the last one. -/
theorem inside_last_iff {l : List (α × α)} (ordered : DisjointSorted l) (key : α) :
    (Inside l key → Inside l.getLast?.toList key) ↔ ¬ Inside l.dropLast key := by
  have parts : l = l.dropLast ++ l.getLast?.toList := (dropLast_append_toList l).symm
  constructor
  · rintro last ⟨I, early, inside⟩
    have whole : Inside l key := ⟨I, List.dropLast_subset l early, inside⟩
    obtain ⟨J, final, inside'⟩ := last whole
    have disjoint := ordered.disjoint
    rw [parts] at disjoint
    have apart := (List.pairwise_append.mp disjoint).2.2 I early J final
    exact Set.disjoint_left.mp apart inside inside'
  · intro outside whole
    rw [parts] at whole
    exact (inside_append.mp whole).resolve_left outside

/-! ## The lookup and the filter -/

theorem inside_of_last {l : List (α × α)} (key : α) (inside : Inside l.getLast?.toList key) :
    Inside l key := by
  obtain ⟨I, final, inside⟩ := inside
  exact ⟨I, List.mem_of_getLast? (Option.mem_toList.mp final), inside⟩

theorem find_in_interval_list_exact_iff {l : List (α × α)} (ordered : DisjointSorted l) (key : α) :
    find_in_interval_list l key = .ok (decide (Inside l key)) ↔ ¬ Inside l.dropLast key := by
  rw [find_in_interval_list_eq ordered.sorted, Except.ok.injEq, decide_eq_decide,
    ← inside_last_iff ordered]
  exact ⟨Iff.mpr, fun last => ⟨inside_of_last key, last⟩⟩

/-- The filter as if each list consisted of its last interval. -/
theorem filter_blacklist_eq {blacklist archivelist : List (K × K)}
    (sorted : SortedByStart blacklist) (sorted' : SortedByStart archivelist) (center : Number K)
    (peaks : List (Peak K)) :
    filter_blacklist blacklist archivelist center peaks =
      .ok (filtered blacklist.getLast?.toList archivelist.getLast?.toList center peaks) := by
  induction peaks with
  | nil => rfl
  | cons peak rest ih =>
      rw [filter_blacklist, find_in_interval_list_eq sorted, find_in_interval_list_eq sorted', ih]
      by_cases dropped : Inside blacklist.getLast?.toList (peak.freq + center).value
      · simp [filtered, dropped, bind, Except.bind]
      · simp [filtered, dropped, bind, Except.bind, pure, Except.pure]

theorem filtered_cons_of_inside {blacklist : List (K × K)} {peak : Peak K} {center : Number K}
    (dropped : Inside blacklist (peak.freq + center).value) (archivelist : List (K × K))
    (rest : List (Peak K)) : filtered blacklist archivelist center (peak :: rest) =
      filtered blacklist archivelist center rest := by
  simp [filtered, dropped]

theorem filtered_cons_of_not_inside {blacklist : List (K × K)} {peak : Peak K} {center : Number K}
    (kept : ¬ Inside blacklist (peak.freq + center).value) (archivelist : List (K × K))
    (rest : List (Peak K)) : filtered blacklist archivelist center (peak :: rest) =
      (if Inside archivelist (peak.freq + center).value then { peak with archive := true }
        else peak) :: filtered blacklist archivelist center rest := by
  simp [filtered, kept]

/-- A list that holds less lets more peaks pass. -/
theorem length_filtered_le {blacklist blacklist' : List (K × K)}
    (less : ∀ key, Inside blacklist' key → Inside blacklist key)
    (archivelist archivelist' : List (K × K)) (center : Number K) (peaks : List (Peak K)) :
    (filtered blacklist archivelist center peaks).length ≤
      (filtered blacklist' archivelist' center peaks).length := by
  rw [filtered, filtered, List.length_map, List.length_map, ← List.countP_eq_length_filter,
    ← List.countP_eq_length_filter]
  refine List.countP_mono_left fun peak _ outside => ?_
  rw [decide_eq_true_iff] at outside ⊢
  exact fun inside => outside (less _ inside)

/-- Lists that hold less filter alike if they hold the frequencies of the peaks. -/
theorem filtered_eq_iff {blacklist archivelist blacklist' archivelist' : List (K × K)}
    (less : ∀ key, Inside blacklist' key → Inside blacklist key)
    (less' : ∀ key, Inside archivelist' key → Inside archivelist key) (center : Number K)
    (peaks : List (Peak K)) :
    filtered blacklist' archivelist' center peaks = filtered blacklist archivelist center peaks ↔
      ∀ peak ∈ peaks, (Inside blacklist (peak.freq + center).value →
          Inside blacklist' (peak.freq + center).value) ∧
        (¬ Inside blacklist (peak.freq + center).value → peak.archive = true ∨
          (Inside archivelist (peak.freq + center).value →
            Inside archivelist' (peak.freq + center).value)) := by
  induction peaks with
  | nil => exact iff_of_true rfl fun peak member => absurd member List.not_mem_nil
  | cons peak rest ih =>
      rw [List.forall_mem_cons, ← ih]
      by_cases dropped : Inside blacklist' (peak.freq + center).value
      · have listed := less _ dropped
        rw [filtered_cons_of_inside dropped, filtered_cons_of_inside listed]
        exact (and_iff_right ⟨fun _ => dropped, fun outside => absurd listed outside⟩).symm
      · rw [filtered_cons_of_not_inside dropped]
        by_cases listed : Inside blacklist (peak.freq + center).value
        · rw [filtered_cons_of_inside listed]
          refine iff_of_false (fun same => ?_) fun agree => dropped (agree.1.1 listed)
          have shorter := length_filtered_le less archivelist archivelist' center rest
          rw [← same, List.length_cons] at shorter
          exact absurd shorter (Nat.not_succ_le_self _)
        · rw [filtered_cons_of_not_inside listed, List.cons.injEq]
          refine and_congr_left fun _ => ?_
          have outside : Inside blacklist (peak.freq + center).value →
              Inside blacklist' (peak.freq + center).value := fun inside => absurd inside listed
          rw [and_iff_right outside, imp_iff_right listed]
          by_cases marked : Inside archivelist' (peak.freq + center).value
          · rw [if_pos marked, if_pos (less' _ marked)]
            exact iff_of_true rfl (.inr fun _ => marked)
          · rw [if_neg marked]
            by_cases wanted : Inside archivelist (peak.freq + center).value
            · rw [if_pos wanted]
              constructor
              · intro same
                exact .inl (congrArg Peak.archive same)
              · rintro (already | finds)
                · rw [← already]
                · exact absurd (finds wanted) marked
            · rw [if_neg wanted]
              exact iff_of_true rfl (.inr fun inside => absurd inside wanted)

/-- The lookup is exact for a key that lies within no interval but possibly the
last one, and the filter for peaks with such frequencies. -/
theorem filter_blacklist_exact_iff {blacklist archivelist : List (K × K)}
    (ordered : DisjointSorted blacklist) (ordered' : DisjointSorted archivelist) :
    (∀ key, find_in_interval_list blacklist key = .ok (decide (Inside blacklist key)) ↔
      ¬ Inside blacklist.dropLast key) ∧
    ∀ center peaks, filter_blacklist blacklist archivelist center peaks =
        .ok (filtered blacklist archivelist center peaks) ↔
      ∀ peak ∈ peaks, ¬ Inside blacklist.dropLast (peak.freq + center).value ∧
        (¬ Inside blacklist (peak.freq + center).value →
          peak.archive = true ∨ ¬ Inside archivelist.dropLast (peak.freq + center).value) := by
  refine ⟨find_in_interval_list_exact_iff ordered, fun center peaks => ?_⟩
  rw [filter_blacklist_eq ordered.sorted ordered'.sorted, Except.ok.injEq,
    filtered_eq_iff inside_of_last inside_of_last]
  simp only [inside_last_iff ordered, inside_last_iff ordered']

/-- Intervals each of which ends before the next one starts. -/
theorem disjointSorted_of_apart {l : List (α × α)} (proper : ∀ I ∈ l, I.1 ≤ I.2)
    (apart : l.Pairwise fun I J => I.2 ≤ J.1) : DisjointSorted l where
  sorted := List.Pairwise.imp_of_mem (fun member _ order => (proper _ member).trans order) apart
  disjoint := apart.imp fun order => Set.disjoint_left.mpr fun _ inside inside' =>
    lt_asymm inside.2 (lt_of_le_of_lt order inside'.1)

def twoBlocked : List (ℚ × ℚ) := [(90, 110), (120, 130)]

def threeArchived : List (ℚ × ℚ) := [(112, 116), (140, 150), (200, 210)]

/-- Peaks between the intervals and in the last ones are dropped, kept and marked as they
should be; a peak in the first interval of the blacklist is kept. -/
theorem filter_blacklist_exact_between :
    filter_blacklist twoBlocked threeArchived (.int 100) [⟨.int 18, .int 3, none, false⟩,
          ⟨.float (51 / 2), .int 3, none, false⟩, ⟨.int 105, .int 3, none, false⟩] =
      .ok [⟨.int 18, .int 3, none, false⟩, ⟨.int 105, .int 3, none, true⟩] ∧
    filter_blacklist twoBlocked threeArchived (.int 100) [⟨.int 0, .int 3, none, false⟩] ≠
      .ok (filtered twoBlocked threeArchived (.int 100) [⟨.int 0, .int 3, none, false⟩]) := by
  have blocked : DisjointSorted twoBlocked :=
    disjointSorted_of_apart (by decide +kernel) (by decide +kernel)
  have archived : DisjointSorted threeArchived :=
    disjointSorted_of_apart (by decide +kernel) (by decide +kernel)
  have exact := (filter_blacklist_exact_iff blocked archived).2 (.int 100)
  constructor
  · rw [(exact _).mpr (by decide +kernel)]
    decide +kernel
  · rw [ne_eq, exact]
    decide +kernel

/-- The key in the middle of the first interval is not found. -/
theorem find_in_interval_list_misses :
    find_in_interval_list [((90 : ℚ), (110 : ℚ)), (120, 130)] 100 = .ok false ∧
      Inside [((90 : ℚ), (110 : ℚ)), (120, 130)] 100 := by
  have sorted : SortedByStart [((90 : ℚ), (110 : ℚ)), (120, 130)] := by
    norm_num [SortedByStart]
  rw [find_in_interval_list_eq sorted]
  norm_num [Inside]

end Kukuruku.Scanner.Blacklist
