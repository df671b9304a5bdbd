import Mathlib.Algebra.Order.Field.Basic
import Mathlib.Algebra.Order.Field.Rat
import Mathlib.Data.List.Sort
import Mathlib.Data.Rat.Cast.Order
import Mathlib.Tactic.Linarith
import Mathlib.Tactic.NormNum
import Kukuruku.Foundation.Intervals

/-!
# Reading the lists of intervals

`read_sorted_list` of `util.py` turns the lines of `blacklist.conf` that carry a
tag into intervals, sorts them and unites what touches.  The scanner runs under
Python 2, whose `/` on integers rounds down.
-/

namespace Kukuruku.Scanner.IntervalList

open Kukuruku.Intervals

/-- What the interpreter raises on a bad index, an assignment to a tuple and a
string that is no number. -/
inductive PyError where
  | indexError
  | typeError
  | valueError
deriving DecidableEq

/-! ## Text -/

/-- `readlines`, which keeps the ends of the lines. -/
def readlines : List Char → List (List Char)
  | [] => []
  | c :: rest =>
      if c = '\n' then [c] :: readlines rest
      else
        match readlines rest with
        | [] => [[c]]
        | line :: lines => (c :: line) :: lines

/-- Blank, and `\t`, `\n`, `\v`, `\f`, `\r`. -/
def isspace (c : Char) : Bool := c == ' ' || (9 ≤ c.toNat && c.toNat ≤ 13)

def strip (s : List Char) : List Char := ((s.dropWhile isspace).reverse.dropWhile isspace).reverse

def digits (s : List Char) : Except PyError Nat :=
  if s ≠ [] ∧ s.all Char.isDigit then
    .ok (s.foldl (fun value c => 10 * value + (c.toNat - '0'.toNat)) 0)
  else .error .valueError

/-- `int` of a string. -/
def int (s : List Char) : Except PyError Int :=
  match strip s with
  | [] => .error .valueError
  | c :: rest =>
      if c = '-' then (digits rest).map fun value => -(value : Int)
      else if c = '+' then (digits rest).map fun value => (value : Int)
      else (digits (c :: rest)).map fun value => (value : Int)

/-- The second and third piece of a line whose first one is the tag. -/
def fields (tag line : List Char) : Option (List Char × List Char) :=
  match (strip line).splitOn ' ' with
  | name :: freq :: bw :: _ => if name = tag then some (freq, bw) else none
  | _ => none

def tagged (tag content : List Char) : List (List Char × List Char) :=
  (readlines content).filterMap (fields tag)

def numbers (line : List Char × List Char) : Except PyError (Int × Int) := do
  let freq ← int line.1
  let bw ← int line.2
  return (freq, bw)

/-! ## The list -/

/-- `(freq-bw, freq+bw)` with `bw = int(pieces[2])/2`. -/
def band (line : Int × Int) : ℚ × ℚ :=
  ((line.1 - line.2 / 2 : Int), (line.1 + line.2 / 2 : Int))

section Union

variable {α : Type*} [LinearOrder α]

/-- One round of the loop over `l[1:]`.  An interval that touches the last one is
stored into an entry of a tuple. -/
def unionStep (unioned : List (α × α)) (interval : α × α) : Except PyError (List (α × α)) :=
  match unioned.getLast? with
  | none => .error .indexError
  | some last =>
      if last.2 < interval.1 then .ok (unioned ++ [interval])
      else if last.2 = interval.1 then .error .typeError
      else .ok unioned

def sortByStart (l : List (α × α)) : List (α × α) := l.insertionSort fun I J => I.1 ≤ J.1

/-- The intervals of the list sorted and united. -/
def union (l : List (α × α)) : Except PyError (List (α × α)) :=
  match sortByStart l with
  | [] => .ok []
  | first :: rest => rest.foldlM unionStep [first]

end Union

/-- `none` stands for a file that is not there. -/
def read_sorted_list (tag : List Char) (file : Option (List Char)) :
    Except PyError (List (ℚ × ℚ)) := do
  let lines ← (tagged tag (file.getD [])).mapM numbers
  union (lines.map band)

/-! ## What the file asks for -/

/-- The frequencies that the lines with a tag name. -/
def requested (tag : List Char) (file : Option (List Char)) : Set ℚ :=
  {x | ∃ line ∈ tagged tag (file.getD []), ∃ freq bw : Int, numbers line = .ok (freq, bw) ∧
    (freq - bw / 2 : ℚ) ≤ x ∧ x ≤ freq + bw / 2}

/-- The result is sorted, disjoint and covers what the file asks for. -/
def PreservesCoverage (tag : List Char) (file : Option (List Char)) : Prop :=
  ∃ l, read_sorted_list tag file = .ok l ∧ SortedByStart l ∧ PairwiseDisjoint l ∧
    region l = requested tag file

/-- Every interval starts after all earlier ones have ended, or lies within one
of them that goes on after its start. -/
def Mergeable {α : Type*} [LinearOrder α] (l : List (α × α)) : Prop :=
  ∀ before J after, l = before ++ J :: after →
    (∀ I ∈ before, I.2 < J.1) ∨ ∃ I ∈ before, J.1 < I.2 ∧ J.2 ≤ I.2

/-- Every line of an odd width, whose half is rounded, lies well inside another. -/
def OddInside (lines : List (Int × Int)) : Prop :=
  ∀ line ∈ lines, 0 < line.2 → line.2 % 2 = 1 →
    ∃ other ∈ lines, (band other).1 < (band line).1 ∧ (band line).2 < (band other).2

/-- The numbers of all lines with the tag can be read. -/
def Lists (tag : List Char) (file : Option (List Char)) (lines : List (Int × Int)) : Prop :=
  (tagged tag (file.getD [])).mapM numbers = .ok lines

/-! ## Sorting and uniting -/

section Union

variable {α : Type*} [LinearOrder α] {l before unioned : List (α × α)} {last J : α × α}

theorem sortedByStart_sortByStart (l : List (α × α)) : SortedByStart (sortByStart l) := by
  have total : Std.Total fun I J : α × α => I.1 ≤ J.1 := ⟨fun I J => le_total I.1 J.1⟩
  have transitive : IsTrans (α × α) fun I J => I.1 ≤ J.1 := ⟨fun _ _ _ => le_trans⟩
  exact List.pairwise_insertionSort _ l

theorem mem_sortByStart {I : α × α} : I ∈ sortByStart l ↔ I ∈ l :=
  List.mem_insertionSort _

/-- The list `unioned` with its last entry once the intervals `before` are read. -/
structure United (before unioned : List (α × α)) (last : α × α) : Prop where
  getLast : unioned.getLast? = some last
  sorted : SortedByStart unioned
  separated : Separated unioned
  mem : ∀ R ∈ unioned, R ∈ before
  within : ∀ I ∈ before, ∃ R ∈ unioned, R.1 ≤ I.1 ∧ I.2 ≤ R.2

theorem United.single (first : α × α) : United [first] [first] first where
  getLast := rfl
  sorted := List.pairwise_singleton _ _
  separated := List.pairwise_singleton _ _
  mem := fun _ member => member
  within := fun I member => ⟨I, member, le_refl _, le_refl _⟩

namespace United

theorem last_mem (united : United before unioned last) : last ∈ unioned :=
  List.mem_of_getLast? united.getLast

/-- The other entries end before the last one starts. -/
theorem eq_or_before (united : United before unioned last) {R : α × α} (member : R ∈ unioned) :
    R = last ∨ R.2 < last.1 := by
  obtain ⟨front, rfl⟩ := List.getLast?_eq_some_iff.mp united.getLast
  rcases List.mem_append.mp member with early | final
  · exact .inr ((List.pairwise_append.mp united.separated).2.2 R early last List.mem_cons_self)
  · exact .inl (List.mem_singleton.mp final)

theorem end_le (united : United before unioned last) {I : α × α} (member : I ∈ before) :
    I.2 ≤ last.2 ∨ I.2 < last.1 := by
  obtain ⟨R, entry, _, bound⟩ := united.within I member
  rcases united.eq_or_before entry with rfl | early
  · exact .inl bound
  · exact .inr (bound.trans_lt early)

theorem append (united : United before unioned last) (sorted : ∀ I ∈ before, I.1 ≤ J.1)
    (later : last.2 < J.1) : United (before ++ [J]) (unioned ++ [J]) J where
  getLast := List.getLast?_concat
  sorted := by
    refine List.pairwise_append.mpr
      ⟨united.sorted, List.pairwise_singleton _ _, fun R entry K final => ?_⟩
    obtain rfl := List.mem_singleton.mp final
    exact sorted R (united.mem R entry)
  separated := by
    refine List.pairwise_append.mpr
      ⟨united.separated, List.pairwise_singleton _ _, fun R entry K final => ?_⟩
    obtain rfl := List.mem_singleton.mp final
    rcases united.eq_or_before entry with rfl | early
    · exact later
    · exact early.trans_le (sorted last (united.mem last united.last_mem))
  mem := fun R member => by
    rcases List.mem_append.mp member with early | final
    · exact List.mem_append_left _ (united.mem R early)
    · exact List.mem_append_right _ final
  within := fun I member => by
    rcases List.mem_append.mp member with early | final
    · obtain ⟨R, entry, bounds⟩ := united.within I early
      exact ⟨R, List.mem_append_left _ entry, bounds⟩
    · exact ⟨I, List.mem_append_right _ final, le_refl _, le_refl _⟩

theorem drop (united : United before unioned last) (sorted : ∀ I ∈ before, I.1 ≤ J.1)
    (inside : J.2 ≤ last.2) : United (before ++ [J]) unioned last where
  getLast := united.getLast
  sorted := united.sorted
  separated := united.separated
  mem := fun R member => List.mem_append_left _ (united.mem R member)
  within := fun I member => by
    rcases List.mem_append.mp member with early | final
    · exact united.within I early
    · obtain rfl := List.mem_singleton.mp final
      exact ⟨last, united.last_mem, sorted last (united.mem last united.last_mem), inside⟩

theorem region_eq (united : United before unioned last) : region unioned = region before := by
  ext x
  constructor
  · rintro ⟨R, entry, inside⟩
    exact ⟨R, united.mem R entry, inside⟩
  · rintro ⟨I, member, above, below⟩
    obtain ⟨R, entry, start, stop⟩ := united.within I member
    exact ⟨R, entry, start.trans above, below.trans stop⟩

/-- The condition on the earlier intervals, read off the last entry. -/
theorem mergeable_iff (united : United before unioned last) (sorted : ∀ I ∈ before, I.1 ≤ J.1) :
    ((∀ I ∈ before, I.2 < J.1) ∨ ∃ I ∈ before, J.1 < I.2 ∧ J.2 ≤ I.2) ↔
      last.2 < J.1 ∨ J.1 < last.2 ∧ J.2 ≤ last.2 := by
  have member := united.mem last united.last_mem
  have starts := sorted last member
  constructor
  · rintro (clear | ⟨I, early, overlap, inside⟩)
    · exact .inl (clear last member)
    · rcases united.end_le early with bound | bound
      · exact .inr ⟨overlap.trans_le bound, inside.trans bound⟩
      · exact absurd (overlap.trans (bound.trans_le starts)) (lt_irrefl _)
  · rintro (clear | nested)
    · refine .inl fun I early => ?_
      rcases united.end_le early with bound | bound
      · exact bound.trans_lt clear
      · exact bound.trans_le starts
    · exact .inr ⟨last, member, nested⟩

end United

/-- One round, by the place of the interval against the last entry. -/
theorem unionStep_of_getLast (final : unioned.getLast? = some last) (interval : α × α) :
    unionStep unioned interval =
      if last.2 < interval.1 then .ok (unioned ++ [interval])
      else if last.2 = interval.1 then .error .typeError
      else .ok unioned := by
  rw [unionStep, final]

/-- The loop over a list whose intervals can all be placed. -/
theorem foldlM_of_mergeable (mergeable : Mergeable l) (sorted : SortedByStart l)
    {rest : List (α × α)} (split : l = before ++ rest) (united : United before unioned last) :
    ∃ result final, rest.foldlM unionStep unioned = .ok result ∧ United l result final := by
  induction rest generalizing before unioned last with
  | nil =>
      rw [List.append_nil] at split
      exact ⟨unioned, last, rfl, split ▸ united⟩
  | cons J rest ih =>
      have starts : ∀ I ∈ before, I.1 ≤ J.1 := fun I early =>
        (List.pairwise_append.mp (split ▸ sorted)).2.2 I early J List.mem_cons_self
      have next : l = before ++ [J] ++ rest := by rw [split, List.append_assoc]; rfl
      rw [List.foldlM_cons, unionStep_of_getLast united.getLast]
      rcases (united.mergeable_iff starts).mp (mergeable before J rest split) with
        clear | ⟨overlap, inside⟩
      · rw [if_pos clear]
        exact ih next (united.append starts clear)
      · rw [if_neg (not_lt.mpr overlap.le), if_neg overlap.ne']
        exact ih next (united.drop starts inside)

/-- The loop only adds intervals that start after the last entry. -/
theorem foldlM_added {rest result : List (α × α)} (final : unioned.getLast? = some last)
    (sorted : SortedByStart rest) (ended : rest.foldlM unionStep unioned = .ok result) :
    ∃ added, result = unioned ++ added ∧ ∀ K ∈ added, K ∈ rest ∧ last.2 < K.1 := by
  induction rest generalizing unioned last with
  | nil =>
      obtain rfl := Except.ok.inj ended
      exact ⟨[], (List.append_nil _).symm, fun K member => absurd member List.not_mem_nil⟩
  | cons J rest ih =>
      obtain ⟨starts, tail⟩ := List.pairwise_cons.mp sorted
      rw [List.foldlM_cons, unionStep_of_getLast final] at ended
      split at ended
      · rename_i later
        obtain ⟨added, rfl, after⟩ := ih List.getLast?_concat tail ended
        refine ⟨J :: added, List.append_assoc _ _ _, fun K member => ?_⟩
        rcases List.mem_cons.mp member with rfl | new
        · exact ⟨List.mem_cons_self, later⟩
        · obtain ⟨member, _⟩ := after K new
          exact ⟨List.mem_cons_of_mem _ member, later.trans_le (starts K member)⟩
      · split at ended
        · cases ended
        · obtain ⟨added, rfl, after⟩ := ih final tail ended
          exact ⟨added, rfl, fun K new =>
            ⟨List.mem_cons_of_mem _ (after K new).1, (after K new).2⟩⟩

/-- Behind a dropped interval that goes on after the last entry there is a gap. -/
theorem not_subset_of_dropped [DenselyOrdered α] {rest result : List (α × α)}
    (united : United before unioned last) (starts : ∀ I ∈ before, I.1 ≤ J.1)
    (sorted : SortedByStart rest) (ended : rest.foldlM unionStep unioned = .ok result)
    (overlap : J.1 < last.2) (sticks : last.2 < J.2) :
    ∃ x ∈ Set.Icc J.1 J.2, x ∉ region result := by
  obtain ⟨added, rfl, after⟩ := foldlM_added united.getLast sorted ended
  obtain ⟨x, above, below, gap⟩ := exists_gap added sticks fun K new => (after K new).2
  refine ⟨x, ⟨(overlap.trans above).le, below.le⟩, ?_⟩
  rintro ⟨R, member, start, stop⟩
  rcases List.mem_append.mp member with entry | new
  · have bound : R.2 ≤ last.2 := by
      rcases united.end_le (united.mem R entry) with bound | bound
      · exact bound
      · exact ((bound.trans_le (starts last (united.mem last united.last_mem))).trans overlap).le
    exact absurd (above.trans_le (stop.trans bound)) (lt_irrefl _)
  · exact absurd ((gap R new).trans_le start) (lt_irrefl _)

/-- The loop covers the list only if its intervals can all be placed. -/
theorem mergeable_of_foldlM [DenselyOrdered α] (sorted : SortedByStart l)
    {rest result : List (α × α)} (split : l = before ++ rest)
    (united : United before unioned last) (ended : rest.foldlM unionStep unioned = .ok result)
    (covers : region l ⊆ region result) {mid after : List (α × α)}
    (place : rest = mid ++ J :: after) :
    (∀ I ∈ before ++ mid, I.2 < J.1) ∨ ∃ I ∈ before ++ mid, J.1 < I.2 ∧ J.2 ≤ I.2 := by
  induction rest generalizing before unioned last mid with
  | nil => exact absurd place (by simp)
  | cons first rest ih =>
      have parts := List.pairwise_append.mp (split ▸ sorted)
      have starts : ∀ I ∈ before, I.1 ≤ first.1 := fun I early =>
        parts.2.2 I early first List.mem_cons_self
      have tail : SortedByStart rest := (List.pairwise_cons.mp parts.2.1).2
      have next : l = before ++ [first] ++ rest := by rw [split, List.append_assoc]; rfl
      have placed : last.2 < first.1 ∨ first.1 < last.2 ∧ first.2 ≤ last.2 := by
        rw [List.foldlM_cons, unionStep_of_getLast united.getLast] at ended
        split at ended
        · exact .inl ‹_›
        · split at ended
          · cases ended
          · have overlap : first.1 < last.2 := lt_of_le_of_ne (not_lt.mp ‹_›) (Ne.symm ‹_›)
            refine .inr ⟨overlap, not_lt.mp fun sticks => ?_⟩
            obtain ⟨x, inside, missed⟩ :=
              not_subset_of_dropped united starts tail ended overlap sticks
            have member : first ∈ l := split ▸ List.mem_append_right _ List.mem_cons_self
            exact missed (covers ⟨first, member, inside⟩)
      cases mid with
      | nil =>
          obtain ⟨rfl, rfl⟩ := List.cons.inj place
          rw [List.append_nil]
          exact (united.mergeable_iff starts).mpr placed
      | cons head mid =>
          obtain ⟨rfl, later⟩ := List.cons.inj place
          rw [List.foldlM_cons, unionStep_of_getLast united.getLast] at ended
          have append : before ++ first :: mid = before ++ [first] ++ mid := by
            rw [List.append_assoc]; rfl
          rw [append]
          rcases placed with clear | ⟨overlap, inside⟩
          · rw [if_pos clear] at ended
            exact ih next (united.append starts clear) ended later
          · rw [if_neg (not_lt.mpr overlap.le), if_neg overlap.ne'] at ended
            exact ih next (united.drop starts inside) ended later

/-- The united list of mergeable intervals. -/
theorem union_of_mergeable (mergeable : Mergeable (sortByStart l)) :
    ∃ result, union l = .ok result ∧ SortedByStart result ∧ Separated result ∧
      region result = region l ∧ (∀ R ∈ result, R ∈ l) ∧
      ∀ I ∈ l, ∃ R ∈ result, R.1 ≤ I.1 ∧ I.2 ≤ R.2 := by
  have same : region (sortByStart l) = region l := by
    ext x
    simp only [region, mem_sortByStart]
  have sorted := sortedByStart_sortByStart l
  rw [union]
  cases sort : sortByStart l with
  | nil =>
      have empty : l = [] := List.eq_nil_iff_forall_not_mem.mpr fun I member =>
        absurd (sort ▸ mem_sortByStart.mpr member) List.not_mem_nil
      subst empty
      exact ⟨[], rfl, .nil, .nil, rfl, fun _ member => member, fun _ member =>
        absurd member List.not_mem_nil⟩
  | cons first rest =>
      obtain ⟨result, final, ended, united⟩ := foldlM_of_mergeable mergeable sorted
        (show sortByStart l = [first] ++ rest from sort) (.single first)
      refine ⟨result, ended, united.sorted, united.separated, united.region_eq.trans same,
        fun R entry => mem_sortByStart.mp (united.mem R entry), fun I member => ?_⟩
      exact united.within I (mem_sortByStart.mpr member)

/-- A union that covers the list comes from mergeable intervals. -/
theorem mergeable_of_union [DenselyOrdered α] {result : List (α × α)}
    (ended : union l = .ok result) (covers : region l ⊆ region result) :
    Mergeable (sortByStart l) := by
  intro before J after split
  rw [union, split] at ended
  cases before with
  | nil => exact .inl fun I member => absurd member List.not_mem_nil
  | cons first mid =>
      have sorted : sortByStart l = [first] ++ (mid ++ J :: after) := split
      refine mergeable_of_foldlM (sortedByStart_sortByStart l) sorted (.single first) ended
        (fun x ⟨I, member, inside⟩ => ?_) rfl
      exact covers ⟨I, mem_sortByStart.mp member, inside⟩

end Union

/-! ## Widths -/

theorem mem_of_mapM {β γ ε : Type*} {f : β → Except ε γ} {l : List β} {result : List γ}
    (ended : l.mapM f = .ok result) {y : γ} : y ∈ result ↔ ∃ x ∈ l, f x = .ok y := by
  induction l generalizing result with
  | nil =>
      obtain rfl := Except.ok.inj ended
      simp
  | cons x rest ih =>
      rw [List.mapM_cons] at ended
      cases first : f x with
      | error e =>
          rw [first] at ended
          cases ended
      | ok z =>
          cases later : rest.mapM f with
          | error e =>
              rw [first, later] at ended
              cases ended
          | ok tail =>
              rw [first, later] at ended
              obtain rfl := Except.ok.inj ended
              rw [List.mem_cons, ih later]
              simp only [List.mem_cons, exists_eq_or_imp, first, Except.ok.injEq]
              exact or_congr_left eq_comm

/-- The frequencies that a line names. -/
def exactBand (line : Int × Int) : Set ℚ := Set.Icc (line.1 - line.2 / 2) (line.1 + line.2 / 2)

theorem requested_eq {tag : List Char} {file : Option (List Char)} {lines : List (Int × Int)}
    (listed : Lists tag file lines) :
    requested tag file = {x | ∃ line ∈ lines, x ∈ exactBand line} := by
  ext x
  constructor
  · rintro ⟨text, member, freq, bw, read, inside⟩
    exact ⟨(freq, bw), (mem_of_mapM listed).mpr ⟨text, member, read⟩, inside⟩
  · rintro ⟨line, member, inside⟩
    obtain ⟨text, member, read⟩ := (mem_of_mapM listed).mp member
    exact ⟨text, member, line.1, line.2, read, inside⟩

theorem cast_halves (b : Int) : (b : ℚ) = 2 * ((b / 2 : Int) : ℚ) + ((b % 2 : Int) : ℚ) := by
  exact_mod_cast (Int.mul_ediv_add_emod b 2).symm

theorem cast_add_one_le {a b : Int} (lt : (a : ℚ) < b) : (a : ℚ) + 1 ≤ b := by
  exact_mod_cast Int.add_one_le_of_lt (Int.cast_lt.mp lt)

theorem cast_le_of_lt_add_one {a b : Int} (lt : (a : ℚ) < b + 1) : (a : ℚ) ≤ b := by
  have strict : a < b + 1 := by exact_mod_cast lt
  exact_mod_cast Int.lt_add_one_iff.mp strict

/-- Rounding the half down narrows the band. -/
theorem band_subset (line : Int × Int) :
    Set.Icc (band line).1 (band line).2 ⊆ exactBand line := by
  intro x ⟨start, stop⟩
  have halves := cast_halves line.2
  have left : (0 : ℚ) ≤ ((line.2 % 2 : Int) : ℚ) := by
    exact_mod_cast Int.emod_nonneg line.2 (by decide)
  simp only [band, Int.cast_sub, Int.cast_add] at start stop
  constructor <;> linarith

theorem subset_band {line : Int × Int} (even : line.2 % 2 = 0) :
    exactBand line ⊆ Set.Icc (band line).1 (band line).2 := by
  intro x ⟨start, stop⟩
  have halves := cast_halves line.2
  rw [even, Int.cast_zero] at halves
  simp only [band, Int.cast_sub, Int.cast_add, Set.mem_Icc]
  constructor <;> linarith

/-- Between the ends of two bands that differ there is a whole step. -/
theorem subset_band_of_inside {line other : Int × Int} (start : (band other).1 < (band line).1)
    (stop : (band line).2 < (band other).2) :
    exactBand line ⊆ Set.Icc (band other).1 (band other).2 := by
  intro x ⟨above, below⟩
  have halves := cast_halves line.2
  have odd : ((line.2 % 2 : Int) : ℚ) ≤ 1 := by
    have bound := Int.emod_lt_of_pos line.2 (show (0 : Int) < 2 by decide)
    exact_mod_cast Int.lt_add_one_iff.mp bound
  have start' : (band other).1 + 1 ≤ (band line).1 := cast_add_one_le start
  have stop' : (band line).2 + 1 ≤ (band other).2 := cast_add_one_le stop
  simp only [band, Int.cast_sub, Int.cast_add] at start' stop'
  simp only [band, Int.cast_sub, Int.cast_add, Set.mem_Icc]
  constructor <;> linarith

theorem exactBand_eq_empty {line : Int × Int} (negative : line.2 < 0) : exactBand line = ∅ := by
  refine Set.eq_empty_iff_forall_notMem.mpr fun x ⟨start, stop⟩ => ?_
  have width : (line.2 : ℚ) < 0 := by exact_mod_cast negative
  linarith

theorem region_bands_subset (lines : List (Int × Int)) :
    region (lines.map band) ⊆ {x | ∃ line ∈ lines, x ∈ exactBand line} := by
  rintro x ⟨I, member, inside⟩
  obtain ⟨line, listed, rfl⟩ := List.mem_map.mp member
  exact ⟨line, listed, band_subset line inside⟩

theorem exactBands_subset {lines : List (Int × Int)} (odd : OddInside lines) :
    {x | ∃ line ∈ lines, x ∈ exactBand line} ⊆ region (lines.map band) := by
  rintro x ⟨line, listed, inside⟩
  rcases Int.emod_two_eq_zero_or_one line.2 with even | uneven
  · exact ⟨band line, List.mem_map_of_mem listed, subset_band even inside⟩
  · by_cases positive : 0 < line.2
    · obtain ⟨other, member, start, stop⟩ := odd line listed positive uneven
      exact ⟨band other, List.mem_map_of_mem member, subset_band_of_inside start stop inside⟩
    · have negative : line.2 < 0 := by omega
      rw [exactBand_eq_empty negative] at inside
      exact absurd inside (Set.notMem_empty x)

/-- The half that rounding cuts off at an end can only lie in a band that goes on. -/
theorem oddInside_of_covers {lines : List (Int × Int)} {result : List (ℚ × ℚ)}
    (separated : Separated result) (mem : ∀ R ∈ result, R ∈ lines.map band)
    (within : ∀ I ∈ lines.map band, ∃ R ∈ result, R.1 ≤ I.1 ∧ I.2 ≤ R.2)
    (covers : {x | ∃ line ∈ lines, x ∈ exactBand line} ⊆ region result) : OddInside lines := by
  intro line listed positive uneven
  have halves := cast_halves line.2
  rw [uneven, Int.cast_one] at halves
  have half : (0 : ℚ) ≤ ((line.2 / 2 : Int) : ℚ) := by
    exact_mod_cast Int.ediv_nonneg positive.le (by decide)
  obtain ⟨R, entry, start, stop⟩ := within (band line) (List.mem_map_of_mem listed)
  -- the two ends that rounding cuts off
  have same : ∀ S ∈ result, (∃ x ∈ Set.Icc (band line).1 (band line).2, x ∈ Set.Icc S.1 S.2) →
      S = R := fun S member ⟨x, inside, here⟩ =>
    separated.pairwiseDisjoint.eq_of_mem member entry here
      ⟨start.trans inside.1, inside.2.trans stop⟩
  have low : (band line).1 = line.1 - ((line.2 / 2 : Int) : ℚ) := by rw [band, Int.cast_sub]
  have high : (band line).2 = line.1 + ((line.2 / 2 : Int) : ℚ) := by rw [band, Int.cast_add]
  obtain ⟨S, entryS, belowS, aboveS⟩ := covers (show (line.1 - line.2 / 2 : ℚ) ∈ _ from
    ⟨line, listed, le_refl _, by linarith⟩)
  obtain ⟨T, entryT, belowT, aboveT⟩ := covers (show (line.1 + line.2 / 2 : ℚ) ∈ _ from
    ⟨line, listed, by linarith, le_refl _⟩)
  obtain ⟨other, member, rfl⟩ := List.mem_map.mp (mem S entryS)
  obtain ⟨last, _, rfl⟩ := List.mem_map.mp (mem T entryT)
  have startsS : (band line).1 ≤ (band other).2 :=
    cast_le_of_lt_add_one (show (band line).1 < (band other).2 + 1 by linarith)
  have endsT : (band last).1 ≤ (band line).2 :=
    cast_le_of_lt_add_one (show (band last).1 < (band line).2 + 1 by linarith)
  have sameS := same _ entryS ⟨(band line).1, ⟨le_refl _, by linarith⟩, by linarith, startsS⟩
  have sameT := same _ entryT ⟨(band line).2, ⟨by linarith, le_refl _⟩, endsT, by linarith⟩
  refine ⟨other, member, by linarith, ?_⟩
  rw [sameS, ← sameT]
  linarith

/-- `read_sorted_list` keeps the coverage exactly when all numbers can be read,
no interval touches the end of an earlier one or goes on after it, and no line of
an odd width sticks out. -/
theorem read_sorted_list_preservesCoverage_iff (tag : List Char) (file : Option (List Char)) :
    PreservesCoverage tag file ↔ ∃ lines, Lists tag file lines ∧
      Mergeable (sortByStart (lines.map band)) ∧ OddInside lines := by
  constructor
  · rintro ⟨l, ended, _, _, covers⟩
    rw [read_sorted_list] at ended
    cases listed : (tagged tag (file.getD [])).mapM numbers with
    | error e =>
        rw [listed] at ended
        cases ended
    | ok lines =>
        rw [listed] at ended
        have exact : {x | ∃ line ∈ lines, x ∈ exactBand line} ⊆ region l := by
          rw [covers, requested_eq listed]
        have mergeable := mergeable_of_union ended ((region_bands_subset lines).trans exact)
        obtain ⟨result, ended', _, separated, _, mem, within⟩ := union_of_mergeable mergeable
        obtain rfl := Except.ok.inj (ended'.symm.trans ended)
        exact ⟨lines, listed, mergeable, oddInside_of_covers separated mem within exact⟩
  · rintro ⟨lines, listed, mergeable, odd⟩
    obtain ⟨result, ended, sorted, separated, covers, _, _⟩ := union_of_mergeable mergeable
    refine ⟨result, ?_, sorted, separated.pairwiseDisjoint, ?_⟩
    · rw [read_sorted_list, show (tagged tag (file.getD [])).mapM numbers = .ok lines from listed]
      exact ended
    · rw [covers, requested_eq listed]
      exact (region_bands_subset lines).antisymm (exactBands_subset odd)

/-- The second band starts where the first one ends. -/
theorem read_sorted_list_touching :
    ¬ PreservesCoverage ['h'] (some "h 100 20\nh 120 20\n".toList) := by
  rintro ⟨l, ended, _⟩
  have raised : read_sorted_list ['h'] (some "h 100 20\nh 120 20\n".toList) =
      .error .typeError := by decide +kernel
  rw [raised] at ended
  cases ended

end Kukuruku.Scanner.IntervalList
