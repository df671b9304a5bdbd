import Mathlib.Algebra.Order.Field.Basic
import Mathlib.Data.List.Sort
import Mathlib.Tactic.Linarith
import Mathlib.Tactic.NormNum
import Mathlib.Tactic.Ring
import Kukuruku.Foundation.PythonTwo

/-!
# Peaks of a spectrum

`find_peaks` walks over the bins with one variable, the last bin at which the
power rose from below the floor to above it.  The width of a bin and the middle of a
peak are quotients of integers.
-/

namespace Kukuruku.Scanner.FindPeaks

open Kukuruku.PythonTwo

/-- `pipe` is the command that a recording is sent to. -/
structure Peak (K : Type*) where
  freq : Number K
  bw : Number K
  pipe : Option (List Char)
  archive : Bool
deriving DecidableEq

/-- The configuration that the scan reads. -/
structure Conf (K : Type*) where
  rate : Int
  fftw : Int
  minw : Number K
  maxw : Number K
  filtermargin : K

variable {K : Type*} [Field K] [LinearOrder K]

namespace Conf

variable (conf : Conf K)

def binhz : Int := conf.rate.fdiv conf.fftw

def minspan : Number K := conf.minw / .int conf.binhz

def maxspan : Number K := conf.maxw / .int conf.binhz

def Reportable (span : Int) : Prop :=
  conf.minspan.value ≤ span ∧ (span : K) ≤ conf.maxspan.value

instance (span : Int) : Decidable (conf.Reportable span) := inferInstanceAs (Decidable (_ ∧ _))

/-- The peak of the bins from `first` to `i`. -/
def peak (first i : Int) : Peak K where
  freq := .int (conf.binhz * ((i + first).fdiv 2 - conf.fftw.fdiv 2))
  bw := .float (((conf.binhz * (i - first) : Int) : K) * conf.filtermargin)
  pipe := none
  archive := false

end Conf

/-! ## The scan -/

/-- `acc[i]`. -/
def bin (acc : List K) (i : Nat) : K := acc.getD i 0

/-- The variables of the loop. -/
structure Scan (K : Type*) where
  first : Int
  peaks : List (Peak K)

/-- The power rises through the floor. -/
def Rise (acc : List K) (floor : K) (i : Nat) : Prop :=
  1 ≤ i ∧ floor < bin acc i ∧ bin acc (i - 1) < floor

def Fall (acc : List K) (floor : K) (i : Nat) : Prop :=
  bin acc i < floor ∧ floor < bin acc (i - 1)

section Scan

variable (conf : Conf K) (acc : List K) (floor : K)

instance (i : Nat) : Decidable (Rise acc floor i) := inferInstanceAs (Decidable (_ ∧ _ ∧ _))

instance (i : Nat) : Decidable (Fall acc floor i) := inferInstanceAs (Decidable (_ ∧ _))

def scanBin (scan : Scan K) (i : Nat) : Scan K :=
  let first : Int := if Rise acc floor i then i else scan.first
  if Fall acc floor i then
    if conf.Reportable (i - first) then ⟨first, scan.peaks ++ [conf.peak first i]⟩
    else ⟨first, scan.peaks⟩
  else ⟨first, scan.peaks⟩

/-- The variables after the first `count` rounds. -/
def scanned (count : Nat) : Scan K :=
  (List.range' 1 count).foldl (scanBin conf acc floor) ⟨-1, []⟩

/-- `none` stands for a division by zero. -/
def find_peaks : Option (List (Peak K)) :=
  if conf.fftw = 0 ∨ conf.binhz = 0 then none
  else some (scanned conf acc floor (acc.length - 1)).peaks

end Scan

/-! ## Runs -/

/-- The bins from `a` on and before `b` are a maximal run above the floor, and
bin `b` follows it. -/
structure IsRun (acc : List K) (floor : K) (a b : Nat) : Prop where
  nonempty : a < b
  followed : b < acc.length
  above : ∀ i, a ≤ i → i < b → floor < bin acc i
  ends : ¬ floor < bin acc b
  starts : a = 0 ∨ ¬ floor < bin acc (a - 1)

/-- The middle of a run, from the middle of the spectrum, and its width with the margin.
Here the halves are exact. -/
def band (conf : Conf K) (run : Nat × Nat) : K × K :=
  (conf.binhz * (((run.1 : K) + run.2) / ((2 : Nat) : K) - (conf.fftw : K) / ((2 : Nat) : K)),
    conf.binhz * ((run.2 : K) - run.1) * conf.filtermargin)

/-- One peak for each run of a reportable length, in their order, and no other. -/
def FindsRuns (conf : Conf K) (acc : List K) (floor : K) : Prop :=
  ∃ (runs : List (Nat × Nat)) (peaks : List (Peak K)), runs.Pairwise (fun r s => r.2 < s.2) ∧
    (∀ a b, (a, b) ∈ runs ↔ IsRun acc floor a b ∧ conf.Reportable ((b : Int) - a)) ∧
    find_peaks conf acc floor = some peaks ∧
    peaks.map (fun peak => (peak.freq.value, peak.bw.value)) = runs.map (band conf)

/-- `f` is the last bin before `a` at which the power rises, or the start value. -/
def LastRise (acc : List K) (floor : K) (a : Nat) (f : Int) : Prop :=
  (f = -1 ∧ ∀ j < a, ¬ Rise acc floor j) ∨
    ∃ j < a, f = j ∧ Rise acc floor j ∧ ∀ k, j < k → k < a → ¬ Rise acc floor k

/-- A run before a bin at the floor is not reportable, and neither is one whose
start the scan does not see, nor what reaches from the last rise to its end; the middle
of a reportable one is as far from a whole bin as the middle of the spectrum. -/
def Fits (conf : Conf K) (acc : List K) (floor : K) : Prop :=
  conf.fftw ≠ 0 ∧ conf.binhz ≠ 0 ∧ ∀ a b, IsRun acc floor a b →
    (bin acc b = floor → ¬ conf.Reportable ((b : Int) - a)) ∧
    (bin acc b < floor → ¬ Rise acc floor a → ¬ conf.Reportable ((b : Int) - a) ∧
      ∀ f, LastRise acc floor a f → ¬ conf.Reportable (b - f)) ∧
    (conf.Reportable ((b : Int) - a) → 2 ∣ (a : Int) + b - conf.fftw)

/-! ## The carried variable -/

section Carried

variable {conf : Conf K} {acc : List K} {floor : K}

/-- The last rise before a bin. -/
def lastRise (acc : List K) (floor : K) : Nat → Int
  | 0 => -1
  | n + 1 => if Rise acc floor n then n else lastRise acc floor n

theorem lastRise_lt (acc : List K) (floor : K) (n : Nat) : lastRise acc floor n < n := by
  induction n with
  | zero =>
      rw [lastRise]
      omega
  | succ n ih =>
      rw [lastRise]
      split <;> omega

theorem lastRise_spec (acc : List K) (floor : K) (n : Nat) :
    LastRise acc floor n (lastRise acc floor n) := by
  induction n with
  | zero => exact .inl ⟨rfl, fun j lt => absurd lt (Nat.not_lt_zero j)⟩
  | succ n ih =>
      rw [lastRise]
      split
      · rename_i rise
        exact .inr ⟨n, Nat.lt_succ_self n, rfl, rise, fun k after lt => by omega⟩
      · rename_i flat
        rcases ih with ⟨start, none⟩ | ⟨j, lt, same, rise, last⟩
        · refine .inl ⟨start, fun j lt => ?_⟩
          rcases Nat.lt_succ_iff_lt_or_eq.mp lt with early | rfl
          · exact none j early
          · exact flat
        · refine .inr ⟨j, Nat.lt_succ_of_lt lt, same, rise, fun k after lt => ?_⟩
          rcases Nat.lt_succ_iff_lt_or_eq.mp lt with early | rfl
          · exact last k after early
          · exact flat

theorem LastRise.eq {n : Nat} {f : Int} (last : LastRise acc floor n f) :
    f = lastRise acc floor n := by
  induction n with
  | zero =>
      rcases last with ⟨rfl, _⟩ | ⟨j, lt, _⟩
      · rfl
      · exact absurd lt (Nat.not_lt_zero j)
  | succ n ih =>
      rw [lastRise]
      split
      · rename_i rise
        rcases last with ⟨_, none⟩ | ⟨j, lt, rfl, _, final⟩
        · exact absurd rise (none n (Nat.lt_succ_self n))
        · rcases Nat.lt_succ_iff_lt_or_eq.mp lt with early | rfl
          · exact absurd rise (final n early (Nat.lt_succ_self n))
          · rfl
      · rename_i flat
        refine ih ?_
        rcases last with ⟨start, none⟩ | ⟨j, lt, same, rise, final⟩
        · exact .inl ⟨start, fun j lt => none j (Nat.lt_succ_of_lt lt)⟩
        · rcases Nat.lt_succ_iff_lt_or_eq.mp lt with early | rfl
          · exact .inr ⟨j, early, same, rise, fun k after lt =>
              final k after (Nat.lt_succ_of_lt lt)⟩
          · exact absurd rise flat

/-- The bins that the code would report with a fall at `b`. -/
def reported (conf : Conf K) (acc : List K) (floor : K) (b : Nat) : Option (Int × Int) :=
  if Fall acc floor b ∧ conf.Reportable (b - lastRise acc floor (b + 1)) then
    some (lastRise acc floor (b + 1), b)
  else none

/-- What the loop carries, and what it has found. -/
theorem scanned_eq (conf : Conf K) (acc : List K) (floor : K) (count : Nat) :
    scanned conf acc floor count =
      ⟨lastRise acc floor (count + 1),
        ((List.range' 1 count).filterMap (reported conf acc floor)).map fun r =>
          conf.peak r.1 r.2⟩ := by
  induction count with
  | zero =>
      rw [lastRise, if_neg fun rise : Rise acc floor 0 => absurd rise.1 (by decide)]
      rfl
  | succ count ih =>
      have next : scanned conf acc floor (count + 1) =
          scanBin conf acc floor (scanned conf acc floor count) (count + 1) := by
        rw [scanned, List.range'_1_concat, List.foldl_concat, Nat.add_comm 1 count]
        rfl
      have carried : (if Rise acc floor (count + 1) then ((count + 1 : Nat) : Int)
          else lastRise acc floor (count + 1)) = lastRise acc floor (count + 1 + 1) := rfl
      rw [next, ih, scanBin, List.range'_1_concat, List.filterMap_append, List.map_append,
        Nat.add_comm 1 count]
      simp only [carried, List.filterMap_cons, List.filterMap_nil, reported]
      by_cases fall : Fall acc floor (count + 1)
      · by_cases fits : conf.Reportable
          ((count + 1 : Nat) - lastRise acc floor (count + 1 + 1))
        · rw [if_pos fall, if_pos fits, if_pos ⟨fall, fits⟩]
          rfl
        · rw [if_pos fall, if_neg fits, if_neg fun both => fits both.2, List.map_nil,
            List.append_nil]
      · rw [if_neg fall, if_neg fun both => fall both.1, List.map_nil, List.append_nil]

end Carried

/-! ## The runs in order -/

section Runs

variable {conf : Conf K} {acc : List K} {floor : K}

/-- The start of the bins above the floor right before bin `b`. -/
def start (acc : List K) (floor : K) : Nat → Nat
  | 0 => 0
  | n + 1 => if floor < bin acc n then start acc floor n else n + 1

theorem start_le (acc : List K) (floor : K) (b : Nat) : start acc floor b ≤ b := by
  induction b with
  | zero => exact Nat.le_refl 0
  | succ n ih =>
      rw [start]
      split <;> omega

theorem above_of_start {b i : Nat} (low : start acc floor b ≤ i) (high : i < b) :
    floor < bin acc i := by
  induction b with
  | zero => exact absurd high (Nat.not_lt_zero i)
  | succ n ih =>
      rw [start] at low
      split at low
      · rename_i above
        rcases Nat.lt_succ_iff_lt_or_eq.mp high with early | rfl
        · exact ih low early
        · exact above
      · omega

theorem before_start (acc : List K) (floor : K) (b : Nat) :
    start acc floor b = 0 ∨ ¬ floor < bin acc (start acc floor b - 1) := by
  induction b with
  | zero => exact .inl rfl
  | succ n ih =>
      rw [start]
      split
      · exact ih
      · exact .inr ‹_›

theorem isRun_iff {a b : Nat} : IsRun acc floor a b ↔
    1 ≤ b ∧ b < acc.length ∧ floor < bin acc (b - 1) ∧ ¬ floor < bin acc b ∧
      a = start acc floor b := by
  constructor
  · intro run
    have positive := run.nonempty
    refine ⟨by omega, run.followed, run.above (b - 1) (by omega) (by omega), run.ends, ?_⟩
    apply Nat.le_antisymm
    · by_contra late
      rcases run.starts with rfl | flat
      · exact late (Nat.zero_le _)
      · exact flat (above_of_start (by omega) (by omega : a - 1 < b))
    · by_contra late
      rcases before_start acc floor b with zero | flat
      · omega
      · have within := start_le acc floor b
        exact flat (run.above _ (by omega) (by omega))
  · rintro ⟨positive, followed, above, ends, rfl⟩
    have nonempty : start acc floor b < b := by
      by_contra empty
      have final := Nat.le_antisymm (start_le acc floor b) (Nat.not_lt.mp empty)
      rcases before_start acc floor b with zero | flat
      · omega
      · rw [final] at flat
        exact flat above
    exact ⟨nonempty, followed, fun i low high => above_of_start low high, ends,
      before_start acc floor b⟩

/-- The run that ends at `b`, when it is reportable. -/
def wanted (conf : Conf K) (acc : List K) (floor : K) (b : Nat) : Option (Nat × Nat) :=
  if (floor < bin acc (b - 1) ∧ ¬ floor < bin acc b) ∧
      conf.Reportable ((b : Int) - start acc floor b) then
    some (start acc floor b, b)
  else none

def runs (conf : Conf K) (acc : List K) (floor : K) : List (Nat × Nat) :=
  (List.range' 1 (acc.length - 1)).filterMap (wanted conf acc floor)

theorem wanted_eq_some {a b c : Nat} :
    wanted conf acc floor b = some (a, c) ↔
      (floor < bin acc (b - 1) ∧ ¬ floor < bin acc b ∧ a = start acc floor b ∧ c = b) ∧
        conf.Reportable ((c : Int) - a) := by
  rw [wanted, Option.ite_none_right_eq_some, Option.some.injEq, Prod.mk.injEq]
  constructor
  · rintro ⟨⟨⟨above, ends⟩, fits⟩, rfl, rfl⟩
    exact ⟨⟨above, ends, rfl, rfl⟩, fits⟩
  · rintro ⟨⟨above, ends, rfl, rfl⟩, fits⟩
    exact ⟨⟨⟨above, ends⟩, fits⟩, rfl, rfl⟩

theorem mem_runs (a b : Nat) :
    (a, b) ∈ runs conf acc floor ↔ IsRun acc floor a b ∧ conf.Reportable ((b : Int) - a) := by
  rw [runs, List.mem_filterMap, isRun_iff]
  constructor
  · rintro ⟨i, member, found⟩
    obtain ⟨⟨above, ends, rfl, rfl⟩, fits⟩ := wanted_eq_some.mp found
    obtain ⟨low, high⟩ := List.mem_range'_1.mp member
    exact ⟨⟨low, by omega, above, ends, rfl⟩, fits⟩
  · rintro ⟨⟨low, high, above, ends, rfl⟩, fits⟩
    exact ⟨b, List.mem_range'_1.mpr ⟨low, by omega⟩,
      wanted_eq_some.mpr ⟨⟨above, ends, rfl, rfl⟩, fits⟩⟩

theorem pairwise_runs (conf : Conf K) (acc : List K) (floor : K) :
    (runs conf acc floor).Pairwise fun r s => r.2 < s.2 := by
  refine List.pairwise_filterMap.mpr (List.Pairwise.imp ?_ List.pairwise_lt_range')
  rintro i j lt ⟨a, b⟩ found ⟨a', b'⟩ later
  obtain ⟨⟨_, _, _, rfl⟩, _⟩ := wanted_eq_some.mp found
  obtain ⟨⟨_, _, _, rfl⟩, _⟩ := wanted_eq_some.mp later
  exact lt

/-- Within a run there is no rise. -/
theorem lastRise_of_run {a b : Nat} (run : IsRun acc floor a b) :
    lastRise acc floor (b + 1) = lastRise acc floor (a + 1) := by
  have inside : ∀ k, a < k → k ≤ b + 1 → lastRise acc floor k = lastRise acc floor (a + 1) := by
    intro k low high
    induction k, low using Nat.le_induction with
    | base => rfl
    | succ k low ih =>
        rw [lastRise, if_neg, ih (by omega)]
        rintro ⟨_, _, below⟩
        exact lt_asymm below (run.above (k - 1) (by omega) (by omega))
  exact inside (b + 1) (by have := run.nonempty; omega) (Nat.le_refl _)

theorem carried_of_rise {a b : Nat} (run : IsRun acc floor a b) (rise : Rise acc floor a) :
    lastRise acc floor (b + 1) = a := by
  rw [lastRise_of_run run, lastRise, if_pos rise]

theorem carried_of_not_rise {a b : Nat} (run : IsRun acc floor a b)
    (unseen : ¬ Rise acc floor a) : lastRise acc floor (b + 1) = lastRise acc floor a := by
  rw [lastRise_of_run run, lastRise, if_neg unseen]

theorem wanted_of_run {a b : Nat} (run : IsRun acc floor a b) :
    wanted conf acc floor b =
      if conf.Reportable ((b : Int) - a) then some (a, b) else none := by
  obtain ⟨_, _, above, ends, rfl⟩ := isRun_iff.mp run
  by_cases fits : conf.Reportable ((b : Int) - start acc floor b)
  · rw [wanted, if_pos ⟨⟨above, ends⟩, fits⟩, if_pos fits]
  · rw [wanted, if_neg fun both => fits both.2, if_neg fits]

end Runs

/-! ## What the scan finds -/

section Finds

variable {conf : Conf K} {acc : List K} {floor : K}

/-- What the scan reports where a run of a fitting spectrum ends. -/
theorem reported_of_run (fits : Fits conf acc floor) {a b : Nat} (run : IsRun acc floor a b) :
    reported conf acc floor b =
      if conf.Reportable ((b : Int) - a) then some ((a : Int), (b : Int)) else none := by
  obtain ⟨atFloor, below, _⟩ := fits.2.2 a b run
  rcases eq_or_lt_of_le (not_lt.mp run.ends) with level | under
  · have flat : ¬ Fall acc floor b := fun fall => lt_irrefl _ (level ▸ fall.1)
    rw [reported, if_neg fun both => flat both.1, if_neg (atFloor level)]
  · have nonempty := run.nonempty
    have fall : Fall acc floor b := ⟨under, run.above (b - 1) (by omega) (by omega)⟩
    by_cases rise : Rise acc floor a
    · rw [reported, carried_of_rise run rise]
      by_cases reportable : conf.Reportable ((b : Int) - a)
      · rw [if_pos ⟨fall, reportable⟩, if_pos reportable]
      · rw [if_neg fun both => reportable both.2, if_neg reportable]
    · obtain ⟨neither, nor⟩ := below under rise
      rw [reported, carried_of_not_rise run rise, if_neg neither,
        if_neg fun both => nor _ (lastRise_spec acc floor a) both.2]

/-- At each bin of a fitting spectrum the scan reports what is wanted. -/
theorem reported_eq_wanted (fits : Fits conf acc floor) {b : Nat} (low : 1 ≤ b)
    (high : b < acc.length) :
    reported conf acc floor b =
      (wanted conf acc floor b).map fun r => ((r.1 : Int), (r.2 : Int)) := by
  by_cases above : floor < bin acc (b - 1)
  · by_cases ends : floor < bin acc b
    · have rising : ¬ Fall acc floor b := fun fall => lt_asymm fall.1 ends
      rw [reported, wanted, if_neg fun both => rising both.1, if_neg fun both => both.1.2 ends]
      rfl
    · have run : IsRun acc floor (start acc floor b) b :=
        isRun_iff.mpr ⟨low, high, above, ends, rfl⟩
      rw [reported_of_run fits run, wanted_of_run run]
      split <;> rfl
  · have flat : ¬ Fall acc floor b := fun fall => above fall.2
    rw [reported, wanted, if_neg fun both => flat both.1, if_neg fun both => above both.1.1]
    rfl

theorem find_peaks_eq (width : conf.fftw ≠ 0) (scale : conf.binhz ≠ 0) :
    find_peaks conf acc floor =
      some (((List.range' 1 (acc.length - 1)).filterMap (reported conf acc floor)).map
        fun r => conf.peak r.1 r.2) := by
  rw [find_peaks, if_neg (not_or.mpr ⟨width, scale⟩), scanned_eq]

/-- The band of a peak that the scan reports. -/
def found (conf : Conf K) (r : Int × Int) : K × K :=
  ((conf.peak r.1 r.2).freq.value, (conf.peak r.1 r.2).bw.value)

/-- Half of an odd number is half a bin more than the code says. -/
theorem two_mul_fdiv_two (n : Int) : 2 * n.fdiv 2 = n - n % 2 := by
  rw [Int.fdiv_eq_ediv_of_nonneg n (by decide)]
  omega

variable [IsStrictOrderedRing K]

/-- The exact middle of a run, in half bins. -/
theorem band_fst (conf : Conf K) (run : Nat × Nat) :
    (band conf run).1 * 2 = ((conf.binhz * (run.1 + run.2 - conf.fftw) : Int) : K) := by
  rw [band]
  push_cast
  ring

omit [LinearOrder K] [IsStrictOrderedRing K] in
theorem found_fst (conf : Conf K) (r : Int × Int) : (found conf r).1 * 2 =
    ((conf.binhz * (r.1 + r.2 - conf.fftw - ((r.2 + r.1) % 2 - conf.fftw % 2)) : Int) : K) := by
  have middle := two_mul_fdiv_two (r.2 + r.1)
  have half := two_mul_fdiv_two conf.fftw
  have whole : conf.binhz * ((r.2 + r.1).fdiv 2 - conf.fftw.fdiv 2) * 2 =
      conf.binhz * (r.1 + r.2 - conf.fftw - ((r.2 + r.1) % 2 - conf.fftw % 2)) := by
    rw [mul_assoc]
    congr 1
    omega
  rw [← whole, found, Conf.peak, Number.value_int]
  push_cast
  rfl

/-- Integer multiples of the width of a bin. -/
theorem cast_binhz_inj (scale : conf.binhz ≠ 0) {m n : Int} :
    ((conf.binhz * m : Int) : K) = ((conf.binhz * n : Int) : K) ↔ m = n :=
  Int.cast_inj.trans (Int.mul_eq_mul_left_iff scale)

/-- A reported peak has the band of a run exactly if it is of the bins of the run and
their middle is rounded as the middle of the spectrum is. -/
theorem found_eq_band (scale : conf.binhz ≠ 0) (margin : conf.filtermargin ≠ 0)
    {r : Int × Int} {run : Nat × Nat} :
    found conf r = band conf run ↔
      r = ((run.1 : Int), (run.2 : Int)) ∧ 2 ∣ (run.1 : Int) + run.2 - conf.fftw := by
  obtain ⟨f, i⟩ := r
  obtain ⟨a, b⟩ := run
  have width : (found conf (f, i)).2 = (band conf (a, b)).2 ↔ i - f = (b : Int) - a := by
    have exact : (band conf (a, b)).2 =
        ((conf.binhz * ((b : Int) - a) : Int) : K) * conf.filtermargin := by
      rw [band]
      push_cast
      rfl
    rw [exact, ← cast_binhz_inj (K := K) scale]
    exact mul_left_inj' margin
  have middle : (found conf (f, i)).1 = (band conf (a, b)).1 ↔
      f + i - conf.fftw - ((i + f) % 2 - conf.fftw % 2) = a + b - conf.fftw := by
    rw [← mul_left_inj' (two_ne_zero' K), found_fst, band_fst, cast_binhz_inj scale]
  rw [Prod.ext_iff, middle, width, Prod.mk.injEq]
  omega

/-- Two lists with the same images, whose members agree on them only in pairs. -/
theorem eq_map_of_map_eq {α β γ : Type*} {f : α → γ} {g : β → γ} {h : β → α}
    (pairs : ∀ x y, f x = g y → x = h y) {xs : List α} {ys : List β}
    (same : xs.map f = ys.map g) : xs = ys.map h := by
  induction xs generalizing ys with
  | nil =>
      obtain rfl := List.map_eq_nil_iff.mp same.symm
      rfl
  | cons x xs ih =>
      cases ys with
      | nil => cases same
      | cons y ys =>
          obtain ⟨head, tail⟩ := List.cons.inj same
          rw [List.map_cons, pairs x y head, ih tail]

theorem findsRuns_of_fits (fits : Fits conf acc floor) : FindsRuns conf acc floor := by
  have agree : (List.range' 1 (acc.length - 1)).filterMap (reported conf acc floor) =
      (runs conf acc floor).map fun r => ((r.1 : Int), (r.2 : Int)) := by
    rw [runs, List.map_filterMap]
    refine List.filterMap_congr fun b member => ?_
    obtain ⟨low, high⟩ := List.mem_range'_1.mp member
    exact reported_eq_wanted fits low (by omega)
  refine ⟨runs conf acc floor, _, pairwise_runs conf acc floor, mem_runs,
    find_peaks_eq fits.1 fits.2.1, ?_⟩
  rw [agree, List.map_map, List.map_map]
  refine List.map_congr_left fun r member => ?_
  obtain ⟨run, reportable⟩ := (mem_runs r.1 r.2).mp member
  have even := (fits.2.2 r.1 r.2 run).2.2 reportable
  refine Prod.ext ?_ ?_
  · have middle : (found conf (r.1, r.2)).1 * 2 = (band conf r).1 * 2 := by
      have rounded : (r.1 : Int) + r.2 - conf.fftw - ((r.2 + r.1) % 2 - conf.fftw % 2) =
          r.1 + r.2 - conf.fftw := by omega
      rw [found_fst, band_fst, rounded]
    exact mul_right_cancel₀ two_ne_zero middle
  · rw [band]
    push_cast [Conf.peak, Function.comp, Number.value_float]
    rfl

omit [IsStrictOrderedRing K] in
theorem reported_eq_some {b : Nat} {r : Int × Int} :
    reported conf acc floor b = some r ↔
      (Fall acc floor b ∧ conf.Reportable (b - r.1)) ∧
        r = (lastRise acc floor (b + 1), (b : Int)) := by
  rw [reported, Option.ite_none_right_eq_some, Option.some.injEq]
  constructor
  · rintro ⟨fits, rfl⟩
    exact ⟨fits, rfl⟩
  · rintro ⟨fits, rfl⟩
    exact ⟨fits, rfl⟩

/-- If the scan finds the runs, it reports their bins. -/
theorem reported_of_findsRuns (margin : conf.filtermargin ≠ 0) (width : conf.fftw ≠ 0)
    (scale : conf.binhz ≠ 0) (finds : FindsRuns conf acc floor) :
    ∃ runs : List (Nat × Nat),
      (∀ a b, (a, b) ∈ runs ↔ IsRun acc floor a b ∧ conf.Reportable ((b : Int) - a)) ∧
      (List.range' 1 (acc.length - 1)).filterMap (reported conf acc floor) =
        runs.map (fun r => ((r.1 : Int), (r.2 : Int))) ∧
      ∀ r ∈ runs, 2 ∣ (r.1 : Int) + r.2 - conf.fftw := by
  obtain ⟨runs, peaks, _, members, raised, bands⟩ := finds
  rw [find_peaks_eq width scale] at raised
  rw [← Option.some.inj raised, List.map_map] at bands
  have same : (List.range' 1 (acc.length - 1)).filterMap (reported conf acc floor) =
      runs.map fun r => ((r.1 : Int), (r.2 : Int)) :=
    eq_map_of_map_eq (fun r run agree => ((found_eq_band scale margin).mp agree).1) bands
  refine ⟨runs, members, same, fun r member => ?_⟩
  rw [same, List.map_map] at bands
  exact ((found_eq_band scale margin).mp (List.map_inj_left.mp bands r member)).2

/-- What it reports at a bin is the run that ends there. -/
theorem reported_iff_run (margin : conf.filtermargin ≠ 0) (width : conf.fftw ≠ 0)
    (scale : conf.binhz ≠ 0) (finds : FindsRuns conf acc floor)
    {b : Nat} (low : 1 ≤ b) (high : b < acc.length) (f : Int) :
    (Fall acc floor b ∧ conf.Reportable (b - f) ∧ f = lastRise acc floor (b + 1)) ↔
      ∃ a : Nat, f = a ∧ IsRun acc floor a b ∧ conf.Reportable ((b : Int) - a) := by
  obtain ⟨l, members, agree, _⟩ := reported_of_findsRuns margin width scale finds
  have same : (f, (b : Int)) ∈ (List.range' 1 (acc.length - 1)).filterMap
      (reported conf acc floor) ↔ (f, (b : Int)) ∈ l.map fun r => ((r.1 : Int), (r.2 : Int)) := by
    rw [agree]
  constructor
  · rintro ⟨fall, fits, rfl⟩
    have listed := same.mp (List.mem_filterMap.mpr ⟨b, List.mem_range'_1.mpr ⟨low, by omega⟩,
      reported_eq_some.mpr ⟨⟨fall, fits⟩, rfl⟩⟩)
    obtain ⟨⟨a, b'⟩, member, cast⟩ := List.mem_map.mp listed
    obtain ⟨start, stop⟩ := Prod.mk.inj cast
    obtain rfl : b' = b := Int.ofNat.inj stop
    exact ⟨a, start.symm, (members a b').mp member⟩
  · rintro ⟨a, rfl, member⟩
    have listed := same.mpr (List.mem_map.mpr ⟨(a, b), (members a b).mpr member, rfl⟩)
    obtain ⟨i, _, found⟩ := List.mem_filterMap.mp listed
    obtain ⟨⟨fall, fits⟩, same⟩ := reported_eq_some.mp found
    obtain ⟨start, stop⟩ := Prod.mk.inj same
    obtain rfl : b = i := Int.ofNat.inj stop
    exact ⟨fall, fits, start⟩

theorem fits_of_findsRuns (margin : conf.filtermargin ≠ 0)
    (finds : FindsRuns conf acc floor) : Fits conf acc floor := by
  have parts : ¬ (conf.fftw = 0 ∨ conf.binhz = 0) := by
    obtain ⟨_, _, _, _, raised, _⟩ := finds
    intro division
    rw [find_peaks, if_pos division] at raised
    cases raised
  obtain ⟨width, scale⟩ := not_or.mp parts
  refine ⟨width, scale, fun a b run => ?_⟩
  have nonempty := run.nonempty
  have same := reported_iff_run margin width scale finds (by omega : 1 ≤ b) run.followed
  refine ⟨?_, ?_, ?_⟩
  · intro level reportable
    obtain ⟨fall, _⟩ := (same a).mpr ⟨a, rfl, run, reportable⟩
    exact lt_irrefl _ (level ▸ fall.1)
  · intro under unseen
    have carried := carried_of_not_rise run unseen
    have early := lastRise_lt acc floor a
    refine ⟨fun reportable => ?_, fun f last reportable => ?_⟩
    · obtain ⟨_, _, seen⟩ := (same a).mpr ⟨a, rfl, run, reportable⟩
      omega
    · have fall : Fall acc floor b := ⟨under, run.above (b - 1) (by omega) (by omega)⟩
      obtain ⟨a', start, other, _⟩ := (same f).mp ⟨fall, reportable, last.eq.trans carried.symm⟩
      have unique := (isRun_iff.mp run).2.2.2.2.trans (isRun_iff.mp other).2.2.2.2.symm
      have before := last.eq
      omega
  · intro reportable
    obtain ⟨l, members, _, even⟩ := reported_of_findsRuns margin width scale finds
    exact even (a, b) ((members a b).mpr ⟨run, reportable⟩)

/-- `find_peaks` reports exactly the runs when no run that it misjudges has a
reportable length, and unless all widths are zero only then. -/
theorem find_peaks_findsRuns_iff (conf : Conf K) (acc : List K) (floor : K) :
    (Fits conf acc floor → FindsRuns conf acc floor) ∧
      (conf.filtermargin ≠ 0 → FindsRuns conf acc floor → Fits conf acc floor) :=
  ⟨findsRuns_of_fits, fits_of_findsRuns⟩

/-- A run of two bins and one of three. -/
def twoRuns : List ℚ := [0, 2, 3, 0, 2, 2, 2, 0]

/-- The width of a bin and the shortest span are rounded down; the run of three bins is too
wide. -/
def rounding : Conf ℚ := ⟨35, 8, .int 5, .float 11, 3 / 2⟩

theorem find_peaks_twoRuns : FindsRuns rounding twoRuns 1 := by
  refine (find_peaks_findsRuns_iff _ _ _).1 ⟨by decide, by decide, fun a b run => ?_⟩
  obtain ⟨low, high, above, ends, rfl⟩ := isRun_iff.mp run
  have stops : ∀ b < 8, 1 ≤ b ∧ 1 < bin twoRuns (b - 1) ∧ ¬ 1 < bin twoRuns b →
      b = 3 ∨ b = 7 := by decide +kernel
  obtain rfl | rfl := stops b high ⟨low, above, ends⟩
  · have rise : Rise twoRuns 1 (start twoRuns 1 3) := by decide +kernel
    exact ⟨fun level => absurd level (by decide +kernel), fun _ unseen => absurd rise unseen,
      fun _ => by decide +kernel⟩
  · have wide : ¬ rounding.Reportable (((7 : Nat) : Int) - start twoRuns 1 7) := by
      decide +kernel
    have rise : Rise twoRuns 1 (start twoRuns 1 7) := by decide +kernel
    exact ⟨fun _ => wide, fun _ unseen => absurd rise unseen, fun reportable =>
      absurd reportable wide⟩

/-- A run from bin 0 on is reported as if it started before the spectrum. -/
theorem find_peaks_firstBin :
    ¬ FindsRuns (⟨8, 8, .int 1, .int 4, 1⟩ : Conf ℚ) [2, 2, 0] 1 := by
  intro finds
  have run : IsRun ([2, 2, 0] : List ℚ) 1 0 2 :=
    isRun_iff.mpr ⟨by decide, by decide, by norm_num [bin], by norm_num [bin],
      by norm_num [start, bin]⟩
  have unseen : ¬ Rise ([2, 2, 0] : List ℚ) 1 0 := fun rise => absurd rise.1 (by decide)
  have fits := fits_of_findsRuns (by norm_num) finds
  exact ((fits.2.2 0 2 run).2.1 (by norm_num [bin]) unseen).1 (by decide +kernel)

end Finds

end Kukuruku.Scanner.FindPeaks
