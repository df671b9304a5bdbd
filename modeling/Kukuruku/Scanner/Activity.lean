import Mathlib.Data.Rat.Floor
import Kukuruku.Foundation.OrderStatistic
import Kukuruku.Foundation.PythonList
import Kukuruku.Scanner.FindPeaks

/-!
# Activity of a peak

`check_activity` turns the band of a peak back into bins and looks for one above
the floor.  A margin widens the bands of the peaks that were found, and a channel
of the configuration lies where it likes, so the bins may leave the spectrum.
-/

namespace Kukuruku.Scanner.Activity

open Kukuruku.OrderStatistic
open Kukuruku.PythonList
open Kukuruku.PythonTwo
open Kukuruku.Scanner.FindPeaks

variable {K : Type*} [Field K] [LinearOrder K] [FloorRing K]

/-! ## The function -/

section Band

variable (conf : Conf K) (peak : Peak K)

def startbin : Int :=
  (peak.freq / .int conf.binhz - peak.bw / .int (2 * conf.binhz)).toInt + conf.fftw.fdiv 2

def stopbin : Int :=
  (peak.freq / .int conf.binhz + peak.bw / .int (2 * conf.binhz)).toInt + conf.fftw.fdiv 2

end Band

/-- What a check did: the indices of `acc` that it read, and its answer, `none` on
an exception. -/
structure Check where
  reads : List Int
  result : Option Bool

/-- The loop over the bins. -/
def checkBins (acc : List K) (floor : K) : List Int → Check
  | [] => ⟨[], some false⟩
  | i :: rest =>
      match index? acc i with
      | none => ⟨[i], none⟩
      | some power =>
          if floor < power then ⟨[i], some true⟩
          else
            let later := checkBins acc floor rest
            ⟨i :: later.reads, later.result⟩

def percentile (conf : Conf K) (acc : List K) (q : K) : Option K :=
  index? (sorted acc) (truncate (q * conf.fftw))

def check_activity (conf : Conf K) (acc : List K) (peak : Peak K) (q sql : K) : Check :=
  match percentile conf acc q with
  | none => ⟨[], none⟩
  | some level =>
      if conf.fftw = 0 ∨ conf.binhz = 0 then ⟨[], none⟩
      else checkBins acc (level + sql) (range (startbin conf peak) (stopbin conf peak))

/-! ## What the check is for -/

/-- A bin of the spectrum is above the floor. -/
def LoudAt (acc : List K) (floor : K) (i : Int) : Prop :=
  0 ≤ i ∧ ∃ power ∈ acc[i.toNat]?, floor < power

section Exact

variable (conf : Conf K) (peak : Peak K)

/-- The ends of the band in bins, exact but for the middle of the spectrum, which is a
whole bin. -/
def lower : K :=
  (peak.freq.value - peak.bw.value / ((2 : Nat) : K)) / conf.binhz + (conf.fftw.fdiv 2 : Int)

def upper : K :=
  (peak.freq.value + peak.bw.value / ((2 : Nat) : K)) / conf.binhz + (conf.fftw.fdiv 2 : Int)

/-- Bin `i`, which reaches from `i` to `i + 1`, lies in the band as a whole. -/
def Within (i : Int) : Prop := lower conf peak ≤ i ∧ (i : K) + 1 ≤ upper conf peak

def Overlaps (i : Int) : Prop := lower conf peak < (i : K) + 1 ∧ (i : K) < upper conf peak

end Exact

section Checks

variable (conf : Conf K) (acc : List K) (peak : Peak K) (q sql : K)

end Checks

/-! ## When the check is right -/

section Fits

variable (conf : Conf K) (acc : List K) (peak : Peak K) (floor : K)

/-- The middle and half of the width, in bins, as Python 2 divides. -/
def middle : K := (peak.freq / .int conf.binhz).value

def radius : K := (peak.bw / .int (2 * conf.binhz)).value

/-- Bin `i` lies in the band whose ends are cut to whole bins. -/
def InCut (i : Int) : Prop :=
  truncate (middle conf peak - radius conf peak) ≤ i - conf.fftw.fdiv 2 ∧
    i - conf.fftw.fdiv 2 < truncate (middle conf peak + radius conf peak)

/-- Neither division rounds. -/
def Divides : Prop :=
  middle conf peak = peak.freq.value / conf.binhz ∧
    radius conf peak = peak.bw.value / (2 * conf.binhz : Int)

/-- Where a division rounds, the bins that are lost or gained by it do not matter. -/
structure Rounds : Prop where
  lost : ∀ i, Within conf peak i → ¬ InCut conf peak i → LoudAt acc floor i →
    ∃ j, InCut conf peak j ∧ LoudAt acc floor j
  gained : ∀ i, InCut conf peak i → ¬ Overlaps conf peak i → LoudAt acc floor i →
    ∃ j, Overlaps conf peak j ∧ LoudAt acc floor j

/-- The cut band starts in the spectrum, and it ends there or a bin of it is loud. -/
structure Inside : Prop where
  starts : ∀ i, InCut conf peak i → 0 ≤ i
  ends : (∀ i, InCut conf peak i → i < conf.fftw) ∨ ∃ i, InCut conf peak i ∧ LoudAt acc floor i

structure Fits (q sql : K) : Prop where
  rate : conf.binhz ≠ 0
  percentile : -(acc.length : Int) ≤ truncate (q * conf.fftw) ∧
    truncate (q * conf.fftw) < acc.length
  inside : ∀ level, Ranked acc (truncate (q * conf.fftw)) level →
    Inside conf acc peak (level + sql)
  rounds : Divides conf peak ∨ ∀ level, Ranked acc (truncate (q * conf.fftw)) level →
    Rounds conf acc peak (level + sql)

end Fits

/-! ## The loop -/

section Loop

variable {K : Type*} [LinearOrder K] {acc : List K} {floor : K}

/-- The bin can be read and is above the floor. -/
def loud (acc : List K) (floor : K) (i : Int) : Bool :=
  (index? acc i).any fun power => decide (floor < power)

theorem loud_iff {i : Int} (nonneg : 0 ≤ i) : loud acc floor i = true ↔ LoudAt acc floor i := by
  rw [loud, index?_of_nonneg nonneg, LoudAt, Option.any_eq_true, and_iff_right nonneg]
  simp only [decide_eq_true_eq, Option.mem_def]

theorem LoudAt.lt_length {i : Int} (loud_i : LoudAt acc floor i) : i < acc.length := by
  obtain ⟨nonneg, power, found, _⟩ := loud_i
  have inside := (List.getElem?_eq_some_iff.mp found).1
  omega

end Loop

/-! ## Bands -/

section Bands

variable {K : Type*} [LinearOrder K] {acc : List K} {floor : K} {start stop : Int}

/-- Some bin from `start` on and before `stop` is loud. -/
def Active (acc : List K) (floor : K) (start stop : Int) : Prop :=
  ∃ i, (start ≤ i ∧ i < stop) ∧ LoudAt acc floor i

/-- The bins of a band up to the end of the spectrum. -/
def inner (n : Nat) (start stop : Int) : List Int := range start (max start (min stop n))

theorem active_iff (nonneg : 0 ≤ start) :
    Active acc floor start stop ↔
      ∃ i ∈ inner acc.length start stop, loud acc floor i = true := by
  simp only [Active, inner, mem_range]
  constructor
  · rintro ⟨i, ⟨low, high⟩, loud_i⟩
    have short := loud_i.lt_length
    exact ⟨i, ⟨low, by omega⟩, (loud_iff (by omega)).mpr loud_i⟩
  · rintro ⟨i, ⟨low, high⟩, loud_i⟩
    exact ⟨i, ⟨low, by omega⟩, (loud_iff (by omega)).mp loud_i⟩

end Bands

/-! ## Bins of a band -/

section Bins

variable [IsStrictOrderedRing K] {conf : Conf K} {acc : List K} {peak : Peak K} {floor : K}

end Bins

/-! ## When the check is right -/

section Main

variable [IsStrictOrderedRing K] {conf : Conf K} {acc : List K} {peak : Peak K} {q sql level : K}

omit [IsStrictOrderedRing K] in
theorem percentile_mem (found : percentile conf acc q = some level) : level ∈ acc := by
  obtain ⟨i, at_i⟩ := index?_eq_some found
  exact (List.mem_insertionSort _).mp (List.mem_of_getElem? at_i)

end Main

/-! ## A found peak and a channel -/

/-- The width of a bin is 1. -/
def sixteen : Conf ℚ := ⟨16, 16, .int 1, .int 16, 3 / 2⟩

/-- The width of a bin is 12, rounded down from 25/2. -/
def eight : Conf ℚ := ⟨100, 8, .int 1, .int 16, 3 / 2⟩

/-- A channel whose frequency and width are rounded to one bin each: bin 6 is lost, but
bin 5 is heard. -/
def between : Peak ℚ := ⟨.int 23, .int 47, none, true⟩

end Kukuruku.Scanner.Activity
