import Mathlib.Algebra.BigOperators.Group.List.Basic
import Mathlib.Algebra.Order.BigOperators.Group.List
import Mathlib.Algebra.Order.Field.Rat
import Mathlib.Tactic.FieldSimp
import Mathlib.Tactic.Linarith
import Kukuruku.Foundation.Fir
import Kukuruku.Scanner.Schedule

/-!
# The power spectrum of a buffer

`compute_spectrum` averages the power of windows of a buffer, puts the negative
frequencies before the positive ones and smooths the result.  The Fourier transform
of a window, its magnitude and the logarithm are a parameter; numbers are exact.
-/

namespace Kukuruku.Scanner.Power

open Fir
open Kukuruku.Scanner.Schedule (COMPLEX64)

variable {C K : Type*}

/-! ## The function -/

/-- What the spectrum is taken of: the sample that eight bytes stand for and the
power of a bin of a window, `10*log10(|fft(window)[bin]|**2/fftw)`. -/
structure Transform (C K : Type*) where
  sample : List UInt8 → C
  power : List C → Nat → K

/-- A step of zero is an exception of `range`. -/
structure Windows where
  fftw : Nat
  fftskip : Nat
  step_pos : 0 < fftw * fftskip

variable (fft : Transform C K) (conf : Windows)

/-- `np.frombuffer`, which raises an exception when the buffer is too short. -/
def frombuffer (sbuf : List UInt8) (count offset : Nat) : Option (List C) :=
  if offset + count * COMPLEX64 ≤ sbuf.length then
    some ((List.range count).map fun k =>
      fft.sample ((sbuf.drop (offset + k * COMPLEX64)).take COMPLEX64))
  else none

/-- The offsets of the windows in a buffer. -/
def Windows.offsets (length : Nat) : List Nat :=
  stride (conf.fftw * conf.fftskip * COMPLEX64) (length - conf.fftw * COMPLEX64) 0

/-- The average of no windows is no number. -/
inductive Spectrum (K : Type*) where
  | numbers (acc : List K)
  | nan

section Field

variable [Field K]

/-- The average of a bin over the windows. -/
def average (windows : List (List C)) (bin : Nat) : K :=
  (windows.map fun window => fft.power window bin).sum / (windows.length : K)

/-- From the order of the transform to the natural one. -/
def swapHalves {α : Type*} (acc : List α) : List α :=
  acc.drop (acc.length / 2) ++ acc.take (acc.length / 2)

/-- Smooth the result with a simple triangular filter. -/
def smooth (acc : List K) : List K :=
  acc.take 1 ++
    (List.range' 1 (acc.length - 2)).map (fun i =>
      (acc.getD (i - 1) 0 / ((2 : Nat) : K) + acc.getD i 0 + acc.getD (i + 1) 0 / ((2 : Nat) : K)) /
        ((2 : Nat) : K)) ++
    acc.drop (acc.length - 1)

def compute_spectrum (sbuf : List UInt8) : Option (Spectrum K) :=
  ((conf.offsets sbuf.length).mapM (frombuffer fft sbuf conf.fftw)).map fun windows =>
    if windows = [] then .nan
    else .numbers (smooth (swapHalves ((List.range conf.fftw).map (average fft windows))))

end Field

/-! ## The windows -/

section Offsets

variable {conf}

theorem byteStep_pos (conf : Windows) : 0 < conf.fftw * conf.fftskip * COMPLEX64 :=
  Nat.mul_pos conf.step_pos (by decide)

/-- A window ends before the buffer does. -/
theorem offset_inside {length i : Nat} (member : i ∈ conf.offsets length) :
    i + conf.fftw * COMPLEX64 < length := by
  have below := mem_stride_lt member
  omega

theorem offsets_eq_nil_iff {length : Nat} :
    conf.offsets length = [] ↔ length ≤ conf.fftw * COMPLEX64 := by
  have first : 0 < (conf.offsets length).length ↔
      0 + 0 * (conf.fftw * conf.fftskip * COMPLEX64) < length - conf.fftw * COMPLEX64 :=
    lt_length_stride_iff (byteStep_pos conf)
  rw [← List.length_eq_zero_iff]
  omega

/-- The windows start at the multiples of the step. -/
theorem getElem?_offsets {length k : Nat}
    (inside : k * (conf.fftw * conf.fftskip * COMPLEX64) + conf.fftw * COMPLEX64 < length) :
    (conf.offsets length)[k]? = some (k * (conf.fftw * conf.fftskip * COMPLEX64)) := by
  have below : 0 + k * (conf.fftw * conf.fftskip * COMPLEX64) <
      length - conf.fftw * COMPLEX64 := by omega
  have found := stride_getElem? (byteStep_pos conf) below
  rw [Nat.zero_add] at found
  exact found

variable (conf)

/-- The samples of the windows. -/
def windows (sbuf : List UInt8) : List (List C) :=
  (conf.offsets sbuf.length).map fun offset => (List.range conf.fftw).map fun k =>
    fft.sample ((sbuf.drop (offset + k * COMPLEX64)).take COMPLEX64)

/-- No window leaves the buffer. -/
theorem mapM_frombuffer (sbuf : List UInt8) :
    (conf.offsets sbuf.length).mapM (frombuffer fft sbuf conf.fftw) =
      some (windows fft conf sbuf) := by
  have each : ∀ offset ∈ conf.offsets sbuf.length, frombuffer fft sbuf conf.fftw offset =
      some ((List.range conf.fftw).map fun k =>
        fft.sample ((sbuf.drop (offset + k * COMPLEX64)).take COMPLEX64)) := fun offset member =>
    if_pos (offset_inside member).le
  rw [windows]
  generalize conf.offsets sbuf.length = offsets at each
  induction offsets with
  | nil => rfl
  | cons offset offsets ih =>
      rw [List.mapM_cons, each offset List.mem_cons_self,
        ih fun other member => each other (List.mem_cons_of_mem offset member)]
      rfl

theorem windows_eq_nil_iff {sbuf : List UInt8} :
    windows fft conf sbuf = [] ↔ sbuf.length ≤ conf.fftw * COMPLEX64 := by
  rw [windows, List.map_eq_nil_iff, offsets_eq_nil_iff]

end Offsets

/-! ## The bins -/

section Bins

/-- The bin of the transform that stands at a place of the spectrum. -/
def binAt (fftw i : Nat) : Nat := (i + fftw / 2) % fftw

theorem length_swapHalves {α : Type*} (acc : List α) : (swapHalves acc).length = acc.length := by
  rw [swapHalves, List.length_append, List.length_drop, List.length_take]
  omega

theorem getElem?_swapHalves {α : Type*} (acc : List α) {i : Nat} (inside : i < acc.length) :
    (swapHalves acc)[i]? = acc[binAt acc.length i]? := by
  rw [swapHalves, List.getElem?_append, List.length_drop, binAt]
  split_ifs with front
  · rw [List.getElem?_drop, Nat.mod_eq_of_lt (by omega), Nat.add_comm]
  · have place : (i + acc.length / 2) % acc.length = i - (acc.length - acc.length / 2) := by
      rw [Nat.mod_eq_sub_mod (by omega), Nat.mod_eq_of_lt (by omega)]
      omega
    rw [place, List.getElem?_take_of_lt (by omega)]

/-- The frequency of a place counts from the middle, if there are as many bins on
either side. -/
theorem dvd_binAt_sub {fftw i : Nat} (even : fftw % 2 = 0) (inside : i < fftw) :
    (fftw : Int) ∣ (binAt fftw i : Int) - (i - (fftw / 2 : Nat)) := by
  rw [binAt]
  rcases Nat.lt_or_ge (i + fftw / 2) fftw with front | back
  · rw [Nat.mod_eq_of_lt front]
    exact ⟨1, by push_cast; omega⟩
  · rw [Nat.mod_eq_sub_mod back, Nat.mod_eq_of_lt (by omega), Nat.cast_sub back]
    exact ⟨0, by push_cast; omega⟩

variable [Field K]

theorem length_smooth {acc : List K} (two : 2 ≤ acc.length) : (smooth acc).length = acc.length := by
  simp only [smooth, List.length_append, List.length_take, List.length_map, List.length_range',
    List.length_drop]
  omega

theorem getElem?_smooth_inner {acc : List K} {i : Nat} (low : 0 < i) (high : i + 1 < acc.length) :
    (smooth acc)[i]? = some
      ((acc.getD (i - 1) 0 / ((2 : Nat) : K) + acc.getD i 0 +
        acc.getD (i + 1) 0 / ((2 : Nat) : K)) / ((2 : Nat) : K)) := by
  have first : (acc.take 1).length = 1 := by
    rw [List.length_take]
    omega
  have count : i - 1 < acc.length - 2 := by omega
  rw [smooth, List.append_assoc, List.getElem?_append_right (by omega), first,
    List.getElem?_append_left (by simpa using count), List.getElem?_map,
    List.getElem?_range' (by omega), Option.map_some]
  have place : 1 + 1 * (i - 1) = i := by omega
  rw [place]

theorem getElem?_smooth_first {acc : List K} (some : 0 < acc.length) :
    (smooth acc)[0]? = acc[0]? := by
  rw [smooth, List.append_assoc, List.getElem?_append_left (by rw [List.length_take]; omega),
    List.getElem?_take_of_lt Nat.one_pos]

theorem getElem?_smooth_last {acc : List K} (two : 2 ≤ acc.length) :
    (smooth acc)[acc.length - 1]? = acc[acc.length - 1]? := by
  have before : (acc.take 1 ++ (List.range' 1 (acc.length - 2)).map (fun i =>
      (acc.getD (i - 1) 0 / ((2 : Nat) : K) + acc.getD i 0 +
        acc.getD (i + 1) 0 / ((2 : Nat) : K)) / ((2 : Nat) : K))).length = acc.length - 1 := by
    simp only [List.length_append, List.length_take, List.length_map, List.length_range']
    omega
  rw [smooth, List.getElem?_append_right before.le, before, Nat.sub_self, List.getElem?_drop,
    Nat.add_zero]

end Bins

/-! ## The spectrum -/

section Spectrum

variable [Field K]

/-- The average power at a place of the spectrum, before it is smoothed. -/
def level (sbuf : List UInt8) (i : Nat) : K :=
  average fft (windows fft conf sbuf) (binAt conf.fftw i)

/-- The averages in the natural order. -/
def ordered (sbuf : List UInt8) : List K :=
  swapHalves ((List.range conf.fftw).map (average fft (windows fft conf sbuf)))

theorem length_ordered (sbuf : List UInt8) : (ordered fft conf sbuf).length = conf.fftw := by
  rw [ordered, length_swapHalves, List.length_map, List.length_range]

theorem getElem?_ordered (sbuf : List UInt8) {i : Nat} (inside : i < conf.fftw) :
    (ordered fft conf sbuf)[i]? = some (level fft conf sbuf i) := by
  have bin : binAt conf.fftw i < conf.fftw := Nat.mod_lt _ (by omega)
  rw [ordered, getElem?_swapHalves _ (by rwa [List.length_map, List.length_range]),
    List.length_map, List.length_range, List.getElem?_map, List.getElem?_range bin]
  rfl

theorem getD_ordered (sbuf : List UInt8) {i : Nat} (inside : i < conf.fftw) :
    (ordered fft conf sbuf).getD i 0 = level fft conf sbuf i := by
  rw [List.getD_eq_getElem?_getD, getElem?_ordered fft conf sbuf inside, Option.getD_some]

theorem compute_spectrum_eq (sbuf : List UInt8) :
    compute_spectrum fft conf sbuf = some
      (if sbuf.length ≤ conf.fftw * COMPLEX64 then .nan
        else .numbers (smooth (ordered fft conf sbuf))) := by
  rw [compute_spectrum, mapM_frombuffer, Option.map_some]
  simp only [windows_eq_nil_iff, ordered]

/-- What a spectrum tells of its buffer. -/
structure Describes (sbuf : List UInt8) (acc : List K) : Prop where
  length : acc.length = conf.fftw
  first : acc[0]? = some (level fft conf sbuf 0)
  last : acc[conf.fftw - 1]? = some (level fft conf sbuf (conf.fftw - 1))
  inner : ∀ i, 0 < i → i + 1 < conf.fftw → acc[i]? = some
    ((level fft conf sbuf (i - 1) / ((2 : Nat) : K) + level fft conf sbuf i +
      level fft conf sbuf (i + 1) / ((2 : Nat) : K)) / ((2 : Nat) : K))
  /-- A place of `find_peaks` is as far from the middle as its bin from zero. -/
  place : conf.fftw % 2 = 0 → ∀ i, i < conf.fftw →
    (conf.fftw : Int) ∣ (binAt conf.fftw i : Int) - (i - (conf.fftw / 2 : Nat))

theorem smooth_describes (sbuf : List UInt8) (two : 2 ≤ conf.fftw) :
    Describes fft conf sbuf (smooth (ordered fft conf sbuf)) where
  length := by
    rw [length_smooth (by rwa [length_ordered]), length_ordered]
  first := by
    rw [getElem?_smooth_first (by rw [length_ordered]; omega),
      getElem?_ordered fft conf sbuf (by omega)]
  last := by
    have long : 2 ≤ (ordered fft conf sbuf).length := by rwa [length_ordered]
    have found := getElem?_smooth_last long
    rw [length_ordered] at found
    rw [found, getElem?_ordered fft conf sbuf (by omega)]
  inner i low high := by
    rw [getElem?_smooth_inner low (by rwa [length_ordered]),
      getD_ordered fft conf sbuf (by omega), getD_ordered fft conf sbuf (by omega),
      getD_ordered fft conf sbuf (by omega)]
  place even i inside := dvd_binAt_sub even inside

variable [LinearOrder K] [IsStrictOrderedRing K]

variable {fft conf}

theorem average_bounds {windows : List (List C)} (some : windows ≠ []) {bin : Nat} {lo hi : K}
    (within : ∀ window ∈ windows, lo ≤ fft.power window bin ∧ fft.power window bin ≤ hi) :
    lo ≤ average fft windows bin ∧ average fft windows bin ≤ hi := by
  have count : (0 : K) < windows.length := Nat.cast_pos.mpr (List.length_pos_of_ne_nil some)
  have sums : (windows.length : K) * lo ≤ (windows.map fun window => fft.power window bin).sum ∧
      (windows.map fun window => fft.power window bin).sum ≤ (windows.length : K) * hi := by
    clear some count
    induction windows with
    | nil => simp
    | cons window windows ih =>
        obtain ⟨low, high⟩ := within window List.mem_cons_self
        obtain ⟨lower, higher⟩ := ih fun other member =>
          within other (List.mem_cons_of_mem window member)
        rw [List.map_cons, List.sum_cons, List.length_cons]
        push_cast
        constructor <;> linarith
  rw [average, le_div_iff₀ count, div_le_iff₀ count]
  constructor <;> linarith [sums.1, sums.2]

/-- Smoothing stays between the least and the greatest level. -/
theorem Describes.bounds {sbuf : List UInt8} {acc : List K}
    (describes : Describes fft conf sbuf acc) {lo hi : K} (within : ∀ i, i < conf.fftw →
      lo ≤ level fft conf sbuf i ∧ level fft conf sbuf i ≤ hi) :
    ∀ x ∈ acc, lo ≤ x ∧ x ≤ hi := by
  intro x member
  obtain ⟨i, found⟩ := List.mem_iff_getElem?.mp member
  obtain ⟨inside, _⟩ := List.getElem?_eq_some_iff.mp found
  rw [describes.length] at inside
  rcases Nat.eq_zero_or_pos i with rfl | positive
  · rw [describes.first] at found
    obtain rfl := Option.some.inj found
    exact within 0 inside
  · rcases Nat.lt_or_ge (i + 1) conf.fftw with before | final
    · rw [describes.inner i positive before] at found
      obtain rfl := Option.some.inj found
      obtain ⟨low, high⟩ := within i inside
      obtain ⟨lowBefore, highBefore⟩ := within (i - 1) (by omega)
      obtain ⟨lowAfter, highAfter⟩ := within (i + 1) before
      push_cast
      constructor <;> linarith
    · obtain rfl : i = conf.fftw - 1 := by omega
      rw [describes.last] at found
      obtain rfl := Option.some.inj found
      exact within _ inside

variable (fft conf)

/-- All windows at multiples of the step that end before the buffer does, and no
others, make up the spectrum, which is as long as a window and between its bounds. -/
structure Spectral (sbuf : List UInt8) : Prop where
  exists_spectrum : ∃ spectrum, compute_spectrum fft conf sbuf = some spectrum
  nan_iff : compute_spectrum fft conf sbuf = some .nan ↔ sbuf.length ≤ conf.fftw * COMPLEX64
  window : ∀ k, k * (conf.fftw * conf.fftskip * COMPLEX64) + conf.fftw * COMPLEX64 < sbuf.length →
    (windows fft conf sbuf)[k]? = some ((List.range conf.fftw).map fun j => fft.sample
      ((sbuf.drop (k * (conf.fftw * conf.fftskip * COMPLEX64) + j * COMPLEX64)).take COMPLEX64))
  window_none : ∀ k,
    sbuf.length ≤ k * (conf.fftw * conf.fftskip * COMPLEX64) + conf.fftw * COMPLEX64 →
    (windows fft conf sbuf)[k]? = none
  describes : ∀ acc, compute_spectrum fft conf sbuf = some (.numbers acc) →
    Describes fft conf sbuf acc
  bounds : ∀ acc, compute_spectrum fft conf sbuf = some (.numbers acc) → ∀ lo hi : K,
    (∀ window ∈ windows fft conf sbuf, ∀ bin, bin < conf.fftw →
      lo ≤ fft.power window bin ∧ fft.power window bin ≤ hi) → ∀ x ∈ acc, lo ≤ x ∧ x ≤ hi

theorem compute_spectrum_spectral (two : 2 ≤ conf.fftw) (sbuf : List UInt8) :
    Spectral fft conf sbuf where
  exists_spectrum := ⟨_, compute_spectrum_eq fft conf sbuf⟩
  nan_iff := by
    rw [compute_spectrum_eq]
    split_ifs with short
    · exact iff_of_true rfl short
    · exact iff_of_false (fun same => nomatch Option.some.inj same) short
  window k inside := by
    rw [windows, List.getElem?_map, getElem?_offsets inside, Option.map_some]
  window_none k outside := by
    have beyond : ¬k < (conf.offsets sbuf.length).length := by
      rw [Windows.offsets, lt_length_stride_iff (byteStep_pos conf)]
      omega
    rw [windows, List.getElem?_map, List.getElem?_eq_none (Nat.not_lt.mp beyond), Option.map_none]
  describes acc computed := by
    rw [compute_spectrum_eq] at computed
    split_ifs at computed
    · cases computed
    obtain rfl := Spectrum.numbers.inj (Option.some.inj computed)
    exact smooth_describes fft conf sbuf two
  bounds acc computed lo hi within := by
    rw [compute_spectrum_eq] at computed
    split_ifs at computed with short
    · cases computed
    obtain rfl := Spectrum.numbers.inj (Option.some.inj computed)
    have some : windows fft conf sbuf ≠ [] := (windows_eq_nil_iff fft conf).not.mpr short
    refine (smooth_describes fft conf sbuf two).bounds fun i _ => average_bounds some ?_
    exact fun window member => within window member _ (Nat.mod_lt _ (by omega))

/-- Two windows of two samples. -/
theorem compute_spectrum_spectral_two :
    Spectral (K := Rat) ⟨fun bytes => bytes.headD 0, fun window bin => (window.getD bin 0).toNat⟩
      ⟨2, 1, by decide⟩ (List.replicate 40 1) :=
  compute_spectrum_spectral _ _ (by decide) _

end Spectrum

end Kukuruku.Scanner.Power
