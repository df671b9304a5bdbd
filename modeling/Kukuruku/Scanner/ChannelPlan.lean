import Mathlib.Data.Rat.Floor
import Kukuruku.Scanner.FindPeaks

/-!
# The channel of a recording

`do_record` chooses for each peak a decimation, a rotation and a low-pass filter.  What the
filter lets through should fit the rate of the recording, and the signal for which the peak
stands should be in it.
-/

namespace Kukuruku.Scanner.ChannelPlan

open Kukuruku.PythonTwo
open Kukuruku.Scanner.FindPeaks

variable {K : Type*} [Field K] [LinearOrder K] [FloorRing K]

/-- A turn is twice `pi`. -/
structure Settings (K : Type*) extends Conf K where
  transition : K
  pi : K

/-- The parts of a `channelhelper` that depend on the peak, and what is asked of
`firdes.low_pass`. -/
structure Helper (K : Type*) where
  decim : Int
  rate : K
  rotator : K
  cutoff : K
  transition_band : K

/-- `none` stands for a division by zero. -/
def channelhelper (conf : Settings K) (peak : Peak K) : Option (Helper K) :=
  let f := peak.freq
  let w := peak.bw
  if w.value = 0 ∨ conf.rate = 0 then none
  else
    let decim := ⌈(.int conf.rate / w : Number K).value⌉
    if decim = 0 then none
    else
      let transition_band := w.value * conf.transition
      some
        { decim := decim
          rate := conf.rate / decim
          rotator := -f.value / conf.rate * (((2 : Nat) : K) * conf.pi)
          cutoff := (w / .int 2).value - transition_band
          transition_band := transition_band }

/-! ## What a channel should be -/

namespace Helper

variable (ch : Helper K)

/-- The filter can be designed, as far as its checks of the arguments go. -/
def Designable (conf : Settings K) : Prop :=
  0 < ch.cutoff ∧ ch.cutoff ≤ conf.rate / ((2 : Nat) : K) ∧ 0 < ch.transition_band

/-- Where the filter stops is within the band of the recording. -/
def Stops : Prop :=
  ch.cutoff + ch.transition_band / ((2 : Nat) : K) ≤ ch.rate / ((2 : Nat) : K)

/-- The rotated frequency turns by at most a half between two samples of the recording. -/
def Holds (conf : Settings K) (f : K) : Prop :=
  |(f / conf.rate * (((2 : Nat) : K) * conf.pi) + ch.rotator) * ch.decim| ≤ conf.pi

end Helper

/-- The frequency of a bin, whatever the scanner takes for it. -/
def binfreq (conf : Conf K) (bin : Int) : K :=
  (conf.rate : K) / conf.fftw * (bin - (conf.fftw : K) / ((2 : Nat) : K))

/-- The width of a bin and the middle of the spectrum are whole, and the widest signal is
not too wide for the filter and for the rate. -/
structure Sane (conf : Settings K) : Prop where
  pi : 0 < conf.pi
  rate : 0 < conf.rate
  fftw : 0 < conf.fftw
  whole : conf.fftw ∣ conf.rate
  even : 2 ∣ conf.fftw
  minspan : 0 < conf.minspan.value
  transition : 0 < conf.transition
  narrow : conf.transition * ((2 : Nat) : K) < 1
  margin : 0 < conf.filtermargin
  filtered : conf.maxw.value * conf.filtermargin * (1 - conf.transition) ≤
    conf.transition * conf.rate
  covered : (conf.minspan.value + 1) * (conf.rate + conf.maxw.value * conf.filtermargin) ≤
    conf.minspan.value * conf.filtermargin * conf.rate

/-! ## One channel -/

section Channel

variable [IsStrictOrderedRing K] {conf : Settings K} {peak : Peak K} {ch : Helper K}

/-- The decimation is the least that brings the rate down to the width. -/
theorem ceil_bounds {rate w : K} (rated : 0 < rate) (positive : 0 < w) :
    1 ≤ ⌈rate / w⌉ ∧ (⌈rate / w⌉ : K) * w ≤ rate + w := by
  have ratio : 0 < rate / w := div_pos rated positive
  refine ⟨Int.one_le_ceil_iff.mpr ratio, ?_⟩
  have above := (Int.ceil_lt_add_one (rate / w)).le
  calc (⌈rate / w⌉ : K) * w ≤ (rate / w + 1) * w :=
        mul_le_mul_of_nonneg_right above positive.le
    _ = rate + w := by rw [add_mul, div_mul_cancel₀ _ positive.ne', one_mul]

/-- What is known of the channel of a peak whose width `w` is a float. -/
structure Planned (conf : Settings K) (peak : Peak K) (w : K) (ch : Helper K) : Prop where
  decim : 1 ≤ ch.decim
  least : (ch.decim : K) * w ≤ conf.rate + w
  rate : ch.rate = conf.rate / ch.decim
  rotator : ch.rotator = -peak.freq.value / conf.rate * (2 * conf.pi)
  cutoff : ch.cutoff = w / 2 - ch.transition_band
  transition_band : ch.transition_band = w * conf.transition

theorem exists_planned (rated : 0 < conf.rate) {w : K} (width : peak.bw = .float w)
    (positive : 0 < w) :
    ∃ ch, channelhelper conf peak = some ch ∧ Planned conf peak w ch := by
  obtain ⟨one, least⟩ := ceil_bounds (Int.cast_pos.mpr rated : (0 : K) < conf.rate) positive
  rw [channelhelper, width, Number.value_float, Number.div_float, Number.value_float,
    Number.value_int, Number.float_div, Number.value_float,
    if_neg (not_or.mpr ⟨positive.ne', rated.ne'⟩), if_neg (by omega)]
  refine ⟨_, rfl, one, least, rfl, ?_, ?_, rfl⟩
  · push_cast
    rfl
  · push_cast [Number.value_int]
    rfl

theorem Planned.designable {w : K} (planned : Planned conf peak w ch) (sane : Sane conf)
    (positive : 0 < w)
    (filtered : w * (1 - conf.transition) ≤ conf.transition * conf.rate) :
    ch.Designable conf := by
  have rate : (0 : K) < conf.rate := Int.cast_pos.mpr sane.rate
  have transition := sane.transition
  have narrow := sane.narrow
  have band : 0 < w * conf.transition := mul_pos positive transition
  push_cast at narrow
  have share : conf.transition * conf.rate ≤ 1 * conf.rate :=
    mul_le_mul_of_nonneg_right (by linarith) rate.le
  have half : w * (conf.transition * 2) < w * 1 :=
    mul_lt_mul_of_pos_left narrow positive
  rw [Helper.Designable, planned.cutoff, planned.transition_band]
  push_cast
  refine ⟨?_, ?_, band⟩
  · linarith
  · linarith

/-- What the filter lets through is not folded. -/
theorem Planned.stops {w : K} (planned : Planned conf peak w ch) (sane : Sane conf)
    (filtered : w * (1 - conf.transition) ≤ conf.transition * conf.rate) : ch.Stops := by
  have decim : (0 : K) < ch.decim := by exact_mod_cast planned.decim
  have narrow := sane.narrow
  push_cast at narrow
  have rest : 0 ≤ 1 - conf.transition := by linarith [sane.transition]
  have scaled := mul_le_mul_of_nonneg_right planned.least rest
  have edge : w * (1 - conf.transition) ≤ conf.rate / ch.decim := by
    rw [le_div_iff₀ decim]
    linarith
  rw [Helper.Stops, planned.cutoff, planned.transition_band, planned.rate]
  push_cast
  linarith

/-- A frequency near the centre of the peak stays in the band. -/
theorem Planned.holds {w : K} (planned : Planned conf peak w ch) (sane : Sane conf) {f : K}
    (near : |f - peak.freq.value| * (2 * ch.decim) ≤ conf.rate) : ch.Holds conf f := by
  have rate : (0 : K) < conf.rate := Int.cast_pos.mpr sane.rate
  have decim : (0 : K) < ch.decim := by exact_mod_cast planned.decim
  have turned : (f / conf.rate * (2 * conf.pi) + ch.rotator) * ch.decim =
      (f - peak.freq.value) * (2 * ch.decim) / conf.rate * conf.pi := by
    rw [planned.rotator]
    ring
  rw [Helper.Holds, Nat.cast_ofNat, turned, abs_mul, abs_div, abs_mul, abs_of_pos sane.pi,
    abs_of_pos rate, abs_of_pos (show (0 : K) < 2 * ch.decim by linarith)]
  exact mul_le_of_le_one_left sane.pi.le ((div_le_one rate).mpr near)

end Channel

/-! ## The peaks that are found -/

section Found

variable [IsStrictOrderedRing K] {conf : Settings K} {acc : List K} {floor : K}

omit [FloorRing K] [IsStrictOrderedRing K] in
theorem mem_find_peaks {peaks : List (Peak K)}
    (found : find_peaks conf.toConf acc floor = some peaks) {peak : Peak K}
    (member : peak ∈ peaks) :
    ∃ first i : Int, conf.Reportable (i - first) ∧ peak = conf.peak first i := by
  rw [find_peaks] at found
  split at found
  · cases found
  · obtain rfl := Option.some.inj found
    rw [scanned_eq] at member
    obtain ⟨⟨first, i⟩, reported, rfl⟩ := List.mem_map.mp member
    obtain ⟨b, -, reported⟩ := List.mem_filterMap.mp reported
    obtain ⟨⟨-, fits⟩, same⟩ := reported_eq_some.mp reported
    obtain rfl : i = b := congrArg Prod.snd same
    exact ⟨first, b, fits, rfl⟩

omit [FloorRing K] in
/-- The width of a bin. -/
theorem Sane.binhz (sane : Sane conf) :
    (conf.binhz : K) = (conf.rate : K) / conf.fftw ∧ (0 : K) < conf.binhz := by
  obtain ⟨n, whole⟩ := sane.whole
  have width := sane.fftw
  have quotient : conf.binhz = n := by
    rw [Conf.binhz, whole, Int.mul_fdiv_cancel_left _ width.ne']
  have positive : 0 < n := by
    have rate := sane.rate
    rw [whole] at rate
    exact (mul_pos_iff_of_pos_left width).mp rate
  have nonzero : (conf.fftw : K) ≠ 0 := Int.cast_ne_zero.mpr width.ne'
  rw [quotient]
  refine ⟨?_, Int.cast_pos.mpr positive⟩
  rw [whole, Int.cast_mul, mul_div_cancel_left₀ _ nonzero]

omit [FloorRing K] in
/-- The width of a reported signal. -/
theorem Sane.span (sane : Sane conf) {span : Int} (fits : conf.Reportable span) :
    conf.minspan.value ≤ span ∧ conf.binhz * (span : K) ≤ conf.maxw.value := by
  have positive := sane.binhz.2
  have nonzero : (.int conf.binhz : Number K).value ≠ 0 := positive.ne'
  have most := fits.2.trans (Number.value_div_bounds conf.maxw nonzero).1
  rw [Number.value_int, le_div_iff₀ positive] at most
  exact ⟨fits.1, by linarith⟩

/-- How far a bin of a signal is from the frequency of its peak. -/
theorem abs_binfreq_sub_le (sane : Sane conf) {first i bin : Int} (low : first ≤ bin)
    (high : bin ≤ i) :
    |binfreq conf.toConf bin - (conf.peak first i).freq.value| * 2 ≤
      conf.binhz * (((i - first : Int) : K) + 1) := by
  obtain ⟨exact, positive⟩ := sane.binhz
  obtain ⟨half, even⟩ := sane.even
  have middle : conf.fftw.fdiv 2 = half := by
    rw [even, Int.mul_fdiv_cancel_left _ two_ne_zero]
  have rounded := two_mul_fdiv_two (i + first)
  have apart : binfreq conf.toConf bin - (conf.peak first i).freq.value =
      conf.binhz * ((bin - (i + first).fdiv 2 : Int) : K) := by
    rw [binfreq, ← exact, Conf.peak, middle, even, Number.value_int]
    push_cast
    ring
  have near : |bin - (i + first).fdiv 2| * 2 ≤ i - first + 1 := by
    have rest := Int.emod_two_eq (i + first)
    rcases abs_cases (bin - (i + first).fdiv 2) with ⟨same, _⟩ | ⟨same, _⟩ <;> omega
  have near' : |((bin - (i + first).fdiv 2 : Int) : K)| * 2 ≤ ((i - first : Int) : K) + 1 := by
    exact_mod_cast near
  rw [apart, abs_mul, abs_of_pos positive, mul_assoc]
  exact mul_le_mul_of_nonneg_left near' positive.le

omit [FloorRing K] in
/-- A signal and half a bin on both sides of it fill at most the rate of a recording. -/
theorem Sane.fills (sane : Sane conf) {span decim w : K} (least : conf.minspan.value ≤ span)
    (value : w = conf.binhz * span * conf.filtermargin)
    (widest : w ≤ conf.maxw.value * conf.filtermargin) (planned : decim * w ≤ conf.rate + w) :
    conf.binhz * (span + 1) * decim ≤ conf.rate := by
  have minspan := sane.minspan
  have margin := sane.margin
  have some : 0 < span := minspan.trans_le least
  have most : decim * w ≤ conf.rate + conf.maxw.value * conf.filtermargin := by linarith
  have total : 0 ≤ conf.rate + conf.maxw.value * conf.filtermargin := by
    have rate : (0 : K) < conf.rate := Int.cast_pos.mpr sane.rate
    have width : 0 < w := by
      rw [value]
      exact mul_pos (mul_pos sane.binhz.2 some) margin
    linarith
  -- longer signals have less of the half bins
  have share : (span + 1) * conf.minspan.value ≤ (conf.minspan.value + 1) * span := by linarith
  have scaled : conf.binhz * (span + 1) * decim * (span * conf.filtermargin) *
      conf.minspan.value ≤ conf.rate * (span * conf.filtermargin) * conf.minspan.value :=
    calc conf.binhz * (span + 1) * decim * (span * conf.filtermargin) * conf.minspan.value
        = (span + 1) * conf.minspan.value * (decim * w) := by
          rw [value]
          ring
      _ ≤ (span + 1) * conf.minspan.value *
          (conf.rate + conf.maxw.value * conf.filtermargin) :=
          mul_le_mul_of_nonneg_left most (mul_nonneg (by linarith) minspan.le)
      _ ≤ (conf.minspan.value + 1) * span *
          (conf.rate + conf.maxw.value * conf.filtermargin) :=
          mul_le_mul_of_nonneg_right share total
      _ = span * ((conf.minspan.value + 1) *
          (conf.rate + conf.maxw.value * conf.filtermargin)) := by ring
      _ ≤ span * (conf.minspan.value * conf.filtermargin * conf.rate) :=
          mul_le_mul_of_nonneg_left sane.covered some.le
      _ = conf.rate * (span * conf.filtermargin) * conf.minspan.value := by ring
  exact le_of_mul_le_mul_right (le_of_mul_le_mul_right scaled minspan) (mul_pos some margin)

/-- With a sane configuration every peak that is found can be recorded: the filter can be
designed, it stops within the band of the recording, and every bin of the signal is in it. -/
theorem recordable (sane : Sane conf) {peaks : List (Peak K)}
    (found : find_peaks conf.toConf acc floor = some peaks) :
    ∀ peak ∈ peaks, ∃ ch, channelhelper conf peak = some ch ∧ 1 ≤ ch.decim ∧
      ch.Designable conf ∧ ch.Stops ∧
      ∃ first i : Int, peak = conf.peak first i ∧
        ∀ bin, first ≤ bin → bin ≤ i → ch.Holds conf (binfreq conf.toConf bin) := by
  intro peak member
  obtain ⟨first, i, fits, rfl⟩ := mem_find_peaks found member
  obtain ⟨least, most⟩ := sane.span fits
  have margin := sane.margin
  have binhz := sane.binhz.2
  have span : (0 : K) < ((i - first : Int) : K) := sane.minspan.trans_le least
  obtain ⟨w, width, value⟩ : ∃ w : K, (conf.peak first i).bw = .float w ∧
      w = conf.binhz * ((i - first : Int) : K) * conf.filtermargin :=
    ⟨_, rfl, by push_cast; rfl⟩
  have positive : 0 < w := by
    rw [value]
    exact mul_pos (mul_pos binhz span) margin
  have widest : w ≤ conf.maxw.value * conf.filtermargin := by
    rw [value]
    exact mul_le_mul_of_nonneg_right most margin.le
  have narrow := sane.narrow
  push_cast at narrow
  have rest : 0 ≤ 1 - conf.transition := by linarith [sane.transition]
  have filtered := (mul_le_mul_of_nonneg_right widest rest).trans sane.filtered
  obtain ⟨ch, planned, plan⟩ := exists_planned sane.rate width positive
  refine ⟨ch, planned, plan.decim, plan.designable sane positive filtered,
    plan.stops sane filtered, first, i, rfl, fun bin low high => plan.holds sane ?_⟩
  have decim : (0 : K) < ch.decim := by exact_mod_cast plan.decim
  have near := mul_le_mul_of_nonneg_right (abs_binfreq_sub_le sane low high) decim.le
  have inside := sane.fills least value widest plan.least
  linarith

end Found

/-- What `main.conf` has unless it says otherwise. -/
def defaults : Settings ℚ where
  rate := 2048000
  fftw := 2048
  minw := .int 10000
  maxw := .int 200000
  filtermargin := 3 / 2
  transition := 1 / 5
  pi := 355 / 113

/-- With the defaults a signal of twelve bins is recorded at a rate of 2048000 / 114. -/
theorem recordable_defaults : ∃ ch, channelhelper defaults (defaults.peak 1 13) = some ch ∧
    ch.decim = 114 ∧ ch.Designable defaults ∧ ch.Stops := by
  have sane : Sane defaults := by
    refine ⟨?_, ?_, ?_, ?_, ?_, ?_, ?_, ?_, ?_, ?_, ?_⟩ <;> decide +kernel
  have found : find_peaks defaults.toConf (0 :: List.replicate 12 2 ++ [0]) 1 =
      some [defaults.peak 1 13] := by decide +kernel
  obtain ⟨ch, planned, -, designable, stops, -⟩ :=
    recordable sane found (defaults.peak 1 13) List.mem_cons_self
  have decim : (channelhelper defaults (defaults.peak 1 13)).map Helper.decim = some 114 := by
    decide +kernel
  rw [planned] at decim
  exact ⟨ch, planned, Option.some.inj decim, designable, stops⟩

end Kukuruku.Scanner.ChannelPlan
