import Mathlib.Algebra.BigOperators.Field
import Mathlib.Algebra.Field.Basic
import Mathlib.Algebra.Ring.Parity
import Mathlib.Data.Nat.Cast.Field
import Mathlib.Tactic.FieldSimp
import Kukuruku.Server.XlateWorker

/-!
# The power spectrum of a frame

`calc_spectrum` fills each waterfall line with the averaged log powers of the
transforms that fall into the line, negative frequencies first.  What FFTW and
the C library compute is a parameter; sums and quotients are exact.
-/

namespace Kukuruku.Server.Spectrum

open Kukuruku.Fir
open Kukuruku.Server.XlateWorker (Floats memcpy outputCount lt_outputCount_iff)

variable {K : Type*} [Field K]

/-! ## The function -/

/-- What `metadata.c` takes from elsewhere: the window, the plan that `fftwf_execute`
runs on `fftw_in`, and the logarithm. -/
structure Fftw (K : Type*) where
  fftw_window : Nat → K
  execute : List (K × K) → Nat → K × K
  log10f : K → K

/-- What the transform that begins at sample `base` adds to bin `k`. -/
def logPower (fftw : Fftw K) (fftsize : Nat) (data : Floats K) (base k : Nat) : K :=
  let fftw_in := (List.range fftsize).map fun k =>
    (fftw.fftw_window k * data ((base + k) * COMPLEX),
      fftw.fftw_window k * data ((base + k) * COMPLEX + 1))
  let fout := fftw.execute fftw_in k
  fftw.log10f ((fout.1 * fout.1 + fout.2 * fout.2) / (fftsize : K))

/-- It depends on the samples of the window alone. -/
theorem logPower_congr (fftw : Fftw K) {fftsize base : Nat} {data other : Floats K}
    (same : ∀ k < fftsize, data ((base + k) * COMPLEX) = other ((base + k) * COMPLEX) ∧
      data ((base + k) * COMPLEX + 1) = other ((base + k) * COMPLEX + 1)) (bin : Nat) :
    logPower fftw fftsize data base bin = logPower fftw fftsize other base bin := by
  have window : ((List.range fftsize).map fun k =>
      (fftw.fftw_window k * data ((base + k) * COMPLEX),
        fftw.fftw_window k * data ((base + k) * COMPLEX + 1))) =
      (List.range fftsize).map fun k =>
        (fftw.fftw_window k * other ((base + k) * COMPLEX),
          fftw.fftw_window k * other ((base + k) * COMPLEX + 1)) := by
    refine List.map_congr_left fun k member => ?_
    rw [(same k (List.mem_range.mp member)).1, (same k (List.mem_range.mp member)).2]
  rw [logPower, window]
  rfl

/-- The part of a packet that the spectrum is about. -/
structure SdrPacket (K : Type*) where
  data : Floats K
  spectrum : Floats K
  spectrumsize : Nat

/-- The locals of one line, and the global sum. -/
structure Accum (K : Type*) where
  base : Nat
  iters : Nat
  fftw_avg : Floats K

/-- The body of the loop over `j`; `L` holds the log powers of each transform. -/
def Accum.transform (L : Nat → Nat → K) (fftsize fftskip : Nat) (acc : Accum K) : Accum K :=
  { base := acc.base + fftskip
    iters := acc.iters + 1
    fftw_avg := fun k =>
      if k < fftsize then acc.fftw_avg k + L acc.base k else acc.fftw_avg k }

/-- The bound of the loop over `j`, an `int` that wraps around.  As long as it does not,
`j` and `base` stay far below their own bounds. -/
def lineBound (fftsize spp fftskip : Nat) : Int :=
  (((SDRPACKETSIZE / spp : Nat) : Int) - fftskip - fftsize).bmod (2 ^ 32)

/-- The values of `j` in one line. -/
def lineSteps (fftsize spp fftskip : Nat) : List Nat :=
  stride fftskip (lineBound fftsize spp fftskip).toNat 0

def accumulate (L : Nat → Nat → K) (fftsize spp fftskip base : Nat) : Accum K :=
  (lineSteps fftsize spp fftskip).foldl
    (fun acc _ => acc.transform L fftsize fftskip) ⟨base, 0, fun _ => 0⟩

/-- The division by the integer `iters/10`; `none` is a division by zero. -/
def normalise (fftsize : Nat) (acc : Accum K) : Option (Floats K) :=
  if acc.iters / 10 = 0 then none
  else some fun k =>
    if k < fftsize then acc.fftw_avg k / ((acc.iters / 10 : Nat) : K) else acc.fftw_avg k

/-- What one line leaves to the next. -/
structure Lines (K : Type*) where
  base : Nat
  spectrum : Floats K

/-- The body of the loop over `i`. -/
def line (L : Nat → Nat → K) (fftsize spp fftskip : Nat) (lines : Lines K) (i : Nat) :
    Option (Lines K) :=
  let acc := accumulate L fftsize spp fftskip lines.base
  (normalise fftsize acc).map fun fftw_avg =>
    let negative := memcpy lines.spectrum (i * fftsize) fftw_avg (fftsize / 2) (fftsize / 2)
    ⟨acc.base, memcpy negative (i * fftsize + fftsize / 2) fftw_avg 0 (fftsize / 2)⟩

/-- `junk` is what `realloc` finds behind the old contents. -/
def calc_spectrum (L : Nat → Nat → K) (fftsize : Nat) (junk : Floats K) (pkt : SdrPacket K)
    (spp fftskip : Nat) : Option (SdrPacket K) :=
  let packet_len := spp * fftsize * 4
  let spectrum :=
    if packet_len ≠ pkt.spectrumsize then
      fun k => if k < pkt.spectrumsize / 4 then pkt.spectrum k else junk k
    else pkt.spectrum
  ((List.range spp).foldlM (line L fftsize spp fftskip) ⟨0, spectrum⟩).map fun lines =>
    { pkt with spectrum := lines.spectrum, spectrumsize := packet_len }

/-! ## What a line should hold -/

/-- Transforms in each line. -/
def transforms (fftsize spp fftskip : Nat) : Nat := (lineSteps fftsize spp fftskip).length

/-- The sum of the log powers of line `i` at one bin. -/
def lineSum (L : Nat → Nat → K) (fftsize spp fftskip i bin : Nat) : K :=
  ∑ t ∈ Finset.range (transforms fftsize spp fftskip),
    L ((i * transforms fftsize spp fftskip + t) * fftskip) bin

/-- Their arithmetic mean. -/
def lineMean (L : Nat → Nat → K) (fftsize spp fftskip i bin : Nat) : K :=
  lineSum L fftsize spp fftskip i bin / (transforms fftsize spp fftskip : K)

/-- The bin that belongs at entry `k` of a line in natural order. -/
def naturalBin (fftsize k : Nat) : Nat := (k + (fftsize + 1) / 2) % fftsize

/-- Every entry of every line is written, with ten times the mean at the bin of
its place, and the places list each bin once, the negative frequencies first. -/
def NaturalSpectrum (L : Nat → Nat → K) (fftsize : Nat) (junk : Floats K) (pkt : SdrPacket K)
    (spp fftskip : Nat) : Prop :=
  (∃ next, calc_spectrum L fftsize junk pkt spp fftskip = some next ∧
    ∀ i < spp, ∀ k < fftsize, next.spectrum (i * fftsize + k) =
      ((10 : Nat) : K) * lineMean L fftsize spp fftskip i (naturalBin fftsize k)) ∧
  (∀ bin < fftsize, ∃! k, k < fftsize ∧ naturalBin fftsize k = bin) ∧
  ∀ k < fftsize, k < fftsize / 2 ↔ (fftsize + 1) / 2 ≤ naturalBin fftsize k

/-! ## The places of the bins -/

section Places

variable {fftsize k bin : Nat}

/-- In the first half of a line stand the bins behind the middle. -/
theorem naturalBin_low (half : k < fftsize / 2) :
    naturalBin fftsize k = k + (fftsize + 1) / 2 := by
  rw [naturalBin, Nat.mod_eq_of_lt (by omega)]

/-- The bins from zero on follow. -/
theorem naturalBin_high (past : fftsize / 2 ≤ k) (inside : k < fftsize) :
    naturalBin fftsize k = k - fftsize / 2 := by
  have wrapped : k + (fftsize + 1) / 2 = k - fftsize / 2 + fftsize := by omega
  rw [naturalBin, wrapped, Nat.add_mod_right, Nat.mod_eq_of_lt (by omega)]

/-- The lower half of a line, and only it, has the negative frequencies. -/
theorem naturalBin_negative (inside : k < fftsize) :
    k < fftsize / 2 ↔ (fftsize + 1) / 2 ≤ naturalBin fftsize k := by
  rcases Nat.lt_or_ge k (fftsize / 2) with low | high
  · rw [naturalBin_low low]
    omega
  · rw [naturalBin_high high inside]
    omega

/-- Each bin has one place in a line. -/
theorem naturalBin_unique (inside : bin < fftsize) :
    ∃! k, k < fftsize ∧ naturalBin fftsize k = bin := by
  have place (k : Nat) (within : k < fftsize) : naturalBin fftsize k = bin ↔
      k = if bin < (fftsize + 1) / 2 then bin + fftsize / 2 else bin - (fftsize + 1) / 2 := by
    rcases Nat.lt_or_ge k (fftsize / 2) with low | high
    · rw [naturalBin_low low]
      split <;> omega
    · rw [naturalBin_high high within]
      split <;> omega
  refine ⟨if bin < (fftsize + 1) / 2 then bin + fftsize / 2 else bin - (fftsize + 1) / 2,
    ⟨by split <;> omega, (place _ (by split <;> omega)).mpr rfl⟩, ?_⟩
  rintro k ⟨within, same⟩
  exact (place k within).mp same

end Places

/-! ## The transforms of a line -/

/-- The bound does not leave the `int` range at its lower end. -/
def Fits (fftsize spp fftskip : Nat) : Prop := fftskip + fftsize ≤ SDRPACKETSIZE / spp + 2 ^ 31

instance (fftsize spp fftskip : Nat) : Decidable (Fits fftsize spp fftskip) :=
  inferInstanceAs (Decidable (_ ≤ _))

theorem fits_of_room {fftsize spp fftskip : Nat} (room : fftskip + fftsize < SDRPACKETSIZE / spp) :
    Fits fftsize spp fftskip := by
  rw [Fits]
  omega

theorem lineBound_toNat {fftsize spp fftskip : Nat} (fits : Fits fftsize spp fftskip) :
    (lineBound fftsize spp fftskip).toNat = SDRPACKETSIZE / spp - fftskip - fftsize := by
  have packet : SDRPACKETSIZE / spp ≤ SDRPACKETSIZE := Nat.div_le_self _ _
  have size : SDRPACKETSIZE < 2 ^ 31 := by decide
  rw [Fits] at fits
  rw [lineBound, Int.bmod_eq_of_le (by omega) (by omega)]
  omega

/-- A line has one transform for each multiple of `fftskip` below its bound. -/
theorem transforms_eq {fftsize spp fftskip : Nat} (advance : 0 < fftskip)
    (fits : Fits fftsize spp fftskip) :
    transforms fftsize spp fftskip =
      outputCount fftskip (SDRPACKETSIZE / spp - fftskip - fftsize) := by
  refine eq_of_forall_lt_iff fun t => ?_
  rw [transforms, lineSteps, lineBound_toNat fits, lt_length_stride_iff advance,
    lt_outputCount_iff advance, Nat.zero_add]

section Line

variable (L : Nat → Nat → K) (fftsize fftskip : Nat)

@[simp]
theorem transform_base (acc : Accum K) :
    (acc.transform L fftsize fftskip).base = acc.base + fftskip := rfl

@[simp]
theorem transform_iters (acc : Accum K) :
    (acc.transform L fftsize fftskip).iters = acc.iters + 1 := rfl

theorem transform_avg (acc : Accum K) {k : Nat} (inside : k < fftsize) :
    (acc.transform L fftsize fftskip).fftw_avg k = acc.fftw_avg k + L acc.base k :=
  if_pos inside

/-- After some transforms. -/
theorem foldl_transform (steps : List Nat) (acc : Accum K) :
    let after := steps.foldl (fun acc _ => acc.transform L fftsize fftskip) acc
    after.base = acc.base + steps.length * fftskip ∧
      after.iters = acc.iters + steps.length ∧
      ∀ k < fftsize, after.fftw_avg k = acc.fftw_avg k +
        ∑ t ∈ Finset.range steps.length, L (acc.base + t * fftskip) k := by
  induction steps generalizing acc with
  | nil => simp
  | cons step rest ih =>
      obtain ⟨base, iters, sums⟩ := ih (acc.transform L fftsize fftskip)
      rw [transform_base] at base sums
      rw [transform_iters] at iters
      simp only [List.foldl_cons, List.length_cons]
      refine ⟨?_, ?_, fun k inside => ?_⟩
      · rw [base, Nat.succ_mul]
        omega
      · rw [iters]
        omega
      · rw [sums k inside, transform_avg L fftsize fftskip acc inside, Finset.sum_range_succ',
          add_assoc, Nat.zero_mul, Nat.add_zero, add_comm (L acc.base k)]
        refine congrArg (_ + ·) (congrArg (· + _) (Finset.sum_congr rfl fun t _ => ?_))
        rw [Nat.succ_mul, Nat.add_assoc, Nat.add_comm fftskip]

variable (spp : Nat)

/-- The sums of line `i`, when each line before it had its transforms. -/
theorem accumulate_spec (i : Nat) :
    let acc := accumulate L fftsize spp fftskip (i * transforms fftsize spp fftskip * fftskip)
    acc.base = (i + 1) * transforms fftsize spp fftskip * fftskip ∧
      acc.iters = transforms fftsize spp fftskip ∧
      ∀ k < fftsize, acc.fftw_avg k = lineSum L fftsize spp fftskip i k := by
  obtain ⟨base, iters, sums⟩ := foldl_transform L fftsize fftskip
    (lineSteps fftsize spp fftskip)
    ⟨i * transforms fftsize spp fftskip * fftskip, 0, fun _ => 0⟩
  refine ⟨?_, ?_, fun k inside => ?_⟩
  · rw [accumulate, base, Nat.succ_mul, Nat.add_mul]
    rfl
  · rw [accumulate, iters, Nat.zero_add]
    rfl
  · rw [accumulate, sums k inside, zero_add, lineSum]
    refine Finset.sum_congr rfl fun t _ => ?_
    rw [Nat.add_mul]

/-- The integer that the sums are divided by. -/
def quotient : Nat := transforms fftsize spp fftskip / 10

/-- What stands at entry `k` of line `i` in the end; the two copies write the
entries below twice the half. -/
def entry (old : Floats K) (i k : Nat) : K :=
  if k < fftsize / 2 then
    lineSum L fftsize spp fftskip i (k + fftsize / 2) / (quotient fftsize fftskip spp : K)
  else if k < fftsize / 2 + fftsize / 2 then
    lineSum L fftsize spp fftskip i (k - fftsize / 2) / (quotient fftsize fftskip spp : K)
  else old (i * fftsize + k)

omit [Field K] in
/-- The two copies of a line. -/
theorem memcpy_halves (spectrum fftw_avg : Floats K) (start j : Nat) :
    memcpy (memcpy spectrum start fftw_avg (fftsize / 2) (fftsize / 2)) (start + fftsize / 2)
        fftw_avg 0 (fftsize / 2) j =
      if j < start then spectrum j
      else if j - start < fftsize / 2 then fftw_avg (j - start + fftsize / 2)
      else if j - start < fftsize / 2 + fftsize / 2 then fftw_avg (j - start - fftsize / 2)
      else spectrum j := by
  simp only [memcpy]
  split_ifs <;> first | omega | rfl | (congr 1; omega)

/-- The lines before line `n` are complete, the others untouched. -/
structure Filled (old : Floats K) (n : Nat) (lines : Lines K) : Prop where
  base : lines.base = n * transforms fftsize spp fftskip * fftskip
  done : ∀ i < n, ∀ k < fftsize,
    lines.spectrum (i * fftsize + k) = entry L fftsize fftskip spp old i k
  rest : ∀ j, n * fftsize ≤ j → lines.spectrum j = old j

/-- The averages of line `n`. -/
theorem normalise_spec {n base : Nat} (place : base = n * transforms fftsize spp fftskip * fftskip)
    (enough : 10 ≤ transforms fftsize spp fftskip) :
    ∃ fftw_avg, normalise fftsize (accumulate L fftsize spp fftskip base) = some fftw_avg ∧
      ∀ k < fftsize, fftw_avg k =
        lineSum L fftsize spp fftskip n k / (quotient fftsize fftskip spp : K) := by
  obtain ⟨-, iters, sums⟩ := accumulate_spec L fftsize fftskip spp n
  rw [← place] at iters sums
  refine ⟨_, by rw [normalise, iters, if_neg (by omega)], fun k inside => ?_⟩
  rw [if_pos inside, sums k inside]
  rfl

/-- One line. -/
theorem Filled.line {old : Floats K} {n : Nat} {lines : Lines K}
    (filled : Filled L fftsize fftskip spp old n lines)
    (enough : 10 ≤ transforms fftsize spp fftskip) :
    ∃ next, line L fftsize spp fftskip lines n = some next ∧
      Filled L fftsize fftskip spp old (n + 1) next := by
  have base := (accumulate_spec L fftsize fftskip spp n).1
  rw [← filled.base] at base
  obtain ⟨fftw_avg, divided, averages⟩ :=
    normalise_spec L fftsize fftskip spp filled.base enough
  simp only [Spectrum.line, divided, Option.map_some]
  refine ⟨_, rfl, base, fun i earlier k inside => ?_, fun j later => ?_⟩ <;> dsimp only
  · rw [memcpy_halves]
    rcases Nat.lt_succ_iff_lt_or_eq.mp earlier with before | rfl
    · have line_le := Nat.mul_le_mul_right fftsize (Nat.succ_le_of_lt before)
      rw [Nat.succ_mul] at line_le
      rw [if_pos (by omega)]
      exact filled.done i before k inside
    · rw [if_neg (Nat.not_lt.mpr (Nat.le_add_right _ _)), Nat.add_sub_cancel_left, entry,
        filled.rest _ (Nat.le_add_right _ _)]
      split_ifs with low high
      · exact averages _ (by omega)
      · exact averages _ (by omega)
      · rfl
  · rw [Nat.succ_mul] at later
    rw [memcpy_halves, if_neg (by omega), if_neg (by omega), if_neg (by omega)]
    exact filled.rest j (by omega)

/-- All lines. -/
theorem Filled.lines (old : Floats K) (enough : 10 ≤ transforms fftsize spp fftskip) (n : Nat) :
    ∃ lines, (List.range n).foldlM (Spectrum.line L fftsize spp fftskip) ⟨0, old⟩ = some lines ∧
      Filled L fftsize fftskip spp old n lines := by
  induction n with
  | zero =>
      refine ⟨_, rfl, by simp, fun i never => absurd never (Nat.not_lt_zero i), fun j _ => rfl⟩
  | succ n ih =>
      obtain ⟨lines, before, filled⟩ := ih
      obtain ⟨next, step, filled⟩ := filled.line L fftsize fftskip spp enough
      refine ⟨next, ?_, filled⟩
      rw [List.range_succ, List.foldlM_append, before]
      simpa using step

/-- With fewer than ten transforms the first line divides by zero. -/
theorem lines_eq_none (old : Floats K) (few : transforms fftsize spp fftskip < 10)
    (some_line : 1 ≤ spp) :
    (List.range spp).foldlM (Spectrum.line L fftsize spp fftskip) ⟨0, old⟩ = none := by
  obtain ⟨more, rfl⟩ := Nat.exists_eq_add_of_le' some_line
  have iters := (accumulate_spec L fftsize fftskip (more + 1) 0).2.1
  simp only [Nat.zero_mul] at iters
  have first : Spectrum.line L fftsize (more + 1) fftskip ⟨0, old⟩ 0 = none := by
    rw [Spectrum.line, normalise, iters, if_pos (by omega)]
    rfl
  rw [List.range_succ_eq_map, List.foldlM_cons, first]
  rfl

end Line

/-! ## The whole spectrum -/

section Whole

variable {fftsize spp fftskip : Nat}

/-- What is in the spectrum afterwards. -/
theorem calc_spectrum_spec (L : Nat → Nat → K) (junk : Floats K) (pkt : SdrPacket K)
    (enough : 10 ≤ transforms fftsize spp fftskip) :
    ∃ old next, calc_spectrum L fftsize junk pkt spp fftskip = some next ∧
      (spp * fftsize * 4 = pkt.spectrumsize → old = pkt.spectrum) ∧
      ∀ i < spp, ∀ k < fftsize,
        next.spectrum (i * fftsize + k) = entry L fftsize fftskip spp old i k := by
  obtain ⟨lines, run, filled⟩ := Filled.lines L fftsize fftskip spp
    (if spp * fftsize * 4 ≠ pkt.spectrumsize then
      fun k => if k < pkt.spectrumsize / 4 then pkt.spectrum k else junk k
      else pkt.spectrum) enough spp
  refine ⟨_, _, by rw [calc_spectrum, run]; rfl, fun same => if_neg (not_not_intro same),
    filled.done⟩

/-- How many transforms a line has. -/
theorem transforms_of_room (advance : 1 ≤ fftskip)
    (room : fftskip + fftsize < SDRPACKETSIZE / spp) :
    transforms fftsize spp fftskip = (SDRPACKETSIZE / spp - fftsize - 1) / fftskip := by
  rw [transforms_eq advance (fits_of_room room), outputCount]
  congr 1
  omega

theorem transforms_pos (advance : 1 ≤ fftskip)
    (room : fftskip + fftsize < SDRPACKETSIZE / spp) : 0 < transforms fftsize spp fftskip := by
  rw [transforms_eq advance (fits_of_room room), lt_outputCount_iff advance]
  omega

/-- The transforms of all lines read the packet's samples only. -/
theorem transform_inside {i t k : Nat} (inside : i < spp)
    (transform : t < transforms fftsize spp fftskip) (bin : k < fftsize) (advance : 1 ≤ fftskip)
    (room : fftskip + fftsize < SDRPACKETSIZE / spp) :
    (i * transforms fftsize spp fftskip + t) * fftskip + k < SDRPACKETSIZE := by
  have line_le : transforms fftsize spp fftskip * fftskip ≤ SDRPACKETSIZE / spp - fftsize - 1 := by
    rw [transforms_of_room advance room]
    exact Nat.div_mul_le_self _ _
  have before : (i * transforms fftsize spp fftskip + t + 1) * fftskip ≤
      (i + 1) * (transforms fftsize spp fftskip * fftskip) := by
    rw [← Nat.mul_assoc, Nat.succ_mul i]
    exact Nat.mul_le_mul_right fftskip (by omega)
  have lines_le : (i + 1) * (transforms fftsize spp fftskip * fftskip) ≤
      (i + 1) * (SDRPACKETSIZE / spp - fftsize - 1) := Nat.mul_le_mul_left _ line_le
  have packet : (i + 1) * (SDRPACKETSIZE / spp) ≤ SDRPACKETSIZE :=
    Nat.le_trans (Nat.mul_le_mul_right _ inside) (Nat.mul_div_le _ _)
  have slack : (i + 1) * (SDRPACKETSIZE / spp - fftsize - 1) + (fftsize + 1) ≤
      (i + 1) * (SDRPACKETSIZE / spp) := by
    obtain ⟨rest, split⟩ :=
      Nat.exists_eq_add_of_le (show fftsize + 1 ≤ SDRPACKETSIZE / spp by omega)
    rw [split, show fftsize + 1 + rest - fftsize - 1 = rest by omega, Nat.mul_add]
    have one : 1 * (fftsize + 1) ≤ (i + 1) * (fftsize + 1) :=
      Nat.mul_le_mul_right _ (by omega)
    omega
  rw [Nat.succ_mul] at before
  omega

/-- What a transform adds depends on the packet's samples alone. -/
theorem logPower_inside (fftw : Fftw K) {data other : Floats K}
    (same : ∀ j < SDRPACKETSIZE * COMPLEX, data j = other j) {i t : Nat} (inside : i < spp)
    (transform : t < transforms fftsize spp fftskip) (advance : 1 ≤ fftskip)
    (room : fftskip + fftsize < SDRPACKETSIZE / spp) (bin : Nat) :
    logPower fftw fftsize data ((i * transforms fftsize spp fftskip + t) * fftskip) bin =
      logPower fftw fftsize other ((i * transforms fftsize spp fftskip + t) * fftskip) bin := by
  refine logPower_congr fftw (fun k inWindow => ?_) bin
  have sample := transform_inside inside transform inWindow advance room
  rw [COMPLEX_eq] at same ⊢
  exact ⟨same _ (by omega), same _ (by omega)⟩

/-- With log powers that are all one, so are the means. -/
theorem lineSum_one (i bin : Nat) :
    lineSum (fun _ _ => (1 : K)) fftsize spp fftskip i bin =
      (transforms fftsize spp fftskip : K) := by
  rw [lineSum, Finset.sum_const, Finset.card_range, nsmul_eq_mul, mul_one]

variable [CharZero K]

/-- An even width and a number of transforms that ten divides. -/
theorem natural_of_even (even : Even fftsize) (ten : 10 ∣ transforms fftsize spp fftskip)
    (some_transform : 0 < transforms fftsize spp fftskip) (L : Nat → Nat → K) (junk : Floats K)
    (pkt : SdrPacket K) : NaturalSpectrum L fftsize junk pkt spp fftskip := by
  have enough := Nat.le_of_dvd some_transform ten
  obtain ⟨old, next, written, -, entries⟩ := calc_spectrum_spec L junk pkt enough
  refine ⟨⟨next, written, fun i inLine k inside => ?_⟩, fun bin => naturalBin_unique,
    fun k => naturalBin_negative⟩
  obtain ⟨tenth, count⟩ := ten
  have divisor : quotient fftsize fftskip spp = tenth := by
    rw [quotient, count, Nat.mul_div_cancel_left _ (by decide)]
  have nonzero : (tenth : K) ≠ 0 := Nat.cast_ne_zero.mpr (by omega)
  have tenfold (total : K) : total / (tenth : K) =
      ((10 : Nat) : K) * (total / (transforms fftsize spp fftskip : K)) := by
    rw [count]
    push_cast
    field_simp
  obtain ⟨half, rfl⟩ := even
  rw [entries i inLine k inside, entry, divisor, lineMean]
  rcases Nat.lt_or_ge k ((half + half) / 2) with low | high
  · have middle : (half + half + 1) / 2 = (half + half) / 2 := by omega
    rw [if_pos low, naturalBin_low low, tenfold, middle]
  · rw [if_neg (by omega), if_pos (by omega), naturalBin_high high inside, tenfold]

/-- The spectrum is in natural order, with the means in every entry, whatever the
log powers are, exactly for an even width and ten, twenty, thirty, … transforms
a line. -/
theorem calc_spectrum_natural_iff (size : 1 ≤ fftsize) (some_line : 1 ≤ spp)
    (advance : 1 ≤ fftskip) (room : fftskip + fftsize < SDRPACKETSIZE / spp) :
    (∀ (L : Nat → Nat → K) (junk : Floats K) (pkt : SdrPacket K),
      NaturalSpectrum L fftsize junk pkt spp fftskip) ↔
    Even fftsize ∧ 10 ∣ (SDRPACKETSIZE / spp - fftsize - 1) / fftskip := by
  rw [← transforms_of_room advance room]
  have positive := transforms_pos advance room
  have nonzero : (transforms fftsize spp fftskip : K) ≠ 0 := Nat.cast_ne_zero.mpr (by omega)
  constructor
  · intro natural
    obtain ⟨⟨next, written, means⟩, -, -⟩ := natural (fun _ _ => 1) (fun _ => 0)
      ⟨fun _ => 0, fun _ => 0, spp * fftsize * 4⟩
    by_cases enough : 10 ≤ transforms fftsize spp fftskip
    · obtain ⟨old, other, found, kept, entries⟩ := calc_spectrum_spec (fun _ _ => (1 : K))
        (fun _ => 0) ⟨fun _ => 0, fun _ => 0, spp * fftsize * 4⟩ enough
      obtain rfl := Option.some.inj (written.symm.trans found)
      have same (k : Nat) (inside : k < fftsize) := (entries 0 some_line k inside).symm.trans
        (means 0 some_line k inside)
      rw [kept rfl] at same
      simp only [lineMean, lineSum_one, div_self nonzero, mul_one, entry] at same
      have even : Even fftsize := by
        rw [Nat.even_iff]
        by_contra odd
        have last := same (fftsize - 1) (by omega)
        rw [if_neg (by omega), if_neg (by omega)] at last
        norm_num at last
      refine ⟨even, ⟨quotient fftsize fftskip spp, ?_⟩⟩
      have first := same 0 (by omega)
      have divisor : (quotient fftsize fftskip spp : K) ≠ 0 :=
        Nat.cast_ne_zero.mpr (by rw [quotient]; omega)
      rw [Nat.even_iff] at even
      rw [if_pos (by omega), div_eq_iff divisor] at first
      exact_mod_cast first
    · rw [calc_spectrum, lines_eq_none _ _ _ _ _ (Nat.lt_of_not_le enough) some_line] at written
      cases written
  · rintro ⟨even, ten⟩ L junk pkt
    exact natural_of_even even ten positive L junk pkt

end Whole

/-- Ten transforms of width two. -/
theorem calc_spectrum_natural_ten :
    NaturalSpectrum (fun base k => (base + k : ℚ)) 2 (fun _ => 0) ⟨fun _ => 0, fun _ => 0, 0⟩
      1 50000 :=
  (calc_spectrum_natural_iff (by decide) (by decide) (by decide) (by decide)).mpr
    ⟨by decide, by decide⟩ _ _ _

/-- The call in `sdr_read_thr` with the default width: 63 transforms, whose sums are
divided by six and not by 6.3. -/
theorem calc_spectrum_default_width :
    SDRPACKETSIZE / 64 + 1024 < SDRPACKETSIZE / 1 ∧
    ¬ NaturalSpectrum (fun _ _ => (1 : ℚ)) 1024 (fun _ => 0) ⟨fun _ => 0, fun _ => 0, 0⟩ 1
      (SDRPACKETSIZE / 64) := by
  have count : transforms 1024 1 (SDRPACKETSIZE / 64) = 63 :=
    transforms_of_room (by decide) (by decide)
  refine ⟨by decide, ?_⟩
  rintro ⟨⟨next, written, means⟩, -, -⟩
  obtain ⟨old, other, found, -, entries⟩ := calc_spectrum_spec (fun _ _ => (1 : ℚ))
    (fun _ => 0) ⟨fun _ => 0, fun _ => 0, 0⟩ (by rw [count]; decide)
  obtain rfl := Option.some.inj (written.symm.trans found)
  have first := (entries 0 (by decide) 0 (by decide)).symm.trans
    (means 0 (by decide) 0 (by decide))
  rw [entry, if_pos (by decide), lineMean, lineSum_one, lineSum_one, quotient, count] at first
  norm_num at first

end Kukuruku.Server.Spectrum
