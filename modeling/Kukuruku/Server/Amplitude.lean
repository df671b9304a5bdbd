import Mathlib.Algebra.Order.BigOperators.Group.Finset
import Mathlib.Data.List.GetD
import Kukuruku.Foundation.Truncate
import Kukuruku.Server.BlockFilter
import Kukuruku.Server.TapsHandover

/-!
# The largest sample a worker produces

`calc_max_amplitude` adds the magnitudes of the real taps, and `socket_write_thr`
scales samples to integers by the sum.  The samples of the SDR lie in a square,
whose corners are further from its centre than its sides: a rotation can bring
them to a component.  Arithmetic is exact.
-/

namespace Kukuruku.Server.Amplitude

open Kukuruku.Fir
open Kukuruku.Server.XlateWorker Kukuruku.Server.BlockFilter
open Kukuruku.Server.ChannelChain (Trig)
open Kukuruku.Server.TapsHandover (Trig.real)

/-! ## The functions -/

def INT16_MAX : Int := 32767

def INT8_MAX : Int := 127

section Conversion

variable {K : Type*} [Field K] [LinearOrder K]

/-- Calculate the maximum amplitude a filter can produce. -/
def calc_max_amplitude (taps : List K) : K := taps.foldl (fun acc tap => acc + |tap|) 0

/-- One component as `socket_write_thr` converts it. -/
def scaled [FloorRing K] (largest : Int) (maxval x : K) : Int :=
  truncate (x * ((largest : K) / maxval))

end Conversion

/-- All samples that a worker stores for the frames. -/
noncomputable def outputs (taps : List ℝ) (rotate : ℝ) (decim : Nat) (frames : List (Floats ℝ)) :
    List (lv_32fc_t ℝ) :=
  (processFrames (Trig.real.get_complex_taps taps rotate) decim
    (Trig.real.expj (rotate * decim)) Locals.start frames).flatMap FrameResult.out

/-- A component is at most `maxval`, and its conversions fit their types. -/
structure ComponentFits (maxval x : ℝ) : Prop where
  bound : |x| ≤ maxval
  int16 : -INT16_MAX - 1 ≤ scaled INT16_MAX maxval x ∧ scaled INT16_MAX maxval x ≤ INT16_MAX
  int8 : -INT8_MAX - 1 ≤ scaled INT8_MAX maxval x ∧ scaled INT8_MAX maxval x ≤ INT8_MAX

def SampleFits (maxval : ℝ) (sample : lv_32fc_t ℝ) : Prop :=
  ComponentFits maxval sample.re ∧ ComponentFits maxval sample.im

/-- The components of every sample are in `[-1, 1]`. -/
def InSquare (frames : List (Floats ℝ)) : Prop := ∀ data ∈ frames, ∀ j, |data j| ≤ 1

/-- Every sample is in the unit disc. -/
def InDisc (frames : List (Floats ℝ)) : Prop :=
  ∀ data ∈ frames, ∀ n, data (COMPLEX * n) ^ 2 + data (COMPLEX * n + 1) ^ 2 ≤ 1

/-- Tap `i` meets a received sample in evaluation `k`. -/
def Sees (decim k i : Nat) : Prop :=
  HISTORY ≤ k * decim + i ∧ k * decim % SDRPACKETSIZE + i < SDRPACKETSIZE + HISTORY

instance (decim k i : Nat) : Decidable (Sees decim k i) := inferInstanceAs (Decidable (_ ∧ _))

/-- The angle by which tap `i` and the output rotator turn a sample in evaluation `k`. -/
noncomputable def angle (rotate : ℝ) (decim k i : Nat) : ℝ := rotate * (i + k * decim : Nat)

/-- How far evaluation `k` reaches: a corner of the square, turned by an angle, has a
component of the sum of the magnitudes of its cosine and sine. -/
noncomputable def reach (taps : List ℝ) (rotate : ℝ) (decim k : Nat) : ℝ :=
  ∑ i : Fin taps.length, if Sees decim k i then
    |taps.get i| * (|Real.cos (angle rotate decim k i)| + |Real.sin (angle rotate decim k i)|)
  else 0

/-! ## The sum of the magnitudes -/

theorem foldl_abs (taps : List ℝ) (acc : ℝ) :
    taps.foldl (fun acc tap => acc + |tap|) acc = acc + (taps.map fun tap => |tap|).sum := by
  induction taps generalizing acc with
  | nil => simp
  | cons tap rest ih => rw [List.foldl_cons, ih, List.map_cons, List.sum_cons, add_assoc]

theorem calc_max_amplitude_eq (taps : List ℝ) :
    calc_max_amplitude taps = ∑ i : Fin taps.length, |taps.get i| := by
  rw [calc_max_amplitude, foldl_abs, zero_add]
  exact (Fin.sum_univ_fun_getElem taps fun tap => |tap|).symm

theorem calc_max_amplitude_pos {taps : List ℝ} (nonzero : ∃ tap ∈ taps, tap ≠ 0) :
    0 < calc_max_amplitude taps := by
  obtain ⟨tap, member, nonzero⟩ := nonzero
  obtain ⟨i, rfl⟩ := List.get_of_mem member
  rw [calc_max_amplitude_eq]
  exact Finset.sum_pos' (fun i _ => abs_nonneg _) ⟨i, Finset.mem_univ i, abs_pos.mpr nonzero⟩

/-! ## Each output as one sum -/

/-- The outputs of any frames, from all results of the filter. -/
theorem processFrames_out_rotator {R : Type*} [CommRing R] (taps : List (lv_32fc_t R))
    (decim : Nat) (phase_inc : lv_32fc_t R) (locals : Locals R) (frames : List (Floats R)) :
    (processFrames taps decim phase_inc locals frames).flatMap FrameResult.out =
      (rotator phase_inc locals.phase
        ((processFrames taps decim phase_inc locals frames).flatMap FrameResult.firout)).1 := by
  induction frames generalizing locals with
  | nil => rfl
  | cons data rest ih =>
      simp only [processFrames, List.flatMap_cons, ih, rotator_append]
      rfl

/-- What evaluation `k` gives: each tap times the sample it meets, turned. -/
noncomputable def turned (taps : List ℝ) (rotate : ℝ) (decim : Nat) (frames : List (Floats ℝ))
    (k : Nat) : lv_32fc_t ℝ :=
  ∑ i : Fin taps.length, lv_cmake (taps.get i) 0 *
    (windowAt frames decim k i * Trig.real.expj (angle rotate decim k i))

section Outputs

variable (taps : List ℝ) (rotate : ℝ) {decim : Nat}

theorem dotProd_turned (frames : List (Floats ℝ)) (k : Nat) :
    dotProd (windowAt frames decim k) (Trig.real.get_complex_taps taps rotate) *
        Trig.real.expj (rotate * decim) ^ k = turned taps rotate decim frames k := by
  have rotated (i : Nat) : Trig.real.expj (angle rotate decim k i) =
      Trig.real.expj rotate ^ i * Trig.real.expj (rotate * decim) ^ k := by
    rw [angle, Trig.real.expj_mul_nat rotate, Trig.real.expj_mul_nat rotate, ← pow_mul, ← pow_add,
      Nat.mul_comm k]
  rw [Trig.real.get_complex_taps_eq, ChannelChain.dotProd_get_complex_taps, Finset.sum_mul, turned]
  refine Fintype.sum_equiv (finCongr (List.length_map _)) _ _ fun i => ?_
  rw [rotated]
  simp only [List.get_eq_getElem, List.getElem_map, finCongr_apply, Fin.val_cast]
  ring

/-- The outputs are the turned sums, one for each multiple of `decim` received. -/
theorem outputs_getElem? (advance : 0 < decim) (frames : List (Floats ℝ)) (k : Nat) :
    (outputs taps rotate decim frames)[k]? =
      if k * decim < frames.length * SDRPACKETSIZE then some (turned taps rotate decim frames k)
      else none := by
  have filtered := (firOutputs_eq (Trig.real.get_complex_taps taps rotate)
    (Trig.real.expj (rotate * decim)) advance frames).2
  rw [firOutputs] at filtered
  rw [outputs, processFrames_out_rotator, rotator_getElem?, filtered, List.getElem?_map]
  split
  · rename_i received
    rw [List.getElem?_range ((lt_outputCount_iff advance).mpr received)]
    simp only [Option.map_some, Locals.start, Option.some.injEq]
    rw [← dotProd_turned]
    exact congrArg (_ * ·) (one_mul _)
  · rename_i late
    rw [List.getElem?_eq_none]
    · rfl
    · rw [List.length_range]
      exact Nat.le_of_not_lt fun early => late ((lt_outputCount_iff advance).mp early)

end Outputs

/-! ## Upper bounds -/

section Bounds

variable {frames : List (Floats ℝ)} {decim k : Nat}

/-- What holds of silence and of every received sample holds of a window. -/
theorem windowAt_of {P : lv_32fc_t ℝ → Prop} (silence : P 0)
    (received : ∀ data ∈ frames, ∀ n, P (samplesAt data 0 n)) (i : Nat) :
    P (windowAt frames decim k i) := by
  unfold windowAt streamAt
  split_ifs
  · exact silence
  · split
    · rename_i found
      exact received _ (List.mem_of_getElem? found) _
    · exact silence
  · exact silence

/-- A tap that sees nothing is multiplied by zero. -/
theorem windowAt_unseen {i : Nat} (unseen : ¬ Sees decim k i) : windowAt frames decim k i = 0 := by
  unfold windowAt
  split_ifs with inside
  · have early : k * decim + i < HISTORY := by
      by_contra late
      exact unseen ⟨Nat.le_of_not_lt late, inside⟩
    rw [streamAt, if_pos (by omega)]
  · rfl

variable (taps : List ℝ) (rotate : ℝ)

theorem turned_re : (turned taps rotate decim frames k).re = ∑ i : Fin taps.length,
    taps.get i * ((windowAt frames decim k i).re * Real.cos (angle rotate decim k i) +
      (windowAt frames decim k i).im * -Real.sin (angle rotate decim k i)) := by
  rw [turned, ← QuadraticAlgebra.reₗ_apply, map_sum]
  refine Finset.sum_congr rfl fun i _ => ?_
  simp [lv_cmake, Trig.expj, Trig.real]

theorem turned_im : (turned taps rotate decim frames k).im = ∑ i : Fin taps.length,
    taps.get i * ((windowAt frames decim k i).re * Real.sin (angle rotate decim k i) +
      (windowAt frames decim k i).im * Real.cos (angle rotate decim k i)) := by
  rw [turned, ← QuadraticAlgebra.imₗ_apply, map_sum]
  refine Finset.sum_congr rfl fun i _ => ?_
  simp [lv_cmake, Trig.expj, Trig.real]

/-- A component of a sample in the square. -/
theorem abs_turn_le {a b c s : ℝ} (re : |a| ≤ 1) (im : |b| ≤ 1) :
    |a * c + b * s| ≤ |c| + |s| := by
  calc |a * c + b * s| ≤ |a| * |c| + |b| * |s| := by
        rw [← abs_mul, ← abs_mul]
        exact abs_add_le _ _
    _ ≤ |c| + |s| := add_le_add (mul_le_of_le_one_left (abs_nonneg c) re)
        (mul_le_of_le_one_left (abs_nonneg s) im)

/-- A component of a sample in the unit disc. -/
theorem abs_turn_le_one {a b c s : ℝ} (disc : a ^ 2 + b ^ 2 ≤ 1) (unit : c ^ 2 + s ^ 2 = 1) :
    |a * c + b * s| ≤ 1 := by
  have lagrange : (a * c + b * s) ^ 2 + (a * s - b * c) ^ 2 = a ^ 2 + b ^ 2 := by
    linear_combination (a ^ 2 + b ^ 2) * unit
  rw [← sq_le_one_iff_abs_le_one]
  linarith [sq_nonneg (a * s - b * c)]

/-- Termwise bounds add up. -/
theorem abs_component_le {x : Fin taps.length → ℝ} {gain : Fin taps.length → ℝ}
    (bounded : ∀ i, |x i| ≤ gain i) :
    |∑ i : Fin taps.length, taps.get i * x i| ≤ ∑ i : Fin taps.length, |taps.get i| * gain i := by
  calc |∑ i : Fin taps.length, taps.get i * x i|
      ≤ ∑ i : Fin taps.length, |taps.get i * x i| := Finset.abs_sum_le_sum_abs _ _
    _ ≤ ∑ i : Fin taps.length, |taps.get i| * gain i := by
      refine Finset.sum_le_sum fun i _ => ?_
      rw [abs_mul]
      exact mul_le_mul_of_nonneg_left (bounded i) (abs_nonneg _)

theorem reach_eq : reach taps rotate decim k = ∑ i : Fin taps.length, |taps.get i| *
    if Sees decim k i then
      |Real.cos (angle rotate decim k i)| + |Real.sin (angle rotate decim k i)|
    else 0 := by
  refine Finset.sum_congr rfl fun i _ => ?_
  split_ifs
  · rfl
  · exact (mul_zero _).symm

/-- Samples in the square stay within the reach of their evaluation. -/
theorem turned_le_reach (square : InSquare frames) :
    |(turned taps rotate decim frames k).re| ≤ reach taps rotate decim k ∧
      |(turned taps rotate decim frames k).im| ≤ reach taps rotate decim k := by
  have inside (i : Nat) : |(windowAt frames decim k i).re| ≤ 1 ∧
      |(windowAt frames decim k i).im| ≤ 1 := by
    refine windowAt_of (P := fun w => |w.re| ≤ 1 ∧ |w.im| ≤ 1) (by simp) ?_ i
    intro data member n
    exact ⟨square data member _, square data member _⟩
  have turn (c s : ℝ) (i : Nat) : |(windowAt frames decim k i).re * c +
      (windowAt frames decim k i).im * s| ≤ if Sees decim k i then |c| + |s| else 0 := by
    split_ifs with sees
    · exact abs_turn_le (inside i).1 (inside i).2
    · rw [windowAt_unseen sees]
      simp
  rw [turned_re, turned_im, reach_eq]
  constructor
  · refine abs_component_le taps fun i => ?_
    rw [← abs_neg (Real.sin _)]
    exact turn _ _ i
  · refine abs_component_le taps fun i => ?_
    rw [add_comm |Real.cos _|]
    exact turn _ _ i

/-- Samples in the unit disc stay within the sum of the magnitudes. -/
theorem turned_le_of_disc (disc : InDisc frames) :
    |(turned taps rotate decim frames k).re| ≤ calc_max_amplitude taps ∧
      |(turned taps rotate decim frames k).im| ≤ calc_max_amplitude taps := by
  have inside (i : Nat) :
      (windowAt frames decim k i).re ^ 2 + (windowAt frames decim k i).im ^ 2 ≤ 1 := by
    refine windowAt_of (P := fun w => w.re ^ 2 + w.im ^ 2 ≤ 1) (by simp) ?_ i
    intro data member n
    exact disc data member (0 + n)
  have total : calc_max_amplitude taps = ∑ i : Fin taps.length, |taps.get i| * 1 := by
    rw [calc_max_amplitude_eq]
    simp only [mul_one]
  rw [turned_re, turned_im, total]
  constructor
  · refine abs_component_le taps fun i => abs_turn_le_one (inside i) ?_
    rw [neg_sq]
    exact Real.cos_sq_add_sin_sq _
  · exact abs_component_le taps fun i => abs_turn_le_one (inside i) (Real.sin_sq_add_cos_sq _)

end Bounds

/-! ## Conversions -/

section Conversions

variable {maxval x : ℝ}

theorem scaled_range (largest : Int) (some_bits : 0 ≤ largest) (positive : 0 < maxval)
    (bound : |x| ≤ maxval) :
    -largest ≤ scaled largest maxval x ∧ scaled largest maxval x ≤ largest := by
  have some_bits' : (0 : ℝ) ≤ largest := by exact_mod_cast some_bits
  apply truncate_range
  rw [abs_mul, abs_of_nonneg (div_nonneg some_bits' positive.le), mul_div_assoc',
    div_le_iff₀ positive, mul_comm]
  exact mul_le_mul_of_nonneg_left bound some_bits'

/-- A component that is at most `maxval` is converted without overflow. -/
theorem componentFits_of_le (positive : 0 < maxval) (bound : |x| ≤ maxval) :
    ComponentFits maxval x := by
  have int16 := scaled_range INT16_MAX (by decide) positive bound
  have int8 := scaled_range INT8_MAX (by decide) positive bound
  exact ⟨bound, ⟨by omega, int16.2⟩, ⟨by omega, int8.2⟩⟩

end Conversions

/-! ## The stream that reaches furthest -/

/-- The frames of a stream, component after component. -/
def framesOf (x : Nat → lv_32fc_t ℝ) (n : Nat) : List (Floats ℝ) :=
  (List.range n).map fun f j =>
    if j % COMPLEX = 0 then (x (f * SDRPACKETSIZE + j / COMPLEX)).re
    else (x (f * SDRPACKETSIZE + j / COMPLEX)).im

theorem streamAt_framesOf (x : Nat → lv_32fc_t ℝ) {n p : Nat} (inside : p < n * SDRPACKETSIZE) :
    streamAt (framesOf x n) p = x p := by
  have block : p / SDRPACKETSIZE < n := Nat.div_lt_of_lt_mul (by rwa [Nat.mul_comm])
  have place : p / SDRPACKETSIZE * SDRPACKETSIZE + p % SDRPACKETSIZE = p :=
    Nat.div_add_mod' p SDRPACKETSIZE
  rw [streamAt, if_neg (Int.not_lt.mpr (Int.natCast_nonneg p)), Int.toNat_natCast, framesOf,
    List.getElem?_map, List.getElem?_range block]
  simp only [Option.map_some, samplesAt, lv_cmake, COMPLEX_eq, Nat.zero_add]
  rw [if_pos (by omega), if_neg (by omega), Nat.mul_div_cancel_left _ (show 0 < 2 by decide),
    show (2 * (p % SDRPACKETSIZE) + 1) / 2 = p % SDRPACKETSIZE by omega, place]

theorem inSquare_framesOf {x : Nat → lv_32fc_t ℝ} (square : ∀ p, |(x p).re| ≤ 1 ∧ |(x p).im| ≤ 1)
    (n : Nat) : InSquare (framesOf x n) := by
  intro data member j
  obtain ⟨f, -, rfl⟩ := List.mem_map.mp member
  dsimp only
  split_ifs
  · exact (square _).1
  · exact (square _).2

/-- A factor of size one that makes a number its magnitude. -/
noncomputable def side (x : ℝ) : ℝ := if 0 ≤ x then 1 else -1

theorem mul_side (x : ℝ) : x * side x = |x| := by
  rw [side]
  split_ifs with sign
  · rw [mul_one, abs_of_nonneg sign]
  · rw [mul_neg_one, abs_of_neg (not_le.mp sign)]

theorem abs_side (x : ℝ) : |side x| ≤ 1 := by
  rw [side]
  split_ifs <;> simp

section Furthest

variable (taps : List ℝ) (rotate : ℝ) (decim k : Nat)

/-- The corners of the square that evaluation `k` adds up. -/
noncomputable def corners (p : Nat) : lv_32fc_t ℝ :=
  let tap := taps.getD (p + HISTORY - k * decim) 0
  lv_cmake (side (tap * Real.cos (rotate * (p + HISTORY : Nat))))
    (-side (tap * Real.sin (rotate * (p + HISTORY : Nat))))

/-- Frames up to the one in which evaluation `k` begins. -/
noncomputable def cornerFrames : List (Floats ℝ) :=
  framesOf (corners taps rotate decim k) (k * decim / SDRPACKETSIZE + 1)

theorem inSquare_cornerFrames : InSquare (cornerFrames taps rotate decim k) := by
  refine inSquare_framesOf (fun p => ⟨abs_side _, ?_⟩) _
  rw [corners, lv_cmake, abs_neg]
  exact abs_side _

theorem cornerFrames_received :
    k * decim < (cornerFrames taps rotate decim k).length * SDRPACKETSIZE := by
  rw [cornerFrames, framesOf, List.length_map, List.length_range, Nat.mul_comm _ SDRPACKETSIZE]
  exact Nat.lt_mul_div_succ _ (by decide)

theorem windowAt_cornerFrames {i : Nat} (sees : Sees decim k i) :
    windowAt (cornerFrames taps rotate decim k) decim k i =
      corners taps rotate decim k (k * decim + i - HISTORY) := by
  have block := Nat.div_add_mod' (k * decim) SDRPACKETSIZE
  rw [windowAt, if_pos sees.2, ← Nat.cast_sub sees.1, cornerFrames]
  apply streamAt_framesOf
  have past := sees.1
  have inside := sees.2
  rw [Nat.add_mul, Nat.one_mul]
  omega

theorem turned_cornerFrames :
    (turned taps rotate decim (cornerFrames taps rotate decim k) k).re =
      reach taps rotate decim k := by
  rw [turned_re, reach]
  refine Finset.sum_congr rfl fun i _ => ?_
  split_ifs with sees
  · have place : k * decim + i - HISTORY + HISTORY = i + k * decim := by
      have past := sees.1
      omega
    have tap : taps.getD (i + k * decim - k * decim) 0 = taps.get i := by
      rw [Nat.add_sub_cancel, List.getD_eq_getElem _ _ i.isLt, List.get_eq_getElem]
    rw [windowAt_cornerFrames taps rotate decim k sees, corners, place, tap, ← angle]
    simp only [lv_cmake]
    calc taps.get i * (side (taps.get i * Real.cos (angle rotate decim k i)) *
            Real.cos (angle rotate decim k i) +
          -side (taps.get i * Real.sin (angle rotate decim k i)) *
            -Real.sin (angle rotate decim k i))
        = taps.get i * Real.cos (angle rotate decim k i) *
            side (taps.get i * Real.cos (angle rotate decim k i)) +
          taps.get i * Real.sin (angle rotate decim k i) *
            side (taps.get i * Real.sin (angle rotate decim k i)) := by ring
      _ = |taps.get i| * (|Real.cos (angle rotate decim k i)| +
            |Real.sin (angle rotate decim k i)|) := by
          rw [mul_side, mul_side, abs_mul, abs_mul, mul_add]
  · rw [windowAt_unseen sees]
    simp

end Furthest

/-! ## Quarter turns -/

/-- The magnitudes of a cosine and a sine add up to at least one, and to one only
at a multiple of a quarter turn. -/
theorem one_le_abs_cos_add_abs_sin (x : ℝ) : 1 ≤ |Real.cos x| + |Real.sin x| ∧
    (|Real.cos x| + |Real.sin x| = 1 ↔ Real.cos x = 0 ∨ Real.sin x = 0) := by
  have squared : (|Real.cos x| + |Real.sin x|) ^ 2 = 1 + 2 * (|Real.cos x| * |Real.sin x|) := by
    have unit := Real.cos_sq_add_sin_sq x
    rw [← sq_abs (Real.cos x), ← sq_abs (Real.sin x)] at unit
    linear_combination unit
  have product : 0 ≤ |Real.cos x| * |Real.sin x| := mul_nonneg (abs_nonneg _) (abs_nonneg _)
  have nonneg : 0 ≤ |Real.cos x| + |Real.sin x| := add_nonneg (abs_nonneg _) (abs_nonneg _)
  refine ⟨by nlinarith, ?_⟩
  rw [← pow_eq_one_iff_of_nonneg nonneg two_ne_zero, squared, add_eq_left, ← abs_mul]
  simp

/-- Where all taps meet samples, an evaluation keeps to the sum of the magnitudes
exactly when each tap that counts turns its sample by quarters. -/
theorem reach_le_iff {taps : List ℝ} {rotate : ℝ} {decim k : Nat}
    (seen : ∀ i : Fin taps.length, Sees decim k i) :
    reach taps rotate decim k ≤ calc_max_amplitude taps ↔
      ∀ i : Fin taps.length, taps.get i ≠ 0 →
        Real.cos (angle rotate decim k i) = 0 ∨ Real.sin (angle rotate decim k i) = 0 := by
  have term (i : Fin taps.length) : |taps.get i| ≤ |taps.get i| *
      (|Real.cos (angle rotate decim k i)| + |Real.sin (angle rotate decim k i)|) :=
    le_mul_of_one_le_right (abs_nonneg _) (one_le_abs_cos_add_abs_sin _).1
  have total : reach taps rotate decim k = ∑ i : Fin taps.length, |taps.get i| *
      (|Real.cos (angle rotate decim k i)| + |Real.sin (angle rotate decim k i)|) :=
    Finset.sum_congr rfl fun i _ => if_pos (seen i)
  have atLeast := Finset.sum_le_sum fun i (_ : i ∈ Finset.univ) => term i
  have tight (i : Fin taps.length) : |taps.get i| = |taps.get i| *
      (|Real.cos (angle rotate decim k i)| + |Real.sin (angle rotate decim k i)|) ↔
      (taps.get i ≠ 0 →
        Real.cos (angle rotate decim k i) = 0 ∨ Real.sin (angle rotate decim k i) = 0) := by
    rw [← (one_le_abs_cos_add_abs_sin _).2]
    generalize taps.get i = tap
    by_cases zero : tap = 0
    · simp [zero]
    · rw [eq_comm, mul_eq_left₀ (abs_ne_zero.mpr zero), imp_iff_right zero]
  have equal : reach taps rotate decim k ≤ calc_max_amplitude taps ↔
      ∑ i : Fin taps.length, |taps.get i| = reach taps rotate decim k := by
    rw [calc_max_amplitude_eq]
    exact ⟨fun le => le_antisymm (total ▸ atLeast) le, fun same => same.ge⟩
  rw [equal, total, Finset.sum_eq_sum_iff_of_le fun i _ => term i]
  simp only [Finset.mem_univ, forall_true_left, tight]

/-! ## The condition -/

section Condition

variable {taps : List ℝ} {rotate : ℝ} {decim : Nat}

theorem mem_outputs_iff (advance : 0 < decim) (frames : List (Floats ℝ)) (sample : lv_32fc_t ℝ) :
    sample ∈ outputs taps rotate decim frames ↔
      ∃ k, k * decim < frames.length * SDRPACKETSIZE ∧
        turned taps rotate decim frames k = sample := by
  rw [List.mem_iff_getElem?]
  refine exists_congr fun k => ?_
  rw [outputs_getElem? taps rotate advance]
  split_ifs with received
  · rw [Option.some.injEq, and_iff_right received]
  · exact iff_of_false nofun fun found => received found.1

/-- Samples in the unit disc never overflow. -/
theorem fits_of_disc (nonzero : ∃ tap ∈ taps, tap ≠ 0) (advance : 1 ≤ decim)
    {frames : List (Floats ℝ)} (disc : InDisc frames) {sample : lv_32fc_t ℝ}
    (member : sample ∈ outputs taps rotate decim frames) :
    SampleFits (calc_max_amplitude taps) sample := by
  obtain ⟨k, -, rfl⟩ := (mem_outputs_iff advance frames sample).mp member
  have positive := calc_max_amplitude_pos nonzero
  obtain ⟨re, im⟩ := turned_le_of_disc taps rotate disc
  exact ⟨componentFits_of_le positive re, componentFits_of_le positive im⟩

/-- All samples from streams in the square fit, whatever the stream, exactly when no
evaluation reaches further than the sum of the magnitudes; those from streams in
the unit disc always do. -/
theorem outputs_fit_iff (nonzero : ∃ tap ∈ taps, tap ≠ 0) (rotate : ℝ) (advance : 1 ≤ decim) :
    ((∀ frames, InSquare frames → ∀ sample ∈ outputs taps rotate decim frames,
      SampleFits (calc_max_amplitude taps) sample) ↔
    ∀ k, ∑ i : Fin taps.length, (if Sees decim k i then
        |taps.get i| * (|Real.cos (rotate * (i + k * decim : Nat))| +
          |Real.sin (rotate * (i + k * decim : Nat))|)
      else 0) ≤ ∑ i : Fin taps.length, |taps.get i|) ∧
    ∀ frames, InDisc frames → ∀ sample ∈ outputs taps rotate decim frames,
      SampleFits (calc_max_amplitude taps) sample := by
  rw [← calc_max_amplitude_eq]
  refine ⟨?_, fun frames disc sample => fits_of_disc nonzero advance disc⟩
  constructor
  · intro fit k
    have fits := fit _ (inSquare_cornerFrames taps rotate decim k) _
      ((mem_outputs_iff advance _ _).mpr ⟨k, cornerFrames_received taps rotate decim k, rfl⟩)
    have bound := (le_abs_self _).trans fits.1.bound
    rw [turned_cornerFrames] at bound
    exact bound
  · intro near frames square sample member
    obtain ⟨k, -, rfl⟩ := (mem_outputs_iff advance frames sample).mp member
    have positive := calc_max_amplitude_pos nonzero
    obtain ⟨re, im⟩ := turned_le_reach taps rotate square
    exact ⟨componentFits_of_le positive (re.trans (near k)),
      componentFits_of_le positive (im.trans (near k))⟩

end Condition

/-- Full scale samples with opposite components. -/
def fullScale : Floats ℝ := fun j => if j % COMPLEX = 0 then 1 else -1

theorem inSquare_fullScale : InSquare [fullScale] := by
  intro data member j
  rw [List.mem_singleton.mp member, fullScale]
  split_ifs <;> simp

theorem windowAt_fullScale {decim k i : Nat} (seen : HISTORY ≤ k * decim + i)
    (inside : k * decim + i < SDRPACKETSIZE) :
    windowAt [fullScale] decim k i = lv_cmake 1 (-1) := by
  have first := streamAt_append_right [] fullScale
    (show k * decim + i - HISTORY < SDRPACKETSIZE by omega)
  have place : ((k * decim + i : Nat) - HISTORY : Int) =
      (([] : List (Floats ℝ)).length * SDRPACKETSIZE + (k * decim + i - HISTORY) : Nat) := by
    rw [List.length_nil, Nat.zero_mul, Nat.zero_add, Nat.cast_sub seen]
  rw [windowAt, Nat.mod_eq_of_lt (by omega), if_pos (by omega), place]
  refine first.trans ?_
  simp [samplesAt, fullScale, COMPLEX_eq]

/-- A filter that turns by quarters reaches the bound and fits. -/
theorem outputs_fit_quarter : ∃ sample ∈ outputs [1, 2, -3] (Real.pi / 2) 4 [fullScale],
    sample.re = calc_max_amplitude [1, 2, -3] ∧
      SampleFits (calc_max_amplitude [1, 2, -3]) sample := by
  have received : 600 * 4 < ([fullScale] : List (Floats ℝ)).length * SDRPACKETSIZE := by decide
  have member : turned [1, 2, -3] (Real.pi / 2) 4 [fullScale] 600 ∈
      outputs [1, 2, -3] (Real.pi / 2) 4 [fullScale] :=
    (mem_outputs_iff (by decide) _ _).mpr ⟨600, received, rfl⟩
  have quarters (n : Nat) : |Real.cos (Real.pi / 2 * n)| + |Real.sin (Real.pi / 2 * n)| = 1 := by
    refine (one_le_abs_cos_add_abs_sin _).2.mpr ?_
    have double : Real.sin (2 * (Real.pi / 2 * n)) = 0 := by
      rw [show 2 * (Real.pi / 2 * n) = n * Real.pi by ring]
      exact Real.sin_nat_mul_pi n
    rw [Real.sin_two_mul, mul_eq_zero, mul_eq_zero] at double
    rcases double with (two | sin) | cos
    · exact absurd two two_ne_zero
    · exact .inr sin
    · exact .inl cos
  refine ⟨_, member, ?_, (outputs_fit_iff ⟨1, List.mem_cons_self, one_ne_zero⟩ (Real.pi / 2)
    (by decide)).1.mpr (fun k => Finset.sum_le_sum fun i _ => ?_) _ inSquare_fullScale _ member⟩
  · have turn (i : Nat) : angle (Real.pi / 2) 4 600 i =
        Real.pi / 2 * i + (600 : Nat) * (2 * Real.pi) := by
      rw [angle]
      push_cast
      ring
    have window (i : Fin ([1, 2, -3] : List ℝ).length) :
        windowAt [fullScale] 4 600 i = lv_cmake 1 (-1) :=
      windowAt_fullScale (by rw [HISTORY_eq]; omega)
        (by rw [SDRPACKETSIZE_eq]; exact (Nat.add_lt_add_left i.isLt _).trans (by decide))
    rw [turned_re, Finset.sum_congr rfl fun i _ => by rw [window i, turn]]
    simp only [Real.cos_add_nat_mul_two_pi, Real.sin_add_nat_mul_two_pi, lv_cmake]
    have half : Real.pi / 2 * (1 + 1) = Real.pi := by ring
    simp [Fin.sum_univ_succ, calc_max_amplitude, half]
    norm_num
  · split_ifs
    · rw [quarters, mul_one]
    · exact abs_nonneg _

/-- They are turned by an eighth, and sent as 46339 sixteen-bit steps. -/
theorem outputs_overflow : InSquare [fullScale] ∧
    ∃ sample ∈ outputs [1] (Real.pi / 8192) 2048 [fullScale],
      ¬ SampleFits (calc_max_amplitude [1]) sample ∧
      scaled INT16_MAX (calc_max_amplitude [1]) sample.re = 46339 := by
  have received : 1 * 2048 < ([fullScale] : List (Floats ℝ)).length * SDRPACKETSIZE := by decide
  have window : windowAt [fullScale] 2048 1 0 = lv_cmake 1 (-1) :=
    windowAt_fullScale (by decide) (by decide)
  have value : (turned [1] (Real.pi / 8192) 2048 [fullScale] 1).re = Real.sqrt 2 := by
    have eighth : angle (Real.pi / 8192) 2048 1 0 = Real.pi / 4 := by
      rw [angle]
      push_cast
      ring
    have one (x : Nat → ℝ) : ∑ i : Fin ([1] : List ℝ).length, ([1] : List ℝ).get i * x i = x 0 := by
      simp
    rw [turned_re, one fun i => (windowAt [fullScale] 2048 1 i).re *
      Real.cos (angle (Real.pi / 8192) 2048 1 i) + (windowAt [fullScale] 2048 1 i).im *
      -Real.sin (angle (Real.pi / 8192) 2048 1 i), window, eighth, Real.cos_pi_div_four,
      Real.sin_pi_div_four]
    simp only [lv_cmake]
    ring
  have maxval : calc_max_amplitude [(1 : ℝ)] = 1 := by simp [calc_max_amplitude]
  have steps : scaled INT16_MAX (calc_max_amplitude [1])
      (turned [1] (Real.pi / 8192) 2048 [fullScale] 1).re = 46339 := by
    have low : (46339 : ℝ) ≤ Real.sqrt 2 * 32767 := by
      rw [← div_le_iff₀ (by norm_num)]
      exact Real.le_sqrt_of_sq_le (by norm_num)
    have high : Real.sqrt 2 * 32767 < 46339 + 1 := by
      rw [← lt_div_iff₀ (by norm_num)]
      exact (Real.sqrt_lt' (by norm_num)).mpr (by norm_num)
    have factor : ((INT16_MAX : Int) : ℝ) / 1 = 32767 := by norm_num [INT16_MAX]
    rw [value, maxval, scaled, factor, truncate, if_pos (by positivity), Int.floor_eq_iff]
    exact ⟨by exact_mod_cast low, by exact_mod_cast high⟩
  refine ⟨inSquare_fullScale, _, (mem_outputs_iff (by decide) _ _).mpr ⟨1, received, rfl⟩,
    fun fits => ?_, steps⟩
  have small := fits.1.int16.2
  rw [steps] at small
  exact absurd small (by decide)

end Kukuruku.Server.Amplitude
