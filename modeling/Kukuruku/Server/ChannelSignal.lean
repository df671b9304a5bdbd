import Kukuruku.Foundation.Carriers
import Kukuruku.Server.Amplitude

/-!
# What a worker makes of a signal

The SDR receives a sum of tones.  As long as its taps and its rotation stay the same, a
worker turns each tone by the rotation, scales it by the response of the low-pass filter
at the place to which it is turned, and keeps every `decim`-th sample.  Whatever the worker
did before is only seen in the phase that all tones have in common.
-/

namespace Kukuruku.Server.ChannelSignal

open Kukuruku.Fir Kukuruku.Carriers
open Kukuruku.Server.XlateWorker
open Kukuruku.Server.ChannelChain (Trig)

variable {R : Type*} [CommRing R]

/-! ## Tones -/

/-- A tone that turns by `angle` from sample to sample. -/
structure Tone (R : Type*) [CommRing R] where
  amplitude : lv_32fc_t R
  angle : R

def Tone.carrier (trig : Trig R) (tone : Tone R) : Carrier (lv_32fc_t R) where
  amplitude := tone.amplitude
  step := trig.expj tone.angle

/-- The samples of the frames are those of the tones. -/
def Carries (trig : Trig R) (tones : List (Tone R)) (frames : List (Floats R)) : Prop :=
  ∀ n : Nat, n < frames.length * SDRPACKETSIZE →
    streamAt frames n = signal (tones.map (Tone.carrier trig)) n

/-- A tone in the channel of a worker; `HISTORY` is its delay. -/
def Tone.heard (trig : Trig R) (taps : List R) (rotate : R) (decim : Nat) (tone : Tone R) :
    Carrier (lv_32fc_t R) where
  amplitude := tone.amplitude * trig.expj (-(tone.angle * HISTORY)) *
    response (taps.map fun tap => lv_cmake tap 0) (trig.expj (tone.angle + rotate))
  step := trig.expj ((tone.angle + rotate) * decim)

/-- The samples that the worker stores for frames that it gets in the state `locals`. -/
def outputs (trig : Trig R) (taps : List R) (rotate : R) (decim : Nat) (locals : Locals R)
    (frames : List (Floats R)) : List (lv_32fc_t R) :=
  (processFrames (trig.get_complex_taps taps rotate) decim (trig.expj (rotate * decim)) locals
    frames).flatMap FrameResult.out

/-! ## Frames after other frames -/

section Frames

variable {decim : Nat}

theorem windowAt_append_list (frames later : List (Floats R)) {k : Nat}
    (early : k * decim < frames.length * SDRPACKETSIZE) :
    windowAt (frames ++ later) decim k = windowAt frames decim k := by
  induction later using List.reverseRecOn with
  | nil => rw [List.append_nil]
  | append_singleton later data ih =>
      rw [← List.append_assoc, windowAt_append _ _ ?_, ih]
      refine early.trans_le (Nat.mul_le_mul_right _ ?_)
      rw [List.length_append]
      exact Nat.le_add_right _ _

/-- Later frames leave the evaluations before them alone. -/
theorem map_windowAt_append (advance : 0 < decim) (taps : List (lv_32fc_t R))
    (frames later : List (Floats R)) :
    (List.range (outputCount decim (frames.length * SDRPACKETSIZE))).map
        (fun k => dotProd (windowAt (frames ++ later) decim k) taps) =
      (List.range (outputCount decim (frames.length * SDRPACKETSIZE))).map
        fun k => dotProd (windowAt frames decim k) taps := by
  refine List.map_congr_left fun k member => ?_
  rw [windowAt_append_list]
  exact (lt_outputCount_iff advance).mp (List.mem_range.mp member)

/-- The frames that a worker gets later add their evaluations to those before. -/
theorem firout_append (advance : 0 < decim) (taps : List (lv_32fc_t R)) (phase_inc : lv_32fc_t R)
    {before : List (Floats R)} {locals : Locals R} (state : FilterState decim before locals)
    (later : List (Floats R)) :
    (List.range (outputCount decim (before.length * SDRPACKETSIZE))).map
          (fun k => dotProd (windowAt (before ++ later) decim k) taps) ++
        (processFrames taps decim phase_inc locals later).flatMap FrameResult.firout =
      (List.range (outputCount decim ((before ++ later).length * SDRPACKETSIZE))).map
        fun k => dotProd (windowAt (before ++ later) decim k) taps := by
  induction later generalizing before locals with
  | nil => rw [processFrames, List.flatMap_nil, List.append_nil, List.append_nil]
  | cons data rest ih =>
      obtain ⟨next, first⟩ := processFrame_spec taps phase_inc advance state data
      have others := ih next
      have whole : before ++ data :: rest = before ++ [data] ++ rest := by simp
      rw [processFrames, List.flatMap_cons, ← List.append_assoc,
        map_windowAt_append advance taps before, first, whole,
        ← map_windowAt_append advance taps (before ++ [data]) rest]
      exact others

/-- Output `j` of later frames is the evaluation that follows the earlier ones. -/
theorem out_getElem? (advance : 0 < decim) (taps : List (lv_32fc_t R)) (phase_inc : lv_32fc_t R)
    {before : List (Floats R)} {locals : Locals R} (state : FilterState decim before locals)
    {later : List (Floats R)} {j k : Nat}
    (place : k = outputCount decim (before.length * SDRPACKETSIZE) + j)
    (received : k * decim < (before ++ later).length * SDRPACKETSIZE) :
    ((processFrames taps decim phase_inc locals later).flatMap FrameResult.out)[j]? =
      some (dotProd (windowAt (before ++ later) decim k) taps *
        (locals.phase * phase_inc ^ j)) := by
  have all := congrArg (fun outputs => outputs[k]?)
    (firout_append advance taps phase_inc state later)
  simp only [List.getElem?_map,
    List.getElem?_range ((lt_outputCount_iff advance).mpr received)] at all
  have early : ((List.range (outputCount decim (before.length * SDRPACKETSIZE))).map
      fun k => dotProd (windowAt (before ++ later) decim k) taps).length ≤ k := by
    rw [List.length_map, List.length_range]
    omega
  have index : k - ((List.range (outputCount decim (before.length * SDRPACKETSIZE))).map
      fun k => dotProd (windowAt (before ++ later) decim k) taps).length = j := by
    rw [List.length_map, List.length_range]
    omega
  rw [List.getElem?_append_right early, index] at all
  rw [Amplitude.processFrames_out_rotator, rotator_getElem?, all]
  rfl

end Frames

/-! ## Windows of a signal -/

/-- A window that lies in the received samples, under a filter that reads no others. -/
theorem dotProd_carries {trig : Trig R} {tones : List (Tone R)} {frames : List (Floats R)}
    (carries : Carries trig tones frames) {taps : List (lv_32fc_t R)}
    (short : taps.length ≤ HISTORY + 1) {decim k : Nat} (past : HISTORY ≤ k * decim)
    (received : k * decim < frames.length * SDRPACKETSIZE) :
    dotProd (windowAt frames decim k) taps =
      signal ((tones.map (Tone.carrier trig)).map (Carrier.filtered taps))
        (k * decim - HISTORY) := by
  rw [← dotProd_signal]
  refine dotProd_congr fun i inTaps => ?_
  have inFrame := Nat.mod_lt (k * decim) (show 0 < SDRPACKETSIZE by decide)
  have place : ((k * decim + i : Nat) - HISTORY : Int) = (k * decim - HISTORY + i : Nat) := by
    omega
  rw [windowAt, if_pos (by omega), place]
  exact carries _ (by omega)

section Angles

variable (trig : Trig R)

theorem expj_zero : trig.expj 0 = 1 := by
  rw [Trig.expj, trig.cos_zero, trig.sin_zero]
  rfl

theorem expj_neg_mul (angle : R) : trig.expj (-angle) * trig.expj angle = 1 := by
  rw [← trig.expj_add, neg_add_cancel, expj_zero]

/-- The filter of a channel responds to a tone as the low-pass filter does to the turned one. -/
theorem response_get_complex_taps (taps : List R) (rotate angle : R) :
    response (trig.get_complex_taps taps rotate) (trig.expj angle) =
      response (taps.map fun tap => lv_cmake tap 0) (trig.expj (angle + rotate)) := by
  rw [trig.get_complex_taps_eq, trig.expj_add]
  exact response_rotated _ _ _

/-- The carrier that is filtered, `HISTORY` samples earlier. -/
def Tone.early (taps : List R) (rotate : R) (tone : Tone R) : Carrier (lv_32fc_t R) where
  amplitude := tone.amplitude * trig.expj (-(tone.angle * HISTORY)) *
    response (trig.get_complex_taps taps rotate) (trig.expj tone.angle)
  step := trig.expj tone.angle

theorem advanced_early (taps : List R) (rotate : R) (tone : Tone R) :
    (tone.early trig taps rotate).advanced HISTORY =
      (tone.carrier trig).filtered (trig.get_complex_taps taps rotate) := by
  have turned : trig.expj (-(tone.angle * HISTORY)) * trig.expj tone.angle ^ HISTORY = 1 := by
    rw [← trig.expj_mul_nat, expj_neg_mul]
  refine congrArg (Carrier.mk · _) ?_
  calc tone.amplitude * trig.expj (-(tone.angle * HISTORY)) *
          response (trig.get_complex_taps taps rotate) (trig.expj tone.angle) *
            trig.expj tone.angle ^ HISTORY
      = tone.amplitude * response (trig.get_complex_taps taps rotate) (trig.expj tone.angle) *
          (trig.expj (-(tone.angle * HISTORY)) * trig.expj tone.angle ^ HISTORY) := by ring
    _ = tone.amplitude *
          response (trig.get_complex_taps taps rotate) (trig.expj tone.angle) := by
      rw [turned, mul_one]

theorem decimated_early (taps : List R) (rotate : R) (decim : Nat) (tone : Tone R) :
    ((tone.early trig taps rotate).rotated (trig.expj rotate)).decimated decim =
      tone.heard trig taps rotate decim := by
  rw [Tone.early, Carrier.rotated, Carrier.decimated, Tone.heard, response_get_complex_taps,
    ← trig.expj_add, trig.expj_mul_nat]

/-- Filter, rotation and decimation of the tones. -/
theorem signal_heard (taps : List R) (rotate : R) (decim : Nat) (tones : List (Tone R)) {k : Nat}
    (past : HISTORY ≤ k * decim) :
    signal (tones.map (Tone.heard trig taps rotate decim)) k =
      signal ((tones.map (Tone.carrier trig)).map
          (Carrier.filtered (trig.get_complex_taps taps rotate))) (k * decim - HISTORY) *
        trig.expj rotate ^ (k * decim) := by
  have turned : tones.map (Tone.heard trig taps rotate decim) =
      ((tones.map (Tone.early trig taps rotate)).map (Carrier.rotated (trig.expj rotate))).map
        (Carrier.decimated decim) := by
    rw [List.map_map, List.map_map]
    exact List.map_congr_left fun tone _ => (decimated_early trig taps rotate decim tone).symm
  have later : (tones.map (Tone.carrier trig)).map
      (Carrier.filtered (trig.get_complex_taps taps rotate)) =
        (tones.map (Tone.early trig taps rotate)).map (Carrier.advanced HISTORY) := by
    rw [List.map_map, List.map_map]
    exact List.map_congr_left fun tone _ => (advanced_early trig taps rotate tone).symm
  rw [turned, later, signal_decimated, signal_rotated, signal_advanced,
    Nat.add_sub_cancel' past]

end Angles

/-! ## The channel -/

/-- What a worker with constant taps and rotation stores, whatever it did before, is the
sum of the heard tones, turned by one common phase. -/
theorem outputs_heard (trig : Trig R) {taps : List R} (short : taps.length ≤ HISTORY + 1)
    (rotate : R) {decim : Nat} (advance : 0 < decim) {tones : List (Tone R)}
    {before later : List (Floats R)} {locals : Locals R} (state : FilterState decim before locals)
    (carries : Carries trig tones (before ++ later)) {j k : Nat}
    (place : k = outputCount decim (before.length * SDRPACKETSIZE) + j)
    (past : HISTORY ≤ k * decim)
    (received : k * decim < (before ++ later).length * SDRPACKETSIZE) :
    (outputs trig taps rotate decim locals later)[j]? =
      some (locals.phase *
        trig.expj (-(rotate * decim * outputCount decim (before.length * SDRPACKETSIZE))) *
          signal (tones.map (Tone.heard trig taps rotate decim)) k) := by
  have length : (trig.get_complex_taps taps rotate).length = taps.length := List.length_mapIdx
  have unturned : trig.expj (rotate * decim) ^ j =
      trig.expj (-(rotate * decim * outputCount decim (before.length * SDRPACKETSIZE))) *
        trig.expj rotate ^ (k * decim) := by
    rw [← trig.expj_mul_nat, ← trig.expj_mul_nat, ← trig.expj_add, place]
    refine congrArg trig.expj ?_
    push_cast
    ring
  rw [outputs, out_getElem? advance _ _ state place received,
    dotProd_carries carries (length.trans_le short) past received,
    signal_heard trig taps rotate decim tones past, unturned]
  refine congrArg some ?_
  ring

end Kukuruku.Server.ChannelSignal
