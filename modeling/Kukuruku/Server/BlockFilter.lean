import Kukuruku.Server.XlateWorker

/-!
# Block filtering against whole-stream filtering

The second copy of `loadFrame` is offset by `MAXTAPS` floats, so a frame is
preceded by `HISTORY`, half of `MAXTAPS`, complex samples of history and the
upper half of the carry area is never filled.  The frame loop is therefore the
stream filter with delay `HISTORY` as long as no nonzero tap reaches beyond the
filled part, and only then.
-/

namespace Kukuruku.Server.BlockFilter

open Kukuruku.Fir
open Kukuruku.Server.XlateWorker

variable {R : Type*} [CommRing R]

/-- The frame loop computes the filter of the concatenated stream, delayed by
`delay`: one output for each multiple of `decim` below the stream's length. -/
def FiltersStream (taps : List (lv_32fc_t R)) (decim : Nat) (phase_inc : lv_32fc_t R)
    (delay : Int) (frames : List (Floats R)) : Prop :=
  firOutputs taps decim phase_inc frames =
    (List.range (outputCount decim (frames.length * SDRPACKETSIZE))).map fun k =>
      dotProd (fun i => streamAt frames ((k * decim + i : Nat) - delay)) taps

/-- Every nonzero tap of every evaluation reads the filled part of `alldata`. -/
def TapsReachFilled (taps : List (lv_32fc_t R)) (decim : Nat) : Prop :=
  ∀ (k : Nat) (i : Fin taps.length), taps.get i ≠ 0 →
    k * decim % SDRPACKETSIZE + i < SDRPACKETSIZE + HISTORY

section Run

variable (taps : List (lv_32fc_t R)) (phase_inc : lv_32fc_t R)

theorem filterState_start (decim : Nat) : FilterState decim [] (Locals.start : Locals R) := by
  refine ⟨Layout.start, ?_⟩
  by_cases advance : 0 < decim
  · have none : outputCount decim 0 = 0 := by
      by_contra some
      have first := (lt_outputCount_iff advance).mp (Nat.pos_of_ne_zero some)
      omega
    simp [Locals.start, none]
  · simp [Locals.start, Nat.eq_zero_of_not_pos advance]

/-- The frame loop, over any number of frames: its invariant, and each output
as the dot product of what was really in the window. -/
theorem firOutputs_eq {decim : Nat} (advance : 0 < decim) (frames : List (Floats R)) :
    FilterState decim frames (localsAfter taps decim phase_inc Locals.start frames) ∧
      firOutputs taps decim phase_inc frames =
        (List.range (outputCount decim (frames.length * SDRPACKETSIZE))).map
          fun k => dotProd (windowAt frames decim k) taps := by
  induction frames using List.reverseRecOn with
  | nil =>
      have state := filterState_start (R := R) decim
      refine ⟨state, ?_⟩
      have count : outputCount decim 0 = 0 := by
        have grid := state.grid
        simp only [Locals.start, List.length_nil, Nat.zero_mul, Nat.add_zero] at grid
        exact (Nat.mul_eq_zero.mp grid.symm).resolve_right (Nat.ne_of_gt advance)
      simp [firOutputs, processFrames, count]
  | append_singleton frames data ih =>
      obtain ⟨state, outputs⟩ := ih
      obtain ⟨next, extended⟩ := processFrame_spec taps phase_inc advance state data
      refine ⟨by rw [localsAfter_append]; exact next, ?_⟩
      unfold firOutputs at outputs ⊢
      rw [processFrames_append, List.flatMap_append, outputs, ← extended,
        List.flatMap_singleton]

end Run

/-! ## Impulse inputs -/

/-- A frame that is silent except for a one at complex sample `q`. -/
def impulse (q : Nat) : Floats R := fun j => if j = COMPLEX * q then 1 else 0

/-- `n` silent frames and an impulse at sample `q` of the frame after them. -/
def impulseFrames (n q : Nat) : List (Floats R) :=
  List.replicate n (fun _ => 0) ++ [impulse q]

theorem samplesAt_impulse (q k : Nat) :
    samplesAt (impulse q : Floats R) 0 k = if k = q then 1 else 0 := by
  simp only [samplesAt, impulse, COMPLEX_eq, lv_cmake, Nat.zero_add]
  rw [if_neg (show ¬ 2 * k + 1 = 2 * q by omega)]
  split_ifs <;> first | rfl | omega

theorem streamAt_silence (n : Nat) (t : Int) :
    streamAt (List.replicate n (fun _ => 0 : Floats R)) t = 0 := by
  unfold streamAt
  split
  · rfl
  · split
    · rename_i found
      rw [List.eq_of_mem_replicate (List.mem_of_getElem? found)]
      rfl
    · rfl

theorem streamAt_of_length_le (frames : List (Floats R)) {t : Int}
    (after : frames.length * SDRPACKETSIZE ≤ t) : streamAt frames t = 0 := by
  unfold streamAt
  split
  · rfl
  · rw [List.getElem?_eq_none]
    rw [SDRPACKETSIZE_eq] at after ⊢
    omega

theorem streamAt_impulseFrames {n q : Nat} (inside : q < SDRPACKETSIZE) (t : Int) :
    streamAt (impulseFrames n q : List (Floats R)) t =
      if t = (n * SDRPACKETSIZE + q : Nat) then 1 else 0 := by
  by_cases after : (n * SDRPACKETSIZE + SDRPACKETSIZE : Nat) ≤ t
  · rw [streamAt_of_length_le, if_neg (by omega)]
    simp only [impulseFrames, List.length_append, List.length_replicate,
      List.length_singleton]
    push_cast [Nat.add_mul] at after ⊢
    rw [add_mul]
    omega
  unfold impulseFrames
  by_cases before : t < n * SDRPACKETSIZE
  · rw [streamAt_append_left _ _ (by rw [List.length_replicate]; exact before),
      streamAt_silence, if_neg (by omega)]
  · obtain ⟨k, rfl⟩ : ∃ k : Nat, t = (n * SDRPACKETSIZE + k : Nat) :=
      ⟨(t - n * SDRPACKETSIZE).toNat, by omega⟩
    have last := streamAt_append_right (List.replicate n (fun _ => 0 : Floats R))
      (impulse q) (k := k) (by omega)
    rw [List.length_replicate] at last
    rw [last, samplesAt_impulse]
    have same : ((n * SDRPACKETSIZE + k : Nat) : Int) = (n * SDRPACKETSIZE + q : Nat) ↔
        k = q := by
      rw [Int.natCast_inj]
      exact Nat.add_left_cancel_iff
    simp only [same]

/-! ## The exact condition -/

section Condition

variable {taps : List (lv_32fc_t R)} {decim : Nat}

theorem filtersStream_of_reach (advance : 0 < decim) (reach : TapsReachFilled taps decim)
    (phase_inc : lv_32fc_t R) (frames : List (Floats R)) :
    FiltersStream taps decim phase_inc HISTORY frames := by
  unfold FiltersStream
  rw [(firOutputs_eq taps phase_inc advance frames).2]
  apply List.map_congr_left
  intro k _
  refine Finset.sum_congr rfl fun i _ => ?_
  by_cases zero : taps.get i = 0
  · rw [zero, mul_zero, mul_zero]
  · simp only [windowAt, if_pos (reach k i zero)]

/-- A nonzero tap beyond the filled part loses the impulse it should see. -/
theorem exists_not_filtersStream (short : taps.length ≤ MAXTAPS) (advance : 0 < decim)
    (phase_inc : lv_32fc_t R) {k : Nat} {i : Fin taps.length} (nonzero : taps.get i ≠ 0)
    (beyond : SDRPACKETSIZE + HISTORY ≤ k * decim % SDRPACKETSIZE + i) :
    ∃ frames, ¬ FiltersStream taps decim phase_inc HISTORY frames := by
  have sizes := And.intro SDRPACKETSIZE_eq (And.intro HISTORY_eq MAXTAPS_eq)
  have small := i.isLt
  have block := Nat.div_add_mod (k * decim) SDRPACKETSIZE
  have inFrame := Nat.mod_lt (k * decim) (show 0 < SDRPACKETSIZE by decide)
  obtain ⟨frame, inFrameNo⟩ : ∃ frame, k * decim / SDRPACKETSIZE = frame := ⟨_, rfl⟩
  obtain ⟨q, place⟩ : ∃ q, k * decim % SDRPACKETSIZE + i = q + HISTORY + SDRPACKETSIZE :=
    ⟨k * decim % SDRPACKETSIZE + i - HISTORY - SDRPACKETSIZE, by omega⟩
  rw [inFrameNo] at block
  have inside : q < SDRPACKETSIZE := by omega
  refine ⟨impulseFrames (frame + 1) q, fun filters => ?_⟩
  -- evaluation `k` belongs to the frame before the impulse
  have position : (frame + 1) * SDRPACKETSIZE + q + HISTORY = k * decim + i := by
    rw [Nat.add_mul, Nat.one_mul, Nat.mul_comm frame]
    omega
  have count : (impulseFrames (frame + 1) q : List (Floats R)).length = frame + 1 + 1 := by
    simp [impulseFrames]
  have evaluated : k < outputCount decim
      ((impulseFrames (frame + 1) q : List (Floats R)).length * SDRPACKETSIZE) := by
    rw [lt_outputCount_iff advance, count, Nat.add_mul (frame + 1)]
    omega
  unfold FiltersStream at filters
  rw [(firOutputs_eq taps phase_inc advance _).2] at filters
  have atK := congrArg (fun outputs => outputs[k]?) filters
  simp only [List.getElem?_map, List.getElem?_range evaluated, Option.map_some,
    Option.some.injEq] at atK
  have blind : dotProd (windowAt (impulseFrames (frame + 1) q) decim k) taps = 0 := by
    rw [← dotProd_zero taps]
    apply dotProd_congr
    intro j inTaps
    simp only [windowAt]
    split_ifs with filled
    · rw [streamAt_impulseFrames inside, if_neg (by omega)]
    · rfl
  have seen : dotProd (fun j => streamAt (impulseFrames (frame + 1) q)
      ((k * decim + j : Nat) - HISTORY)) taps = taps.get i := by
    rw [← one_mul (taps.get i), ← dotProd_single]
    apply dotProd_congr
    intro j inTaps
    rw [streamAt_impulseFrames inside]
    have same : ((k * decim + j : Nat) - HISTORY : Int) =
        ((frame + 1) * SDRPACKETSIZE + q : Nat) ↔ j = i := by omega
    simp only [same]
  exact nonzero (by rw [← seen, ← atK, blind])

/-- Filters of up to one more than half of `MAXTAPS` taps never reach that far. -/
theorem tapsReachFilled_of_length (short : taps.length ≤ HISTORY + 1) :
    TapsReachFilled taps decim := by
  intro k i _
  have inTaps := i.isLt
  have inFrame := Nat.mod_lt (k * decim) (show 0 < SDRPACKETSIZE by decide)
  omega

/-- The frame loop is the stream filter with delay `HISTORY` on every input
exactly when no nonzero tap reads beyond the filled part of `alldata`. -/
theorem filtersStream_iff_tapsReachFilled (short : taps.length ≤ MAXTAPS)
    (advance : 0 < decim) (phase_inc : lv_32fc_t R) :
    (∀ frames, FiltersStream taps decim phase_inc HISTORY frames) ↔
      TapsReachFilled taps decim := by
  constructor
  · intro filters k i nonzero
    by_contra beyond
    obtain ⟨frames, fails⟩ := exists_not_filtersStream short advance phase_inc nonzero
      (Nat.le_of_not_lt beyond)
    exact fails (filters frames)
  · intro reach frames
    exact filtersStream_of_reach advance reach phase_inc frames

end Condition

/-- A rotated filter of three taps follows the stream into a second frame, although every
fifth output does not begin with the frame. -/
theorem filtersStream_second_frame :
    FiltersStream [(1 : lv_32fc_t Int), lv_cmake 0 2, -1] 5 (lv_cmake 0 1) HISTORY
      (impulseFrames 1 5) :=
  (filtersStream_iff_tapsReachFilled (by decide) (by decide) _).mpr
    (tapsReachFilled_of_length (by decide)) (impulseFrames 1 5)

/-- No delay at all fits every filter that the constants allow: one tap fixes
the delay, and a filter of 2050 taps then misses an impulse. -/
theorem not_exists_delay_filtersStream :
    ¬ ∃ delay : Int, ∀ (taps : List (lv_32fc_t Int)) (decim : Nat)
      (phase_inc : lv_32fc_t Int) (frames : List (Floats Int)),
      taps.length ≤ MAXTAPS → 0 < decim →
        FiltersStream taps decim phase_inc delay frames := by
  rintro ⟨delay, filters⟩
  have sizes := And.intro SDRPACKETSIZE_eq (And.intro HISTORY_eq MAXTAPS_eq)
  have first : 0 < SDRPACKETSIZE := by decide
  have fixed : delay = HISTORY := by
    have claimed := filters [1] 1 1 (impulseFrames 0 0) (by decide) (by decide)
    have reach : TapsReachFilled [(1 : lv_32fc_t Int)] 1 :=
      tapsReachFilled_of_length (by decide)
    have actual := filtersStream_of_reach Nat.one_pos reach 1 (impulseFrames 0 0)
    unfold FiltersStream at claimed actual
    rw [actual] at claimed
    have evaluated : HISTORY < outputCount 1
        ((impulseFrames 0 0 : List (Floats Int)).length * SDRPACKETSIZE) := by
      rw [lt_outputCount_iff Nat.one_pos]
      decide
    have atHistory := congrArg (fun outputs => outputs[HISTORY]?) claimed
    simp only [List.getElem?_map, List.getElem?_range evaluated, Option.map_some,
      Option.some.injEq, dotProd, List.length_singleton, Finset.univ_unique,
      Fin.default_eq_zero, Finset.sum_singleton, List.get_eq_getElem, Fin.val_zero,
      List.getElem_cons_zero, mul_one, streamAt_impulseFrames first] at atHistory
    by_contra other
    rw [if_pos (by omega), if_neg (by omega)] at atHistory
    exact one_ne_zero atHistory
  subst fixed
  obtain ⟨n, reach⟩ : ∃ n, n = 2049 := ⟨_, rfl⟩
  obtain ⟨taps, long⟩ : ∃ taps : List (lv_32fc_t Int), taps = List.replicate n 0 ++ [1] :=
    ⟨_, rfl⟩
  have length : taps.length = n + 1 := by
    rw [long, List.length_append, List.length_replicate, List.length_singleton]
  have last : taps.get ⟨n, by omega⟩ ≠ 0 := by
    subst long
    simp
  have atEnd : (SDRPACKETSIZE - 1) * 1 % SDRPACKETSIZE = SDRPACKETSIZE - 1 := by
    rw [Nat.mul_one, Nat.mod_eq_of_lt (by omega)]
  obtain ⟨frames, fails⟩ := exists_not_filtersStream (k := SDRPACKETSIZE - 1)
    (by omega) Nat.one_pos 1 last (by rw [atEnd]; simp only; omega)
  exact fails (filters taps 1 1 frames (by omega) Nat.one_pos)

end Kukuruku.Server.BlockFilter
