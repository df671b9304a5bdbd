import Kukuruku.Foundation.Fir
import Kukuruku.Server.Constants
import Mathlib.Algebra.QuadraticAlgebra.Defs

/-!
# The filter of one xlater worker

`xlate_worker_thr` keeps its samples in one float array, `alldata`: the end of
the previous frame is copied to its beginning and the new frame after it, so
that the filter is a plain dot product.  Addresses below are float offsets, as
in the source, and a complex sample occupies two of them.  Arithmetic is exact
over a commutative ring of floats.
-/

namespace Kukuruku.Server.XlateWorker

open Kukuruku.Fir

variable {R : Type*} [CommRing R]

/-- A complex sample with components in `R`. -/
abbrev lv_32fc_t (R : Type*) [CommRing R] := QuadraticAlgebra R (-1) 0

def lv_cmake (re im : R) : lv_32fc_t R := ⟨re, im⟩

/-- What a float pointer points at. -/
abbrev Floats (R : Type*) := Nat → R

/-- Copy `n` floats from `src + srcOff` to `dst + dstOff`. -/
def memcpy (dst : Floats R) (dstOff : Nat) (src : Floats R) (srcOff n : Nat) :
    Floats R := fun j =>
  if dstOff ≤ j ∧ j < dstOff + n then src (srcOff + (j - dstOff)) else dst j

/-- The complex samples seen from the float address `mem + i * COMPLEX`. -/
def samplesAt (mem : Floats R) (i : Nat) : Nat → lv_32fc_t R := fun k =>
  lv_cmake (mem (COMPLEX * (i + k))) (mem (COMPLEX * (i + k) + 1))

/-- What the worker thread carries from one frame to the next. -/
structure Locals (R : Type*) [CommRing R] where
  alldata : Floats R
  fir_offset : Nat
  phase : lv_32fc_t R

/-- `alldata` is calloc'ed, the phase starts at one. -/
def Locals.start : Locals R := ⟨fun _ => 0, 0, lv_cmake 1 0⟩

/-- The two copies that make `alldata` ready for a frame.  The first moves
`MAXTAPS` complex samples; the offset of the second counts floats. -/
def loadFrame (alldata data : Floats R) : Floats R :=
  let carried := memcpy alldata 0 alldata (SDRPACKETSIZE * COMPLEX) (MAXTAPS * COMPLEX)
  memcpy carried MAXTAPS data 0 (SDRPACKETSIZE * COMPLEX)

/-- One frame's worth of results. -/
structure FrameResult (R : Type*) [CommRing R] where
  firout : List (lv_32fc_t R)
  out : List (lv_32fc_t R)
  next : Locals R

/-- The body of the worker's loop between its two critical sections. -/
def processFrame (taps : List (lv_32fc_t R)) (decim : Nat) (phase_inc : lv_32fc_t R)
    (locals : Locals R) (data : Floats R) : FrameResult R :=
  let alldata := loadFrame locals.alldata data
  let firout := (stride decim SDRPACKETSIZE locals.fir_offset).map
    fun i => dotProd (samplesAt alldata i) taps
  let rotated := rotator phase_inc locals.phase firout
  { firout := firout
    out := rotated.1
    next :=
      { alldata := alldata
        fir_offset := strideExit decim SDRPACKETSIZE locals.fir_offset - SDRPACKETSIZE
        phase := rotated.2 } }

/-- The results for a sequence of frames, with taps and rotation unchanged. -/
def processFrames (taps : List (lv_32fc_t R)) (decim : Nat) (phase_inc : lv_32fc_t R) :
    Locals R → List (Floats R) → List (FrameResult R)
  | _, [] => []
  | locals, data :: rest =>
      let result := processFrame taps decim phase_inc locals data
      result :: processFrames taps decim phase_inc result.next rest

/-- The locals after a sequence of frames. -/
def localsAfter (taps : List (lv_32fc_t R)) (decim : Nat) (phase_inc : lv_32fc_t R) :
    Locals R → List (Floats R) → Locals R
  | locals, [] => locals
  | locals, data :: rest =>
      localsAfter taps decim phase_inc
        (processFrame taps decim phase_inc locals data).next rest

/-- All FIR outputs, before the output rotator. -/
def firOutputs (taps : List (lv_32fc_t R)) (decim : Nat) (phase_inc : lv_32fc_t R)
    (frames : List (Floats R)) : List (lv_32fc_t R) :=
  (processFrames taps decim phase_inc Locals.start frames).flatMap FrameResult.firout

variable (taps : List (lv_32fc_t R)) (decim : Nat) (phase_inc : lv_32fc_t R)

theorem processFrames_append (locals : Locals R) (frames : List (Floats R))
    (data : Floats R) :
    processFrames taps decim phase_inc locals (frames ++ [data]) =
      processFrames taps decim phase_inc locals frames ++
        [processFrame taps decim phase_inc
          (localsAfter taps decim phase_inc locals frames) data] := by
  induction frames generalizing locals with
  | nil => rfl
  | cons first rest ih => simp [processFrames, localsAfter, ih]

theorem localsAfter_append (locals : Locals R) (frames : List (Floats R))
    (data : Floats R) :
    localsAfter taps decim phase_inc locals (frames ++ [data]) =
      (processFrame taps decim phase_inc
        (localsAfter taps decim phase_inc locals frames) data).next := by
  induction frames generalizing locals with
  | nil => rfl
  | cons first rest ih => simp [localsAfter, ih]

/-! ## The layout of `alldata` -/

/-- Complex samples of history the second copy leaves in front of a frame. -/
def HISTORY : Nat := MAXTAPS / COMPLEX

theorem HISTORY_eq : HISTORY = 2048 := rfl

/-- The concatenated input stream: silence before the first frame. -/
def streamAt (frames : List (Floats R)) (n : Int) : lv_32fc_t R :=
  if n < 0 then 0
  else
    match frames[n.toNat / SDRPACKETSIZE]? with
    | some data => samplesAt data 0 (n.toNat % SDRPACKETSIZE)
    | none => 0

/-- A further frame does not disturb the stream before it. -/
theorem streamAt_append_left (frames : List (Floats R)) (data : Floats R) {n : Int}
    (before : n < frames.length * SDRPACKETSIZE) :
    streamAt (frames ++ [data]) n = streamAt frames n := by
  unfold streamAt
  split
  · rfl
  · rw [List.getElem?_append_left]
    rw [SDRPACKETSIZE_eq] at before ⊢
    omega

/-- The samples of the last frame are the end of the stream. -/
theorem streamAt_append_right (frames : List (Floats R)) (data : Floats R) {k : Nat}
    (inside : k < SDRPACKETSIZE) :
    streamAt (frames ++ [data]) (frames.length * SDRPACKETSIZE + k : Nat) =
      samplesAt data 0 k := by
  have positive : 0 < SDRPACKETSIZE := by decide
  have block : (frames.length * SDRPACKETSIZE + k) / SDRPACKETSIZE = frames.length := by
    rw [Nat.add_comm, Nat.add_mul_div_right _ _ positive, Nat.div_eq_of_lt inside,
      Nat.zero_add]
  have place : (frames.length * SDRPACKETSIZE + k) % SDRPACKETSIZE = k := by
    rw [Nat.add_comm, Nat.add_mul_mod_self_right, Nat.mod_eq_of_lt inside]
  rw [streamAt, if_neg (Int.not_lt.mpr (Int.natCast_nonneg _)), Int.toNat_natCast,
    block, place]
  simp

theorem samplesAt_shift (mem : Floats R) (i k : Nat) :
    samplesAt mem i k = samplesAt mem 0 (i + k) := by
  simp [samplesAt]

/-- Where each complex sample of `alldata` comes from after both copies. -/
theorem samplesAt_loadFrame (alldata data : Floats R) (c : Nat) :
    samplesAt (loadFrame alldata data) 0 c =
      if c < HISTORY then samplesAt alldata 0 (SDRPACKETSIZE + c)
      else if c < HISTORY + SDRPACKETSIZE then samplesAt data 0 (c - HISTORY)
      else samplesAt alldata 0 c := by
  have sizes := And.intro SDRPACKETSIZE_eq (And.intro HISTORY_eq MAXTAPS_eq)
  split_ifs with old new
  all_goals simp only [samplesAt, loadFrame, memcpy, COMPLEX_eq]
  · rw [if_neg (by omega), if_pos (by omega), if_neg (by omega), if_pos (by omega)]
    refine congrArg₂ lv_cmake (congrArg alldata ?_) (congrArg alldata ?_) <;> omega
  · rw [if_pos (by omega), if_pos (by omega)]
    refine congrArg₂ lv_cmake (congrArg data ?_) (congrArg data ?_) <;> omega
  · rw [if_neg (by omega), if_neg (by omega), if_neg (by omega), if_neg (by omega)]

/-- The contents of `alldata` once `frames` have been loaded: the last
`HISTORY` samples of the stream before the last frame, that frame, and then
the part of the allocation that neither copy ever fills. -/
structure Layout (frames : List (Floats R)) (alldata : Floats R) : Prop where
  filled : ∀ c < HISTORY + SDRPACKETSIZE, samplesAt alldata 0 c =
    streamAt frames (frames.length * SDRPACKETSIZE - SDRPACKETSIZE + c - HISTORY)
  silent : ∀ c, HISTORY + SDRPACKETSIZE ≤ c → samplesAt alldata 0 c = 0

theorem Layout.start : Layout ([] : List (Floats R)) (Locals.start : Locals R).alldata := by
  refine ⟨fun c _ => ?_, fun c _ => rfl⟩
  simp only [streamAt, List.getElem?_nil, ite_self]
  rfl

theorem Layout.loadFrame {frames : List (Floats R)} {alldata : Floats R}
    (layout : Layout frames alldata) (data : Floats R) :
    Layout (frames ++ [data]) (loadFrame alldata data) := by
  have history_lt : HISTORY < SDRPACKETSIZE := by decide
  constructor
  · intro c inside
    rw [samplesAt_loadFrame]
    split_ifs with old
    · have place : (((frames ++ [data]).length : Int) * SDRPACKETSIZE - SDRPACKETSIZE +
          c - HISTORY) = frames.length * SDRPACKETSIZE - SDRPACKETSIZE +
            (SDRPACKETSIZE + c : Nat) - HISTORY := by
        rw [List.length_append, List.length_singleton]
        push_cast
        ring
      rw [layout.filled _ (by omega), place, streamAt_append_left]
      push_cast
      omega
    · have place : (((frames ++ [data]).length : Int) * SDRPACKETSIZE - SDRPACKETSIZE +
          c - HISTORY) = ((frames.length * SDRPACKETSIZE + (c - HISTORY) : Nat) : Int) := by
        rw [List.length_append, List.length_singleton]
        push_cast [Nat.cast_sub (Nat.le_of_not_lt old)]
        ring
      rw [place, streamAt_append_right frames data (by omega)]
  · intro c outside
    rw [samplesAt_loadFrame, if_neg (by omega), if_neg (by omega)]
    exact layout.silent c outside

/-! ## All outputs of a run of frames -/

/-- What evaluation `k` really reads: the stream behind a delay of `HISTORY`
samples, up to the end of the filled part of `alldata`. -/
def windowAt (frames : List (Floats R)) (decim k : Nat) : Nat → lv_32fc_t R := fun i =>
  if k * decim % SDRPACKETSIZE + i < SDRPACKETSIZE + HISTORY then
    streamAt frames ((k * decim + i : Nat) - HISTORY : Int)
  else 0

/-- How many evaluations fall into `n` samples. -/
def outputCount (decim n : Nat) : Nat := (n + decim - 1) / decim

theorem lt_outputCount_iff {decim n k : Nat} (advance : 0 < decim) :
    k < outputCount decim n ↔ k * decim < n := by
  rw [outputCount, Nat.lt_iff_add_one_le, Nat.le_div_iff_mul_le advance, Nat.succ_mul]
  omega

/-- The windows of earlier frames are not changed by a further frame. -/
theorem windowAt_append (frames : List (Floats R)) (data : Floats R) {decim k : Nat}
    (early : k * decim < frames.length * SDRPACKETSIZE) :
    windowAt (frames ++ [data]) decim k = windowAt frames decim k := by
  funext i
  unfold windowAt
  split_ifs with inside
  · apply streamAt_append_left
    have block := Nat.div_add_mod (k * decim) SDRPACKETSIZE
    have whole : k * decim / SDRPACKETSIZE < frames.length :=
      Nat.div_lt_of_lt_mul (by rw [Nat.mul_comm _ frames.length]; exact early)
    have bound := Nat.mul_le_mul_left SDRPACKETSIZE (Nat.succ_le_of_lt whole)
    rw [Nat.mul_succ, Nat.mul_comm _ frames.length] at bound
    have total : k * decim + i < frames.length * SDRPACKETSIZE + HISTORY := by omega
    zify at total
    push_cast
    omega
  · rfl

/-- The invariant of the frame loop. -/
structure FilterState (decim : Nat) (frames : List (Floats R)) (locals : Locals R) :
    Prop where
  layout : Layout frames locals.alldata
  grid : locals.fir_offset + frames.length * SDRPACKETSIZE =
    outputCount decim (frames.length * SDRPACKETSIZE) * decim

/-- A frame adds the values that its loop takes to the evaluations before it. -/
theorem outputCount_succ {decim offset n : Nat} (advance : 0 < decim)
    (grid : offset + n * SDRPACKETSIZE = outputCount decim (n * SDRPACKETSIZE) * decim) :
    outputCount decim ((n + 1) * SDRPACKETSIZE) =
      outputCount decim (n * SDRPACKETSIZE) +
        (stride decim SDRPACKETSIZE offset).length := by
  obtain ⟨done, evaluated⟩ : ∃ done, done = outputCount decim (n * SDRPACKETSIZE) := ⟨_, rfl⟩
  obtain ⟨count, counted⟩ : ∃ count,
      count = (stride decim SDRPACKETSIZE offset).length := ⟨_, rfl⟩
  have start : ∀ j, (done + j) * decim = n * SDRPACKETSIZE + (offset + j * decim) := by
    intro j
    rw [Nat.add_mul, evaluated, ← grid]
    omega
  rw [← counted, ← evaluated, Nat.add_mul, Nat.one_mul]
  apply Nat.le_antisymm
  · by_contra more
    have inside := (lt_outputCount_iff advance).mp (Nat.lt_of_not_le more)
    rw [start] at inside
    have reached := (lt_length_stride_iff (k := count) advance).mpr
      (show offset + count * decim < SDRPACKETSIZE by omega)
    omega
  · by_contra less
    have reached : outputCount decim (n * SDRPACKETSIZE + SDRPACKETSIZE) < done + count :=
      Nat.lt_of_not_le less
    have atLeast : done ≤ outputCount decim (n * SDRPACKETSIZE + SDRPACKETSIZE) := by
      by_contra early
      rw [evaluated] at early
      have inside := (lt_outputCount_iff advance).mp (Nat.lt_of_not_le early)
      have again := (lt_outputCount_iff (n := n * SDRPACKETSIZE + SDRPACKETSIZE) advance).mpr
        (Nat.lt_of_lt_of_le inside (Nat.le_add_right _ _))
      exact Nat.lt_irrefl _ again
    obtain ⟨j, split⟩ := Nat.exists_eq_add_of_le atLeast
    have visited : j < (stride decim SDRPACKETSIZE offset).length := by omega
    have inside := (lt_length_stride_iff advance).mp visited
    have again : done + j < outputCount decim (n * SDRPACKETSIZE + SDRPACKETSIZE) :=
      (lt_outputCount_iff advance).mpr (by rw [start]; omega)
    omega

/-- One frame appends the evaluations that start inside it. -/
theorem processFrame_spec {decim : Nat} (advance : 0 < decim)
    {frames : List (Floats R)} {locals : Locals R}
    (state : FilterState decim frames locals) (data : Floats R) :
    FilterState decim (frames ++ [data])
        (processFrame taps decim phase_inc locals data).next ∧
      (List.range (outputCount decim (frames.length * SDRPACKETSIZE))).map
          (fun k => dotProd (windowAt frames decim k) taps) ++
        (processFrame taps decim phase_inc locals data).firout =
      (List.range (outputCount decim ((frames ++ [data]).length * SDRPACKETSIZE))).map
        fun k => dotProd (windowAt (frames ++ [data]) decim k) taps := by
  obtain ⟨layout, grid⟩ := state
  let done := outputCount decim (frames.length * SDRPACKETSIZE)
  obtain ⟨count, counted⟩ : ∃ count,
      count = (stride decim SDRPACKETSIZE locals.fir_offset).length := ⟨_, rfl⟩
  have loaded := layout.loadFrame data
  have start : ∀ j, (done + j) * decim =
      frames.length * SDRPACKETSIZE + (locals.fir_offset + j * decim) := by
    intro j
    rw [Nat.add_mul, ← grid]
    omega
  have total : outputCount decim ((frames ++ [data]).length * SDRPACKETSIZE) = done + count := by
    rw [List.length_append, List.length_singleton, counted]
    exact outputCount_succ advance grid
  refine ⟨⟨loaded, ?_⟩, ?_⟩
  · have exit : SDRPACKETSIZE ≤ strideExit decim SDRPACKETSIZE locals.fir_offset :=
      le_strideExit advance
    rw [total, start]
    simp only [processFrame, List.length_append, List.length_singleton, Nat.add_mul,
      Nat.one_mul]
    rw [strideExit, ← counted] at exit ⊢
    omega
  · rw [total, List.range_add, List.map_append]
    congr 1
    · apply List.map_congr_left
      intro k early
      rw [windowAt_append]
      exact (lt_outputCount_iff advance).mp (List.mem_range.mp early)
    · simp only [processFrame]
      rw [stride_eq_map_range, List.map_map, List.map_map, ← counted]
      apply List.map_congr_left
      intro j reached
      have inside := (lt_length_stride_iff advance).mp
        (counted ▸ List.mem_range.mp reached)
      apply dotProd_congr
      intro i _
      simp only [windowAt]
      rw [start, samplesAt_shift, Nat.mul_comm frames.length, Nat.mul_add_mod,
        Nat.mod_eq_of_lt inside]
      split_ifs with filled
      · rw [loaded.filled _ (by omega)]
        refine congrArg _ ?_
        simp only [List.length_append, List.length_singleton]
        push_cast
        ring
      · exact loaded.silent _ (by omega)

end Kukuruku.Server.XlateWorker
