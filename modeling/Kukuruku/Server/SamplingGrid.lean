import Kukuruku.Scanner.Xlater
import Kukuruku.Server.XlateWorker

/-!
# Where the filters are evaluated

Both the worker's loop over the samples of a frame and the loop of `xdump` over
those of a buffer start where the last one has left off and step by `decim`.
What they have in common is `Fir.blockPositions`.
-/

namespace Kukuruku.Server.SamplingGrid

open Kukuruku.Fir
open Kukuruku.Server.XlateWorker
open Kukuruku.Scanner.Xlater (FloatPair Dumped xdump)

variable {R C : Type*}

/-! ## The worker -/

section Worker

variable [CommRing R]

/-- A frame, with the taps and the rotation that the worker has at that time. -/
structure Input (R : Type*) [CommRing R] where
  taps : List (lv_32fc_t R)
  phase_inc : lv_32fc_t R
  data : Floats R

/-- The results of the worker's frames, one after the other. -/
def workerResults (decim : Nat) : Locals R → List (Input R) → List (FrameResult R)
  | _, [] => []
  | locals, input :: rest =>
      let result := processFrame input.taps decim input.phase_inc locals input.data
      result :: workerResults decim result.next rest

/-- The values of `i` in the loop over a frame. -/
def frameSteps (decim : Nat) (locals : Locals R) : List Nat :=
  stride decim SDRPACKETSIZE locals.fir_offset

/-- The filter is evaluated at these. -/
theorem processFrame_firout (input : Input R) (decim : Nat) (locals : Locals R) :
    (processFrame input.taps decim input.phase_inc locals input.data).firout =
      (frameSteps decim locals).map fun i =>
        dotProd (samplesAt (loadFrame locals.alldata input.data) i) input.taps := rfl

/-- The positions in the stream of all evaluations, when `base` samples came before. -/
def workerPositions (decim : Nat) : Nat → Locals R → List (Input R) → List Nat
  | _, _, [] => []
  | base, locals, input :: rest =>
      ((frameSteps decim locals).map fun i => base + i) ++
        workerPositions decim (base + SDRPACKETSIZE)
          (processFrame input.taps decim input.phase_inc locals input.data).next rest

theorem workerPositions_eq (decim base : Nat) (locals : Locals R) (inputs : List (Input R)) :
    workerPositions decim base locals inputs =
      blockPositions decim base locals.fir_offset
        (List.replicate inputs.length SDRPACKETSIZE) := by
  induction inputs generalizing base locals with
  | nil => rfl
  | cons input rest ih => rw [workerPositions, ih]; rfl

/-- The bytes of one slot of `outbuf`, and of `firout`. -/
def maxoutsize (decim : Nat) : Nat := COMPLEX * 4 * (SDRPACKETSIZE / decim + 1)

/-- A frame's outputs and the bytes they take. -/
theorem workerResults_fit {decim : Nat} (advance : 0 < decim) (locals : Locals R)
    (inputs : List (Input R)) {result : FrameResult R}
    (member : result ∈ workerResults decim locals inputs) :
    result.firout.length ≤ SDRPACKETSIZE / decim + 1 ∧
      result.out.length = result.firout.length := by
  induction inputs generalizing locals with
  | nil => cases member
  | cons input rest ih =>
      rcases List.mem_cons.mp member with rfl | later
      · refine ⟨?_, rotator_length _ _ _⟩
        rw [processFrame_firout, List.length_map]
        exact length_stride_le advance _ _
      · exact ih _ later

end Worker

/-! ## The scanner -/

section Scanner

variable [CommRing C]

/-- The arguments of one call of `xdump`, but for what is carried. -/
structure Call (R C : Type*) where
  malloc : Nat → R
  buf : Nat → R
  buflen : Nat
  carry : Nat → R
  carrylen : Nat
  taps : List C
  phase_inc : C

def Call.run (pair : FloatPair R C) (decim : Nat) (rotpos : C) (firpos : Nat)
    (call : Call R C) : Dumped C :=
  xdump pair call.malloc call.buf call.buflen call.carry call.carrylen call.taps decim
    call.phase_inc rotpos firpos

/-- The whole samples of the call's buffer. -/
def Call.nsamples (call : Call R C) : Nat := call.buflen / COMPLEX

/-- The values of `i` in the loop of a call. -/
def Call.steps (decim firpos : Nat) (call : Call R C) : List Nat :=
  stride decim call.nsamples firpos

/-- One sample is written for each of them. -/
theorem Call.run_out_length (pair : FloatPair R C) (decim : Nat) (rotpos : C) (firpos : Nat)
    (call : Call R C) :
    (call.run pair decim rotpos firpos).out.length = (call.steps decim firpos).length :=
  List.length_map _

/-- The positions in the stream of all evaluations of a sequence of calls. -/
def xdumpPositions (pair : FloatPair R C) (decim : Nat) :
    Nat → C → Nat → List (Call R C) → List Nat
  | _, _, _, [] => []
  | base, rotpos, firpos, call :: rest =>
      let dumped := call.run pair decim rotpos firpos
      ((call.steps decim firpos).map fun i => base + i) ++
        xdumpPositions pair decim (base + call.nsamples) dumped.rotpos dumped.firpos rest

theorem xdumpPositions_eq (pair : FloatPair R C) (decim base firpos : Nat) (rotpos : C)
    (calls : List (Call R C)) :
    xdumpPositions pair decim base rotpos firpos calls =
      blockPositions decim base firpos (calls.map Call.nsamples) := by
  induction calls generalizing base rotpos firpos with
  | nil => rfl
  | cons call rest ih => rw [xdumpPositions, ih]; rfl

end Scanner

/-! ## The grid -/

/-- Zero, `decim`, twice `decim` and so on, as far as the samples go. -/
def OnGrid (decim total : Nat) (positions : List Nat) : Prop :=
  ∀ k, positions[k]? = if k * decim < total then some (k * decim) else none

theorem onGrid_blockPositions {decim : Nat} (advance : 0 < decim) (lens : List Nat) :
    OnGrid decim lens.sum (blockPositions decim 0 0 lens) := by
  intro k
  rw [blockPositions_eq advance]
  simp only [Nat.zero_add, List.map_id']
  exact stride_zero_getElem? advance _ k

/-- The worker evaluates its filter on the grid, over any number of frames, and no
frame overruns `firout` or its slot of `outbuf`; a sequence of calls of `xdump`
evaluates on the grid, whatever the lengths of the buffers. -/
theorem evaluations_on_grid [CommRing R] [CommRing C] (pair : FloatPair R C) {decim : Nat}
    (advance : 1 ≤ decim) :
    (∀ inputs : List (Input R),
      OnGrid decim (inputs.length * SDRPACKETSIZE)
          (workerPositions decim 0 Locals.start inputs) ∧
        ∀ result ∈ workerResults decim Locals.start inputs,
          result.firout.length ≤ SDRPACKETSIZE / decim + 1 ∧
          COMPLEX * 4 * result.firout.length ≤ maxoutsize decim ∧
          COMPLEX * 4 * result.out.length ≤ maxoutsize decim) ∧
    ∀ (rotpos : C) (calls : List (Call R C)),
      OnGrid decim (calls.map Call.nsamples).sum
        (xdumpPositions pair decim 0 rotpos 0 calls) := by
  refine ⟨fun inputs => ⟨?_, fun result member => ?_⟩, fun rotpos calls => ?_⟩
  · have grid := onGrid_blockPositions advance (List.replicate inputs.length SDRPACKETSIZE)
    rw [List.sum_replicate, smul_eq_mul] at grid
    rw [workerPositions_eq]
    exact grid
  · obtain ⟨few, same⟩ := workerResults_fit advance Locals.start inputs member
    have bytes : COMPLEX * 4 * result.firout.length ≤ maxoutsize decim :=
      Nat.mul_le_mul_left _ few
    exact ⟨few, bytes, same ▸ bytes⟩
  · rw [xdumpPositions_eq]
    exact onGrid_blockPositions advance _

/-- A sample as the two floats it is stored in. -/
def floatPair (R : Type*) [CommRing R] : FloatPair R (lv_32fc_t R) :=
  ⟨lv_cmake, QuadraticAlgebra.re, QuadraticAlgebra.im, fun _ => rfl⟩

/-- A decimation by more than a frame: three frames, and two buffers of unequal
lengths. -/
theorem evaluations_on_grid_slow :
    OnGrid 600000 (3 * SDRPACKETSIZE)
        (workerPositions 600000 0 (Locals.start : Locals ℤ)
          [⟨[1], 1, fun _ => 0⟩, ⟨[1], 1, fun _ => 0⟩, ⟨[], 1, fun _ => 1⟩]) ∧
      OnGrid 600000 700000 (xdumpPositions (floatPair ℤ) 600000 0 1 0
        [⟨fun _ => 0, fun _ => 0, 4, fun _ => 0, 0, [1], 1⟩,
          ⟨fun _ => 0, fun _ => 0, 1399997, fun _ => 0, 0, [1], 1⟩]) := by
  obtain ⟨worker, scanner⟩ := evaluations_on_grid (floatPair ℤ) (show 1 ≤ 600000 by decide)
  refine ⟨(worker [⟨[1], 1, fun _ => 0⟩, ⟨[1], 1, fun _ => 0⟩, ⟨[], 1, fun _ => 1⟩]).1, ?_⟩
  have buffers := scanner 1 [⟨fun _ => 0, fun _ => 0, 4, fun _ => 0, 0, [1], 1⟩,
    ⟨fun _ => 0, fun _ => 0, 1399997, fun _ => 0, 0, [1], 1⟩]
  simpa only [List.map_cons, List.map_nil, Call.nsamples, COMPLEX_eq, List.sum_cons,
    List.sum_nil, Nat.reduceDiv, Nat.reduceAdd] using buffers

end Kukuruku.Server.SamplingGrid
