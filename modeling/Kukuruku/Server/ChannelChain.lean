import Kukuruku.Scanner.Xlater
import Kukuruku.Server.XlateWorker

/-!
# Translate, filter and decimate

The server rotates the taps once, filters at stride `decim` and rotates only
the outputs, by `u ^ decim` each, with the phase carried across frames.  Over
an arbitrary commutative ring, with `u` in the place of `e^(j*rotate)`, this is
the plain chain of the scanner: rotate every input sample, filter, keep every
`decim`-th result.
-/

namespace Kukuruku.Server.ChannelChain

open Kukuruku.Fir
open Kukuruku.Server.XlateWorker
open Kukuruku.Scanner.Xlater (FloatPair xdump xdump_contiguous)

variable {C : Type*} [CommRing C]

/-! ## The chain over an arbitrary ring -/

/-- The low-pass taps turned into band-pass taps. -/
def get_complex_taps (u : C) (taps : List C) : List C :=
  taps.mapIdx fun i tap => tap * u ^ i

theorem length_get_complex_taps (u : C) (taps : List C) :
    (get_complex_taps u taps).length = taps.length := by
  simp [get_complex_taps]

theorem get_complex_taps_get (u : C) (taps : List C)
    (i : Fin (get_complex_taps u taps).length) :
    (get_complex_taps u taps).get i =
      taps.get (finCongr (length_get_complex_taps u taps) i) * u ^ (i : Nat) :=
  List.getElem_mapIdx

/-- The optimised chain: each frame is the list of the windows its FIR loop
evaluates, and the output phase is carried from frame to frame. -/
def serverChain (ctaps : List C) (phase_inc : C) : C → List (List (Nat → C)) → List C
  | _, [] => []
  | phase, windows :: rest =>
      let rotated := rotator phase_inc phase (windows.map fun window => dotProd window ctaps)
      rotated.1 ++ serverChain ctaps phase_inc rotated.2 rest

/-- How the outputs are cut into frames does not matter. -/
theorem serverChain_eq_rotator (ctaps : List C) (phase_inc phase : C)
    (frames : List (List (Nat → C))) :
    serverChain ctaps phase_inc phase frames =
      (rotator phase_inc phase
        (frames.flatten.map fun window => dotProd window ctaps)).1 := by
  induction frames generalizing phase with
  | nil => rfl
  | cons windows rest ih =>
      rw [serverChain, ih, List.flatten_cons, List.map_append, rotator_append]

/-- Rotated taps see the samples rotated from the window's start on. -/
theorem dotProd_get_complex_taps (u : C) (taps : List C) (window : Nat → C) :
    dotProd window (get_complex_taps u taps) =
      ∑ i : Fin taps.length, taps.get i * u ^ (i : Nat) * window i := by
  unfold dotProd
  refine Fintype.sum_equiv (finCongr (length_get_complex_taps u taps)) _ _ fun i => ?_
  rw [get_complex_taps_get, finCongr_apply, Fin.val_cast]
  ring

/-- Output `k` of the server's chain, when evaluation `k` sees the contiguous
window that starts at sample `k * decim`. -/
theorem serverChain_getElem? (u : C) (taps : List C) (decim : Nat) (x : Nat → C)
    (frames : List (List (Nat → C))) {k : Nat} {window : Nat → C}
    (evaluated : frames.flatten[k]? = some window)
    (contiguous : ∀ i < taps.length, window i = x (k * decim + i)) :
    (serverChain (get_complex_taps u taps) (u ^ decim) 1 frames)[k]? =
      some (∑ i : Fin taps.length,
        taps.get i * u ^ (k * decim + i) * x (k * decim + i)) := by
  rw [serverChain_eq_rotator, rotator_getElem?, List.getElem?_map, evaluated]
  simp only [Option.map_some, Option.some.injEq]
  rw [dotProd_get_complex_taps, Finset.sum_mul]
  refine Finset.sum_congr rfl fun i _ => ?_
  rw [contiguous i i.isLt, pow_add, pow_mul', one_mul]
  ring

/-! ## The worker runs this chain -/

section Worker

variable {R : Type*} [CommRing R]

/-- The windows that the FIR loop of a sequence of frames evaluates. -/
def windows (taps : List (lv_32fc_t R)) (decim : Nat) (phase_inc : lv_32fc_t R) :
    Locals R → List (Floats R) → List (List (Nat → lv_32fc_t R))
  | _, [] => []
  | locals, data :: rest =>
      (stride decim SDRPACKETSIZE locals.fir_offset).map
          (samplesAt (loadFrame locals.alldata data)) ::
        windows taps decim phase_inc
          (processFrame taps decim phase_inc locals data).next rest

/-- What the worker stores for its frames is the chain over its windows. -/
theorem processFrames_out (taps : List (lv_32fc_t R)) (decim : Nat)
    (phase_inc : lv_32fc_t R) (locals : Locals R) (frames : List (Floats R)) :
    (processFrames taps decim phase_inc locals frames).flatMap FrameResult.out =
      serverChain taps phase_inc locals.phase
        (windows taps decim phase_inc locals frames) := by
  induction frames generalizing locals with
  | nil => rfl
  | cons data rest ih =>
      simp only [processFrames, List.flatMap_cons, ih, windows, serverChain]
      simp [processFrame, List.map_map, Function.comp_def]

/-- Cosine and sine with the laws that exact rotation rests on. -/
structure Trig (R : Type*) [CommRing R] where
  cos : R → R
  sin : R → R
  cos_zero : cos 0 = 1
  sin_zero : sin 0 = 0
  cos_add : ∀ x y, cos (x + y) = cos x * cos y - sin x * sin y
  sin_add : ∀ x y, sin (x + y) = sin x * cos y + cos x * sin y

namespace Trig

variable (trig : Trig R)

/-- The unit vector at an angle, as the source builds it for `phase_inc`. -/
def expj (angle : R) : lv_32fc_t R := lv_cmake (trig.cos angle) (trig.sin angle)

/-- `get_complex_taps` with the cosines and sines of the source. -/
def get_complex_taps (taps : List R) (rotate : R) : List (lv_32fc_t R) :=
  taps.mapIdx fun i tap =>
    lv_cmake (tap * trig.cos (rotate * i)) (tap * trig.sin (rotate * i))

theorem expj_add (x y : R) : trig.expj (x + y) = trig.expj x * trig.expj y := by
  ext <;> simp [expj, lv_cmake, trig.cos_add, trig.sin_add] <;> ring

/-- Rotation by a multiple of an angle is a power of the rotation. -/
theorem expj_mul_nat (angle : R) (n : Nat) : trig.expj (angle * n) = trig.expj angle ^ n := by
  induction n with
  | zero =>
      rw [Nat.cast_zero, mul_zero, pow_zero]
      rw [expj, trig.cos_zero, trig.sin_zero]
      rfl
  | succ n ih => rw [Nat.cast_succ, mul_add, mul_one, expj_add, ih, pow_succ]

/-- The source's taps are the ring's band-pass taps at `u = e^(j*rotate)`. -/
theorem get_complex_taps_eq (taps : List R) (rotate : R) :
    trig.get_complex_taps taps rotate =
      ChannelChain.get_complex_taps (trig.expj rotate)
        (taps.map fun tap => lv_cmake tap 0) := by
  refine List.mapIdx_eq_iff.mpr fun i => ?_
  rw [ChannelChain.get_complex_taps, List.getElem?_mapIdx, List.getElem?_map, Option.map_map]
  refine congrArg (fun scale => Option.map scale taps[i]?) (funext fun tap => ?_)
  rw [Function.comp_apply, ← trig.expj_mul_nat]
  ext <;> simp [expj, lv_cmake]

end Trig

end Worker

/-! ## Agreement with the scanner -/

/-- Sample `k` of the server's chain is the translated, filtered and decimated
input, and `xdump` run on one contiguous buffer emits the same sample. -/
theorem serverChain_eq_xdump {R : Type*} (u : C) (taps : List C) {decim : Nat}
    (advance : 0 < decim) (x : Nat → C) (frames : List (List (Nat → C)))
    (contiguous : ∀ k window, frames.flatten[k]? = some window →
      ∀ i < taps.length, window i = x (k * decim + i))
    {k : Nat} (produced : k < frames.flatten.length) :
    (serverChain (get_complex_taps u taps) (u ^ decim) 1 frames)[k]? =
        some (∑ i : Fin taps.length,
          taps.get i * u ^ (k * decim + i) * x (k * decim + i)) ∧
      ∀ (pair : FloatPair R C) (malloc buf carry : Nat → R) (buflen : Nat),
        (∀ n < buflen / COMPLEX,
          pair.cmake (buf (COMPLEX * n)) (buf (COMPLEX * n + 1)) = x n) →
        k * decim < buflen / COMPLEX → k * decim + taps.length ≤ buflen / COMPLEX →
        (xdump pair malloc buf buflen carry 0 taps decim u 1 0).out[k]? =
          (serverChain (get_complex_taps u taps) (u ^ decim) 1 frames)[k]? := by
  have chain := serverChain_getElem? u taps decim x frames
    (List.getElem?_eq_getElem produced)
    (contiguous k _ (List.getElem?_eq_getElem produced))
  refine ⟨chain, ?_⟩
  intro pair malloc buf carry buflen stored evaluated whole
  rw [chain, xdump_contiguous pair malloc buf carry taps advance u evaluated whole]
  refine congrArg some (Finset.sum_congr rfl fun i _ => ?_)
  have inTaps := i.isLt
  have sample := stored (k * decim + i) (by omega)
  simp only [sample]
  ring

/-- Integer floats, two of which make one sample by dropping the second. -/
def realPair : FloatPair Int Int := ⟨fun re _ => re, id, fun _ => 0, fun _ => rfl⟩

/-- Two frames with one window each over the stream `0, 1, 2, ..`. -/
theorem serverChain_eq_xdump_two_frames :
    (serverChain (get_complex_taps 2 [1, 3]) (2 ^ 2) 1
        [[fun i => (i : Int)], [fun i => 2 + (i : Int)]])[1]? = some 80 ∧
      (xdump realPair (fun _ => 0) (fun j => (j : Int) / 2) 16 (fun _ => 0) 0
        [1, 3] 2 2 1 0).out[1]? = some 80 := by
  have both := serverChain_eq_xdump (R := Int) (2 : Int) [1, 3] (show 0 < 2 by decide)
    (fun n => (n : Int)) [[fun i => (i : Int)], [fun i => 2 + (i : Int)]]
    (by
      intro k window evaluated i _
      match k with
      | 0 =>
          obtain rfl := Option.some.inj evaluated
          simp
      | 1 =>
          obtain rfl := Option.some.inj evaluated
          simp)
    (k := 1) (by decide)
  obtain ⟨chain, scanner⟩ := both
  have value : (serverChain (get_complex_taps 2 [1, 3]) (2 ^ 2) 1
      [[fun i => (i : Int)], [fun i => 2 + (i : Int)]])[1]? = some 80 := by
    rw [chain]
    rfl
  refine ⟨value, ?_⟩
  rw [scanner realPair _ _ _ 16 _ (by decide) (by decide), value]
  intro n _
  simp only [realPair, COMPLEX_eq]
  omega

end Kukuruku.Server.ChannelChain
