import Kukuruku.Foundation.Stdio
import Kukuruku.Scanner.Carry
import Kukuruku.Server.SamplingGrid

/-!
# What the calls of `xdump` write

Every call of `xdump` opens a stream of its own on the descriptor of the channel and
leaves it open; at the end `do_record` closes the descriptor underneath.  What a call
has written stays in its stream's buffer, except for the buffers that it has filled.
-/

namespace Kukuruku.Scanner.XdumpOutput

open Kukuruku.Fir
open Kukuruku.Stdio
open Kukuruku.Server (COMPLEX COMPLEX_eq)
open Kukuruku.Scanner.Xlater
open Kukuruku.Scanner.Carry
open Kukuruku.Server.SamplingGrid (Call)

variable {R C β : Type*}

/-- The bytes of a float in memory. -/
structure FloatBytes (R β : Type*) where
  bytes : R → List β
  length_bytes : ∀ value, (bytes value).length = 4

/-- `sizeof(lv_32fc_t)`. -/
def sizeof_lv_32fc_t : Nat := COMPLEX * 4

def FloatBytes.sample (floats : FloatBytes R β) (pair : FloatPair R C) (sample : C) : List β :=
  floats.bytes (pair.re sample) ++ floats.bytes (pair.im sample)

theorem FloatBytes.length_sample (floats : FloatBytes R β) (pair : FloatPair R C) (sample : C) :
    (floats.sample pair sample).length = sizeof_lv_32fc_t := by
  rw [FloatBytes.sample, List.length_append, floats.length_bytes, floats.length_bytes,
    sizeof_lv_32fc_t, COMPLEX_eq]

/-- The arguments of one call, with what it finds in `_rotpos` and `_firpos`. -/
structure Arguments (R C : Type*) extends Call R C where
  decim : Nat
  rotpos : C
  firpos : Nat

/-- How often the loop of a call runs. -/
def Arguments.outsample (args : Arguments R C) : Nat :=
  (args.nsamples - args.firpos + args.decim - 1) / args.decim

variable [CommRing C]

/-- What the call computes. -/
def Arguments.out (pair : FloatPair R C) (args : Arguments R C) : List C :=
  (args.run pair args.decim args.rotpos args.firpos).out

theorem length_stride {decim : Nat} (advance : 0 < decim) (stop start : Nat) :
    (stride decim stop start).length = (stop - start + decim - 1) / decim := by
  refine eq_of_forall_lt_iff fun k => ?_
  have reach : k + 1 ≤ (stop - start + decim - 1) / decim ↔
      (k + 1) * decim ≤ stop - start + decim - 1 := Nat.le_div_iff_mul_le advance
  rw [Nat.succ_mul] at reach
  rw [lt_length_stride_iff advance]
  omega

theorem Arguments.length_out (pair : FloatPair R C) (args : Arguments R C)
    (advance : 0 < args.decim) : (args.out pair).length = args.outsample := by
  rw [out, Call.run_out_length, Call.steps, length_stride advance]
  rfl

section Output

variable (b : Buffering) (pair : FloatPair R C) (floats : FloatBytes R β)

/-- The samples of one call as they are given to `fwrite`. -/
def items (args : Arguments R C) : List (List β) := (args.out pair).map (floats.sample pair)

/-- One call of `xdump`, as far as the descriptor is concerned. -/
def xdump (fd : Descriptor β) (args : Arguments R C) : Descriptor β :=
  match fd.fdopen with
  | none => fd
  | some opened => (items pair floats args).foldl (Descriptor.fwrite b) opened

/-- The calls on one descriptor, which `do_record` closes afterwards. -/
def recordCalls (calls : List (Arguments R C)) : Descriptor β :=
  (calls.foldl (xdump b pair floats) .fresh).close

/-- Everything has reached the descriptor in the order of the calls. -/
def Lossless (calls : List (Arguments R C)) : Prop :=
  (recordCalls b pair floats calls).reached =
    calls.flatMap fun args => (args.out pair).flatMap (floats.sample pair)

/-- The end of the process comes too late for what the streams still hold. -/
theorem reached_exit (calls : List (Arguments R C)) :
    (recordCalls b pair floats calls).exit.reached =
      (recordCalls b pair floats calls).reached :=
  Descriptor.reached_exit_close _

theorem length_items_flatten {args : Arguments R C} (advance : 0 < args.decim) :
    (items pair floats args).flatten.length = sizeof_lv_32fc_t * args.outsample := by
  rw [items, ← List.flatMap_def, List.length_flatMap, ← args.length_out pair advance,
    List.map_congr_left fun sample _ => floats.length_sample pair sample, List.map_const',
    List.sum_replicate, smul_eq_mul, Nat.mul_comm]

/-- The calls are streams that are leaked one after the other. -/
theorem foldl_xdump (fd : Descriptor β) (calls : List (Arguments R C)) :
    calls.foldl (xdump b pair floats) fd =
      (calls.map (items pair floats)).foldl (Descriptor.leak b) fd := by
  rw [List.foldl_map]
  rfl

theorem lossless_iff_drains {calls : List (Arguments R C)}
    (advance : ∀ args ∈ calls, 0 < args.decim) :
    Lossless b pair floats calls ↔
      ∀ args ∈ calls, b.Drains (sizeof_lv_32fc_t * args.outsample) := by
  have arrived := Descriptor.foldl_leak_fresh_iff b (calls.map (items pair floats))
  rw [← foldl_xdump, List.forall_mem_map, List.flatMap_map] at arrived
  have bytes : calls.flatMap (fun args => (items pair floats args).flatten) =
      calls.flatMap fun args => (args.out pair).flatMap (floats.sample pair) :=
    List.flatMap_congr fun args _ => List.flatMap_def.symm
  rw [bytes] at arrived
  refine arrived.trans (forall₂_congr fun args mem => ?_)
  rw [length_items_flatten pair floats (advance args mem)]

end Output

/-! ## One channel of `do_record` -/

section Record

variable (pair : ZeroPair R C) (taps : List C) (decim : Nat) (u : C)

/-- The arguments that `do_record` gives to the call on one buffer. -/
def arguments (ch : ChannelHelper R C) (read : Read R C) : Arguments R C where
  malloc := read.malloc
  buf := memory pair (Carry.floats pair read.buf)
  buflen := (Carry.floats pair read.buf).length
  carry := memory pair ch.carry
  carrylen := taps.length
  taps := taps
  phase_inc := u
  decim := decim
  rotpos := ch.rotpos
  firpos := ch.firpos

def channelCalls : ChannelHelper R C → List (Read R C) → List (Arguments R C)
  | _, [] => []
  | ch, read :: rest =>
      arguments pair taps decim u ch read :: channelCalls (ch.next pair taps decim u read) rest

/-- What these calls compute. -/
theorem flatMap_out_channelCalls (ch : ChannelHelper R C) (reads : List (Read R C)) :
    (channelCalls pair taps decim u ch reads).flatMap (fun args => args.out pair.toFloatPair) =
      do_record pair taps decim u ch reads := by
  induction reads generalizing ch with
  | nil => rfl
  | cons read rest ih => rw [channelCalls, List.flatMap_cons, ih, do_record]; rfl

theorem decim_channelCalls (ch : ChannelHelper R C) (reads : List (Read R C)) :
    ∀ args ∈ channelCalls pair taps decim u ch reads, args.decim = decim := by
  induction reads generalizing ch with
  | nil => exact fun _ mem => absurd mem List.not_mem_nil
  | cons read rest ih => exact List.forall_mem_cons.mpr ⟨rfl, ih _⟩

/-- The values of the first `n` samples of the stream that are on the grid. -/
def gridCount (decim n : Nat) : Nat := (n + decim - 1) / decim

variable {pair taps decim u}

/-- Where a call starts when `n` samples came before, and how many values it computes. -/
theorem outsample_arguments (advance : 0 < decim) {ch : ChannelHelper R C} {n : Nat}
    (follows : ch.firpos = strideExit decim n 0 - n) (read : Read R C) :
    (arguments pair taps decim u ch read).outsample =
        gridCount decim (n + read.buf.length) - gridCount decim n ∧
      (ch.next pair taps decim u read).firpos =
        strideExit decim (n + read.buf.length) 0 - (n + read.buf.length) := by
  have count : (Carry.floats pair read.buf).length / COMPLEX = read.buf.length := by
    rw [length_floats]
    exact Nat.mul_div_cancel_left _ (by decide)
  have whole := congrArg List.length (stride_add advance n read.buf.length 0)
  rw [List.length_append, List.length_map, ← follows] at whole
  have reached : n ≤ strideExit decim n 0 := le_strideExit advance
  constructor
  · have here := length_stride advance read.buf.length ch.firpos
    have upTo := length_stride advance (n + read.buf.length) 0
    have before := length_stride advance n 0
    rw [Nat.sub_zero] at upTo before
    simp only [Arguments.outsample, arguments, Call.nsamples, count, gridCount]
    omega
  · simp only [ChannelHelper.next, ChannelHelper.xdump, Xlater.xdump, count]
    simp only [strideExit] at reached follows ⊢
    rw [whole, Nat.add_mul]
    omega

/-- The outcome for one channel, from the lengths of the buffers alone. -/
theorem drains_channelCalls (advance : 0 < decim) (b : Buffering) {ch : ChannelHelper R C} {n : Nat}
    (follows : ch.firpos = strideExit decim n 0 - n) (reads : List (Read R C)) :
    (∀ args ∈ channelCalls pair taps decim u ch reads,
        b.Drains (sizeof_lv_32fc_t * args.outsample)) ↔
      ∀ before read after, reads = before ++ read :: after →
        b.Drains (sizeof_lv_32fc_t *
          (gridCount decim (n + (before.flatMap Read.buf).length + read.buf.length) -
            gridCount decim (n + (before.flatMap Read.buf).length))) := by
  induction reads generalizing ch n with
  | nil =>
      refine iff_of_true (fun _ mem => absurd mem List.not_mem_nil) ?_
      exact fun before read after split => absurd split.symm (by simp)
  | cons read rest ih =>
      have call : _ ∧ (ch.next pair taps decim u read).firpos = _ :=
        outsample_arguments advance follows read
      obtain ⟨here, next⟩ := call
      rw [channelCalls, List.forall_mem_cons, here, ih next]
      constructor
      · rintro ⟨first, later⟩ before other after split
        cases before with
        | nil =>
            obtain ⟨rfl, -⟩ := List.cons.inj split
            exact first
        | cons early before =>
            obtain ⟨rfl, rfl⟩ := List.cons.inj split
            have drained := later before other after rfl
            rw [List.flatMap_cons, List.length_append, ← Nat.add_assoc]
            exact drained
      · refine fun all => ⟨all [] read rest rfl, fun before other after split => ?_⟩
        have drained := all (read :: before) other after (by rw [split]; rfl)
        rw [List.flatMap_cons, List.length_append, ← Nat.add_assoc] at drained
        exact drained

end Record

/-! ## When nothing is lost -/

/-- With one channel's file it is a matter of where the buffers that were read end. -/
theorem lossless_channel_iff (b : Buffering) (pair : ZeroPair R C) (floats : FloatBytes R β)
    (taps : List C) {decim : Nat} (advance : 0 < decim) (u : C) (reads : List (Read R C)) :
    Lossless b pair.toFloatPair floats
        (channelCalls pair taps decim u (.init pair taps) reads) ↔
      ∀ before read after, reads = before ++ read :: after →
        b.Drains (sizeof_lv_32fc_t *
          (gridCount decim ((before.flatMap Read.buf).length + read.buf.length) -
            gridCount decim (before.flatMap Read.buf).length)) := by
  have start : (ChannelHelper.init pair taps).firpos = strideExit decim 0 0 - 0 := by
    rw [strideExit, stride_zero, List.length_nil, Nat.zero_mul]
    rfl
  rw [lossless_iff_drains b _ floats fun args mem =>
    (decim_channelCalls pair taps decim u _ reads args mem).symm ▸ advance,
    drains_channelCalls advance b start]
  simp only [Nat.zero_add]

/-- Where a full buffer waits for the next byte, only the empty output is complete. -/
theorem lossless_lazy_iff {b : Buffering} (lazy : ¬b.eager = true) (pair : FloatPair R C)
    (floats : FloatBytes R β) {calls : List (Arguments R C)}
    (advance : ∀ args ∈ calls, 0 < args.decim) :
    Lossless b pair floats calls ↔ ∀ args ∈ calls, args.out pair = [] := by
  rw [lossless_iff_drains b pair floats advance]
  refine forall₂_congr fun args mem => ?_
  rw [Buffering.Drains, if_neg lazy, ← args.length_out pair (advance args mem), Nat.mul_eq_zero,
    List.length_eq_zero_iff]
  exact or_iff_right (by decide)

/-- A sequence of calls loses nothing just when each of them leaves its own buffer
empty. -/
theorem lossless_iff (b : Buffering) (pair : FloatPair R C) (floats : FloatBytes R β)
    (calls : List (Arguments R C)) (advance : ∀ args ∈ calls, 0 < args.decim) :
    Lossless b pair floats calls ↔
      ∀ args ∈ calls, b.Drains (sizeof_lv_32fc_t * args.outsample) :=
  lossless_iff_drains b pair floats advance

/-! ## A page of buffer -/

def page (eager : Bool) : Buffering := ⟨4096, by decide, eager⟩

/-- Integers of four bytes in the place of floats. -/
def words : FloatBytes Int Nat where
  bytes value := (List.range 4).map fun k => (value / 256 ^ k % 256).toNat
  length_bytes _ := rfl

/-- A call on `n` samples of silence. -/
def silence (n : Nat) : Arguments Int GaussianInt where
  malloc _ := 0
  buf _ := 0
  buflen := COMPLEX * n
  carry _ := 0
  carrylen := 0
  taps := [1]
  phase_inc := 1
  decim := 1
  rotpos := 1
  firpos := 0

/-- Two calls that fill their buffers to the last byte. -/
theorem lossless_full :
    Lossless (page true) gaussianPair.toFloatPair words [silence 512, silence 512] :=
  (lossless_iff (page true) gaussianPair.toFloatPair words [silence 512, silence 512]
    (by decide)).mpr (by decide)

/-- One sample stays in its stream's buffer. -/
theorem not_lossless_single :
    ¬Lossless (page true) gaussianPair.toFloatPair words [silence 1] ∧
      ¬Lossless (page false) gaussianPair.toFloatPair words [silence 1] := by
  rw [lossless_iff_drains _ _ _ (by decide), lossless_iff_drains _ _ _ (by decide)]
  decide

end Kukuruku.Scanner.XdumpOutput
