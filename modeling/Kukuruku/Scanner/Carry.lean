import Mathlib.NumberTheory.Zsqrtd.GaussianInt
import Kukuruku.Scanner.Xlater

/-!
# The carry between two calls of `xdump`

`do_record` hands the last `cylen` bytes of a buffer to the next call, where
`cylen` is the length of the real taps in bytes; as complex samples these are
half as many as there are taps.  The carried samples are rotated once more by
the next call.
-/

namespace Kukuruku.Scanner.Carry

open Kukuruku.Fir
open Kukuruku.Server (COMPLEX COMPLEX_eq)
open Kukuruku.Scanner.Xlater

/-- A pair of floats that are zero is the sample zero. -/
structure ZeroPair (R C : Type*) [CommRing C] extends FloatPair R C where
  zero : R
  cmake_zero : cmake zero zero = 0

variable {R C : Type*} [CommRing C]

/-- What `do_record` keeps of a channel from call to call. -/
structure ChannelHelper (R C : Type*) where
  carry : List R
  rotpos : C
  firpos : Nat

/-- One buffer read from the pipe, and what `malloc` gives to the call on it. -/
structure Read (R C : Type*) where
  buf : List C
  malloc : Nat → R

section Record

variable (pair : ZeroPair R C)

/-- Samples as floats. -/
def floats (samples : List C) : List R :=
  samples.flatMap fun sample => [pair.re sample, pair.im sample]

/-- The memory of a string of floats. -/
def memory (bytes : List R) : Nat → R := fun j => bytes.getD j pair.zero

/-- `buf[-cylen:]`, which is all of `buf` when `cylen` is zero. -/
def lastFloats (cylen : Nat) (buf : List R) : List R :=
  if cylen = 0 then buf else buf.drop (buf.length - cylen)

variable (taps : List C) (decim : Nat) (u : C)

def ChannelHelper.init : ChannelHelper R C := ⟨List.replicate taps.length pair.zero, 1, 0⟩

def ChannelHelper.xdump (ch : ChannelHelper R C) (read : Read R C) : Dumped C :=
  Xlater.xdump pair.toFloatPair read.malloc (memory pair (floats pair read.buf))
    (floats pair read.buf).length (memory pair ch.carry) taps.length taps decim u ch.rotpos
    ch.firpos

def ChannelHelper.next (ch : ChannelHelper R C) (read : Read R C) : ChannelHelper R C where
  carry := lastFloats taps.length (floats pair read.buf)
  rotpos := (ch.xdump pair taps decim u read).rotpos
  firpos := (ch.xdump pair taps decim u read).firpos

/-- What the calls for one channel write to its file. -/
def do_record : ChannelHelper R C → List (Read R C) → List C
  | _, [] => []
  | ch, read :: rest =>
      (ch.xdump pair taps decim u read).out ++ do_record (ch.next pair taps decim u read) rest

/-! ## Independence of the cuts -/

/-- The complex value number `m` of `alldata` is a sample of `carry` or of `buf`. -/
def Sampled (carrylen nsamples m : Nat) : Prop :=
  m < carrylen / COMPLEX ∨ ∃ n < nsamples, COMPLEX * m = carrylen + COMPLEX * n

/-- Every dot product of the calls reads such values alone. -/
def ReadsSamples : ChannelHelper R C → List (Read R C) → Prop
  | _, [] => True
  | ch, read :: rest =>
      (∀ i ∈ stride decim read.buf.length ch.firpos, ∀ k < taps.length,
        Sampled taps.length read.buf.length (i + k)) ∧
      ReadsSamples (ch.next pair taps decim u read) rest

end Record

/-- The samples `delay` later; before the first one there is silence. -/
def delayed (delay : Int) (samples : List C) (j : Nat) : C :=
  if delay ≤ j then samples.getD (j - delay).toNat 0 else 0

/-- Rotation, filter and decimation of a whole stream. -/
def channel (taps : List C) (decim : Nat) (u : C) (delay : Int) (phase : C) (stream : List C) :
    List C :=
  (stride decim stream.length 0).map fun p =>
    phase * dotProd (fun k => delayed delay (rotator u 1 stream).1 (p + k)) taps

/-- For all buffers longer than the filter. -/
structure CutIndependent (pair : ZeroPair R C) (taps : List C) (decim : Nat) (u : C) : Prop where
  reads : ∀ reads : List (Read R C), (∀ read ∈ reads, taps.length < read.buf.length) →
    ReadsSamples pair taps decim u (.init pair taps) reads
  same : ∃ (delay : Int) (phase : C), IsUnit phase ∧
    ∀ reads : List (Read R C), (∀ read ∈ reads, taps.length < read.buf.length) →
      do_record pair taps decim u (.init pair taps) reads =
        channel taps decim u delay phase (reads.flatMap Read.buf)

/-! ## Buffers in memory -/

section Memory

variable (pair : ZeroPair R C)

theorem length_floats (samples : List C) :
    (floats pair samples).length = COMPLEX * samples.length := by
  induction samples with
  | nil => rfl
  | cons sample rest ih =>
      rw [floats, List.flatMap_cons, List.length_append, ← floats, ih, List.length_cons, COMPLEX_eq,
        List.length_cons, List.length_cons, List.length_nil]
      omega

/-- A sample is read back from its place in the buffer. -/
theorem cmake_memory_floats {samples : List C} {n : Nat} {sample : C}
    (found : samples[n]? = some sample) :
    pair.cmake (memory pair (floats pair samples) (COMPLEX * n))
      (memory pair (floats pair samples) (COMPLEX * n + 1)) = sample := by
  induction samples generalizing n with
  | nil => cases found
  | cons first rest ih =>
      cases n with
      | zero =>
          obtain rfl := Option.some.inj found
          exact pair.cmake_re_im first
      | succ n =>
          have later := ih found
          rw [COMPLEX_eq] at later ⊢
          exact later

theorem load_floats (samples : List C) :
    loadSamples pair.toFloatPair (memory pair (floats pair samples)) samples.length = samples := by
  refine List.ext_getElem? fun n => ?_
  by_cases inside : n < samples.length
  · rw [loadSamples_getElem? _ _ inside, List.getElem?_eq_getElem inside,
      cmake_memory_floats pair (List.getElem?_eq_getElem inside)]
  · have beyond : samples.length ≤ n := by omega
    rw [List.getElem?_eq_none (by rwa [length_loadSamples]), List.getElem?_eq_none beyond]

/-- The last two floats are the last sample. -/
theorem lastFloats_two (samples : List C) (last : C) :
    lastFloats 2 (floats pair (samples ++ [last])) = [pair.re last, pair.im last] := by
  have split : floats pair (samples ++ [last]) =
      floats pair samples ++ [pair.re last, pair.im last] := by
    rw [floats, List.flatMap_append, ← floats, List.flatMap_singleton]
  rw [lastFloats, if_neg (by decide), split, List.length_append]
  exact List.drop_left

end Memory

/-! ## Two taps -/

section Two

variable {pair : ZeroPair R C} {taps : List C} {decim : Nat} {u : C} {ch : ChannelHelper R C}

/-- With two taps one sample is carried. -/
theorem xdump_two (two : taps.length = 2) {last : C}
    (held : pair.cmake (memory pair ch.carry 0) (memory pair ch.carry 1) = last)
    (read : Read R C) :
    ch.xdump pair taps decim u read =
      { out := (stride decim read.buf.length ch.firpos).map fun i =>
          dotProd (fun k => (last :: read.buf).getD (i + k) 0 * (ch.rotpos * u ^ (i + k))) taps
        rotpos := ch.rotpos * u ^ (read.buf.length + 1)
        firpos := strideExit decim read.buf.length ch.firpos - read.buf.length } := by
  have count : (floats pair read.buf).length / COMPLEX = read.buf.length := by
    rw [length_floats]
    exact Nat.mul_div_cancel_left _ (by decide)
  have carried : loadSamples pair.toFloatPair (memory pair ch.carry) 1 = [last] :=
    congrArg (fun sample => [sample]) held
  have whole := xdump_whole pair.toFloatPair read.malloc (memory pair (floats pair read.buf))
    (memory pair ch.carry) 1 (floats pair read.buf).length taps decim u ch.rotpos ch.firpos
  simp only [count, carried, load_floats, List.singleton_append, rotator_phase,
    List.length_cons] at whole
  rw [ChannelHelper.xdump, two]
  refine whole.trans ?_
  congr 1
  refine List.map_congr_left fun i visited => dotProd_congr fun k inTaps => ?_
  have below := mem_stride_lt visited
  apply cmake_storeSamples
  rw [rotator_getElem?, List.getD_eq_getElem?_getD]
  obtain ⟨sample, found⟩ : ∃ sample, (last :: read.buf)[i + k]? = some sample :=
    ⟨_, List.getElem?_eq_getElem (by rw [List.length_cons]; omega)⟩
  rw [found]
  rfl

theorem xdump_two_getElem? (two : taps.length = 2) (advance : 0 < decim) {last : C}
    (held : pair.cmake (memory pair ch.carry 0) (memory pair ch.carry 1) = last)
    {read : Read R C} {k : Nat} (below : ch.firpos + k * decim < read.buf.length) :
    (ch.xdump pair taps decim u read).out[k]? =
      some (dotProd (fun n => (last :: read.buf).getD (ch.firpos + k * decim + n) 0 *
        (ch.rotpos * u ^ (ch.firpos + k * decim + n))) taps) := by
  rw [xdump_two two held, List.getElem?_map, stride_getElem? advance below]
  rfl

/-- Taps that the rotator leaves as they are do not see it. -/
theorem dotProd_blind {taps : List C} {u : C} (blind : ∀ tap ∈ taps, tap * u = tap)
    (src : Nat → C) (power : Nat → Nat) :
    dotProd (fun k => src k * u ^ power k) taps = dotProd src taps := by
  have fixed : ∀ tap ∈ taps, ∀ n, u ^ n * tap = tap := by
    intro tap mem n
    induction n with
    | zero => rw [pow_zero, one_mul]
    | succ n ih => rw [pow_succ, mul_assoc, mul_comm u, blind tap mem, ih]
  refine Finset.sum_congr rfl fun k _ => ?_
  rw [mul_assoc, fixed _ (List.get_mem taps k)]

/-- The samples from the end of a buffer on, the last of it first. -/
theorem getD_cons_append (last next : C) (buf rest : List C) (n : Nat) :
    (last :: (buf ++ [next] ++ rest)).getD ((buf ++ [next]).length + n) 0 =
      (next :: rest).getD n 0 := by
  have regroup : last :: (buf ++ [next] ++ rest) = (last :: buf) ++ next :: rest := by simp
  rw [regroup, List.getD_eq_getElem?_getD, List.getElem?_append_right, List.getD_eq_getElem?_getD]
  · simp
  · simp

/-- Two such taps filter the stream that is preceded by the carried sample, however
it is cut. -/
theorem do_record_two (two : taps.length = 2) (advance : 0 < decim)
    (blind : ∀ tap ∈ taps, tap * u = tap) {last : C} {turns : Nat}
    (held : pair.cmake (memory pair ch.carry 0) (memory pair ch.carry 1) = last)
    (turned : ch.rotpos = u ^ turns) (reads : List (Read R C))
    (filled : ∀ read ∈ reads, read.buf ≠ []) :
    do_record pair taps decim u ch reads =
      (stride decim (reads.flatMap Read.buf).length ch.firpos).map fun p =>
        dotProd (fun k => (last :: reads.flatMap Read.buf).getD (p + k) 0) taps := by
  induction reads generalizing ch last turns with
  | nil =>
      rw [do_record, List.flatMap_nil, List.length_nil, stride_zero]
      rfl
  | cons read rest ih =>
      obtain ⟨buf, next, split⟩ : ∃ buf next, read.buf = buf ++ [next] :=
        ⟨_, _, (List.dropLast_concat_getLast (filled read List.mem_cons_self)).symm⟩
      have call : ch.xdump pair taps decim u read = _ := xdump_two two held read
      have before : ∀ i ∈ stride decim read.buf.length ch.firpos,
          dotProd (fun k => (last :: read.buf).getD (i + k) 0 * (ch.rotpos * u ^ (i + k))) taps =
            dotProd (fun k => (last :: (read.buf ++ rest.flatMap Read.buf)).getD (i + k) 0)
              taps := by
        intro i visited
        simp only [turned, ← pow_add]
        rw [dotProd_blind blind]
        refine dotProd_congr fun k inTaps => ?_
        have below := mem_stride_lt visited
        rw [← List.cons_append, List.getD_eq_getElem?_getD, List.getD_eq_getElem?_getD,
          List.getElem?_append_left]
        rw [List.length_cons]
        omega
      have held' : pair.cmake
          (memory pair (ch.next pair taps decim u read).carry 0)
          (memory pair (ch.next pair taps decim u read).carry 1) = next := by
        rw [ChannelHelper.next, two, split, lastFloats_two]
        exact pair.cmake_re_im next
      have turned' : (ch.next pair taps decim u read).rotpos =
          u ^ (turns + (read.buf.length + 1)) := by
        rw [ChannelHelper.next, call, turned, ← pow_add]
      have after := ih held' turned' fun other mem => filled other (List.mem_cons_of_mem _ mem)
      have firpos : (ch.next pair taps decim u read).firpos =
          strideExit decim read.buf.length ch.firpos - read.buf.length := by
        rw [ChannelHelper.next, call]
      rw [do_record, after, call, firpos, List.flatMap_cons, List.length_append,
        stride_add advance, List.map_append, List.map_map]
      refine congrArg₂ List.append (List.map_congr_left before) ?_
      refine List.map_congr_left fun p _ => ?_
      rw [Function.comp_apply]
      refine dotProd_congr fun k _ => ?_
      rw [Nat.add_assoc, split, getD_cons_append]

theorem readsSamples_two (two : taps.length = 2) (reads : List (Read R C)) :
    ReadsSamples pair taps decim u ch reads := by
  induction reads generalizing ch with
  | nil => trivial
  | cons read rest ih =>
      refine ⟨fun i visited k inTaps => ?_, ih⟩
      have below := mem_stride_lt visited
      rw [Sampled, two, COMPLEX_eq]
      by_cases first : i + k = 0
      · exact Or.inl (by omega)
      · exact Or.inr ⟨i + k - 1, by omega, by omega⟩

/-- A sample of the rotated stream, one later. -/
theorem delayed_rotator (u : C) (stream : List C) (j : Nat) :
    delayed 1 (rotator u 1 stream).1 j = (0 :: stream).getD j 0 * u ^ (j - 1) := by
  cases j with
  | zero => simp [delayed]
  | succ j =>
      have place : (((j + 1 : Nat) : Int) - 1).toNat = j := by omega
      rw [delayed, if_pos (by omega), place, List.getD_eq_getElem?_getD, rotator_getElem?,
        List.getD_cons_succ, List.getD_eq_getElem?_getD, Nat.add_sub_cancel, one_mul]
      cases stream[j]? with
      | none => simp
      | some sample => rfl

/-- Before the first call there is silence. -/
theorem init_silent (two : taps.length = 2) :
    pair.cmake (memory pair (ChannelHelper.init pair taps).carry 0)
      (memory pair (ChannelHelper.init pair taps).carry 1) = 0 := by
  rw [ChannelHelper.init, two]
  exact pair.cmake_zero

theorem cutIndependent_two (two : taps.length = 2) (advance : 0 < decim)
    (blind : ∀ tap ∈ taps, tap * u = tap) : CutIndependent pair taps decim u where
  reads reads _ := readsSamples_two two reads
  same := by
    refine ⟨1, 1, isUnit_one, fun reads longer => ?_⟩
    have filled : ∀ read ∈ reads, read.buf ≠ [] := fun read mem =>
      List.ne_nil_of_length_pos (Nat.zero_lt_of_lt (longer read mem))
    have turned : (ChannelHelper.init pair taps).rotpos = u ^ 0 := (pow_zero u).symm
    rw [do_record_two two advance blind (init_silent two) turned reads filled, channel]
    refine List.map_congr_left fun p _ => ?_
    simp only [delayed_rotator, one_mul]
    rw [dotProd_blind blind]

end Two

/-! ## Other numbers of taps -/

section Other

variable {pair : ZeroPair R C} {taps : List C} {decim : Nat} {u : C}

/-- Every call writes one value for each index that its loop visits. -/
theorem do_record_nil (advance : 0 < decim) (ch : ChannelHelper R C) (reads : List (Read R C)) :
    do_record pair [] decim u ch reads =
      (stride decim (reads.flatMap Read.buf).length ch.firpos).map fun _ => 0 := by
  induction reads generalizing ch with
  | nil =>
      rw [do_record, List.flatMap_nil, List.length_nil, stride_zero]
      rfl
  | cons read rest ih =>
      have count : (floats pair read.buf).length / COMPLEX = read.buf.length := by
        rw [length_floats]
        exact Nat.mul_div_cancel_left _ (by decide)
      have firpos : (ch.next pair [] decim u read).firpos =
          strideExit decim read.buf.length ch.firpos - read.buf.length := by
        rw [← count]
        rfl
      have call : (ch.xdump pair [] decim u read).out =
          (stride decim read.buf.length ch.firpos).map fun _ => 0 := by
        rw [← count]
        exact List.map_congr_left fun i _ => by simp [dotProd]
      rw [do_record, call, ih, firpos, List.flatMap_cons, List.length_append, stride_add advance,
        List.map_append, List.map_map]
      rfl

theorem readsSamples_nil (ch : ChannelHelper R C) (reads : List (Read R C)) :
    ReadsSamples pair [] decim u ch reads := by
  induction reads generalizing ch with
  | nil => trivial
  | cons read rest ih => exact ⟨fun _ _ k inTaps => absurd inTaps (Nat.not_lt_zero k), ih _⟩

theorem cutIndependent_nil (advance : 0 < decim) : CutIndependent pair [] decim u where
  reads reads _ := readsSamples_nil _ reads
  same := by
    refine ⟨0, 1, isUnit_one, fun reads _ => ?_⟩
    rw [do_record_nil advance, channel]
    exact List.map_congr_left fun p _ => by simp [dotProd]

/-- Between the carried samples and those of the buffer lies a float that nobody
has written when the number of taps is odd. -/
theorem not_sampled_odd {carrylen : Nat} (odd : carrylen % 2 = 1) (nsamples : Nat) :
    ¬Sampled carrylen nsamples (carrylen / 2) := by
  rintro (early | ⟨n, _, place⟩)
  · rw [COMPLEX_eq] at early
    omega
  · rw [COMPLEX_eq] at place
    omega

/-- The window of a late sample reaches beyond the buffer. -/
theorem not_sampled_late {carrylen nsamples i : Nat} (many : 4 ≤ carrylen)
    (late : nsamples = i + 1) : ¬Sampled carrylen nsamples (i + (carrylen - 1)) := by
  rintro (early | ⟨n, inside, place⟩)
  · rw [COMPLEX_eq] at early
    omega
  · rw [COMPLEX_eq] at place
    omega

theorem mem_stride {decim stop k : Nat} (advance : 0 < decim) (below : k * decim < stop) :
    k * decim ∈ stride decim stop 0 := by
  have found := stride_getElem? advance (show 0 + k * decim < stop by omega)
  rw [Nat.zero_add] at found
  exact List.mem_of_getElem? found

/-- Only with two taps, or none, do the dot products read nothing but samples. -/
theorem length_of_reads (advance : 0 < decim)
    (reads : ∀ reads : List (Read R C), (∀ read ∈ reads, taps.length < read.buf.length) →
      ReadsSamples pair taps decim u (.init pair taps) reads) :
    taps = [] ∨ taps.length = 2 := by
  by_contra neither
  obtain ⟨nonempty, other⟩ := not_or.mp neither
  have filled : 0 < taps.length := List.length_pos_of_ne_nil nonempty
  let single (count : Nat) : Read R C := ⟨List.replicate count 0, fun _ => pair.zero⟩
  have length (count : Nat) : (single count).buf.length = count := List.length_replicate
  have sampled : ∀ count, taps.length < count → ∀ i ∈ stride decim count 0, ∀ k < taps.length,
      Sampled taps.length count (i + k) := by
    intro count longer
    have all := reads [single count] fun read mem => by
      rw [List.mem_singleton.mp mem, length]
      exact longer
    rw [ReadsSamples, length] at all
    exact all.1
  rcases Nat.mod_two_eq_zero_or_one taps.length with even | odd
  · have enough : taps.length ≤ taps.length * decim := Nat.le_mul_of_pos_right _ advance
    refine not_sampled_late (show 4 ≤ taps.length by omega) rfl
      (sampled (taps.length * decim + 1) (by omega) _ (mem_stride advance (by omega)) _ (by omega))
  · have visited : 0 * decim ∈ stride decim (taps.length + 1) 0 := mem_stride advance (by omega)
    refine not_sampled_odd odd (taps.length + 1) ?_
    have first := sampled (taps.length + 1) (by omega) _ visited (taps.length / 2) (by omega)
    rwa [Nat.zero_mul, Nat.zero_add] at first

section Cut

variable (two : taps.length = 2) (advance : 0 < decim) {buf : List C} {early : C} {n : Nat}
  (length : (buf ++ [early]).length = n * decim) {rest : List C} (filled : 0 < rest.length)
  (malloc malloc' : Nat → R)

include two advance length filled

/-- The value number `n` when the stream is not cut before it. -/
theorem do_record_uncut :
    (do_record pair taps decim u (.init pair taps) [⟨buf ++ [early] ++ rest, malloc⟩])[n]? =
      some (dotProd (fun k => (early :: rest).getD k 0 * u ^ (n * decim + k)) taps) := by
  have inside : 0 + n * decim < (buf ++ [early] ++ rest).length := by
    rw [List.length_append, length]
    omega
  have window : ∀ k, (0 :: (buf ++ [early] ++ rest)).getD (n * decim + k) 0 =
      (early :: rest).getD k 0 := by
    intro k
    rw [← length]
    exact getD_cons_append 0 early buf rest k
  rw [do_record, do_record, List.append_nil,
    xdump_two_getElem? two advance (init_silent two) inside]
  simp only [ChannelHelper.init, Nat.zero_add, window, one_mul]

/-- The same value when the stream is cut there: the carried sample has been rotated
once more. -/
theorem do_record_cut :
    (do_record pair taps decim u (.init pair taps)
        [⟨buf ++ [early], malloc⟩, ⟨rest, malloc'⟩])[n]? =
      some (dotProd (fun k => (early :: rest).getD k 0 * u ^ (n * decim + 1 + k)) taps) := by
  have call : (ChannelHelper.init pair taps).xdump pair taps decim u ⟨buf ++ [early], malloc⟩ =
      _ := xdump_two two (init_silent two) _
  have written : ((ChannelHelper.init pair taps).xdump pair taps decim u
      ⟨buf ++ [early], malloc⟩).out.length = n := by
    rw [call, List.length_map, length]
    exact length_stride_mul advance n
  have next : (ChannelHelper.init pair taps).next pair taps decim u ⟨buf ++ [early], malloc⟩ =
      ⟨[pair.re early, pair.im early], u ^ (n * decim + 1), 0⟩ := by
    rw [ChannelHelper.next, call, length, two, lastFloats_two]
    simp [ChannelHelper.init, strideExit, length_stride_mul advance]
  have inside : 0 + 0 * decim < rest.length := by
    rw [Nat.zero_mul]
    exact filled
  rw [do_record, next, do_record, do_record, List.append_nil,
    List.getElem?_append_right (Nat.le_of_eq written), written, Nat.sub_self,
    xdump_two_getElem? two advance (pair.cmake_re_im early) inside]
  simp only [Nat.zero_mul, Nat.zero_add, pow_add]

end Cut

/-- The samples `early` and `late` on both sides of a possible cut. -/
theorem turned_of_same (two : taps.length = 2) (advance : 0 < decim)
    (same : ∃ (delay : Int) (phase : C), IsUnit phase ∧
      ∀ reads : List (Read R C), (∀ read ∈ reads, taps.length < read.buf.length) →
        do_record pair taps decim u (.init pair taps) reads =
          channel taps decim u delay phase (reads.flatMap Read.buf)) (early late : C) :
    dotProd (fun k => [early, late, 0, 0].getD k 0 * u ^ (3 * decim + k)) taps =
      dotProd (fun k => [early, late, 0, 0].getD k 0 * u ^ (3 * decim + 1 + k)) taps := by
  obtain ⟨delay, phase, _, agree⟩ := same
  let malloc : Nat → R := fun _ => pair.zero
  let buf : List C := List.replicate (3 * decim - 1) 0
  let rest : List C := [late, 0, 0]
  have length : (buf ++ [early]).length = 3 * decim := by
    rw [List.length_append, List.length_replicate, List.length_singleton]
    omega
  have uncut := agree [⟨buf ++ [early] ++ rest, malloc⟩] fun read mem => by
    rw [List.mem_singleton.mp mem, two, List.length_append, length]
    omega
  have cut := agree [⟨buf ++ [early], malloc⟩, ⟨rest, malloc⟩] fun read mem => by
    rw [two]
    rcases List.mem_cons.mp mem with rfl | mem
    · rw [length]
      omega
    · rw [List.mem_singleton.mp mem]
      exact Nat.lt_succ_self 2
  have stream : [(⟨buf ++ [early] ++ rest, malloc⟩ : Read R C)].flatMap Read.buf =
      [(⟨buf ++ [early], malloc⟩ : Read R C), ⟨rest, malloc⟩].flatMap Read.buf := by simp
  rw [stream, ← cut] at uncut
  have filled : 0 < rest.length := Nat.zero_lt_succ 2
  have whole : (do_record pair taps decim u (.init pair taps)
      [⟨buf ++ [early] ++ rest, malloc⟩])[3]? = _ :=
    do_record_uncut two advance length filled malloc
  rw [uncut, do_record_cut two advance length filled] at whole
  exact (Option.some.inj whole).symm

/-- Two taps that give the same filter values on both sides of a cut do not see the
rotator. -/
theorem blind_of_turned (two : taps.length = 2) (unit : IsUnit u) {p : Nat}
    (turned : ∀ early late : C,
      dotProd (fun k => [early, late, 0, 0].getD k 0 * u ^ (p + k)) taps =
        dotProd (fun k => [early, late, 0, 0].getD k 0 * u ^ (p + 1 + k)) taps) :
    ∀ tap ∈ taps, tap * u = tap := by
  obtain ⟨first, second, rfl⟩ := List.length_eq_two.mp two
  have early : u ^ p * first = u ^ (p + 1) * first := by
    simpa [dotProd, Fin.sum_univ_two] using turned 1 0
  have late : u ^ (p + 1) * second = u ^ (p + 1 + 1) * second := by
    simpa [dotProd, Fin.sum_univ_two] using turned 0 1
  have cancel : ∀ (n : Nat) (tap : C), u ^ n * tap = u ^ (n + 1) * tap → tap * u = tap := by
    intro n tap same
    rw [pow_succ, mul_assoc, mul_comm u] at same
    exact ((unit.pow n).mul_left_cancel same).symm
  intro tap mem
  rcases List.mem_pair.mp mem with rfl | rfl
  · exact cancel p tap early
  · exact cancel (p + 1) tap late

theorem cutIndependent_iff (pair : ZeroPair R C) (taps : List C) {decim : Nat}
    (advance : 0 < decim) {u : C} (unit : IsUnit u) :
    CutIndependent pair taps decim u ↔
      taps = [] ∨ taps.length = 2 ∧ ∀ tap ∈ taps, tap * u = tap := by
  constructor
  · rintro ⟨reads, same⟩
    rcases length_of_reads advance reads with none | two
    · exact Or.inl none
    · exact Or.inr ⟨two, blind_of_turned two unit (turned_of_same two advance same)⟩
  · rintro (rfl | ⟨two, blind⟩)
    · exact cutIndependent_nil advance
    · exact cutIndependent_two two advance blind

end Other

/-! ## Gaussian integers -/

def gaussianPair : ZeroPair Int GaussianInt where
  cmake re im := ⟨re, im⟩
  re := Zsqrtd.re
  im := Zsqrtd.im
  cmake_re_im _ := rfl
  zero := 0
  cmake_zero := rfl

theorem cutIndependent_pair : CutIndependent gaussianPair [1, 1] 2 1 :=
  (cutIndependent_iff gaussianPair [1, 1] (Nat.zero_lt_succ 1) isUnit_one).mpr
    (Or.inr ⟨rfl, fun tap _ => mul_one tap⟩)

/-- Three taps and one buffer of four samples: the first dot product reads beside
the sample that was carried. -/
theorem not_cutIndependent_three : ¬CutIndependent gaussianPair [1, 1, 1] 1 1 := by
  rintro ⟨reads, _⟩
  have all := reads [⟨[0, 0, 0, 0], fun _ => 0⟩] fun read mem => by
    rw [List.mem_singleton.mp mem]
    exact Nat.lt_succ_self 3
  have visited : 0 * 1 ∈ stride 1 4 0 := mem_stride Nat.one_pos (Nat.zero_lt_succ 3)
  have beside : ¬Sampled 3 4 1 := not_sampled_odd rfl 4
  exact beside (all.1 0 visited 1 (Nat.one_lt_succ_succ 1))

end Kukuruku.Scanner.Carry
