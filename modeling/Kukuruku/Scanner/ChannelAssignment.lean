import Mathlib.Data.Rat.Cast.Order
import Mathlib.Logic.Relation
import Kukuruku.Scanner.FindPeaks

/-!
# Peaks in configured channels

`scan` compares every peak with every channel of the frame and moves it to those
that it lies in.  A peak that was moved is compared with the later channels at its
new frequency.
-/

namespace Kukuruku.Scanner.ChannelAssignment

open Kukuruku.PythonTwo
open Kukuruku.Scanner.FindPeaks (Peak)

variable {K : Type*} [Field K] [LinearOrder K]

/-- A channel of the configuration. -/
structure Channel (K : Type*) where
  freq : Number K
  bw : Number K
  pipe : Option (List Char)
deriving DecidableEq

/-! ## The loops -/

/-- The centre of a channel, from the frequency of the frame. -/
def Channel.centre (frame : Number K) (channel : Channel K) : Number K := channel.freq - frame

/-- The channel takes a peak at a frequency.  Half of an integer is rounded down. -/
def Takes (frame : Number K) (channel : Channel K) (freq : Number K) : Prop :=
  (channel.freq - frame - channel.bw / .int 2).value < freq.value ∧
    freq.value < (channel.freq - frame + channel.bw / .int 2).value

instance (frame : Number K) (channel : Channel K) (freq : Number K) :
    Decidable (Takes frame channel freq) :=
  inferInstanceAs (Decidable (_ ∧ _))

/-- The fields of a peak that is moved to a channel. -/
def Channel.taken (frame : Number K) (channel : Channel K) : Peak K where
  freq := channel.freq - frame
  bw := channel.bw
  pipe := channel.pipe
  archive := true

/-- A peak in the loops.  `assigned` is history: the place of the channel to which it
was moved last. -/
structure Matched (K : Type*) where
  peak : Peak K
  assigned : Option Nat
deriving DecidableEq

/-- A peak is compared with one channel. -/
def compareChannel (frame : Number K) (matched : Matched K) (entry : Channel K × Nat) : Matched K :=
  if Takes frame entry.1 matched.peak.freq then ⟨entry.1.taken frame, some entry.2⟩
  else matched

/-- The loop over the channels. -/
def matchPeak (frame : Number K) (channels : List (Channel K)) (peak : Peak K) : Matched K :=
  channels.zipIdx.foldl (compareChannel frame) ⟨peak, none⟩

/-- The loop over the peaks. -/
def matchPeaks (frame : Number K) (channels : List (Channel K)) (peaks : List (Peak K)) :
    List (Matched K) :=
  peaks.map (matchPeak frame channels)

/-- The channels that `do_record` opens, which makes one helper for every peak. -/
def opened (matched : List (Matched K)) : List Nat := matched.filterMap Matched.assigned

/-- A frequency is strictly inside the band of a channel. -/
def Covers (frame : Number K) (channel : Channel K) (freq : Number K) : Prop :=
  channel.freq.value - frame.value - channel.bw.value / ((2 : Nat) : K) < freq.value ∧
    freq.value < channel.freq.value - frame.value + channel.bw.value / ((2 : Nat) : K)

/-- Each moved peak lies in its channel, the peaks outside all channels stay as they
are, and no channel is opened twice. -/
structure Assigns (frame : Number K) (channels : List (Channel K)) (peaks : List (Peak K)) :
    Prop where
  moved : ∀ peak ∈ peaks, ∀ m, (matchPeak frame channels peak).assigned = some m →
    ∃ channel, channels[m]? = some channel ∧
      (matchPeak frame channels peak).peak = channel.taken frame ∧ Covers frame channel peak.freq
  unchanged : ∀ peak ∈ peaks, (∀ channel ∈ channels, ¬ Covers frame channel peak.freq) →
    (matchPeak frame channels peak).peak = peak
  once : (opened (matchPeaks frame channels peaks)).Nodup

/-! ## Where a frequency leads -/

section Leads

variable (frame : Number K) (channels : List (Channel K))

/-- The channel at place `k` takes a peak at a frequency. -/
def TakesAt (k : Nat) (freq : Number K) : Prop := ∃ channel ∈ channels[k]?, Takes frame channel freq

/-- The first channel that takes a peak at a frequency. -/
def FirstIn (freq : Number K) (k : Nat) : Prop :=
  TakesAt frame channels k freq ∧ ∀ l < k, ¬ TakesAt frame channels l freq

/-- The channel at place `l` takes a peak at the centre of the channel at place `k`. -/
def Captures (k l : Nat) : Prop :=
  ∃ channel ∈ channels[k]?, TakesAt frame channels l (channel.centre frame)

/-- The first later channel that takes a peak at the centre of a channel. -/
def Next (k m : Nat) : Prop :=
  k < m ∧ Captures frame channels k m ∧ ∀ l, k < l → l < m → ¬ Captures frame channels k l

/-- From the first channel that takes a frequency, and on from channel to channel, to
one whose centre no later channel takes. -/
def Leads (freq : Number K) (m : Nat) : Prop :=
  ∃ k, FirstIn frame channels freq k ∧ Relation.ReflTransGen (Next frame channels) k m ∧
    ∀ l, m < l → ¬ Captures frame channels m l

/-- Every peak leads into a channel around its own frequency, and no two peaks into
the same channel. -/
structure Fits (peaks : List (Peak K)) : Prop where
  within : ∀ peak ∈ peaks, ∀ m, Leads frame channels peak.freq m →
    ∃ channel ∈ channels[m]?, Covers frame channel peak.freq
  apart : peaks.Pairwise fun peak other =>
    ∀ m, Leads frame channels peak.freq m → ¬ Leads frame channels other.freq m

end Leads

section Unique

variable {frame : Number K} {channels : List (Channel K)} {freq : Number K}

theorem FirstIn.unique {k m : Nat} (first : FirstIn frame channels freq k)
    (other : FirstIn frame channels freq m) : k = m := by
  rcases lt_trichotomy k m with lt | same | gt
  · exact absurd first.1 (other.2 k lt)
  · exact same
  · exact absurd other.1 (first.2 m gt)

theorem next_unique : Relator.RightUnique (Next frame channels) := by
  rintro k l m ⟨after, captures, first⟩ ⟨after', captures', first'⟩
  rcases lt_trichotomy l m with lt | same | gt
  · exact absurd captures (first' l after lt)
  · exact same
  · exact absurd captures' (first m after' gt)

/-- From a channel whose centre no later one takes nothing else is reached. -/
theorem eq_of_final {k m : Nat} (final : ∀ l, k < l → ¬ Captures frame channels k l)
    (path : Relation.ReflTransGen (Next frame channels) k m) : m = k := by
  rcases path.cases_head with same | ⟨l, ⟨after, captures, _⟩, _⟩
  · exact same.symm
  · exact absurd captures (final l after)

theorem Leads.unique {k m : Nat} (leads : Leads frame channels freq k)
    (other : Leads frame channels freq m) : k = m := by
  obtain ⟨first, starts, path, final⟩ := leads
  obtain ⟨first', starts', path', final'⟩ := other
  obtain rfl := starts.unique starts'
  rcases Relation.ReflTransGen.total_of_right_unique next_unique path path' with on | on
  · exact (eq_of_final final on).symm
  · exact eq_of_final final' on

end Unique

/-! ## The invariant of the loop -/

section Tracks

variable {frame : Number K} {channels : List (Channel K)} {peak : Peak K} {n : Nat}

/-- A peak after the first `n` channels: none of them takes it, or it has been led to
one whose centre none of them takes. -/
inductive Tracks (frame : Number K) (channels : List (Channel K)) (peak : Peak K) (n : Nat) :
    Matched K → Prop where
  | still (outside : ∀ l < n, ¬ TakesAt frame channels l peak.freq) :
      Tracks frame channels peak n ⟨peak, none⟩
  | moved {k m : Nat} {channel : Channel K} (early : m < n) (place : channels[m]? = some channel)
      (first : FirstIn frame channels peak.freq k)
      (path : Relation.ReflTransGen (Next frame channels) k m)
      (final : ∀ l, m < l → l < n → ¬ Captures frame channels m l) :
      Tracks frame channels peak n ⟨channel.taken frame, some m⟩

theorem takesAt_iff {channel : Channel K} (place : channels[n]? = some channel) (freq : Number K) :
    TakesAt frame channels n freq ↔ Takes frame channel freq := by
  rw [TakesAt, place]
  simp only [Option.mem_some_iff, exists_eq_left']

theorem captures_iff {m : Nat} {channel : Channel K} (place : channels[m]? = some channel) :
    Captures frame channels m n ↔ TakesAt frame channels n (channel.taken frame).freq := by
  rw [Captures, place]
  simp only [Option.mem_some_iff, exists_eq_left']
  rfl

theorem Tracks.step {matched : Matched K} {channel : Channel K}
    (tracks : Tracks frame channels peak n matched) (place : channels[n]? = some channel) :
    Tracks frame channels peak (n + 1) (compareChannel frame matched (channel, n)) := by
  rw [compareChannel]
  cases tracks with
  | still outside =>
      split_ifs with takes
      · have first := (takesAt_iff place peak.freq).mpr takes
        exact .moved (Nat.lt_succ_self n) place ⟨first, outside⟩ .refl fun l after before =>
          absurd (Nat.lt_succ_iff.mp before) (Nat.not_le.mpr after)
      · refine .still fun l before => ?_
        rcases Nat.lt_succ_iff_lt_or_eq.mp before with early | rfl
        · exact outside l early
        · exact fun inside => takes ((takesAt_iff place peak.freq).mp inside)
  | @moved k m earlier early at_m first path final =>
      split_ifs with takes
      · have captures := (captures_iff at_m).mpr ((takesAt_iff place _).mpr takes)
        exact .moved (Nat.lt_succ_self n) place first (path.tail ⟨early, captures, final⟩)
          fun l after before => absurd (Nat.lt_succ_iff.mp before) (Nat.not_le.mpr after)
      · refine .moved (Nat.lt_succ_of_lt early) at_m first path fun l after before => ?_
        rcases Nat.lt_succ_iff_lt_or_eq.mp before with inside | rfl
        · exact final l after inside
        · exact fun captures => takes ((takesAt_iff place _).mp ((captures_iff at_m).mp captures))

theorem tracks_take (inside : n ≤ channels.length) :
    Tracks frame channels peak n
      ((channels.zipIdx.take n).foldl (compareChannel frame) ⟨peak, none⟩) := by
  induction n with
  | zero => exact .still fun l before => absurd before (Nat.not_lt_zero l)
  | succ n ih =>
      have place := List.getElem?_eq_getElem (Nat.lt_of_succ_le inside)
      rw [List.take_add_one, List.getElem?_zipIdx, place, Option.map_some, Option.toList_some,
        List.foldl_concat, Nat.zero_add]
      exact (ih (Nat.le_of_succ_le inside)).step place

theorem tracks_matchPeak (frame : Number K) (channels : List (Channel K)) (peak : Peak K) :
    Tracks frame channels peak channels.length (matchPeak frame channels peak) := by
  have all : Tracks frame channels peak channels.length _ := tracks_take (Nat.le_refl _)
  rwa [List.take_of_length_le (by rw [List.length_zipIdx])] at all

theorem TakesAt.lt_length {freq : Number K} (takes : TakesAt frame channels n freq) :
    n < channels.length := by
  obtain ⟨channel, place, _⟩ := takes
  exact (List.getElem?_eq_some_iff.mp place).1

theorem Captures.lt_length {m : Nat} (captures : Captures frame channels m n) :
    n < channels.length := by
  obtain ⟨_, _, takes⟩ := captures
  exact takes.lt_length

theorem TakesAt.exists_channel {freq : Number K} (takes : TakesAt frame channels n freq) :
    ∃ channel ∈ channels, Takes frame channel freq := by
  obtain ⟨channel, place, inside⟩ := takes
  exact ⟨channel, List.mem_of_getElem? place, inside⟩

end Tracks

/-! ## What the loops give -/

section Outcome

variable {frame : Number K} {channels : List (Channel K)} {peak : Peak K} {m : Nat}

theorem assigned_iff :
    (matchPeak frame channels peak).assigned = some m ↔ Leads frame channels peak.freq m := by
  have tracks := tracks_matchPeak frame channels peak
  cases result : matchPeak frame channels peak with
  | mk after assigned =>
      rw [result] at tracks
      cases tracks with
      | still outside =>
          refine iff_of_false (fun none => by cases none) ?_
          rintro ⟨k, first, _⟩
          exact outside k first.1.lt_length first.1
      | moved early place first path final =>
          have leads : Leads frame channels peak.freq _ :=
            ⟨_, first, path, fun l after captures =>
              final l after captures.lt_length captures⟩
          exact ⟨fun same => Option.some.inj same ▸ leads,
            fun other => congrArg some (leads.unique other)⟩

theorem peak_of_assigned (assigned : (matchPeak frame channels peak).assigned = some m) :
    ∃ channel, channels[m]? = some channel ∧
      (matchPeak frame channels peak).peak = channel.taken frame := by
  have tracks := tracks_matchPeak frame channels peak
  cases result : matchPeak frame channels peak with
  | mk after place =>
      rw [result] at tracks assigned
      cases tracks with
      | still _ => cases assigned
      | moved _ place _ _ _ => exact ⟨_, Option.some.inj assigned ▸ place, rfl⟩

theorem peak_of_outside (outside : ∀ channel ∈ channels, ¬ Takes frame channel peak.freq) :
    (matchPeak frame channels peak).peak = peak := by
  have tracks := tracks_matchPeak frame channels peak
  cases result : matchPeak frame channels peak with
  | mk after place =>
      rw [result] at tracks
      cases tracks with
      | still _ => rfl
      | moved _ _ first _ _ =>
          obtain ⟨channel, member, takes⟩ := first.1.exists_channel
          exact absurd takes (outside channel member)

theorem once_iff (peaks : List (Peak K)) :
    (opened (matchPeaks frame channels peaks)).Nodup ↔
      peaks.Pairwise fun peak other =>
        ∀ m, Leads frame channels peak.freq m → ¬ Leads frame channels other.freq m := by
  rw [opened, matchPeaks, List.Nodup, List.pairwise_filterMap, List.pairwise_map]
  simp only [assigned_iff]
  constructor
  · exact fun pairs => pairs.imp fun differ m leads other => differ m leads m other rfl
  · refine fun pairs => pairs.imp fun apart m leads m' other same => ?_
    obtain rfl := same
    exact apart m leads other

variable [IsStrictOrderedRing K]

/-- A channel takes only frequencies in its band. -/
theorem Takes.covers {channel : Channel K} {freq : Number K} (takes : Takes frame channel freq) :
    Covers frame channel freq := by
  have two : (.int 2 : Number K).value = ((2 : Nat) : K) := by norm_num
  have nonzero : (.int 2 : Number K).value ≠ 0 := by norm_num
  have half := (Number.value_div_bounds channel.bw nonzero).1
  obtain ⟨low, high⟩ := takes
  rw [Number.value_sub, Number.value_sub] at low
  rw [Number.value_add, Number.value_sub] at high
  rw [two] at half
  constructor <;> linarith

/-- Peaks are assigned as they should be exactly if each leads into a channel around
it, and no two into the same one. -/
theorem assigns_iff (frame : Number K) (channels : List (Channel K)) (peaks : List (Peak K)) :
    Assigns frame channels peaks ↔ Fits frame channels peaks := by
  constructor
  · intro assigns
    refine ⟨fun peak member m leads => ?_, (once_iff peaks).mp assigns.once⟩
    obtain ⟨channel, place, _, covers⟩ := assigns.moved peak member m (assigned_iff.mpr leads)
    exact ⟨channel, place, covers⟩
  · intro fits
    refine ⟨fun peak member m assigned => ?_, fun peak _ outside => ?_,
      (once_iff peaks).mpr fits.apart⟩
    · obtain ⟨channel, place, taken⟩ := peak_of_assigned assigned
      obtain ⟨_, same, covers⟩ := fits.within peak member m (assigned_iff.mp assigned)
      obtain rfl := Option.some.inj (same.symm.trans place)
      exact ⟨_, place, taken, covers⟩
    · exact peak_of_outside fun channel member takes => outside channel member takes.covers

end Outcome

/-! ## Two lists of channels -/

/-- Two channels that do not meet; half of the width 9 is 4. -/
def apart : List (Channel ℚ) := [⟨.int 110, .int 9, none⟩, ⟨.float 130, .float 9, none⟩]

/-- A peak in each channel, and one that the rounded half of a width leaves outside. -/
def three : List (Peak ℚ) :=
  [⟨.int 31, .float 6, none, false⟩, ⟨.int 7, .float 3, none, false⟩,
    ⟨.float (57 / 4), .float 3, none, false⟩]

theorem assigns_apart : Assigns (.int 100) apart three := by
  refine (assigns_iff _ _ _).mpr ⟨fun peak member m leads => ?_, (once_iff three).mp (by
    decide +kernel)⟩
  have assigned := assigned_iff.mpr leads
  simp only [three, List.mem_cons, List.not_mem_nil, or_false] at member
  rcases member with rfl | rfl | rfl
  · obtain rfl : m = 1 := Option.some.inj (assigned.symm.trans (by decide +kernel))
    exact ⟨_, rfl, by decide +kernel, by decide +kernel⟩
  · obtain rfl : m = 0 := Option.some.inj (assigned.symm.trans (by decide +kernel))
    exact ⟨_, rfl, by decide +kernel, by decide +kernel⟩
  · have outside : (matchPeak (.int 100) apart
        (⟨.float (57 / 4), .float 3, none, false⟩ : Peak ℚ)).assigned = none := by decide +kernel
    cases outside.symm.trans assigned

/-- Two peaks at the ends of one channel, and a second channel that covers the centre
of the first but not the lower peak. -/
theorem not_assigns_overlap :
    opened (matchPeaks (.int 0 : Number ℚ) [⟨.int 10, .int 10, none⟩, ⟨.int 12, .int 6, none⟩]
        [⟨.int 6, .float 1, none, false⟩, ⟨.int 14, .float 1, none, false⟩]) = [1, 1] ∧
      ¬ Covers (.int 0 : Number ℚ) ⟨.int 12, .int 6, none⟩ (.int 6) ∧
      ¬ Assigns (.int 0 : Number ℚ) [⟨.int 10, .int 10, none⟩, ⟨.int 12, .int 6, none⟩]
        [⟨.int 6, .float 1, none, false⟩, ⟨.int 14, .float 1, none, false⟩] := by
  have twice : opened (matchPeaks (.int 0 : Number ℚ)
      [⟨.int 10, .int 10, none⟩, ⟨.int 12, .int 6, none⟩]
      [⟨.int 6, .float 1, none, false⟩, ⟨.int 14, .float 1, none, false⟩]) = [1, 1] := by
    decide +kernel
  refine ⟨twice, fun covers => absurd covers.1 (by decide +kernel), fun assigns => ?_⟩
  have once := assigns.once
  rw [twice] at once
  exact absurd once (by decide)

end Kukuruku.Scanner.ChannelAssignment
