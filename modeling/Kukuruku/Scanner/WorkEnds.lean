import Kukuruku.Scanner.WorkGains

/-!
# When a recording ends

Without `stickactivity` a recording lasts for `stick` seconds; with it, until nothing
has been heard on its peaks for `silencegap` seconds.
-/

namespace Kukuruku.Scanner.Work

open Kukuruku.Scanner.FindPeaks
open Kukuruku.Scanner.Activity
open Kukuruku.Scanner.Power
open Kukuruku.Scanner.Schedule
open KukurukuScanner

variable {C : Type*} {K : Type}

section Clocks

/-- The readings of a recording that come before those of a round: from its beginning,
and from the ends of the rounds before. -/
def Recording.ticks (r : Recording K) : List K :=
  r.began.lastact :: r.clocks.map RecordClock.check

variable [LinearOrder K]

/-- The clock does not go back. -/
def Ticks (s : KukurukuScanner K) : Act K → Prop
  | .work _ => True
  | .record clock => ∀ r ∈ s.recording,
      (r.ticks ++ ((List.range r.peaks.length).map clock.active ++ [clock.check])).Pairwise (· ≤ ·)

instance (s : KukurukuScanner K) : ∀ act : Act K, Decidable (Ticks s act)
  | .work _ => inferInstanceAs (Decidable True)
  | .record _ => inferInstanceAs (Decidable (∀ r ∈ s.recording, List.Pairwise _ _))

/-- What a round of a recording knows of the clock. -/
theorem Ticks.readings {s : KukurukuScanner K} {clock : RecordClock K}
    (ticks : Ticks s (.record clock)) {r : Recording K} (running : s.recording = some r) :
    (∀ i j, i < j → j < r.peaks.length → clock.active i ≤ clock.active j) ∧
      (∀ i < r.peaks.length, clock.active i ≤ clock.check) ∧
      ∀ time ∈ r.ticks, (∀ i < r.peaks.length, time ≤ clock.active i) ∧ time ≤ clock.check := by
  obtain ⟨_, now, across⟩ := List.pairwise_append.mp (ticks r running)
  obtain ⟨active, _, last⟩ := List.pairwise_append.mp now
  have reading {i : Nat} (inside : i < r.peaks.length) :
      clock.active i ∈ (List.range r.peaks.length).map clock.active :=
    List.mem_map_of_mem (List.mem_range.mpr inside)
  have final : clock.check ∈ [clock.check] := List.mem_singleton_self _
  refine ⟨fun i j before inside => ?_, fun i inside => last _ (reading inside) _ final,
    fun time member => ⟨fun i inside => across time member _
      (List.mem_append_left _ (reading inside)),
      across time member _ (List.mem_append_right _ final)⟩⟩
  have ordered := List.pairwise_iff_getElem.mp active i j
    (by rw [List.length_map, List.length_range]; omega)
    (by rw [List.length_map, List.length_range]; exact inside) before
  simpa using ordered

end Clocks

section Ends

/-- A frame keeps all but its gain. -/
theorem frame?_putGain_some {s : KukurukuScanner K} {frame : Frame K} {other : Which}
    (which : Which) (gain : Int) (found : s.frame? other = some frame) :
    ∃ new, (s.putGain which gain).frame? other = some { frame with gain := new } := by
  rw [frame?_putGain, found, Option.map_some]
  split_ifs
  · exact ⟨gain, rfl⟩
  · exact ⟨frame.gain, rfl⟩

variable [Field K] [LinearOrder K] [FloorRing K] (w : World C K) (conf : Settings K)

/-- A peak is heard in a round, at a time.  The buffer that a scan has left is not looked
at again. -/
def Heard (frame : Frame K) (r : Recording K) (k : Nat) (time : K) : Prop :=
  (0 < k ∨ ∃ idx, r.which = .cron idx) ∧ ∃ buf ∈ r.bufs[k]?, ∃ clock ∈ r.clocks[k]?,
    ∃ i, ∃ peak ∈ r.peaks[i]?, hears w conf frame buf peak = some true ∧ time = clock.active i

/-- At the end of a round, `stick` seconds have passed since the beginning, or
`silencegap` seconds since it and since all that was heard. -/
def Expired (frame : Frame K) (r : Recording K) (k : Nat) : Prop :=
  ∃ clock ∈ r.clocks[k]?,
    if frame.stickactivity then r.began.lastact + frame.silencegap < clock.check ∧
      ∀ j ≤ k, ∀ time, Heard w conf frame r j time → time + frame.silencegap < clock.check
    else r.began.stop + frame.stick < clock.check

/-- A recording goes on as long as its time has not expired, and the first round in which
it has is the last one. -/
structure Timed (s : KukurukuScanner K) : Prop where
  running : ∀ r ∈ s.recording, ∃ frame, s.frame? r.which = some frame ∧
    r.clocks.length = r.bufs.length ∧ ∀ k, ¬Expired w conf frame r k
  done : ∀ r ∈ s.done, ∃ frame, s.frame? r.which = some frame ∧
    r.clocks.length = r.bufs.length ∧ r.bufs ≠ [] ∧
      ∀ k, Expired w conf frame r k ↔ k + 1 = r.bufs.length

/-- How the variables of a recording stand for its history. -/
structure Timely (frame : Frame K) (r : Recording K) : Prop where
  rounds : r.clocks.length = r.bufs.length
  pending : r.buf ≠ none ↔ r.bufs = [] ∧ ∃ idx, r.which = .scan idx
  stoptime : r.stoptime = r.began.stop + frame.stick
  latest : frame.stickactivity = true →
    r.lastact = r.began.lastact ∨ ∃ k, Heard w conf frame r k r.lastact
  since : frame.stickactivity = true →
    r.began.lastact ≤ r.lastact ∧ ∀ k time, Heard w conf frame r k time → time ≤ r.lastact
  ticked : ∃ time ∈ r.ticks, r.lastact ≤ time

/-- What holds between two rounds. -/
structure Punctual (s : KukurukuScanner K) : Prop where
  running : ∀ r ∈ s.recording, ∃ frame, s.frame? r.which = some frame ∧
    Timely w conf frame r ∧ ∀ k, ¬Expired w conf frame r k
  timed : Timed w conf s

variable {w conf} {s next : KukurukuScanner K} {r : Recording K} {frame : Frame K}

/-- What a round hears, the latest first. -/
theorem sorted_activity {clock : Nat → K} {buf : List UInt8} {peaks : List (Peak K)}
    {heard : List K} (found : activity w conf frame buf clock peaks = some heard)
    (ordered : ∀ i j, i < j → j < peaks.length → clock i ≤ clock j) :
    heard.Pairwise fun late early => early ≤ late := by
  obtain ⟨spectrum, _, found⟩ := Option.bind_eq_some_iff.mp found
  obtain ⟨active, checked, found⟩ := Option.bind_eq_some_iff.mp found
  obtain rfl := Option.some.inj found
  rw [List.pairwise_reverse, List.pairwise_filterMap, List.pairwise_iff_getElem]
  intro i j _ later before first one second two
  rw [List.length_zipIdx] at later
  have known : active[j]? ≠ none := by
    rw [List.getElem?_eq_getElem later]
    exact nofun
  have inside : j < peaks.length := by
    by_contra beyond
    rw [getElem?_mapM checked, List.getElem?_eq_none (Nat.le_of_not_lt beyond)] at known
    exact known rfl
  simp only [List.getElem_zipIdx, Nat.zero_add] at one two
  split_ifs at one two
  obtain rfl := Option.some.inj one
  obtain rfl := Option.some.inj two
  exact ordered i j before inside

/-- The gain of a frame has no part in it. -/
theorem Timely.regain (timely : Timely w conf frame r) (gain : Int) :
    Timely w conf { frame with gain := gain } r :=
  ⟨timely.rounds, timely.pending, timely.stoptime, timely.latest, timely.since, timely.ticked⟩

section Round

variable {buf : List UInt8} {heard : List K} {clock : RecordClock K}

/-- A round leaves the rounds before it. -/
theorem heard_fed_of_lt (rounds : r.clocks.length = r.bufs.length) {k : Nat}
    (before : k < r.bufs.length) (time : K) :
    Heard w conf frame (fed r buf heard clock) k time ↔ Heard w conf frame r k time := by
  simp only [Heard, fed, List.getElem?_append_left before,
    List.getElem?_append_left (rounds ▸ before)]

theorem expired_fed_of_lt (rounds : r.clocks.length = r.bufs.length) {k : Nat}
    (before : k < r.bufs.length) :
    Expired w conf frame (fed r buf heard clock) k ↔ Expired w conf frame r k := by
  have clocks : (fed r buf heard clock).clocks[k]? = r.clocks[k]? :=
    List.getElem?_append_left (rounds ▸ before)
  rw [Expired, Expired, clocks]
  refine exists_congr fun clock => and_congr_right fun _ => ?_
  by_cases sticks : frame.stickactivity = true
  · rw [if_pos sticks, if_pos sticks]
    exact and_congr_right fun _ => forall₂_congr fun j early => forall_congr' fun time =>
      imp_congr_left (heard_fed_of_lt rounds (early.trans_lt before) time)
  · rw [if_neg sticks, if_neg sticks]
    exact Iff.rfl

/-- A round hears what stands in it, unless the scan has left the buffer. -/
theorem heard_fed_last (timely : Timely w conf frame r) (sticks : frame.stickactivity = true)
    (took : s.nextBuffer w conf r frame clock = some (buf, heard, next)) (time : K) :
    Heard w conf frame (fed r buf heard clock) r.bufs.length time ↔ time ∈ heard := by
  have fedBuf : (fed r buf heard clock).bufs[r.bufs.length]? = some buf :=
    List.getElem?_concat_length
  have fedClock : (fed r buf heard clock).clocks[r.bufs.length]? = some clock := by
    rw [← timely.rounds]
    exact List.getElem?_concat_length
  rcases nextBuffer_cases took with ⟨left, rfl, _⟩ | ⟨empty, _, active, _⟩
  · obtain ⟨none, idx, scan⟩ := timely.pending.mp (by rw [left]; exact nofun)
    refine iff_of_false ?_ List.not_mem_nil
    rintro ⟨positive | ⟨_, cron⟩, _⟩
    · rw [none] at positive
      exact absurd positive (Nat.lt_irrefl 0)
    · exact nomatch scan.symm.trans cron
  · rw [if_pos sticks] at active
    rw [mem_activity active time, Heard, fedBuf, fedClock]
    have read : 0 < r.bufs.length ∨ ∃ idx, r.which = .cron idx := by
      have none := mt timely.pending.mpr (not_not.mpr empty)
      rw [not_and, ← List.length_eq_zero_iff] at none
      cases scheduled : r.which with
      | cron idx => exact .inr ⟨idx, rfl⟩
      | scan idx => exact .inl (Nat.pos_of_ne_zero fun zero => none zero ⟨idx, scheduled⟩)
    constructor
    · rintro ⟨_, other, same, otherClock, sameClock, found⟩
      obtain rfl := Option.some.inj same
      obtain rfl := Option.some.inj sameClock
      exact found
    · exact fun found => ⟨read, buf, rfl, clock, rfl, found⟩

theorem heard_inside {k : Nat} {time : K} (found : Heard w conf frame r k time) :
    k < r.bufs.length := by
  obtain ⟨_, buf, place, _⟩ := found
  exact (List.getElem?_eq_some_iff.mp place).1

/-- What a round hears is later than all before, the latest first. -/
theorem nextBuffer_heard (running : s.recording = some r) (ticks : Ticks s (.record clock))
    (took : s.nextBuffer w conf r frame clock = some (buf, heard, next)) :
    (heard.Pairwise fun late early => early ≤ late) ∧ ∀ time ∈ heard,
      time ≤ clock.check ∧ ∀ before ∈ r.ticks, before ≤ time := by
  obtain ⟨ordered, last, before⟩ := ticks.readings running
  have silent : ([] : List K).Pairwise (fun late early => early ≤ late) ∧ ∀ time ∈ ([] : List K),
      time ≤ clock.check ∧ ∀ before ∈ r.ticks, before ≤ time := ⟨.nil, nofun⟩
  rcases nextBuffer_cases took with ⟨_, rfl, _⟩ | ⟨_, _, active, _⟩
  · exact silent
  · split_ifs at active
    · refine ⟨sorted_activity active ordered, fun time member => ?_⟩
      obtain ⟨i, peak, place, _, rfl⟩ := (mem_activity active time).mp member
      have inside := (List.getElem?_eq_some_iff.mp place).1
      exact ⟨last i inside, fun earlier old => (before earlier old).1 i inside⟩
    · rw [active]
      exact silent

/-- A round keeps the history, whether it is the last one or not. -/
theorem Timely.fed (timely : Timely w conf frame r) (running : s.recording = some r)
    (ticks : Ticks s (.record clock))
    (took : s.nextBuffer w conf r frame clock = some (buf, heard, next)) :
    Timely w conf frame (KukurukuScanner.fed r buf heard clock) := by
  obtain ⟨sorted, later⟩ := nextBuffer_heard running ticks took
  obtain ⟨tick, ticked, reached⟩ := timely.ticked
  have before {k : Nat} {time : K}
      (found : Heard w conf frame (KukurukuScanner.fed r buf heard clock) k time) :
      k < r.bufs.length ∨ k = r.bufs.length := by
    have inside := heard_inside found
    rw [KukurukuScanner.fed, List.length_append, List.length_singleton] at inside
    omega
  refine ⟨?_, ?_, timely.stoptime, fun sticks => ?_, fun sticks => ?_, ?_⟩
  · rw [KukurukuScanner.fed, List.length_append, List.length_append, timely.rounds]
    rfl
  · refine iff_of_false (fun left => left rfl) fun first => ?_
    exact List.append_ne_nil_of_right_ne_nil r.bufs (List.cons_ne_nil buf []) first.1
  · cases heard with
    | nil =>
        refine (timely.latest sticks).imp_right ?_
        rintro ⟨k, found⟩
        exact ⟨k, (heard_fed_of_lt timely.rounds (heard_inside found) _).mpr found⟩
    | cons first rest =>
        exact .inr ⟨_, (heard_fed_last timely sticks took first).mpr List.mem_cons_self⟩
  · obtain ⟨start, all⟩ := timely.since sticks
    cases heard with
    | nil =>
        refine ⟨start, fun k time found => ?_⟩
        rcases before found with early | rfl
        · exact all k time ((heard_fed_of_lt timely.rounds early time).mp found)
        · cases (heard_fed_last timely sticks took time).mp found
    | cons first rest =>
        have above := (later first List.mem_cons_self).2
        refine ⟨above _ List.mem_cons_self, fun k time found => ?_⟩
        rcases before found with early | rfl
        · have old := all k time ((heard_fed_of_lt timely.rounds early time).mp found)
          exact old.trans (reached.trans (above tick ticked))
        · rcases List.mem_cons.mp ((heard_fed_last timely sticks took time).mp found) with
            rfl | other
          · exact le_rfl
          · exact List.rel_of_pairwise_cons sorted other
  · have kept {time : K} (old : time ∈ r.ticks) :
        time ∈ (KukurukuScanner.fed r buf heard clock).ticks := by
      rw [Recording.ticks, KukurukuScanner.fed, List.map_append]
      exact List.mem_append_left [clock.check] old
    cases heard with
    | nil => exact ⟨tick, kept ticked, reached⟩
    | cons first rest =>
        refine ⟨clock.check, ?_, (later first List.mem_cons_self).1⟩
        rw [Recording.ticks, KukurukuScanner.fed, List.map_append]
        exact List.mem_cons_of_mem _ (List.mem_append_right _ (List.mem_singleton_self _))

/-- The test at the end of a round is whether the time has expired. -/
theorem expired_fed_last [IsStrictOrderedRing K] (rounds : r.clocks.length = r.bufs.length)
    (timely : Timely w conf frame (KukurukuScanner.fed r buf heard clock)) :
    Expired w conf frame (KukurukuScanner.fed r buf heard clock) r.bufs.length ↔
      Stops (KukurukuScanner.fed r buf heard clock) frame clock.check := by
  have place : (KukurukuScanner.fed r buf heard clock).clocks[r.bufs.length]? = some clock := by
    rw [← rounds]
    exact List.getElem?_concat_length
  have last : Expired w conf frame (KukurukuScanner.fed r buf heard clock) r.bufs.length ↔
      if frame.stickactivity then r.began.lastact + frame.silencegap < clock.check ∧
        ∀ j ≤ r.bufs.length, ∀ time,
          Heard w conf frame (KukurukuScanner.fed r buf heard clock) j time →
            time + frame.silencegap < clock.check
      else r.began.stop + frame.stick < clock.check := by
    rw [Expired, place]
    exact ⟨fun ⟨_, same, expired⟩ => Option.some.inj same ▸ expired,
      fun expired => ⟨clock, rfl, expired⟩⟩
  rw [last, Stops]
  by_cases sticks : frame.stickactivity = true
  · simp only [sticks, if_true, Bool.true_eq_false, false_and, true_and, false_or]
    obtain ⟨start, since⟩ := timely.since sticks
    constructor
    · rintro ⟨began, all⟩
      rcases timely.latest sticks with same | ⟨k, found⟩
      · rw [same]
        exact began
      · have inside := heard_inside found
        rw [KukurukuScanner.fed, List.length_append, List.length_singleton] at inside
        exact all k (Nat.le_of_lt_succ inside) _ found
    · intro late
      exact ⟨(add_le_add_left start _).trans_lt late, fun j _ time found =>
        (add_le_add_left (since j time found) _).trans_lt late⟩
  · rw [Bool.not_eq_true] at sticks
    simp only [sticks, Bool.false_eq_true, if_false, true_and, false_and, or_false]
    rw [timely.stoptime]
    exact Iff.rfl

end Round

/-- A recording that has just begun. -/
theorem Timely.begin {clock : WorkClock K} {which : Which} {peaks : List (Peak K)}
    {buf : Option (List UInt8)} {start : Nat} (pending : buf ≠ none ↔ ∃ idx, which = .scan idx) :
    Timely w conf frame ⟨which, peaks, clock.stop + frame.stick, clock.lastact, buf, start,
      frame.gain, clock, [], []⟩ where
  rounds := rfl
  pending := pending.trans (and_iff_right rfl).symm
  stoptime := rfl
  latest _ := .inl rfl
  since _ := ⟨le_rfl, fun _ _ found => absurd (heard_inside found) (Nat.not_lt_zero _)⟩
  ticked := ⟨clock.lastact, List.mem_cons_self, le_rfl⟩

theorem not_expired_nil (none : r.clocks = []) (k : Nat) : ¬Expired w conf frame r k := by
  rintro ⟨clock, place, _⟩
  rw [none] at place
  cases place

theorem Starts.punctual (starts : Starts conf s) : Punctual w conf s where
  running r member := by
    rw [starts.recording] at member
    cases member
  timed := by
    refine ⟨fun r member => ?_, fun r member => ?_⟩
    · rw [starts.recording] at member
      cases member
    · rw [starts.done] at member
      cases member

/-- The recordings that have ended do not depend on the gain of a frame. -/
theorem Timed.regain (timed : Timed w conf s) (which : Which) (gain : Int) :
    ∀ r ∈ s.done, ∃ frame, (s.putGain which gain).frame? r.which = some frame ∧
      r.clocks.length = r.bufs.length ∧ r.bufs ≠ [] ∧
        ∀ k, Expired w conf frame r k ↔ k + 1 = r.bufs.length := by
  intro r member
  obtain ⟨frame, found, ended⟩ := timed.done r member
  obtain ⟨new, found'⟩ := frame?_putGain_some which gain found
  exact ⟨_, found', ended⟩

/-- A recording begins. -/
theorem Punctual.begin (punctual : Punctual w conf s) (done : next.done = s.done)
    (frames : ∀ which, next.frame? which = s.frame? which) {which : Which}
    (named : s.frame? which = some frame) {peaks : List (Peak K)} {buf : Option (List UInt8)}
    {start : Nat} {clock : WorkClock K} (pending : buf ≠ none ↔ ∃ idx, which = .scan idx)
    (recording : next.recording = some ⟨which, peaks, clock.stop + frame.stick, clock.lastact,
      buf, start, frame.gain, clock, [], []⟩) : Punctual w conf next := by
  refine ⟨fun r member => ?_, fun r member => ?_, fun r member => ?_⟩
  · rw [recording] at member
    obtain rfl := Option.some.inj member
    exact ⟨frame, (frames which).trans named, .begin pending, not_expired_nil rfl⟩
  · rw [recording] at member
    obtain rfl := Option.some.inj member
    exact ⟨frame, (frames which).trans named, rfl, not_expired_nil rfl⟩
  · rw [done] at member
    obtain ⟨frame', found, ended⟩ := punctual.timed.done r member
    exact ⟨frame', (frames _).trans found, ended⟩

/-- Nothing is recorded, and the gain of a frame may have changed. -/
theorem Punctual.idle (punctual : Punctual w conf s) (which : Which) (gain : Int)
    (done : next.done = s.done)
    (frames : ∀ other, next.frame? other = (s.putGain which gain).frame? other)
    (idle : next.recording = none) : Punctual w conf next := by
  refine ⟨fun r member => ?_, fun r member => ?_, fun r member => ?_⟩
  · rw [idle] at member
    cases member
  · rw [idle] at member
    cases member
  · rw [done] at member
    obtain ⟨frame', found, ended⟩ := punctual.timed.regain which gain r member
    exact ⟨frame', (frames _).trans found, ended⟩

theorem Punctual.work (punctual : Punctual w conf s) (idle : s.recording = none)
    {clock : WorkClock K} (step : s.work w conf clock = some next) : Punctual w conf next := by
  rw [KukurukuScanner.work] at step
  split at step
  · obtain ⟨cronframe, named, rfl⟩ := Option.map_eq_some_iff.mp step
    rw [record_long, do_record]
    split_ifs
    · refine ⟨fun r member => ?_, fun r member => ?_, punctual.timed.done⟩
      · have running : s.recording = some r := member
        cases idle.symm.trans running
      · have running : s.recording = some r := member
        cases idle.symm.trans running
    · exact punctual.begin rfl (fun _ => rfl) named
        (iff_of_false (fun some => some rfl) (by rintro ⟨_, ⟨⟩⟩)) rfl
  · split_ifs at step
    · obtain rfl := Option.some.inj step
      exact punctual
    · obtain ⟨frame, named, step⟩ := Option.bind_eq_some_iff.mp step
      obtain ⟨_, ⟨gain, _, _, rfl⟩ | ⟨_, peaks, _, _, _, nonempty, rfl⟩⟩ := scan_cases step
      · refine punctual.idle
          (.scan (pick conf.timing w.sha256 conf.nonce s.scanframes.length clock.ctime)) gain
          (putGain_done _ _) (fun other => ?_) ((putGain_recording _ _).trans idle)
        cases other <;> rfl
      · rw [do_record, if_neg nonempty]
        exact punctual.begin rfl (fun _ => rfl) named
          (iff_of_true (Option.some_ne_none _) ⟨_, rfl⟩) rfl

variable [IsStrictOrderedRing K]

theorem Punctual.record (punctual : Punctual w conf s) (running : s.recording = some r)
    (named : s.frame? r.which = some frame) {clock : RecordClock K}
    (ticks : Ticks s (.record clock)) (step : s.record w conf r frame clock = some next) :
    Punctual w conf next := by
  obtain ⟨buf, heard, read, took, ends⟩ := record_cases step
  obtain ⟨before, found, timely, goesOn⟩ := punctual.running r running
  obtain rfl : before = frame := Option.some.inj (found.symm.trans named)
  have longer := timely.fed running ticks took
  have last := expired_fed_last timely.rounds longer
  have length : (fed r buf heard clock).bufs.length = r.bufs.length + 1 := List.length_append
  have early {k : Nat} (other : k ≠ r.bufs.length) :
      ¬Expired w conf before (fed r buf heard clock) k := by
    intro expired
    rcases Nat.lt_or_ge k r.bufs.length with inside | beyond
    · exact goesOn k ((expired_fed_of_lt timely.rounds inside).mp expired)
    · obtain ⟨_, place, _⟩ := expired
      have bound := (List.getElem?_eq_some_iff.mp place).1
      rw [longer.rounds, length] at bound
      omega
  obtain ⟨position, rfl⟩ : ∃ position, read = { s with position := position } := by
    rcases nextBuffer_cases took with ⟨_, _, rfl⟩ | ⟨_, _, _, rfl⟩
    · exact ⟨_, rfl⟩
    · exact ⟨_, rfl⟩
  rcases ends with ⟨stops, rfl⟩ | ⟨stays, _, gain, _, same⟩
  · refine ⟨nofun, nofun, fun other member => ?_⟩
    rcases List.mem_cons.mp member with rfl | old
    · refine ⟨before, named, longer.rounds, List.ne_nil_of_length_pos (by omega), fun k => ?_⟩
      rw [length, Nat.add_right_cancel_iff]
      constructor
      · intro expired
        by_contra other
        exact early other expired
      · rintro rfl
        exact last.mpr stops
    · exact punctual.timed.done other old
  · have frames : ∀ which, next.frame? which = (s.putGain r.which gain).frame? which := by
      rw [same]
      exact fun which => frame?_goesOn r.which which gain position _ _
    have done : next.done = s.done := by rw [same, putGain_done]
    have now : next.recording = some (fed r buf heard clock) := by rw [same]
    obtain ⟨new, found'⟩ := frame?_putGain_some r.which gain named
    have going : ∀ k, ¬Expired w conf before (fed r buf heard clock) k := by
      intro k
      rcases eq_or_ne k r.bufs.length with rfl | other
      · exact mt last.mp stays
      · exact early other
    refine ⟨fun other member => ?_, fun other member => ?_, fun other member => ?_⟩
    · obtain rfl := Option.some.inj (now.symm.trans member)
      exact ⟨_, (frames r.which).trans found', longer.regain new, going⟩
    · obtain rfl := Option.some.inj (now.symm.trans member)
      exact ⟨_, (frames r.which).trans found', longer.rounds, going⟩
    · rw [done] at member
      obtain ⟨other', found'', ended⟩ := punctual.timed.regain r.which gain other member
      exact ⟨other', (frames _).trans found'', ended⟩

theorem Punctual.step (punctual : Punctual w conf s) {act : Act K} (ticks : Ticks s act)
    (step : (machine w conf).step? s act = some next) : Punctual w conf next := by
  cases act with
  | work clock =>
      have step : (if s.recording.isNone then s.work w conf clock else none) = some next := step
      split_ifs at step with idle
      exact punctual.work (Option.isNone_iff_eq_none.mp idle) step
  | record clock =>
      obtain ⟨r, running, step⟩ := Option.bind_eq_some_iff.mp step
      obtain ⟨frame, named, step⟩ := Option.bind_eq_some_iff.mp step
      exact punctual.record running named ticks step

theorem timed_of_reachable (reach : (machine w conf).Reachable Ticks s) : Timed w conf s :=
  (reach.invariant (fun s (starts : Starts conf s) => starts.punctual)
    fun _ _ _ punctual ticks step => punctual.step ticks step).timed

end Ends

/-- What was heard once in a recording keeps it for three seconds more, and the scheduled
one lasts for five. -/
theorem timed_of_reachable_night : ∃ s, (machine (night station) small).Run Ticks (fresh false)
    nightActs s ∧ s.done.length = 2 ∧ Timed (night station) small s := by
  have ran : ((machine (night station) small).runIf? Ticks (fresh false) nightActs).any
      (fun s => s.done.length == 2) = true := by
    decide +kernel
  obtain ⟨s, found, two⟩ := (Option.any_eq_true _ _).mp ran
  have run := Machine.Run.of_runIf? found
  exact ⟨s, run, beq_iff_eq.mp two,
    timed_of_reachable ⟨fresh false, nightActs, fresh_starts false, run⟩⟩

end Kukuruku.Scanner.Work
