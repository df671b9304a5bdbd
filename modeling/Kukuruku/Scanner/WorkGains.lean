import Kukuruku.Scanner.WorkRuns

/-!
# The gain of what is recorded

The radio stands on the gain of the frame, which follows the control of
`update_and_set_gain` buffer by buffer and stays with the frame for its next turn.
-/

namespace Kukuruku.Scanner.Work

open Kukuruku.Scanner.FindPeaks
open Kukuruku.Scanner.GainControl
open Kukuruku.Scanner.Power
open Kukuruku.Scanner.Schedule
open KukurukuScanner

variable {C : Type*} {K : Type} {s next : KukurukuScanner K} {conf : Settings K}

section Places

/-- Where the buffers of a recording begin. -/
def Recording.place (r : Recording K) (k : Nat) : Nat := r.start + (r.bufs.take k).flatten.length

theorem place_le_place (r : Recording K) (k : Nat) : r.place (k + 1) ≤ r.place r.bufs.length := by
  have prefixed := (List.take_prefix (k + 1) r.bufs).sublist.flatten.length_le
  rw [Recording.place, Recording.place, List.take_length]
  omega

theorem place_le_stop (r : Recording K) : r.place r.bufs.length ≤ r.stop := by
  rw [Recording.place, Recording.stop, Recording.bytes, List.take_length, List.length_append]
  omega

theorem place_eq_stop {r : Recording K} (empty : r.buf = none) :
    r.place r.bufs.length = r.stop := by
  rw [Recording.place, Recording.stop, Recording.bytes, empty, List.take_length, Option.getD_none,
    List.append_nil]

/-- The default, or what the limits allow. -/
def Sound (conf : Settings K) (gain : Int) : Prop :=
  gain = conf.defaultgain ∨ conf.limits.mingain ≤ gain ∧ gain ≤ conf.limits.maxgain

/-- The frames keep sound gains when one of them gets another sound gain. -/
theorem sound_putGain {which : Which} {gain : Int}
    (frames : ∀ which, ∀ frame ∈ s.frame? which, Sound conf frame.gain)
    (sound : Sound conf gain) :
    ∀ other, ∀ frame ∈ (s.putGain which gain).frame? other, Sound conf frame.gain := by
  intro other frame found
  rw [frame?_putGain] at found
  obtain ⟨old, place, rfl⟩ := Option.map_eq_some_iff.mp found
  split_ifs
  · exact sound
  · exact frames other old place

variable {w : World C K}

theorem Kept.older (kept : Kept w conf s) : ∀ r ∈ s.recording.toList ++ s.done,
    r.place r.bufs.length ≤ s.position := fun r member => by
  obtain ⟨_, _, _, inside⟩ := kept.placed r member
  exact (place_le_stop r).trans inside

end Places

section Gains

variable [Field K] [LinearOrder K] [FloorRing K] (w : World C K) (conf : Settings K)

/-- The numbers that decide on the gain after a buffer. -/
def numbers (buf : List UInt8) : List K :=
  (floats w (buf.take (COMPLEX64 * conf.windows.fftw))).getD []

/-- Every buffer was read at one gain, that of the control loop after the buffers before
it; the first buffer of a scheduled frame is read at the gain of whatever was before. -/
def Geared (log : List (Nat × Command K)) (r : Recording K) : Prop :=
  ∀ k, k < r.bufs.length → (0 < k ∨ ∃ idx, r.which = .scan idx) →
    ∀ p, r.place k ≤ p → p < r.place (k + 1) →
      gainAt log p = some (gainAfter conf.limits r.gain ((r.bufs.take k).map (numbers w conf)))

/-- What holds of the gains between two rounds. -/
structure Tuned (s : KukurukuScanner K) : Prop where
  frames : ∀ which, ∀ frame ∈ s.frame? which, Sound conf frame.gain
  commands : ∀ q pos val, (q, Command.set_gain pos val) ∈ s.log →
    pos = conf.messgain ∧ 0 ≤ pos ∧ pos ≤ 3 ∧ Sound conf val
  geared : ∀ r ∈ s.recording.toList ++ s.done, Geared w conf s.log r
  running : ∀ r ∈ s.recording, ∀ frame ∈ s.frame? r.which,
    frame.gain = gainAfter conf.limits r.gain (r.bufs.map (numbers w conf)) ∧
      (r.bufs ≠ [] ∨ (∃ idx, r.which = .scan idx) →
        ∀ p, r.place r.bufs.length ≤ p → gainAt s.log p = some frame.gain)

variable {w conf} {r : Recording K}

theorem adapted_eq {gain new : Int} {buf : List UInt8}
    (adapt : adapted w conf gain buf = some new) :
    new = update_and_set_gain conf.limits gain (compute_histogram (numbers w conf buf)) := by
  obtain ⟨found, read, rfl⟩ := Option.map_eq_some_iff.mp adapt
  rw [numbers, read, Option.getD_some]

theorem gainAfter_concat (limits : Limits) (gain : Int) (bufs : List (List K)) (buf : List K) :
    gainAfter limits gain (bufs ++ [buf]) =
      update_and_set_gain limits (gainAfter limits gain bufs) (compute_histogram buf) := by
  rw [gainAfter, List.foldl_append]
  rfl

theorem sound_adapted (order : conf.limits.mingain ≤ conf.limits.maxgain) {gain new : Int}
    {buf : List UInt8} (adapt : adapted w conf gain buf = some new) : Sound conf new := by
  rw [adapted_eq adapt]
  exact .inr (update_inside order _ _)

/-- Later commands leave the gains of what was read before. -/
theorem Geared.later {log : List (Nat × Command K)} (geared : Geared w conf log r)
    (late : List (Nat × Command K))
    (later : ∀ entry ∈ late, r.place r.bufs.length ≤ entry.1) :
    Geared w conf (late ++ log) r := by
  intro k inside read p low high
  have below := high.trans_le (place_le_place r k)
  rw [gainAt_append fun entry member => below.trans_le (later entry member)]
  exact geared k inside read p low high

/-- One more buffer is read at the gain that the frame has reached. -/
theorem Geared.fed {log : List (Nat × Command K)} (geared : Geared w conf log r)
    {buf : List UInt8} {heard : List K} {clock : RecordClock K}
    (current : r.bufs ≠ [] ∨ (∃ idx, r.which = .scan idx) → ∀ p, r.place r.bufs.length ≤ p →
      gainAt log p = some (gainAfter conf.limits r.gain (r.bufs.map (numbers w conf)))) :
    Geared w conf log (KukurukuScanner.fed r buf heard clock) := by
  intro k inside read p low high
  have length : (KukurukuScanner.fed r buf heard clock).bufs.length = r.bufs.length + 1 :=
    List.length_append
  have before {j : Nat} (early : j ≤ r.bufs.length) :
      (KukurukuScanner.fed r buf heard clock).bufs.take j = r.bufs.take j :=
    List.take_append_of_le_length early
  have place {j : Nat} (early : j ≤ r.bufs.length) :
      (KukurukuScanner.fed r buf heard clock).place j = r.place j := by
    rw [Recording.place, before early]
    rfl
  rw [length] at inside
  rcases Nat.lt_or_ge k r.bufs.length with early | last
  · rw [place early.le] at low
    rw [place early] at high
    rw [before early.le]
    exact geared k early read p low high
  · obtain rfl : k = r.bufs.length := by omega
    rw [place le_rfl] at low
    rw [before le_rfl, List.take_length]
    refine current ?_ p low
    rcases read with some | scan
    · exact .inl (List.ne_nil_of_length_pos some)
    · exact .inr scan

/-! ## The rounds -/

theorem Starts.tuned (starts : Starts conf s) : Tuned w conf s where
  frames which frame found := by
    refine .inl ?_
    cases which with
    | scan idx => exact starts.scanframes frame (List.mem_of_getElem? found)
    | cron idx =>
        obtain ⟨cronframe, place, rfl⟩ := Option.map_eq_some_iff.mp found
        exact starts.cronframes cronframe (List.mem_of_getElem? place)
  commands q pos val member := by
    rw [starts.log] at member
    cases member
  geared r member := by
    rw [starts.recording, starts.done] at member
    cases member
  running r member := by
    rw [starts.recording] at member
    cases member

theorem Tuned.record_long (tuned : Tuned w conf s) (idle : s.recording = none) {idx : Nat}
    {cronframe : Frame K} (named : s.frame? (.cron idx) = some cronframe)
    {clock : WorkClock K} : Tuned w conf (s.record_long w conf idx cronframe clock) := by
  have moved : Tuned w conf ((s.tune cronframe.freq).sdrflush w.pipe conf.bufsize) := by
    refine ⟨tuned.frames, fun q pos val member => ?_, tuned.geared, ?_⟩
    · rcases List.mem_cons.mp member with new | old
      · cases new
      · exact tuned.commands q pos val old
    · intro r member
      have running : s.recording = some r := member
      rw [idle] at running
      cases running
  rw [KukurukuScanner.record_long, do_record]
  split_ifs
  · exact moved
  · refine ⟨moved.frames, moved.commands, ?_, ?_⟩
    · intro r member
      rcases List.mem_cons.mp member with rfl | old
      · intro k inside
        exact absurd inside (Nat.not_lt_zero k)
      · exact moved.geared r (List.mem_append_right _ old)
    · intro r member frame found
      obtain rfl := Option.some.inj member
      obtain rfl : cronframe = frame := Option.some.inj (named.symm.trans found)
      refine ⟨rfl, fun other => ?_⟩
      rcases other with empty | ⟨_, scan⟩
      · exact absurd rfl empty
      · cases scan

theorem Tuned.scan (order : conf.limits.mingain ≤ conf.limits.maxgain)
    (tuned : Tuned w conf s) (kept : Kept w conf s) (idle : s.recording = none) {idx : Nat}
    {frame : Frame K} (named : s.frame? (.scan idx) = some frame) {clock : WorkClock K}
    (step : s.scan w conf idx frame clock = some next) : Tuned w conf next := by
  have sound : Sound conf frame.gain := tuned.frames _ frame named
  obtain ⟨known, ⟨gain, _, adapt, rfl⟩ | ⟨_, peaks, _, _, _, nonempty, rfl⟩⟩ := scan_cases step
  · have quiet : (s.putGain (.scan idx) gain).recording = none := by
      rw [putGain_recording, idle]
    refine ⟨sound_putGain tuned.frames (sound_adapted order adapt), ?_, ?_, ?_⟩
    · intro q pos val member
      simp only [scanLog, List.mem_cons, Prod.mk.injEq, Command.set_gain.injEq, reduceCtorEq,
        and_false, false_or] at member
      rcases member with ⟨_, rfl, rfl⟩ | ⟨_, rfl, rfl⟩ | old
      · exact ⟨rfl, known.1, known.2, sound_adapted order adapt⟩
      · exact ⟨rfl, known.1, known.2, sound⟩
      · exact tuned.commands q pos val old
    · intro r member
      have old : r ∈ s.recording.toList ++ s.done := by
        rwa [← putGain_recording (.scan idx) gain, ← putGain_done (.scan idx) gain]
      have before := kept.older r old
      refine (tuned.geared r old).later [(_, .set_gain conf.messgain gain),
        (s.position, .set_gain conf.messgain frame.gain), (s.position, .tune frame.freq)] ?_
      intro entry new
      simp only [List.mem_cons, List.not_mem_nil, or_false] at new
      rcases new with rfl | rfl | rfl
      · exact before.trans ((Nat.le_add_right _ _).trans (Nat.le_add_right _ _))
      · exact before
      · exact before
    · intro r member
      have running : (s.putGain (.scan idx) gain).recording = some r := member
      rw [quiet] at running
      cases running
  · rw [do_record, if_neg nonempty]
    refine ⟨tuned.frames, ?_, ?_, ?_⟩
    · intro q pos val member
      simp only [scanLog, List.mem_cons, Prod.mk.injEq, Command.set_gain.injEq, reduceCtorEq,
        and_false, false_or] at member
      rcases member with ⟨_, rfl, rfl⟩ | old
      · exact ⟨rfl, known.1, known.2, sound⟩
      · exact tuned.commands q pos val old
    · intro r member
      rcases List.mem_cons.mp member with rfl | old
      · intro k inside
        exact absurd inside (Nat.not_lt_zero k)
      · have before := kept.older r (List.mem_append_right _ old)
        refine (tuned.geared r (List.mem_append_right _ old)).later
          [(s.position, .set_gain conf.messgain frame.gain), (s.position, .tune frame.freq)] ?_
        intro entry new
        simp only [List.mem_cons, List.not_mem_nil, or_false] at new
        rcases new with rfl | rfl
        · exact before
        · exact before
    · intro r member other found
      obtain rfl := Option.some.inj member
      obtain rfl : frame = other := Option.some.inj (named.symm.trans found)
      refine ⟨rfl, fun _ p above => ?_⟩
      have reached : s.position ≤ p :=
        ((Nat.le_add_right _ _).trans (Nat.le_add_right _ _)).trans above
      exact if_pos reached

theorem Tuned.record (order : conf.limits.mingain ≤ conf.limits.maxgain)
    (tuned : Tuned w conf s) (after : Kept w conf next) (running : s.recording = some r)
    {frame : Frame K} (named : s.frame? r.which = some frame) {clock : RecordClock K}
    (step : s.record w conf r frame clock = some next) : Tuned w conf next := by
  obtain ⟨buf, heard, read, took, ends⟩ := record_cases step
  obtain ⟨position, rfl⟩ : ∃ position, read = { s with position := position } := by
    rcases nextBuffer_cases took with ⟨_, _, rfl⟩ | ⟨_, _, _, rfl⟩
    · exact ⟨_, rfl⟩
    · exact ⟨_, rfl⟩
  obtain ⟨gained, current⟩ := tuned.running r running frame named
  have fed : Geared w conf s.log (fed r buf heard clock) := by
    refine (tuned.geared r (by rw [running]; exact List.mem_cons_self)).fed fun known p above => ?_
    rw [current known p above, gained]
  have old : ∀ other ∈ s.done, Geared w conf s.log other := fun other member =>
    tuned.geared other (List.mem_append_right _ member)
  rcases ends with ⟨_, rfl⟩ | ⟨_, known, gain, adapt, same⟩
  · refine ⟨tuned.frames, tuned.commands, ?_, nofun⟩
    intro other member
    rcases List.mem_cons.mp member with rfl | ended
    · exact fed
    · exact old other ended
  · have moved : next.position = position := by rw [same, putGain_position]
    have log : next.log = [(position, .set_gain conf.messgain gain)] ++ s.log := by rw [same]; rfl
    have now : next.recording = some (KukurukuScanner.fed r buf heard clock) := by rw [same]
    have done : next.done = s.done := by rw [same, putGain_done]
    have frames : ∀ which, next.frame? which = (s.putGain r.which gain).frame? which := by
      rw [same]
      exact fun which => frame?_goesOn r.which which gain position _ _
    have place := place_eq_stop (r := KukurukuScanner.fed r buf heard clock) rfl
    have stop := (after.running _ now).1
    refine ⟨?_, ?_, ?_, ?_⟩
    · intro which other found
      rw [frames] at found
      exact sound_putGain tuned.frames (sound_adapted order adapt) which other found
    · intro q pos val member
      rw [log] at member
      simp only [List.cons_append, List.nil_append, List.mem_cons, Prod.mk.injEq,
        Command.set_gain.injEq] at member
      rcases member with ⟨_, rfl, rfl⟩ | earlier
      · exact ⟨rfl, known.1, known.2, sound_adapted order adapt⟩
      · exact tuned.commands q pos val earlier
    · intro other member
      have geared : Geared w conf s.log other := by
        rw [now, done] at member
        rcases List.mem_cons.mp member with rfl | ended
        · exact fed
        · exact old other ended
      rw [log]
      refine geared.later _ fun entry new => ?_
      obtain rfl := List.mem_singleton.mp new
      exact moved ▸ after.older other member
    · intro other member changed found
      obtain rfl : KukurukuScanner.fed r buf heard clock = other :=
        Option.some.inj (now.symm.trans member)
      rw [frames, frame?_putGain] at found
      obtain ⟨before, place', rfl⟩ := Option.map_eq_some_iff.mp found
      obtain rfl : frame = before := Option.some.inj (named.symm.trans place')
      have own : (KukurukuScanner.fed r buf heard clock).which = r.which := rfl
      rw [if_pos own]
      refine ⟨?_, fun _ p above => ?_⟩
      · rw [adapted_eq adapt]
        dsimp only [KukurukuScanner.fed]
        rw [List.map_append, List.map_singleton, gainAfter_concat, ← gained]
      · rw [place, stop, moved] at above
        rw [log]
        exact if_pos above

theorem Tuned.step (order : conf.limits.mingain ≤ conf.limits.maxgain) (tuned : Tuned w conf s)
    (kept : Kept w conf s) {act : Act K} (step : (machine w conf).step? s act = some next) :
    Tuned w conf next := by
  have after := kept.step step
  cases act with
  | work clock =>
      have step : (if s.recording.isNone then s.work w conf clock else none) = some next := step
      split_ifs at step with idle
      rw [Option.isNone_iff_eq_none] at idle
      rw [work] at step
      split at step
      · obtain ⟨cronframe, named, rfl⟩ := Option.map_eq_some_iff.mp step
        exact tuned.record_long idle named
      · split_ifs at step with empty
        · obtain rfl := Option.some.inj step
          exact tuned
        · obtain ⟨frame, named, step⟩ := Option.bind_eq_some_iff.mp step
          exact tuned.scan order kept idle named step
  | record clock =>
      obtain ⟨r, running, step⟩ := Option.bind_eq_some_iff.mp step
      obtain ⟨frame, named, step⟩ := Option.bind_eq_some_iff.mp step
      exact tuned.record order after running named step

theorem tuned_of_reachable (order : conf.limits.mingain ≤ conf.limits.maxgain)
    (reach : (machine w conf).Reachable Machine.Any s) : Tuned w conf s := by
  have start : ∀ s, Starts conf s → Kept w conf s ∧ Tuned w conf s := fun _ starts =>
    ⟨starts.kept, starts.tuned⟩
  have preserve : ∀ s act next, Kept w conf s ∧ Tuned w conf s → Machine.Any s act →
      (machine w conf).step? s act = some next → Kept w conf next ∧ Tuned w conf next :=
    fun _ _ _ held _ step => ⟨held.1.step step, held.2.step order held.1 step⟩
  exact (reach.invariant start preserve).2

end Gains

theorem tuned_of_reachable_night : ∃ s, s.done.length = 2 ∧ Tuned (night station) small s := by
  obtain ⟨s, run, two⟩ := exists_night
  exact ⟨s, two, tuned_of_reachable (by decide) ⟨fresh false, nightActs, fresh_starts false, run⟩⟩

end Kukuruku.Scanner.Work
