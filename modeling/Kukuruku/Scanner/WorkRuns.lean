import Mathlib.Tactic.NormNum
import Kukuruku.Scanner.Work

/-!
# What the scanner records

Every recording holds consecutive samples of the pipe that were read while the radio
stood on the frequency of its frame, and no sample is recorded twice.
-/

namespace Kukuruku.Scanner.Work

open Kukuruku.PythonTwo
open Kukuruku.Scanner.FindPeaks
open Kukuruku.Scanner.Activity
open Kukuruku.Scanner.ChannelAssignment
open Kukuruku.Scanner.GainControl
open Kukuruku.Scanner.Power
open Kukuruku.Scanner.Schedule
open KukurukuScanner

variable {C : Type*} {K : Type} {s next : KukurukuScanner K}

/-! ## What one round does -/

section Steps

@[simp]
theorem putGain_position (which : Which) (gain : Int) :
    (s.putGain which gain).position = s.position := by
  cases which <;> rfl

@[simp]
theorem putGain_log (which : Which) (gain : Int) : (s.putGain which gain).log = s.log := by
  cases which <;> rfl

@[simp]
theorem putGain_recording (which : Which) (gain : Int) :
    (s.putGain which gain).recording = s.recording := by
  cases which <;> rfl

@[simp]
theorem putGain_done (which : Which) (gain : Int) : (s.putGain which gain).done = s.done := by
  cases which <;> rfl

/-- The gain of the frame changes and nothing else. -/
theorem frame?_putGain (which other : Which) (gain : Int) :
    (s.putGain which gain).frame? other =
      (s.frame? other).map fun frame =>
        if other = which then { frame with gain := gain } else frame := by
  cases which with
  | scan idx =>
      cases other with
      | scan k =>
          rw [putGain, frame?, frame?, List.getElem?_modify]
          rcases eq_or_ne idx k with rfl | apart
          · simp
          · cases s.scanframes[k]? <;> simp [apart, Ne.symm apart]
      | cron k => cases found : s.cronframes[k]? <;> simp [putGain, frame?, found]
  | cron idx =>
      cases other with
      | scan k => cases found : s.scanframes[k]? <;> simp [putGain, frame?, found]
      | cron k =>
          rw [putGain, frame?, frame?, List.getElem?_modify]
          rcases eq_or_ne idx k with rfl | apart
          · cases s.cronframes[idx]? <;> simp
          · cases s.cronframes[k]? <;> simp [apart, Ne.symm apart]

/-- The frames after a round that goes on. -/
theorem frame?_goesOn (which other : Which) (gain : Int) (position : Nat)
    (log : List (Nat × Command K)) (recording : Option (Recording K)) :
    ({ ({ s with position := position } : KukurukuScanner K).putGain which gain with
      log := log
      recording := recording } : KukurukuScanner K).frame? other =
        (s.putGain which gain).frame? other := by
  cases which <;> cases other <;> rfl

theorem set_gain_cases {pos val : Int} (step : s.set_gain pos val = some next) :
    (0 ≤ pos ∧ pos ≤ 3) ∧ next = { s with log := (s.position, .set_gain pos val) :: s.log } := by
  rw [set_gain] at step
  split_ifs at step with known
  exact ⟨known, (Option.some.inj step).symm⟩

variable [Field K] [LinearOrder K] [FloorRing K] {w : World C K} {conf : Settings K}

/-- The bytes that are flushed after a tune. -/
def Settings.flush (conf : Settings K) : Nat := conf.bufsize * COMPLEX64

/-- The bytes that a scan reads. -/
def scanned (conf : Settings K) (clock : WorkClock K) : Nat :=
  (nbytes conf.timing clock.delta).toNat

theorem eight_dvd_scanned (conf : Settings K) (clock : WorkClock K) :
    COMPLEX64 ∣ scanned conf clock := by
  have whole : (COMPLEX64 : Int) ∣ nbytes conf.timing clock.delta := Int.dvd_self_sub_emod
  rw [scanned]
  rcases le_total 0 (nbytes conf.timing clock.delta) with nonneg | nonpos
  · exact Int.natCast_dvd_natCast.mp (by rwa [Int.toNat_of_nonneg nonneg])
  · rw [Int.toNat_of_nonpos nonpos]
    exact dvd_zero _

/-- The commands before the buffer of a scan is read. -/
def scanLog (conf : Settings K) (s : KukurukuScanner K) (frame : Frame K) :
    List (Nat × Command K) :=
  (s.position, .set_gain conf.messgain frame.gain) :: (s.position, .tune frame.freq) :: s.log

/-- A scan only adapts the gain of its frame, or starts a recording with the buffer
it has read. -/
theorem scan_cases {idx : Nat} {frame : Frame K} {clock : WorkClock K}
    (step : s.scan w conf idx frame clock = some next) :
    (0 ≤ conf.messgain ∧ conf.messgain ≤ 3) ∧
      ((∃ gain, detect w conf frame
            (slice w.pipe (s.position + conf.flush) (scanned conf clock)) = some [] ∧
          adapted w conf frame.gain
            (slice w.pipe (s.position + conf.flush) (scanned conf clock)) = some gain ∧
          next = { s.putGain (.scan idx) gain with
            position := s.position + conf.flush + scanned conf clock
            log := (s.position + conf.flush + scanned conf clock,
              .set_gain conf.messgain gain) :: scanLog conf s frame }) ∨
        ∃ found peaks, detect w conf frame
            (slice w.pipe (s.position + conf.flush) (scanned conf clock)) = some found ∧
          found ≠ [] ∧ peaks = (matchPeaks frame.freq frame.channels found).map Matched.peak ∧
          peaks ≠ [] ∧ next = ({ s with
          position := s.position + conf.flush + scanned conf clock
          log := scanLog conf s frame } : KukurukuScanner K).do_record (.scan idx) peaks
            (some (slice w.pipe (s.position + conf.flush) (scanned conf clock)))
            (s.position + conf.flush) frame clock) := by
  rw [scan] at step
  obtain ⟨tuned, set, step⟩ := Option.bind_eq_some_iff.mp step
  obtain ⟨known, rfl⟩ := set_gain_cases set
  refine ⟨known, ?_⟩
  dsimp only [KukurukuScanner.read, sdrflush, tune] at step
  obtain ⟨found, detected, step⟩ := Option.bind_eq_some_iff.mp step
  split_ifs at step with none
  · obtain ⟨gain, adapt, step⟩ := Option.bind_eq_some_iff.mp step
    obtain ⟨_, rfl⟩ := set_gain_cases step
    exact .inl ⟨gain, none ▸ detected, adapt, rfl⟩
  · obtain rfl := Option.some.inj step
    refine .inr ⟨found, _, detected, none, rfl, ?_, rfl⟩
    rw [matchPeaks, List.map_map]
    exact fun empty => none (List.map_eq_nil_iff.mp empty)

/-- Without a buffer of the scan, a round reads one of its own. -/
theorem nextBuffer_cases {r : Recording K} {frame : Frame K} {clock : RecordClock K}
    {buf : List UInt8} {heard : List K}
    (step : s.nextBuffer w conf r frame clock = some (buf, heard, next)) :
    (r.buf = some buf ∧ heard = [] ∧ next = s) ∨
      (r.buf = none ∧ buf = slice w.pipe s.position conf.flush ∧
        (if frame.stickactivity then activity w conf frame buf clock.active r.peaks = some heard
          else heard = []) ∧
        next = { s with position := s.position + conf.flush }) := by
  rw [nextBuffer] at step
  split at step
  · rename_i other left
    cases step
    exact .inl ⟨left, rfl, rfl⟩
  · rename_i empty
    dsimp only [KukurukuScanner.read] at step
    refine .inr ⟨empty, ?_⟩
    split_ifs at step with sticks
    · obtain ⟨active, found, same⟩ := Option.map_eq_some_iff.mp step
      cases same
      exact ⟨rfl, by rw [if_pos sticks]; exact found, rfl⟩
    · cases step
      exact ⟨rfl, by rw [if_neg sticks], rfl⟩

/-- Whether `check_activity` hears a peak in a buffer. -/
def hears (w : World C K) (conf : Settings K) (frame : Frame K) (buf : List UInt8)
    (peak : Peak K) : Option Bool := do
  let spectrum ← compute_spectrum w.fft conf.windows buf
  let (acc, sql) := compared conf.windows.fftw frame.sql spectrum
  (check_activity conf.peaks acc peak frame.floor sql).result

/-- The answers of a list of tests, in their order. -/
theorem getElem?_mapM {α β : Type*} {f : α → Option β} {xs : List α} {ys : List β}
    (all : xs.mapM f = some ys) (i : Nat) : ys[i]? = xs[i]?.bind f := by
  induction xs generalizing ys i with
  | nil =>
      obtain rfl := Option.some.inj all
      rfl
  | cons x xs ih =>
      rw [List.mapM_cons] at all
      obtain ⟨first, answer, all⟩ := Option.bind_eq_some_iff.mp all
      obtain ⟨later, rest, all⟩ := Option.bind_eq_some_iff.mp all
      obtain rfl := Option.some.inj all
      cases i with
      | zero => exact answer.symm
      | succ i => exact ih rest i

/-- The readings of the clock are those for the peaks that are heard. -/
theorem mem_activity {frame : Frame K} {buf : List UInt8} {clock : Nat → K}
    {peaks : List (Peak K)} {heard : List K}
    (found : activity w conf frame buf clock peaks = some heard) (time : K) :
    time ∈ heard ↔
      ∃ i, ∃ peak ∈ peaks[i]?, hears w conf frame buf peak = some true ∧ time = clock i := by
  obtain ⟨spectrum, computed, found⟩ := Option.bind_eq_some_iff.mp found
  obtain ⟨active, checked, found⟩ := Option.bind_eq_some_iff.mp found
  obtain rfl := Option.some.inj found
  have hears_eq (peak : Peak K) : hears w conf frame buf peak =
      (check_activity conf.peaks (compared conf.windows.fftw frame.sql spectrum).1 peak
        frame.floor (compared conf.windows.fftw frame.sql spectrum).2).result := by
    rw [hears, computed]
    rfl
  rw [List.mem_reverse, List.mem_filterMap]
  constructor
  · rintro ⟨⟨flag, i⟩, member, same⟩
    have at_i := List.mk_mem_zipIdx_iff_getElem?.mp member
    rw [getElem?_mapM checked] at at_i
    obtain ⟨peak, place, answer⟩ := Option.bind_eq_some_iff.mp at_i
    cases flag with
    | false => cases same
    | true => exact ⟨i, peak, place, (hears_eq peak).trans answer, (Option.some.inj same).symm⟩
  · rintro ⟨i, peak, place, answer, rfl⟩
    have at_i : active[i]? = some true := by
      rw [getElem?_mapM checked, Option.mem_def.mp place]
      exact (hears_eq peak).symm.trans answer
    exact ⟨(true, i), List.mk_mem_zipIdx_iff_getElem?.mpr at_i, rfl⟩

/-- A round feeds one buffer and then stops or adapts the gain. -/
theorem record_cases {r : Recording K} {frame : Frame K} {clock : RecordClock K}
    (step : s.record w conf r frame clock = some next) :
    ∃ buf heard read, s.nextBuffer w conf r frame clock = some (buf, heard, read) ∧
      ((Stops (fed r buf heard clock) frame clock.check ∧
          next =
            { read with recording := none, done := fed r buf heard clock :: read.done }) ∨
        (¬Stops (fed r buf heard clock) frame clock.check ∧
          (0 ≤ conf.messgain ∧ conf.messgain ≤ 3) ∧
          ∃ gain, adapted w conf frame.gain buf = some gain ∧
            next = { read.putGain r.which gain with
              log := (read.position, .set_gain conf.messgain gain) :: read.log
              recording := some (fed r buf heard clock) })) := by
  rw [record] at step
  obtain ⟨⟨buf, heard, read⟩, found, step⟩ := Option.bind_eq_some_iff.mp step
  refine ⟨buf, heard, read, found, ?_⟩
  dsimp only at step
  split_ifs at step with stops
  · cases step
    exact .inl ⟨stops, rfl⟩
  · obtain ⟨gain, adapt, step⟩ := Option.bind_eq_some_iff.mp step
    obtain ⟨set, commanded, step⟩ := Option.bind_eq_some_iff.mp step
    obtain ⟨known, rfl⟩ := set_gain_cases commanded
    cases step
    refine .inr ⟨stops, known, gain, adapt, ?_⟩
    simp only [putGain_position, putGain_log]
    rfl

end Steps

/-! ## The settings of the radio -/

section Log

/-- The frequency of the radio when a byte of the pipe is read. -/
def tunedAt : List (Nat × Command K) → Nat → Option (Number K)
  | [], _ => none
  | (q, .tune freq) :: log, p => if q ≤ p then some freq else tunedAt log p
  | (_, .set_gain _ _) :: log, p => tunedAt log p

/-- The gain of the radio when a byte of the pipe is read. -/
def gainAt : List (Nat × Command K) → Nat → Option Int
  | [], _ => none
  | (_, .tune _) :: log, p => gainAt log p
  | (q, .set_gain _ val) :: log, p => if q ≤ p then some val else gainAt log p

/-- What is commanded later does not change what was read. -/
theorem tunedAt_append {late log : List (Nat × Command K)} {p : Nat}
    (later : ∀ entry ∈ late, p < entry.1) : tunedAt (late ++ log) p = tunedAt log p := by
  induction late with
  | nil => rfl
  | cons entry late ih =>
      obtain ⟨q, command⟩ := entry
      have rest := ih fun other member => later other (List.mem_cons_of_mem _ member)
      cases command with
      | tune freq =>
          have above : p < q := later (q, .tune freq) List.mem_cons_self
          rw [List.cons_append, tunedAt, if_neg (Nat.not_le.mpr above), rest]
      | set_gain pos val => rw [List.cons_append, tunedAt, rest]

theorem gainAt_append {late log : List (Nat × Command K)} {p : Nat}
    (later : ∀ entry ∈ late, p < entry.1) : gainAt (late ++ log) p = gainAt log p := by
  induction late with
  | nil => rfl
  | cons entry late ih =>
      obtain ⟨q, command⟩ := entry
      have rest := ih fun other member => later other (List.mem_cons_of_mem _ member)
      cases command with
      | tune freq => rw [List.cons_append, gainAt, rest]
      | set_gain pos val =>
          have above : p < q := later (q, .set_gain pos val) List.mem_cons_self
          rw [List.cons_append, gainAt, if_neg (Nat.not_le.mpr above), rest]

end Log

/-! ## The pipe -/

section Pipe

variable (pipe : Nat → UInt8)

@[simp]
theorem length_slice (start length : Nat) : (slice pipe start length).length = length := by
  rw [slice, List.length_map, List.length_range]

theorem slice_append (start first second : Nat) :
    slice pipe start first ++ slice pipe (start + first) second =
      slice pipe start (first + second) := by
  rw [slice, slice, slice, List.range_add, List.map_append, List.map_map]
  congr 2
  funext k
  simp [Nat.add_assoc]

end Pipe

/-! ## Recordings -/

section Recordings

variable (w : World C K) (conf : Settings K)

/-- The bytes of a recording, those that no channel has been fed yet included. -/
def Recording.bytes (r : Recording K) : List UInt8 := r.bufs.flatten ++ r.buf.getD []

/-- The first byte behind a recording. -/
def Recording.stop (r : Recording K) : Nat := r.start + r.bytes.length

/-- A recording holds whole samples of the pipe, all read at one frequency and at
least a flush after the radio was tuned to it. -/
structure Placed (log : List (Nat × Command K)) (freq : Number K) (r : Recording K) : Prop where
  start : COMPLEX64 ∣ r.start
  buffers : ∀ buf ∈ r.bufs ++ r.buf.toList, COMPLEX64 ∣ buf.length
  bytes : r.bytes = slice w.pipe r.start r.bytes.length
  flushed : conf.flush ≤ r.start
  tuned : ∀ p, r.start - conf.flush ≤ p → p < r.stop → tunedAt log p = some freq

/-- The frequency of a frame. -/
def freq? (s : KukurukuScanner K) (which : Which) : Option (Number K) :=
  (s.frame? which).map Frame.freq

/-- What holds between two rounds. -/
structure Kept (s : KukurukuScanner K) : Prop where
  position : COMPLEX64 ∣ s.position
  logged : ∀ entry ∈ s.log, entry.1 ≤ s.position
  placed : ∀ r ∈ s.recording.toList ++ s.done,
    ∃ freq, freq? s r.which = some freq ∧ Placed w conf s.log freq r ∧ r.stop ≤ s.position
  running : ∀ r ∈ s.recording, r.stop = s.position ∧
    ∀ p, s.position ≤ p → tunedAt s.log p = freq? s r.which
  ended : ∀ r ∈ s.done, r.buf = none
  apart : (s.recording.toList ++ s.done).Pairwise fun newer older =>
    older.stop + conf.flush ≤ newer.start

variable {w conf} {r : Recording K}

theorem Placed.later {log late : List (Nat × Command K)} {freq : Number K}
    (placed : Placed w conf log freq r) (later : ∀ entry ∈ late, r.stop ≤ entry.1) :
    Placed w conf (late ++ log) freq r where
  start := placed.start
  buffers := placed.buffers
  bytes := placed.bytes
  flushed := placed.flushed
  tuned p low high := by
    rw [tunedAt_append fun entry member => high.trans_le (later entry member)]
    exact placed.tuned p low high

theorem freq?_putGain (which other : Which) (gain : Int) :
    freq? (s.putGain which gain) other = freq? s other := by
  rw [freq?, freq?, frame?_putGain, Option.map_map]
  congr 1
  funext frame
  simp only [Function.comp_apply]
  split_ifs <;> rfl

theorem bytes_fed (r : Recording K) (buf : List UInt8) (heard : List K) (clock : RecordClock K) :
    (fed r buf heard clock).bytes = r.bufs.flatten ++ buf := by
  simp [Recording.bytes, fed]

/-- A buffer that follows the bytes of a recording lengthens it. -/
theorem Placed.fed {log : List (Nat × Command K)} {freq : Number K}
    (placed : Placed w conf log freq r)
    {buf : List UInt8} (heard : List K) (clock : RecordClock K)
    (comes : r.buf = some buf ∨ r.buf = none ∧ ∃ length, COMPLEX64 ∣ length ∧
      buf = slice w.pipe r.stop length)
    (tuned : ∀ p, r.stop ≤ p → tunedAt log p = some freq) :
    Placed w conf log freq (KukurukuScanner.fed r buf heard clock) := by
  rcases comes with left | ⟨empty, length, whole, rfl⟩
  · have same : (KukurukuScanner.fed r buf heard clock).bytes = r.bytes := by
      rw [bytes_fed, Recording.bytes, left, Option.getD_some]
    refine ⟨placed.start, ?_, ?_, placed.flushed, ?_⟩
    · have members := placed.buffers
      simpa [KukurukuScanner.fed, left] using members
    · rw [same]
      exact placed.bytes
    · intro p low high
      rw [Recording.stop, same] at high
      exact placed.tuned p low high
  · have before : r.bytes = r.bufs.flatten := by
      rw [Recording.bytes, empty, Option.getD_none, List.append_nil]
    have joined : (KukurukuScanner.fed r (slice w.pipe r.stop length) heard clock).bytes =
        slice w.pipe r.start (r.bytes.length + length) := by
      rw [bytes_fed, ← before, ← slice_append, ← placed.bytes, Recording.stop]
    refine ⟨placed.start, ?_, ?_, placed.flushed, ?_⟩
    · intro other member
      have members := placed.buffers
      rw [empty] at members
      simp only [KukurukuScanner.fed, Option.toList_none, List.append_nil, List.mem_append,
        List.mem_singleton] at member members
      rcases member with early | rfl
      · exact members other early
      · rwa [length_slice]
    · rw [joined, length_slice]
      rfl
    · intro p low high
      rcases Nat.lt_or_ge p r.stop with early | late
      · exact placed.tuned p low early
      · exact tuned p late

/-- Commands and reads between two recordings. -/
theorem Kept.advance (kept : Kept w conf s) (idle : s.recording = none)
    (late : List (Nat × Command K)) (log : next.log = late ++ s.log)
    (after : ∀ entry ∈ late, s.position ≤ entry.1 ∧ entry.1 ≤ next.position)
    (position : s.position ≤ next.position) (whole : COMPLEX64 ∣ next.position)
    (frames : ∀ which, freq? next which = freq? s which) (quiet : next.recording = none)
    (done : next.done = s.done) : Kept w conf next where
  position := whole
  logged entry member := by
    rw [log] at member
    rcases List.mem_append.mp member with new | old
    · exact (after entry new).2
    · exact (kept.logged entry old).trans position
  placed r member := by
    rw [quiet, done] at member
    obtain ⟨freq, named, placed, inside⟩ := kept.placed r (by rwa [idle])
    refine ⟨freq, (frames r.which).trans named, ?_, inside.trans position⟩
    rw [log]
    exact placed.later fun entry new => inside.trans (after entry new).1
  running r member := by
    rw [quiet] at member
    cases member
  ended r member := kept.ended r (done ▸ member)
  apart := by
    have apart := kept.apart
    rw [idle] at apart
    rwa [quiet, done]

/-- A recording starts with what was read behind a flush. -/
theorem Kept.begin (kept : Kept w conf s) (idle : s.recording = none) {freq : Number K}
    (named : freq? s r.which = some freq) (fresh : r.bufs = [])
    (bytes : r.buf.getD [] = slice w.pipe r.start (s.position - r.start))
    (inside : r.start ≤ s.position) (whole : COMPLEX64 ∣ r.start)
    (flushed : ∀ older ∈ s.done, older.stop + conf.flush ≤ r.start)
    (enough : conf.flush ≤ r.start)
    (tuned : ∀ p, r.start - conf.flush ≤ p → tunedAt s.log p = some freq) :
    Kept w conf { s with recording := some r } := by
  have all : r.bytes = r.buf.getD [] := by
    rw [Recording.bytes, fresh, List.flatten_nil, List.nil_append]
  have stop : r.stop = s.position := by
    rw [Recording.stop, all, bytes, length_slice]
    omega
  have buffers : ∀ buf ∈ r.bufs ++ r.buf.toList, COMPLEX64 ∣ buf.length := by
    rw [fresh, List.nil_append]
    intro buf member
    rw [Option.mem_toList.mp member, Option.getD_some] at bytes
    rw [bytes, length_slice]
    exact Nat.dvd_sub kept.position whole
  have placed : Placed w conf s.log freq r := by
    refine ⟨whole, buffers, ?_, enough, fun p low _ => tuned p low⟩
    rw [all, bytes, length_slice]
  refine ⟨kept.position, kept.logged, ?_, ?_, kept.ended, ?_⟩
  · intro other member
    rcases List.mem_cons.mp member with rfl | old
    · exact ⟨freq, named, placed, stop.le⟩
    · exact kept.placed other (List.mem_append_right _ old)
  · intro other member
    obtain rfl := Option.some.inj member
    refine ⟨stop, fun p above => ?_⟩
    have late : s.position ≤ p := above
    rw [tuned p (by omega)]
    exact named.symm
  · have apart := kept.apart
    rw [idle] at apart
    exact List.pairwise_cons.mpr ⟨flushed, apart⟩

/-- A round of `do_record` that goes on. -/
theorem Kept.feed (kept : Kept w conf s) (running : s.recording = some r) {buf : List UInt8}
    {heard : List K} {clock : RecordClock K} (late : List (Nat × Command K)) {position : Nat}
    (comes : r.buf = some buf ∧ position = s.position ∨
      r.buf = none ∧ buf = slice w.pipe s.position conf.flush ∧ position = s.position + conf.flush)
    (log : next.log = late ++ s.log)
    (gains : ∀ entry ∈ late, entry.1 = position ∧ ∃ pos val, entry.2 = .set_gain pos val)
    (moved : next.position = position)
    (frames : ∀ which, freq? next which = freq? s which)
    (ends : next.recording = some (fed r buf heard clock) ∧ next.done = s.done ∨
      next.recording = none ∧ next.done = fed r buf heard clock :: s.done) :
    Kept w conf next := by
  obtain ⟨freq, named, placed, inside⟩ := kept.placed r
    (List.mem_append_left _ (by rw [running]; exact List.mem_singleton_self r))
  obtain ⟨stop, tuned⟩ := kept.running r running
  have onward : ∀ p, r.stop ≤ p → tunedAt s.log p = some freq := fun p above => by
    rw [tuned p (stop ▸ above), named]
  have comes' : r.buf = some buf ∨ r.buf = none ∧ ∃ length, COMPLEX64 ∣ length ∧
      buf = slice w.pipe r.stop length := by
    rcases comes with ⟨left, _⟩ | ⟨empty, rfl, _⟩
    · exact .inl left
    · exact .inr ⟨empty, conf.flush, dvd_mul_left _ _, by rw [stop]⟩
  have longer := placed.fed heard clock comes' onward
  have ended : (fed r buf heard clock).stop = position := by
    rw [Recording.stop, bytes_fed, List.length_append]
    rw [Recording.stop, Recording.bytes, List.length_append] at stop
    rcases comes with ⟨left, rfl⟩ | ⟨empty, rfl, rfl⟩
    · rw [left, Option.getD_some] at stop
      exact stop
    · rw [empty, Option.getD_none, List.length_nil] at stop
      rw [length_slice]
      exact (Nat.add_assoc _ _ _).symm.trans (congrArg (· + conf.flush) stop)
  have reached : s.position ≤ position := by
    rcases comes with ⟨_, rfl⟩ | ⟨_, _, rfl⟩
    · exact le_rfl
    · exact Nat.le_add_right _ _
  have same (p : Nat) : tunedAt next.log p = tunedAt s.log p := by
    rw [log]
    clear log
    induction late with
    | nil => rfl
    | cons entry late ih =>
        obtain ⟨_, pos, val, command⟩ := gains entry List.mem_cons_self
        obtain ⟨q, _⟩ := entry
        obtain rfl := command
        exact ih fun other member => gains other (List.mem_cons_of_mem _ member)
  have list : next.recording.toList ++ next.done = fed r buf heard clock :: s.done := by
    rcases ends with ⟨running', done⟩ | ⟨idle, done⟩
    · rw [running', done]
      rfl
    · rw [idle, done]
      rfl
  have apart := kept.apart
  rw [running] at apart
  obtain ⟨older, rest⟩ := List.pairwise_cons.mp apart
  refine ⟨?_, ?_, ?_, ?_, ?_, ?_⟩
  · rw [moved]
    rcases comes with ⟨_, rfl⟩ | ⟨_, _, rfl⟩
    · exact kept.position
    · exact dvd_add kept.position (dvd_mul_left _ _)
  · intro entry member
    rw [log] at member
    rcases List.mem_append.mp member with new | old
    · rw [moved, (gains entry new).1]
    · rw [moved]
      exact (kept.logged entry old).trans reached
  · intro other member
    rw [list] at member
    rcases List.mem_cons.mp member with rfl | old
    · refine ⟨freq, (frames r.which).trans named, ?_, by rw [ended, moved]⟩
      exact ⟨longer.start, longer.buffers, longer.bytes, longer.flushed, fun p low high => by
        rw [same p]
        exact longer.tuned p low high⟩
    · obtain ⟨freq', named', placed', inside'⟩ := kept.placed other (List.mem_append_right _ old)
      refine ⟨freq', (frames _).trans named', ?_, (inside'.trans reached).trans moved.ge⟩
      rw [log]
      exact placed'.later fun entry new => by
        rw [(gains entry new).1]
        exact inside'.trans reached
  · intro other member
    rcases ends with ⟨running', _⟩ | ⟨idle, _⟩
    · rw [running'] at member
      obtain rfl := Option.some.inj member
      refine ⟨ended.trans moved.symm, fun p above => ?_⟩
      rw [same p, tuned p (reached.trans (moved ▸ above))]
      exact (frames r.which).symm
    · rw [idle] at member
      cases member
  · intro other member
    rcases ends with ⟨_, done⟩ | ⟨_, done⟩
    · exact kept.ended other (done ▸ member)
    · rw [done] at member
      rcases List.mem_cons.mp member with rfl | old
      · rfl
      · exact kept.ended other old
  · rw [list]
    exact List.pairwise_cons.mpr ⟨older, rest⟩

theorem Starts.kept (starts : Starts conf s) : Kept w conf s where
  position := by
    rw [starts.position]
    exact dvd_zero _
  logged entry member := by
    rw [starts.log] at member
    cases member
  placed r member := by
    rw [starts.recording, starts.done] at member
    cases member
  running r member := by
    rw [starts.recording] at member
    cases member
  ended r member := by
    rw [starts.done] at member
    cases member
  apart := by
    rw [starts.recording, starts.done]
    exact .nil

/-- What stands in the log after a tune, as long as only gains follow. -/
theorem tunedAt_tune {freq : Number K} {q p : Nat} (log : List (Nat × Command K)) (above : q ≤ p) :
    tunedAt ((q, .tune freq) :: log) p = some freq := if_pos above

end Recordings

section Rounds

variable [Field K] {w : World C K} {conf : Settings K}

theorem Kept.do_record (kept : Kept w conf s) (idle : s.recording = none) {which : Which}
    {frame : Frame K} (named : s.frame? which = some frame) {peaks : List (Peak K)}
    {buf : Option (List UInt8)} {start : Nat} {clock : WorkClock K}
    (bytes : buf.getD [] = slice w.pipe start (s.position - start))
    (inside : start ≤ s.position) (whole : COMPLEX64 ∣ start)
    (flushed : ∀ older ∈ s.done, older.stop + conf.flush ≤ start) (enough : conf.flush ≤ start)
    (tuned : ∀ p, start - conf.flush ≤ p → tunedAt s.log p = some frame.freq) :
    Kept w conf (s.do_record which peaks buf start frame clock) := by
  rw [KukurukuScanner.do_record]
  split_ifs
  · exact kept
  · exact kept.begin idle (by rw [freq?, named, Option.map_some]) rfl bytes inside whole flushed
      enough tuned

theorem Kept.record_long (kept : Kept w conf s) (idle : s.recording = none) {idx : Nat}
    {cronframe : Frame K} (named : s.frame? (.cron idx) = some cronframe)
    {clock : WorkClock K} : Kept w conf (s.record_long w conf idx cronframe clock) := by
  have older : ∀ r ∈ s.done, r.stop ≤ s.position := fun r member => by
    obtain ⟨_, _, _, inside⟩ := kept.placed r (List.mem_append_right _ member)
    exact inside
  have flushed : Kept w conf ((s.tune cronframe.freq).sdrflush w.pipe conf.bufsize) := by
    refine kept.advance idle [(s.position, .tune cronframe.freq)] rfl ?_
      (Nat.le_add_right _ _) (dvd_add kept.position (dvd_mul_left _ _)) (fun _ => rfl) idle rfl
    intro entry member
    obtain rfl := List.mem_singleton.mp member
    exact ⟨le_rfl, Nat.le_add_right _ _⟩
  have named : ((s.tune cronframe.freq).sdrflush w.pipe conf.bufsize).frame? (.cron idx) =
      some cronframe := named
  refine flushed.do_record idle named ?_ le_rfl flushed.position
    (fun r member => Nat.add_le_add_right (older r member) _) (Nat.le_add_left _ _) ?_
  · rw [Nat.sub_self]
    rfl
  · intro p above
    exact tunedAt_tune _ ((Nat.le_sub_of_add_le le_rfl).trans above)

variable [LinearOrder K] [FloorRing K]

theorem Kept.scan (kept : Kept w conf s) (idle : s.recording = none) {idx : Nat}
    {frame : Frame K} (named : s.frame? (.scan idx) = some frame) {clock : WorkClock K}
    (step : s.scan w conf idx frame clock = some next) : Kept w conf next := by
  have older : ∀ r ∈ s.done, r.stop ≤ s.position := fun r member => by
    obtain ⟨_, _, _, inside⟩ := kept.placed r (List.mem_append_right _ member)
    exact inside
  have start : COMPLEX64 ∣ s.position + conf.flush := dvd_add kept.position (dvd_mul_left _ _)
  have stop := dvd_add start (eight_dvd_scanned conf clock)
  have reached : s.position ≤ s.position + conf.flush + scanned conf clock := by omega
  obtain ⟨_, ⟨gain, _, _, rfl⟩ | ⟨_, peaks, _, _, _, _, rfl⟩⟩ := scan_cases step
  · refine kept.advance idle [(s.position + conf.flush + scanned conf clock,
        .set_gain conf.messgain gain), (s.position, .set_gain conf.messgain frame.gain),
        (s.position, .tune frame.freq)] rfl ?_ reached stop (freq?_putGain _ · gain)
      (by rw [← idle]; exact putGain_recording _ _) (putGain_done _ _)
    intro entry member
    simp only [List.mem_cons, List.not_mem_nil, or_false] at member
    rcases member with rfl | rfl | rfl
    · exact ⟨reached, le_rfl⟩
    · exact ⟨le_rfl, reached⟩
    · exact ⟨le_rfl, reached⟩
  · let read : KukurukuScanner K := { s with
      position := s.position + conf.flush + scanned conf clock
      log := scanLog conf s frame }
    have named : read.frame? (.scan idx) = some frame := named
    have kept : Kept w conf read := by
      refine kept.advance idle [(s.position, .set_gain conf.messgain frame.gain),
        (s.position, .tune frame.freq)] rfl ?_ reached stop (fun _ => rfl) idle rfl
      intro entry member
      simp only [List.mem_cons, List.not_mem_nil, or_false] at member
      rcases member with rfl | rfl
      · exact ⟨le_rfl, reached⟩
      · exact ⟨le_rfl, reached⟩
    refine kept.do_record idle named ?_ (Nat.le_add_right _ _) start
      (fun r member => Nat.add_le_add_right (older r member) _) (Nat.le_add_left _ _) ?_
    · rw [Option.getD_some, Nat.add_sub_cancel_left]
    · intro p above
      exact tunedAt_tune _ ((Nat.le_sub_of_add_le le_rfl).trans above)

theorem Kept.record (kept : Kept w conf s) {r : Recording K} (running : s.recording = some r)
    {frame : Frame K} {clock : RecordClock K} (step : s.record w conf r frame clock = some next) :
    Kept w conf next := by
  obtain ⟨buf, heard, read, took, ends⟩ := record_cases step
  obtain ⟨position, comes, moved, rfl⟩ : ∃ position,
      (r.buf = some buf ∧ position = s.position ∨ r.buf = none ∧
        buf = slice w.pipe s.position conf.flush ∧ position = s.position + conf.flush) ∧
      read.position = position ∧ read = { s with position := position } := by
    rcases nextBuffer_cases took with ⟨left, _, rfl⟩ | ⟨empty, rfl, _, rfl⟩
    · exact ⟨_, .inl ⟨left, rfl⟩, rfl, rfl⟩
    · exact ⟨_, .inr ⟨empty, rfl, rfl⟩, rfl, rfl⟩
  rcases ends with ⟨_, rfl⟩ | ⟨_, _, gain, _, rfl⟩
  · exact kept.feed running [] comes rfl nofun rfl (fun _ => rfl) (.inr ⟨rfl, rfl⟩)
  · refine kept.feed running [(position, .set_gain conf.messgain gain)] comes rfl ?_
      (putGain_position _ _) (freq?_putGain _ · gain) (.inl ⟨rfl, putGain_done _ _⟩)
    intro entry member
    obtain rfl := List.mem_singleton.mp member
    exact ⟨rfl, _, _, rfl⟩

theorem Kept.step (kept : Kept w conf s) {act : Act K}
    (step : (machine w conf).step? s act = some next) : Kept w conf next := by
  cases act with
  | work clock =>
      have step : (if s.recording.isNone then s.work w conf clock else none) = some next := step
      split_ifs at step with idle
      rw [Option.isNone_iff_eq_none] at idle
      rw [work] at step
      split at step
      · rename_i k due
        obtain ⟨cronframe, named, rfl⟩ := Option.map_eq_some_iff.mp step
        exact kept.record_long idle named
      · split_ifs at step with empty
        · obtain rfl := Option.some.inj step
          exact kept
        · obtain ⟨frame, named, step⟩ := Option.bind_eq_some_iff.mp step
          exact kept.scan idle named step
  | record clock =>
      obtain ⟨r, running, step⟩ := Option.bind_eq_some_iff.mp step
      obtain ⟨frame, _, step⟩ := Option.bind_eq_some_iff.mp step
      exact kept.record running step

theorem kept_of_reachable (reach : (machine w conf).Reachable Machine.Any s) : Kept w conf s :=
  reach.invariant (fun s (starts : Starts conf s) => starts.kept)
    fun _ _ _ kept _ step => kept.step step

end Rounds

/-! ## Some nights -/

section Night

/-- A signal while `on` holds of a sample, in two bins of the windows that begin there.
The first minute of the hour comes after 100 seconds. -/
def night (on : Nat → Bool) : World UInt8 Rat where
  pipe p := if p % 8 = 0 then (if on (p / 8) then 1 else 0) else 7
  fft := ⟨fun bytes => bytes.headD 0,
    fun window bin => if window.head? = some 1 ∧ (bin = 1 ∨ bin = 2) then 10 else 0⟩
  float32 bytes := if bytes.head? = some 1 then 1 else 0
  sha256 := List.length
  fromtimestamp t := if t < 100 then ⟨30, 0, 1, 1, 0⟩ else ⟨0, 1, 1, 1, 0⟩

def small : Settings Rat where
  timing := ⟨2, 0, 8⟩
  windows := ⟨8, 1, by decide⟩
  bufsize := 16
  minw := .int 1
  maxw := .int 4
  filtermargin := 1
  messgain := 1
  defaultgain := 30
  limits := ⟨10, 49⟩
  nonce := []
  blacklist := []
  archivelist := []

/-- A frame with one channel. -/
def single (stickactivity : Bool) : Frame Rat :=
  ⟨.int 100, 1 / 2, stickactivity, 5, 3, 5, 30, [⟨.int 102, .int 2, none⟩]⟩

/-- A frame to be scanned, which sticks to activity, and one scheduled for every hour. -/
def fresh (stickactivity : Bool) : KukurukuScanner Rat where
  scanframes := [single true]
  cronframes := [⟨single stickactivity, "0 * * * *".toList⟩]
  position := 0
  recording := none
  log := []
  done := []

theorem fresh_starts (stickactivity : Bool) : Starts small (fresh stickactivity) where
  scanframes _ member := by rw [List.mem_singleton.mp member]; rfl
  cronframes _ member := by rw [List.mem_singleton.mp member]; rfl
  position := rfl
  recording := rfl
  log := rfl
  done := rfl

/-- Samples with a signal: where the second scan looks, in the next buffer, and in the
first buffer of the scheduled recording. -/
def station (sample : Nat) : Bool :=
  decide (48 ≤ sample ∧ sample < 80 ∨ 128 ≤ sample ∧ sample < 144)

/-- All readings of a round of `work` at one time. -/
def look (time : Rat) : Act Rat := .work ⟨fun _ => time, time, time, time, time⟩

/-- All readings of a round of a recording at one time. -/
def listen (time : Rat) : Act Rat := .record ⟨fun _ => time, time⟩

/-- A scan without a signal; one with a signal, whose recording hears it once more and ends
three seconds later; and the scheduled recording of five seconds. -/
def nightActs : List (Act Rat) :=
  [look 0, look 2, listen 4, listen 5, listen 8, listen 9, look 100, listen 105, listen 106]

theorem exists_night : ∃ s, (machine (night station) small).Run Machine.Any (fresh false)
    nightActs s ∧ s.done.length = 2 := by
  have ran : ((machine (night station) small).run? (fresh false) nightActs).any
      (fun s => s.done.length == 2) = true := by
    decide +kernel
  obtain ⟨s, found, two⟩ := (Option.any_eq_true _ _).mp ran
  exact ⟨s, .of_run? found, beq_iff_eq.mp two⟩

theorem kept_of_reachable_night : ∃ s, s.done.length = 2 ∧ Kept (night station) small s := by
  obtain ⟨s, run, two⟩ := exists_night
  exact ⟨s, two, kept_of_reachable ⟨fresh false, nightActs, fresh_starts false, run⟩⟩

end Night

end Kukuruku.Scanner.Work
