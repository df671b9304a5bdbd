import Kukuruku.Scanner.WorkRuns

/-!
# A band without signals

If the bins of the windows never differ by more than the threshold of a frame, the
scanner records nothing but its schedule.
-/

namespace Kukuruku.Scanner.Work

open Fir
open Kukuruku.Scanner.FindPeaks
open Kukuruku.Scanner.Activity
open Kukuruku.Scanner.ChannelAssignment
open Kukuruku.Scanner.Power
open Kukuruku.Scanner.Schedule
open KukurukuScanner

variable {C : Type*} {K : Type} {s next : KukurukuScanner K}

section Gains

theorem listed_putGain (which : Which) (gain : Int) :
    (s.putGain which gain).recording.toList ++ (s.putGain which gain).done =
      s.recording.toList ++ s.done := by
  rw [putGain_recording, putGain_done]

variable [Field K] [LinearOrder K] {lo hi : K}

/-- The gains of the frames change, their thresholds do not. -/
theorem sql_putGain (spread : ∀ which, ∀ frame ∈ s.frame? which, hi - lo ≤ frame.sql)
    (which : Which) (gain : Int) :
    ∀ other, ∀ frame ∈ (s.putGain which gain).frame? other, hi - lo ≤ frame.sql := by
  intro other frame found
  rw [frame?_putGain] at found
  obtain ⟨old, place, rfl⟩ := Option.map_eq_some_iff.mp found
  split_ifs
  · exact spread other old place
  · exact spread other old place

end Gains

section Low

variable [LinearOrder K] {acc : List K} {floor : K}

theorem checkBins_of_low (low : ∀ x ∈ acc, x ≤ floor) (bins : List Int) :
    (checkBins acc floor bins).result ≠ some true := by
  induction bins with
  | nil =>
      intro same
      cases same
  | cons i bins ih =>
      rw [checkBins]
      split
      · intro same
        cases same
      · rename_i power found
        obtain ⟨place, at_i⟩ := PythonList.index?_eq_some found
        rw [if_neg (not_lt.mpr (low power (List.mem_of_getElem? at_i)))]
        exact ih

variable [Field K] {conf : FindPeaks.Conf K}

/-- Without a bin above the floor there is no peak. -/
theorem find_peaks_of_low (low : ∀ x ∈ acc, x ≤ floor) {peaks : List (Peak K)}
    (found : find_peaks conf acc floor = some peaks) : peaks = [] := by
  rw [find_peaks] at found
  split_ifs at found
  obtain rfl := Option.some.inj found
  have nothing : (List.range' 1 (acc.length - 1)).filterMap (reported conf acc floor) = [] := by
    refine List.filterMap_eq_nil_iff.mpr fun b member => if_neg ?_
    rintro ⟨fall, _⟩
    obtain ⟨positive, inside⟩ := List.mem_range'_1.mp member
    have before : b - 1 < acc.length := by omega
    have quiet := low _ (List.getElem_mem before)
    have loud : floor < acc.getD (b - 1) 0 := fall.2
    rw [List.getD_eq_getElem?_getD, List.getElem?_eq_getElem before, Option.getD_some] at loud
    exact absurd loud (not_lt.mpr quiet)
  rw [scanned_eq, nothing, List.map_nil]

end Low

section Flat

variable [Field K] [LinearOrder K] [FloorRing K] (w : World C K) (conf : Settings K)

/-- The powers in the windows of the pipe lie between two bounds, from whichever sample on
they are taken. -/
def Between (lo hi : K) : Prop :=
  ∀ start length, COMPLEX64 ∣ start →
    ∀ window ∈ windows w.fft conf.windows (slice w.pipe start length),
      ∀ bin, bin < conf.windows.fftw →
        lo ≤ w.fft.power window bin ∧ w.fft.power window bin ≤ hi

/-- No recording but those of the schedule, and no peak of them is heard in any of their
buffers. -/
structure Unheard (s : KukurukuScanner K) : Prop where
  scheduled : ∀ r ∈ s.recording.toList ++ s.done, ∃ idx, r.which = .cron idx
  still : ∀ r ∈ s.recording.toList ++ s.done, r.lastact = r.began.lastact
  silent : ∀ r ∈ s.recording.toList ++ s.done, ∀ frame ∈ s.frame? r.which, ∀ buf ∈ r.bufs,
    ∀ peak ∈ r.peaks, hears w conf frame buf peak ≠ some true

/-- What holds between two rounds. -/
structure Calm (lo hi : K) (s : KukurukuScanner K) : Prop where
  unheard : Unheard w conf s
  read : ∀ r ∈ s.recording, r.buf = none
  spread : ∀ which, ∀ frame ∈ s.frame? which, hi - lo ≤ frame.sql

variable {w conf}

theorem Starts.unheard (starts : Starts conf s) : Unheard w conf s := by
  have none : s.recording.toList ++ s.done = [] := by rw [starts.recording, starts.done]; rfl
  refine ⟨fun r member => ?_, fun r member => ?_, fun r member => ?_⟩ <;>
  · rw [none] at member
    cases member

/-- The gain of a frame has no part in it. -/
theorem silent_putGain {r : Recording K} (silent : ∀ frame ∈ s.frame? r.which, ∀ buf ∈ r.bufs,
    ∀ peak ∈ r.peaks, hears w conf frame buf peak ≠ some true) (which : Which) (gain : Int) :
    ∀ frame ∈ (s.putGain which gain).frame? r.which, ∀ buf ∈ r.bufs, ∀ peak ∈ r.peaks,
      hears w conf frame buf peak ≠ some true := by
  intro frame found
  rw [frame?_putGain] at found
  obtain ⟨old, place, rfl⟩ := Option.map_eq_some_iff.mp found
  have before := silent old place
  split_ifs
  · exact before
  · exact before

variable [IsStrictOrderedRing K] {lo hi : K}

/-- The threshold of a frame is above all bins of a buffer, whichever of them is taken
for the floor. -/
theorem compared_low (two : 2 ≤ conf.windows.fftw) (between : Between w conf lo hi) {sql : K}
    (spread : hi - lo ≤ sql) {start length : Nat} (whole : COMPLEX64 ∣ start)
    {spectrum : Spectrum K}
    (computed : compute_spectrum w.fft conf.windows (slice w.pipe start length) = some spectrum)
    {floor q : K}
    (found : percentile conf.peaks (compared conf.windows.fftw sql spectrum).1 q = some floor) :
    ∀ x ∈ (compared conf.windows.fftw sql spectrum).1,
      x ≤ floor + (compared conf.windows.fftw sql spectrum).2 := by
  rw [compute_spectrum_eq] at computed
  obtain rfl := Option.some.inj computed
  have member := percentile_mem found
  intro x other
  split_ifs at member other ⊢ with short
  · have zero := List.eq_of_mem_replicate other
    have level := List.eq_of_mem_replicate member
    rw [zero, level]
    exact (add_zero (0 : K)).ge
  · have some : windows w.fft conf.windows (slice w.pipe start length) ≠ [] :=
      (windows_eq_nil_iff w.fft conf.windows).not.mpr short
    have levels : ∀ i, i < conf.windows.fftw →
        lo ≤ level w.fft conf.windows (slice w.pipe start length) i ∧
          level w.fft conf.windows (slice w.pipe start length) i ≤ hi := fun i _ =>
      average_bounds some fun window inside =>
        between start length whole window inside _ (Nat.mod_lt _ (by omega))
    have bounds := (smooth_describes w.fft conf.windows _ two).bounds levels
    have low := (bounds floor member).1
    have high := (bounds x other).2
    have sum : hi ≤ floor + sql := by linarith
    exact high.trans sum

theorem detect_eq_nil (two : 2 ≤ conf.windows.fftw) (between : Between w conf lo hi)
    {frame : Frame K} (spread : hi - lo ≤ frame.sql) {start length : Nat}
    (whole : COMPLEX64 ∣ start) {peaks : List (Peak K)}
    (found : detect w conf frame (slice w.pipe start length) = some peaks) : peaks = [] := by
  obtain ⟨spectrum, computed, found⟩ := Option.bind_eq_some_iff.mp found
  obtain ⟨floor, level, found⟩ := Option.bind_eq_some_iff.mp found
  obtain ⟨all, raised, found⟩ := Option.bind_eq_some_iff.mp found
  obtain rfl := find_peaks_of_low (compared_low two between spread whole computed level) raised
  exact (Option.some.inj found).symm

theorem not_hears (two : 2 ≤ conf.windows.fftw) (between : Between w conf lo hi)
    {frame : Frame K} (spread : hi - lo ≤ frame.sql) {start length : Nat}
    (whole : COMPLEX64 ∣ start) (peak : Peak K) :
    hears w conf frame (slice w.pipe start length) peak ≠ some true := by
  intro heard
  obtain ⟨spectrum, computed, heard⟩ := Option.bind_eq_some_iff.mp heard
  have result : (check_activity conf.peaks (compared conf.windows.fftw frame.sql spectrum).1 peak
      frame.floor (compared conf.windows.fftw frame.sql spectrum).2).result = some true := heard
  rw [check_activity] at result
  split at result
  · cases result
  · rename_i floor level
    split_ifs at result
    exact checkBins_of_low (compared_low two between spread whole computed level) _ result

theorem activity_eq_nil (two : 2 ≤ conf.windows.fftw) (between : Between w conf lo hi)
    {frame : Frame K} (spread : hi - lo ≤ frame.sql) {start length : Nat}
    (whole : COMPLEX64 ∣ start) {clock : Nat → K} {peaks : List (Peak K)} {heard : List K}
    (found : activity w conf frame (slice w.pipe start length) clock peaks = some heard) :
    heard = [] := by
  refine List.eq_nil_iff_forall_not_mem.mpr fun time member => ?_
  obtain ⟨_, peak, _, loud, _⟩ := (mem_activity found time).mp member
  exact not_hears two between spread whole peak loud

theorem Calm.work (two : 2 ≤ conf.windows.fftw) (between : Between w conf lo hi)
    (calm : Calm w conf lo hi s) (kept : Kept w conf s) (idle : s.recording = none)
    {clock : WorkClock K} (step : s.work w conf clock = some next) : Calm w conf lo hi next := by
  obtain ⟨unheard, read, spread⟩ := calm
  rw [KukurukuScanner.work] at step
  split at step
  · obtain ⟨cronframe, named, rfl⟩ := Option.map_eq_some_iff.mp step
    rw [record_long, do_record]
    split_ifs
    · exact ⟨⟨unheard.scheduled, unheard.still, unheard.silent⟩, read, spread⟩
    · refine ⟨⟨fun r member => ?_, fun r member => ?_, fun r member => ?_⟩,
        fun r member => Option.some.inj member ▸ rfl, spread⟩
      · rcases List.mem_cons.mp member with rfl | old
        · exact ⟨_, rfl⟩
        · exact unheard.scheduled r (List.mem_append_right _ old)
      · rcases List.mem_cons.mp member with rfl | old
        · rfl
        · exact unheard.still r (List.mem_append_right _ old)
      · rcases List.mem_cons.mp member with rfl | old
        · exact fun _ _ _ none => absurd none List.not_mem_nil
        · exact unheard.silent r (List.mem_append_right _ old)
  · split_ifs at step
    · obtain rfl := Option.some.inj step
      exact ⟨unheard, read, spread⟩
    · obtain ⟨frame, named, step⟩ := Option.bind_eq_some_iff.mp step
      have whole : COMPLEX64 ∣ s.position + conf.flush := dvd_add kept.position (dvd_mul_left _ _)
      obtain ⟨_, ⟨gain, _, _, rfl⟩ | ⟨found, _, detected, nonempty, _⟩⟩ := scan_cases step
      · refine ⟨⟨fun r member => ?_, fun r member => ?_, fun r member => ?_⟩, fun r member => ?_,
          sql_putGain spread _ gain⟩
        · exact unheard.scheduled r (listed_putGain _ gain ▸ member)
        · exact unheard.still r (listed_putGain _ gain ▸ member)
        · exact silent_putGain (unheard.silent r (listed_putGain _ gain ▸ member)) _ gain
        · have running : s.recording = some r := (putGain_recording _ gain).symm.trans member
          cases idle.symm.trans running
      · exact absurd (detect_eq_nil two between (spread _ frame named) whole detected) nonempty

theorem Calm.record (two : 2 ≤ conf.windows.fftw) (between : Between w conf lo hi)
    (calm : Calm w conf lo hi s) (kept : Kept w conf s) {r : Recording K}
    (running : s.recording = some r) {frame : Frame K} (named : s.frame? r.which = some frame)
    {clock : RecordClock K} (step : s.record w conf r frame clock = some next) :
    Calm w conf lo hi next := by
  obtain ⟨unheard, read, spread⟩ := calm
  obtain ⟨buf, heard, after, took, ends⟩ := record_cases step
  have known : r ∈ s.recording.toList ++ s.done := by
    rw [running]
    exact List.mem_cons_self
  obtain ⟨rfl, rfl, position, rfl⟩ : heard = [] ∧ buf = slice w.pipe s.position conf.flush ∧
      ∃ position, after = { s with position := position } := by
    rcases nextBuffer_cases took with ⟨left, _, _⟩ | ⟨_, rfl, active, rfl⟩
    · exact nomatch (read r running).symm.trans left
    · refine ⟨?_, rfl, _, rfl⟩
      split_ifs at active
      · exact activity_eq_nil two between (spread _ frame named) kept.position active
      · exact active
  have scheduled : ∀ other ∈ fed r (slice w.pipe s.position conf.flush) [] clock :: s.done,
      ∃ idx, other.which = .cron idx := by
    intro other member
    rcases List.mem_cons.mp member with rfl | old
    · exact unheard.scheduled r known
    · exact unheard.scheduled other (List.mem_append_right _ old)
  have still : ∀ other ∈ fed r (slice w.pipe s.position conf.flush) [] clock :: s.done,
      other.lastact = other.began.lastact := by
    intro other member
    rcases List.mem_cons.mp member with rfl | old
    · exact unheard.still r known
    · exact unheard.still other (List.mem_append_right _ old)
  have silent : ∀ other ∈ fed r (slice w.pipe s.position conf.flush) [] clock :: s.done,
      ∀ frame ∈ s.frame? other.which, ∀ buf ∈ other.bufs, ∀ peak ∈ other.peaks,
        hears w conf frame buf peak ≠ some true := by
    intro other member frame found buf inside peak among
    rcases List.mem_cons.mp member with rfl | old
    · rcases List.mem_append.mp inside with before | now
      · exact unheard.silent r known frame found buf before peak among
      · obtain rfl := List.mem_singleton.mp now
        exact not_hears two between (spread _ frame found) kept.position peak
    · exact unheard.silent other (List.mem_append_right _ old) frame found buf inside peak among
  rcases ends with ⟨_, rfl⟩ | ⟨_, _, gain, _, same⟩
  · exact ⟨⟨scheduled, still, silent⟩, nofun, spread⟩
  · have frames : ∀ which, next.frame? which = (s.putGain r.which gain).frame? which := by
      rw [same]
      exact fun which => frame?_goesOn r.which which gain position _ _
    have listed : next.recording.toList ++ next.done =
        fed r (slice w.pipe s.position conf.flush) [] clock :: s.done := by
      rw [same]
      exact congrArg (_ :: ·) (putGain_done _ _)
    refine ⟨⟨?_, ?_, ?_⟩, fun other member => ?_, fun which => ?_⟩
    · rwa [listed]
    · rwa [listed]
    · intro other member
      rw [frames]
      rw [listed] at member
      exact silent_putGain (silent other member) r.which gain
    · rw [same] at member
      exact Option.some.inj member ▸ rfl
    · rw [frames]
      exact sql_putGain spread r.which gain which

theorem Calm.step (two : 2 ≤ conf.windows.fftw) (between : Between w conf lo hi)
    (calm : Calm w conf lo hi s) (kept : Kept w conf s) {act : Act K}
    (step : (machine w conf).step? s act = some next) : Calm w conf lo hi next := by
  cases act with
  | work clock =>
      have step : (if s.recording.isNone then s.work w conf clock else none) = some next := step
      split_ifs at step with idle
      exact calm.work two between kept (Option.isNone_iff_eq_none.mp idle) step
  | record clock =>
      obtain ⟨r, running, step⟩ := Option.bind_eq_some_iff.mp step
      obtain ⟨frame, named, step⟩ := Option.bind_eq_some_iff.mp step
      exact calm.record two between kept running named step

/-- Over any run, a band whose bins lie within the thresholds of the frames is left
alone. -/
theorem unheard_of_run (two : 2 ≤ conf.windows.fftw) (between : Between w conf lo hi)
    (starts : Starts conf s) (spread : ∀ which, ∀ frame ∈ s.frame? which, hi - lo ≤ frame.sql)
    {acts : List (Act K)} (run : (machine w conf).Run Machine.Any s acts next) :
    Unheard w conf next := by
  have preserve : ∀ s act next, Kept w conf s ∧ Calm w conf lo hi s → Machine.Any s act →
      (machine w conf).step? s act = some next → Kept w conf next ∧ Calm w conf lo hi next :=
    fun _ _ _ held _ step => ⟨held.1.step step, held.2.step two between held.1 step⟩
  have idle : ∀ r ∈ s.recording, r.buf = none := by
    rw [starts.recording]
    exact nofun
  exact (run.invariant preserve ⟨starts.kept, starts.unheard, idle, spread⟩).2.unheard

end Flat

/-! ## A night without signals -/

section Hiss

/-- Every third sample is louder, and what is no sample would be louder still. -/
def hiss : World UInt8 Rat :=
  { night fun sample => decide (sample % 3 = 0) with
    fft := ⟨fun bytes => bytes.headD 0, fun window bin =>
      if window.head? = some 7 then 10 * bin
      else if window.head? = some 1 ∧ bin % 2 = 0 then 2 else 0⟩ }

/-- A window begins with the first byte of a sample. -/
theorem head_of_windows {start length : Nat} (whole : COMPLEX64 ∣ start) {window : List UInt8}
    (member : window ∈ windows hiss.fft small.windows (slice hiss.pipe start length)) :
    window.head? ≠ some 7 := by
  obtain ⟨offset, inside, rfl⟩ := List.mem_map.mp member
  have below := offset_inside inside
  rw [length_slice] at below
  have sample : COMPLEX64 ∣ start + offset := by
    rw [Windows.offsets, stride_eq_map_range] at inside
    obtain ⟨k, _, rfl⟩ := List.mem_map.mp inside
    rw [Nat.zero_add]
    exact dvd_add whole ((dvd_mul_left _ _).mul_left k)
  have first : (slice hiss.pipe start length)[offset]? = some (hiss.pipe (start + offset)) := by
    rw [slice, List.getElem?_map, List.getElem?_range (by omega), Option.map_some]
  have byte : hiss.pipe (start + offset) = 0 ∨ hiss.pipe (start + offset) = 1 := by
    have place : hiss.pipe (start + offset) =
        if decide ((start + offset) / 8 % 3 = 0) then 1 else 0 :=
      if_pos (Nat.dvd_iff_mod_eq_zero.mp sample)
    rw [place]
    split_ifs
    · exact .inr rfl
    · exact .inl rfl
  have head : (((slice hiss.pipe start length).drop (offset + 0 * COMPLEX64)).take
      COMPLEX64).headD 0 = hiss.pipe (start + offset) := by
    rw [List.headD_eq_head?_getD, List.head?_take, if_neg (by decide), List.head?_drop,
      Nat.zero_mul, Nat.add_zero, first, Option.getD_some]
  intro seven
  have same : hiss.pipe (start + offset) = 7 := head.symm.trans (Option.some.inj seven)
  rcases byte with zero | one
  · exact absurd (zero.symm.trans same) (by decide)
  · exact absurd (one.symm.trans same) (by decide)

theorem between_hiss : Between hiss small 0 2 := by
  intro start length whole window member bin _
  have power : hiss.fft.power window bin =
      if window.head? = some 1 ∧ bin % 2 = 0 then 2 else 0 :=
    if_neg (head_of_windows whole member)
  rw [power]
  split_ifs
  · exact ⟨zero_le_two, le_rfl⟩
  · exact ⟨le_rfl, zero_le_two⟩

/-- A scan, and the scheduled recording, which listens twice. -/
def hissActs : List (Act Rat) := [look 0, look 100, listen 101, listen 104]

theorem unheard_of_run_hiss : ∃ s, (machine hiss small).Run Machine.Any (fresh true) hissActs s ∧
    s.done.length = 1 ∧ Unheard hiss small s := by
  have ran : ((machine hiss small).run? (fresh true) hissActs).any
      (fun s => s.done.length == 1) = true := by
    decide +kernel
  obtain ⟨s, found, one⟩ := (Option.any_eq_true _ _).mp ran
  have run := Machine.Run.of_run? found
  have spread : ∀ which, ∀ frame ∈ (fresh true).frame? which, (2 : Rat) - 0 ≤ frame.sql := by
    intro which frame found
    have same : frame = single true := by
      cases which with
      | scan idx => exact List.mem_singleton.mp (List.mem_of_getElem? found)
      | cron idx =>
          obtain ⟨cronframe, place, rfl⟩ := Option.map_eq_some_iff.mp found
          rw [List.mem_singleton.mp (List.mem_of_getElem? place)]
    rw [same]
    decide +kernel
  exact ⟨s, run, beq_iff_eq.mp one,
    unheard_of_run (by decide) between_hiss (fresh_starts true) spread run⟩

end Hiss

end Kukuruku.Scanner.Work
