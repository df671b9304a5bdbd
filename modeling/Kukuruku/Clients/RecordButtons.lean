import Kukuruku.Clients.RecordRequest

/-!
# The buttons for recording

`on_record` and `on_dump` of the client's window ask the server to record, and ask it
to stop by a request for frames that are long past.  Their icons tell which of both
the next click will be.  No other client records meanwhile; requests are on their way
in the order of the clicks.
-/

namespace Kukuruku.Clients.RecordButtons

open Kukuruku.Server (INT32_MIN INT32_MAX INT32_range WRITE_FRAMES_SYNC)
open Kukuruku.Server.Messages (CliMsg)
open Kukuruku.Server.SdrReader
open Kukuruku.Clients.RecordRequest (record handle)

variable {D : Type*}

/-! ## The window and the server -/

inductive Icon where
  | media_record
  | document_save
  | media_playback_stop
deriving DecidableEq

structure Window where
  tb_record : Icon
  tb_dump : Icon
  fftframes : List Int
  bufsize : Int

/-- `sent` are the requests on their way. -/
structure Desktop (D : Type*) where
  window : Window
  sent : List CliMsg
  sdr : Sdr D

/-- `shown` and `informed` are changes by `fft_cb` and `info_cb`. -/
inductive Click (D : Type*) where
  | on_record
  | on_dump
  | shown (fftframes : List Int)
  | informed (bufsize : Int)
  | deliver (now : Int)
  | reader (act : Act D)

namespace Desktop

variable (s : Desktop D)

/-- Queue a request and set both icons; a number that does not fit raises before. -/
def request (startframe duration : Int) (tb_record tb_dump : Icon) : Option (Desktop D) :=
  (record startframe duration).map fun msg =>
    { s with
      window := { s.window with tb_record := tb_record, tb_dump := tb_dump }
      sent := s.sent ++ [msg] }

def stop_record : Option (Desktop D) := s.request (-1) (-10) .media_record .document_save

/-- Record button pressed. -/
def on_record : Option (Desktop D) :=
  if s.window.tb_record = .media_record then
    s.request (-1) (2 ^ 31 - 1) .media_playback_stop .media_playback_stop
  else s.stop_record

/-- Dump button pressed; without a frame `max` raises. -/
def on_dump : Option (Desktop D) :=
  if s.window.tb_dump = .document_save then
    s.window.fftframes.max?.bind fun cur =>
      s.request (cur - s.window.bufsize) (2 ^ 31 - 1) .media_playback_stop .media_playback_stop
  else s.stop_record

def step? : Click D → Option (Desktop D)
  | .on_record => s.on_record
  | .on_dump => s.on_dump
  | .shown fftframes => some { s with window := { s.window with fftframes := fftframes } }
  | .informed bufsize => some { s with window := { s.window with bufsize := bufsize } }
  | .deliver now =>
      match s.sent with
      | [] => none
      | msg :: sent => (handle s.sdr now msg).map fun sdr => { s with sent := sent, sdr := sdr }
  | .reader (.RECORD_START _ _ _) | .reader .RECORD_STOP => none
  | .reader act => (s.sdr.step? act).map fun sdr => { s with sdr := sdr }

end Desktop

def buttons (D : Type*) : Machine (Desktop D) (Click D) where
  Initial s := s.window.tb_record = .media_record ∧ s.window.tb_dump = .document_save ∧
    s.sent = [] ∧ ∃ frequency samplerate, s.sdr = Sdr.start frequency samplerate
  step? := Desktop.step?

/-- The buttons offer to stop. -/
def Stops (window : Window) : Prop := window.tb_record = .media_playback_stop

instance (window : Window) : Decidable (Stops window) := inferInstanceAs (Decidable (_ = _))

/-- Both buttons say the same. -/
def Window.Agrees (window : Window) : Prop :=
  window.tb_record = .media_record ∧ window.tb_dump = .document_save ∨
    window.tb_record = .media_playback_stop ∧ window.tb_dump = .media_playback_stop

/-- Neither button is clicked. -/
def Quiet (_ : Desktop D) : Click D → Prop
  | .on_record | .on_dump => False
  | _ => True

instance (s : Desktop D) : (click : Click D) → Decidable (Quiet s click)
  | .on_record | .on_dump => .isFalse id
  | .shown _ | .informed _ | .deliver _ | .reader _ => .isTrue trivial

/-- The frames that the batch in progress may still write. -/
def rest : Pc → Nat
  | .write i _ _ => WRITE_FRAMES_SYNC - i
  | _ => 0

/-! ## What a step does -/

/-- Not the handler of a request. -/
def Reads : Act D → Prop
  | .RECORD_START _ _ _ | .RECORD_STOP => False
  | _ => True

/-- What each step does to the requests, the icons and the reader. -/
inductive Effect (s : Desktop D) : Click D → Desktop D → Prop where
  | start {click : Click D} (clicked : ¬ Quiet s click) (startframe : Int) :
      Effect s click
        { s with
          window :=
            { s.window with tb_record := .media_playback_stop, tb_dump := .media_playback_stop }
          sent := s.sent ++ [.RECORD_START startframe INT32_MAX] }
  | stop {click : Click D} (clicked : ¬ Quiet s click) :
      Effect s click
        { s with
          window := { s.window with tb_record := .media_record, tb_dump := .document_save }
          sent := s.sent ++ [.RECORD_START (-1) (-10)] }
  | told {click : Click D} (fftframes : List Int) (bufsize : Int) :
      Effect s click
        { s with window := { s.window with fftframes := fftframes, bufsize := bufsize } }
  | handled {startframe stopframe : Int} {sent : List CliMsg} (now : Int)
      (first : s.sent = .RECORD_START startframe stopframe :: sent) :
      Effect s (.deliver now)
        { s with sent := sent, sdr := s.sdr.RECORD_START startframe stopframe now }
  | read {act : Act D} {sdr : Sdr D} (reads : Reads act) (step : Sdr.Step s.sdr act sdr) :
      Effect s (.reader act) { s with sdr := sdr }

theorem request_eq {s t : Desktop D} {startframe duration : Int} {tb_record tb_dump : Icon}
    (requested : s.request startframe duration tb_record tb_dump = some t) :
    t = { s with
          window := { s.window with tb_record := tb_record, tb_dump := tb_dump }
          sent := s.sent ++ [.RECORD_START startframe duration] } := by
  obtain ⟨msg, built, rfl⟩ := Option.map_eq_some_iff.mp requested
  rw [record] at built
  split at built
  · obtain rfl := Option.some.inj built
    rfl
  · cases built

theorem Effect.of_step? {s t : Desktop D} {click : Click D} (step : s.step? click = some t) :
    Effect s click t := by
  cases click with
  | on_record =>
      simp only [Desktop.step?, Desktop.on_record] at step
      split at step
      · rw [request_eq step]
        exact .start id (-1)
      · rw [request_eq step]
        exact .stop id
  | on_dump =>
      simp only [Desktop.step?, Desktop.on_dump] at step
      split at step
      · obtain ⟨cur, -, requested⟩ := Option.bind_eq_some_iff.mp step
        rw [request_eq requested]
        exact .start id (cur - s.window.bufsize)
      · rw [request_eq step]
        exact .stop id
  | shown fftframes =>
      obtain rfl := Option.some.inj step
      exact .told fftframes s.window.bufsize
  | informed bufsize =>
      obtain rfl := Option.some.inj step
      exact .told s.window.fftframes bufsize
  | deliver now =>
      simp only [Desktop.step?] at step
      split at step
      · cases step
      · rename_i msg sent first
        obtain ⟨sdr, done, rfl⟩ := Option.map_eq_some_iff.mp step
        cases msg with
        | RECORD_START startframe stopframe =>
            obtain rfl := Option.some.inj done
            exact .handled now first
        | _ => cases done
  | reader act =>
      cases act with
      | RECORD_START | RECORD_STOP => cases step
      | _ =>
          simp only [Desktop.step?] at step
          obtain ⟨sdr, done, rfl⟩ := Option.map_eq_some_iff.mp step
          exact .read trivial (.of_step? done)

/-! ## The recording globals -/

/-- The cursor that the batch in progress writes next, or writes back. -/
def held : Pc → Option Int
  | .write _ cptr _ | .relock cptr => some cptr
  | _ => none

/-- A request has set the cursor, and the batch in progress goes on from one that was set. -/
structure Begun (sdr : Sdr D) : Prop where
  cursor : 0 ≤ sdr.record.rec_cptr
  batch : ∀ cptr, held sdr.pc = some cptr → 0 ≤ cptr

/-- No request has been handled yet. -/
structure Untouched (sdr : Sdr D) : Prop where
  record : sdr.record = .initial
  batch : held sdr.pc = none

theorem claimSlot_held (sdr : Sdr D) : held sdr.claimSlot.pc = none := by
  rcases sdr.claimSlot_pc with pc | ⟨base, pc⟩
  · rw [pc]
    rfl
  · rw [pc]
    rfl

/-- The reader never moves the last frame of the recording. -/
theorem read_rec_stop {s t : Sdr D} {act : Act D} (reads : Reads act) (step : Sdr.Step s act t) :
    t.record.rec_stop = s.record.rec_stop := by
  cases step with
  | top pc =>
      unfold Sdr.top
      split
      · rfl
      · rw [Sdr.claimSlot_record]
  | relock pc => rw [Sdr.relock, Sdr.claimSlot_record]
  | RECORD_START | RECORD_STOP => exact reads.elim
  | _ => rfl

theorem Begun.claimSlot {s : Sdr D} (cursor : 0 ≤ s.record.rec_cptr) : Begun s.claimSlot := by
  refine ⟨?_, ?_⟩
  · rw [Sdr.claimSlot_record]
    exact cursor
  · rw [claimSlot_held]
    rintro cptr ⟨⟩

theorem Begun.read {s t : Sdr D} {act : Act D} (begun : Begun s) (reads : Reads act)
    (step : Sdr.Step s act t) : Begun t := by
  cases step with
  | top pc =>
      unfold Sdr.top
      split
      · refine ⟨begun.cursor, ?_⟩
        rintro cptr ⟨⟩
        exact begun.cursor
      · exact .claimSlot begun.cursor
  | @write i cptr path pc =>
      have set : 0 ≤ cptr := begun.batch cptr (by rw [pc]; rfl)
      refine ⟨begun.cursor, ?_⟩
      intro next going
      have same : next = cptr + 1 := by
        simp only [Sdr.write] at going
        split at going
        · exact (Option.some.inj going).symm
        · exact (Option.some.inj going).symm
      omega
  | @relock cptr pc => exact .claimSlot (begun.batch cptr (by rw [pc]; rfl))
  | RECORD_START | RECORD_STOP => exact reads.elim
  | wake pc | fill data timestamp pc | commit pc =>
      refine ⟨begun.cursor, ?_⟩
      rintro cptr ⟨⟩
  | RETUNE frequency => exact ⟨begun.cursor, begun.batch⟩
  | send cursor forward read => exact ⟨begun.cursor, begun.batch⟩

theorem Untouched.not_active {sdr : Sdr D} (untouched : Untouched sdr) : ¬ sdr.record.Active := by
  rw [untouched.record]
  exact fun active => active.1 rfl

theorem Untouched.read {s t : Sdr D} {act : Act D} (untouched : Untouched s) (reads : Reads act)
    (step : Sdr.Step s act t) : Untouched t := by
  have idle := untouched.batch
  cases step with
  | top pc =>
      unfold Sdr.top
      rw [if_neg untouched.not_active]
      exact ⟨s.claimSlot_record.trans untouched.record, claimSlot_held s⟩
  | write pc | relock pc =>
      rw [pc] at idle
      cases idle
  | RECORD_START | RECORD_STOP => exact reads.elim
  | wake pc => exact ⟨untouched.record, rfl⟩
  | fill data timestamp pc => exact ⟨untouched.record, rfl⟩
  | commit pc => exact ⟨untouched.record, rfl⟩
  | RETUNE frequency => exact ⟨untouched.record, untouched.batch⟩
  | send cursor forward read => exact ⟨untouched.record, untouched.batch⟩

/-! ## What the buttons show -/

/-- The last frame of the recording when all the requests on their way are handled. -/
def asked (rec_stop : Int) (sent : List CliMsg) : Int :=
  sent.foldl (fun last msg =>
    match msg with
    | .RECORD_START _ stopframe => stopframe
    | _ => last) rec_stop

theorem asked_append (rec_stop : Int) (sent : List CliMsg) (startframe stopframe : Int) :
    asked rec_stop (sent ++ [.RECORD_START startframe stopframe]) = stopframe := by
  rw [asked, List.foldl_append]
  rfl

/-- The icons tell what was asked last. -/
structure Shown (s : Desktop D) : Prop where
  agrees : s.window.Agrees
  reader : Untouched s.sdr ∨ Begun s.sdr
  batch : ∀ i cptr path, s.sdr.pc = .write i cptr path → i < WRITE_FRAMES_SYNC
  recording : Stops s.window → asked s.sdr.record.rec_stop s.sent = INT32_MAX
  stopped : ¬ Stops s.window → asked s.sdr.record.rec_stop s.sent = -10 ∨
    Untouched s.sdr ∧ s.sent = []

theorem batch_short {s t : Sdr D} {act : Act D}
    (short : ∀ i cptr path, s.pc = .write i cptr path → i < WRITE_FRAMES_SYNC)
    (step : Sdr.Step s act t) (i : Nat) (cptr : Int) (path : Option RecPath)
    (writing : t.pc = .write i cptr path) : i < WRITE_FRAMES_SYNC := by
  cases step with
  | top pc =>
      unfold Sdr.top at writing
      split at writing
      · cases writing
        decide
      · rcases s.claimSlot_pc with other | ⟨base, other⟩
        · cases other.symm.trans writing
        · cases other.symm.trans writing
  | @write j cptr path pc =>
      have below := short j cptr path pc
      simp only [Sdr.write] at writing
      split at writing
      · cases writing
      · cases writing
        omega
  | relock pc =>
      rcases Sdr.claimSlot_pc _ with other | ⟨base, other⟩
      · cases other.symm.trans writing
      · cases other.symm.trans writing
  | wake pc | fill data timestamp pc | commit pc => cases writing
  | RECORD_START | RECORD_STOP | RETUNE | send => exact short i cptr path writing

namespace Shown

variable {s t : Desktop D}

theorem start (frequency samplerate : Int) {window : Window}
    (record : window.tb_record = .media_record) (dump : window.tb_dump = .document_save) :
    Shown ⟨window, [], (Sdr.start frequency samplerate : Sdr D)⟩ := by
  refine ⟨Or.inl ⟨record, dump⟩, Or.inl ⟨rfl, rfl⟩, ?_, ?_, fun _ => Or.inr ⟨⟨rfl, rfl⟩, rfl⟩⟩
  · rintro i cptr path ⟨⟩
  · intro stops
    rw [Stops, record] at stops
    cases stops

theorem step (shown : Shown s) {click : Click D} (effect : Effect s click t) : Shown t := by
  cases effect with
  | start clicked startframe =>
      refine ⟨Or.inr ⟨rfl, rfl⟩, shown.reader, shown.batch, fun _ => ?_, ?_⟩
      · exact asked_append _ _ _ _
      · exact fun stops => (stops rfl).elim
  | stop clicked =>
      refine ⟨Or.inl ⟨rfl, rfl⟩, shown.reader, shown.batch, ?_, fun _ => Or.inl ?_⟩
      · rintro ⟨⟩
      · exact asked_append _ _ _ _
  | told fftframes bufsize =>
      exact ⟨shown.agrees, shown.reader, shown.batch, shown.recording, shown.stopped⟩
  | @handled startframe stopframe sent now first =>
      have same : asked s.sdr.record.rec_stop s.sent = asked stopframe sent := by
        rw [first]
        rfl
      refine ⟨shown.agrees, Or.inr ?_, shown.batch, ?_, ?_⟩
      · refine ⟨RecordRequest.startCursor_nonneg _ _, ?_⟩
        rcases shown.reader with untouched | begun
        · intro cptr going
          cases untouched.batch.symm.trans going
        · exact begun.batch
      · intro stops
        exact same.symm.trans (shown.recording stops)
      · intro stops
        rcases shown.stopped stops with last | ⟨-, none⟩
        · exact Or.inl (same.symm.trans last)
        · cases first.symm.trans none
  | @read act sdr reads step =>
      have kept := read_rec_stop reads step
      refine ⟨shown.agrees, ?_, batch_short shown.batch step, ?_, ?_⟩
      · rcases shown.reader with untouched | begun
        · exact Or.inl (untouched.read reads step)
        · exact Or.inr (begun.read reads step)
      · rw [kept]
        exact shown.recording
      · rw [kept]
        intro stops
        rcases shown.stopped stops with last | ⟨untouched, none⟩
        · exact Or.inl last
        · exact Or.inr ⟨untouched.read reads step, none⟩

theorem of_reachable (reach : (buttons D).Reachable Machine.Any s) : Shown s := by
  refine reach.invariant ?_ ?_
  · rintro ⟨window, sent, sdr⟩ ⟨record, dump, rfl, frequency, samplerate, rfl⟩
    exact .start frequency samplerate record dump
  · intro s click t shown _ step
    exact shown.step (.of_step? step)

/-- Without requests on their way, the reader records exactly when the buttons
offer to stop. -/
theorem active_iff (shown : Shown s) (drained : s.sent = []) :
    s.sdr.record.Active ↔ Stops s.window ∧ s.sdr.record.rec_cptr ≤ INT32_MAX := by
  have range := INT32_range
  have last : asked s.sdr.record.rec_stop s.sent = s.sdr.record.rec_stop := by
    rw [drained]
    rfl
  by_cases stops : Stops s.window
  · have stop : s.sdr.record.rec_stop = INT32_MAX := last.symm.trans (shown.recording stops)
    have cursor : 0 ≤ s.sdr.record.rec_cptr := by
      rcases shown.reader with untouched | begun
      · rw [untouched.record] at stop
        cases stop
      · exact begun.cursor
    rw [RecControl.Active, stop]
    exact ⟨fun active => ⟨stops, active.2⟩, fun below => ⟨by omega, below.2⟩⟩
  · refine ⟨fun active => ?_, fun both => (stops both.1).elim⟩
    rcases shown.reader with untouched | begun
    · exact (untouched.not_active active).elim
    · have cursor := begun.cursor
      rcases shown.stopped stops with asked | ⟨untouched, -⟩
      · have stop : s.sdr.record.rec_stop = -10 := last.symm.trans asked
        have below := active.2
        omega
      · exact (untouched.not_active active).elim

end Shown

/-! ## After the last click -/

/-- The buttons are left alone, offer to record, and all requests are handled; since
`first` no more is written than the batch in progress then had left. -/
structure Ended (first s : Desktop D) : Prop where
  shown : Shown s
  drained : s.sent = []
  offers : ¬ Stops s.window
  written : s.sdr.disk.length + rest s.sdr.pc ≤ first.sdr.disk.length + rest first.sdr.pc

/-- A reader with nothing to record goes on with its batch at most. -/
theorem written_read {s t : Sdr D} {act : Act D} (idle : ¬ s.record.Active)
    (short : ∀ i cptr path, s.pc = .write i cptr path → i < WRITE_FRAMES_SYNC)
    (reads : Reads act) (step : Sdr.Step s act t) :
    t.disk.length + rest t.pc ≤ s.disk.length + rest s.pc := by
  have claimed (s : Sdr D) : rest s.claimSlot.pc = 0 := by
    rcases s.claimSlot_pc with pc | ⟨base, pc⟩
    · rw [pc]
      rfl
    · rw [pc]
      rfl
  cases step with
  | top pc =>
      rw [Sdr.top, if_neg idle, Sdr.claimSlot_disk, claimed]
      exact Nat.le_add_right _ _
  | @write i cptr path pc =>
      have below := short i cptr path pc
      rw [pc, Sdr.write]
      simp only [List.length_append, List.length_singleton, rest]
      split
      · rename_i ended
        split at ended
        · cases ended
        · cases ended
          omega
      · omega
  | relock pc =>
      rw [Sdr.relock, claimed, Sdr.claimSlot_disk]
      exact Nat.le_add_right _ _
  | wake pc | fill data timestamp pc | commit pc =>
      rw [pc]
      exact Nat.le_refl _
  | RECORD_START | RECORD_STOP => exact reads.elim
  | RETUNE | send => exact Nat.le_refl _

theorem Ended.step {first s t : Desktop D} {click : Click D} (ended : Ended first s)
    (quiet : Quiet s click) (effect : Effect s click t) : Ended first t := by
  have shown := ended.shown.step effect
  cases effect with
  | start clicked => exact (clicked quiet).elim
  | stop clicked => exact (clicked quiet).elim
  | told fftframes bufsize => exact ⟨shown, ended.drained, ended.offers, ended.written⟩
  | handled now waiting => cases waiting.symm.trans ended.drained
  | read reads step =>
      have idle : ¬ s.sdr.record.Active := fun active =>
        ended.offers ((ended.shown.active_iff ended.drained).mp active).1
      exact ⟨shown, ended.drained, ended.offers,
        (written_read idle ended.shown.batch reads step).trans ended.written⟩

theorem Ended.run {first last : Desktop D} {clicks : List (Click D)} (ended : Ended first first)
    (run : (buttons D).Run Quiet first clicks last) : Ended first last :=
  run.invariant (fun _ _ _ ended quiet step => ended.step quiet (.of_step? step)) ended

/-- In every reachable state both buttons agree; once the requests are handled, the
reader records exactly when they offer to stop, and when they do not, at most the
frames that the batch in progress had left are written until the next click. -/
theorem tells_of_reachable {s : Desktop D} (reach : (buttons D).Reachable Machine.Any s) :
    s.window.Agrees ∧
      (s.sent = [] →
        (s.sdr.record.Active ↔ Stops s.window ∧ s.sdr.record.rec_cptr ≤ INT32_MAX) ∧
        (¬ Stops s.window → ∀ clicks last, (buttons D).Run Quiet s clicks last →
          last.sdr.disk.length ≤ s.sdr.disk.length + rest s.sdr.pc)) := by
  have shown := Shown.of_reachable reach
  refine ⟨shown.agrees, fun drained => ⟨shown.active_iff drained, ?_⟩⟩
  intro offers clicks last run
  have ended : Ended s last := Ended.run ⟨shown, drained, offers, Nat.le_refl _⟩ run
  exact (Nat.le_add_right _ _).trans ended.written

/-- The history of two frames is dumped, and stopped while the first is written: the
batch writes the second one too, and nothing more. -/
theorem tells_of_reachable_dumped :
    ∃ s last : Desktop Nat, (buttons Nat).Reachable Machine.Any s ∧ s.sdr.disk = [] ∧
      last.sdr.disk.length = 2 ∧
      last.sdr.disk.length ≤ s.sdr.disk.length + rest s.sdr.pc := by
  let first : Desktop Nat := ⟨⟨.media_record, .document_save, [], 0⟩, [], Sdr.start 0 0⟩
  obtain ⟨s, found, idle⟩ : ∃ s, (buttons Nat).run? first
      [.reader .top, .reader (.fill 7 0), .reader .commit, .reader .top, .reader (.fill 8 0),
        .reader .commit, .shown [0, 1], .informed 128, .on_dump, .deliver 5, .reader .top,
        .on_record, .deliver 6] = some s ∧
      s.sent = [] ∧ ¬ Stops s.window ∧ s.sdr.disk = [] := ⟨_, rfl, rfl, by decide, rfl⟩
  obtain ⟨last, after, two⟩ : ∃ last, (buttons Nat).runIf? Quiet s
      [.reader .write, .reader .write, .reader .relock, .reader (.fill 9 0), .reader .commit,
        .reader .top] = some last ∧ last.sdr.disk.length = 2 := by
    obtain rfl := Option.some.inj found
    exact ⟨_, rfl, rfl⟩
  have reach : (buttons Nat).Reachable Machine.Any s :=
    ⟨first, _, ⟨rfl, rfl, rfl, 0, 0, rfl⟩, .of_run? found⟩
  exact ⟨s, last, reach, idle.2.2, two,
    ((tells_of_reachable reach).2 idle.1).2 idle.2.1 _ last (.of_runIf? after)⟩

end Kukuruku.Clients.RecordButtons
