import Kukuruku.Server.MetadataLoop
import Kukuruku.Server.OutputRing

/-!
# Replaying from the waterfall

`fft_cb` writes the frame number of a spectrum payload beside every row that it
draws, and a click on a row asks for a worker that starts at the stored number.
The SDR thread, the metadata loop, the GUI and the new workers are one machine;
messages arrive in order.
-/

namespace Kukuruku.Clients.Waterfall

open Kukuruku.Server (BUFSIZE BUFSIZE_eq)
open Kukuruku.Server.SdrReader (Sdr SdrPacket)
open Kukuruku.Server.WorkerThread
open Kukuruku.Server.MetadataLoop (Measured Metadata)
open Kukuruku.Server

/-! ## The GUI -/

/-- `conf.fftw` and `da_height`. -/
structure Screen where
  fftw : Nat
  da_height : Nat
  fftw_pos : 0 < fftw

/-- A spectrum payload.  `frame` is the frame whose spectrum it is and no part of
the message; `frameno` is the number in its header. -/
structure Spectrum (P : Type*) where
  frame : Nat
  frameno : Int
  d : List P

/-- The globals of the GUI.  `shown` is history: the frame whose spectrum a row
shows. -/
structure Gui where
  wfofs : Nat
  fftframes : Nat → Option Int
  shown : Nat → Option Nat

namespace Gui

def start : Gui := ⟨0, fun _ => none, fun _ => none⟩

variable (screen : Screen) {P : Type*}

/-- One row of `fft_cb`. -/
def row (gui : Gui) (frame : Nat) (frameno : Int) : Gui where
  wfofs := (gui.wfofs + 1) % screen.da_height
  fftframes := Function.update gui.fftframes gui.wfofs (some frameno)
  shown := Function.update gui.shown gui.wfofs (some frame)

def fft_cb (gui : Gui) (frame : Nat) (frameno : Int) (d : List P) : Gui :=
  if screen.fftw ≤ d.length then
    fft_cb (gui.row screen frame frameno) frame frameno (d.drop screen.fftw)
  else gui
termination_by d.length
decreasing_by
  have positive := screen.fftw_pos
  rw [List.length_drop]
  omega

/-- The keys of `fftframes` are rows of the drawing area; `none` stands for the
exception of `min` on no values. -/
def pixel2frame (gui : Gui) (pixpos : Nat) : Option Int :=
  match gui.fftframes pixpos with
  | some frameno => some frameno
  | none => ((List.range screen.da_height).filterMap gui.fftframes).min?

end Gui

/-! ## The system -/

/-- A `CREATE_XLATER` from a click.  `asked` is the frame that the row showed. -/
structure Request where
  startframe : Int
  asked : Option Nat

/-- A worker, with the request that it was created for and the SDR thread's state
at that time, and when the worker copied its first frame. -/
structure Player (D S H P : Type*) where
  asked : Option Nat
  born : Sdr (Measured D (List P) H)
  source : Option (Sdr (Measured D (List P) H))
  worker : Worker (Measured D (List P) H) S

def Player.moved {D S H P : Type*} (player : Player D S H P) (sdr : Sdr (Measured D (List P) H))
    (worker : Worker (Measured D (List P) H) S) : Player D S H P where
  asked := player.asked
  born := player.born
  source :=
    if player.worker.copied.isEmpty && !worker.copied.isEmpty then some sdr else player.source
  worker := worker

structure State (D S H P : Type*) where
  server : MetadataLoop.State D (List P) H
  wire : List (Spectrum P)
  gui : Gui
  requests : List Request
  players : List (Player D S H P)

inductive Act (D S : Type*) where
  | server (act : MetadataLoop.Act D) (subscribed : Bool)
  | fft_cb
  | click (pixpos : Nat)
  | create
  | worker (i : Nat) (move : Move S)
  | enable (i : Nat)
  | destroy (i : Nat)
  | send (i : Nat) (cursor : Int)

namespace State

variable {D S H P : Type*}

def start (frequency samplerate : Int) : State D S H P :=
  ⟨.start frequency samplerate, [], .start, [], []⟩

/-- The payload that the writer makes of the slot of the frame it handles. -/
def payload? (s : State D S H P) : Option (Spectrum P) :=
  s.server.handling?.bind fun n =>
    (s.server.sdr.sdr_inbuf (n.tmod BUFSIZE)).map fun packet =>
      ⟨n.toNat, packet.frameno, packet.data.spectrum⟩

/-- What the writer puts on the wire of the GUI. -/
def sent (s : State D S H P) : MetadataLoop.Act D → Bool → List (Spectrum P)
  | .next, true => s.payload?.toList
  | _, _ => []

/-- Change one worker. -/
def change? (s : State D S H P) (i : Nat)
    (f : Worker (Measured D (List P) H) S → Option (Worker (Measured D (List P) H) S)) :
    Option (State D S H P) :=
  (s.players[i]?).bind fun player =>
    (f player.worker).map fun worker =>
      { s with players := s.players.set i (player.moved s.server.sdr worker) }

def step? (gauge : Metadata D (List P) H) (screen : Screen) (s : State D S H P) :
    Act D S → Option (State D S H P)
  | .server act subscribed =>
      (s.server.step? gauge act).map fun server =>
        { s with server := server, wire := s.wire ++ s.sent act subscribed }
  | .fft_cb =>
      match s.wire with
      | [] => none
      | payload :: rest =>
          some { s with
            wire := rest
            gui := s.gui.fft_cb screen payload.frame payload.frameno payload.d }
  | .click pixpos =>
      (s.gui.pixel2frame screen pixpos).map fun startframe =>
        { s with requests := s.requests ++ [⟨startframe, s.gui.shown pixpos⟩] }
  | .create =>
      match s.server.pc, s.requests with
      | .idle, request :: rest =>
          some { s with
            requests := rest
            players := s.players ++
              [⟨request.asked, s.server.sdr, none,
                .create request.startframe s.server.sdr.sdr_cptr⟩] }
      | _, _ => none
  | .worker i move =>
      s.change? i fun worker =>
        worker.move? s.server.sdr.sdr_cptr s.server.sdr.sdr_inbuf move
  | .enable i => s.change? i fun worker => some worker.enable
  | .destroy i => s.change? i fun worker => some worker.disable
  | .send i cursor =>
      s.change? i fun worker =>
        if worker.enabled ∧ worker.send_cptr ≤ cursor ∧ cursor ≤ worker.last_written then
          some (worker.sendCommit cursor)
        else none

end State

def replay {D H P : Type*} (S : Type*) (gauge : Metadata D (List P) H) (screen : Screen) :
    Machine (State D S H P) (Act D S) where
  Initial s := ∃ frequency samplerate, s = .start frequency samplerate
  step? := State.step? gauge screen

/-- The first packet that the worker's thread copies is the one that was read as
frame `n`. -/
def ProcessesFirst {D S : Type*} (frames : List (SdrPacket D)) (n : Nat) (worker : Worker D S) :
    Prop :=
  (∃ packet, frames[n]? = some packet ∧ worker.copied.head? = some ((n : Int), some packet)) ∨
    worker.copied = [] ∧ worker.pc.needs worker.last_written = some (n : Int)

/-! ## The first frame of a worker -/

/-- The thread has copied the frame after the first value of its cursor, or is on
the way to it. -/
def Follows {D S : Type*} (worker : Worker D S) : Prop :=
  worker.copied.head?.map Prod.fst = some (worker.origin + 1) ∨
    worker.copied = [] ∧
      (worker.pc = .start ∧ worker.last_written = worker.origin ∨
        worker.pc = .wait (worker.origin + 1) ∨ worker.pc = .copy (worker.origin + 1))

section Follows

variable {D S : Type*} {worker next : Worker D S}

theorem Follows.create (history sdr_cptr : Int) :
    Follows (.create history sdr_cptr : Worker D S) :=
  .inr ⟨rfl, .inl ⟨rfl, rfl⟩⟩

/-- What leaves the thread and its log alone. -/
theorem Follows.touch (follows : Follows worker) (copied : next.copied = worker.copied)
    (origin : next.origin = worker.origin) (pc : next.pc = worker.pc)
    (last_written : next.last_written = worker.last_written) : Follows next := by
  rw [Follows, copied, origin, pc, last_written]
  exact follows

/-- Unless it has copied a frame, the thread needs the one after the first value of
its cursor. -/
theorem Follows.needs (follows : Follows worker) :
    worker.copied.head?.map Prod.fst = some (worker.origin + 1) ∨
      worker.copied = [] ∧ worker.pc.needs worker.last_written = some (worker.origin + 1) := by
  refine follows.imp_right fun ⟨empty, place⟩ => ⟨empty, ?_⟩
  rcases place with ⟨pc, last⟩ | pc | pc
  · rw [pc, last]
    rfl
  · rw [pc]
    rfl
  · rw [pc]
    rfl

/-- At any other place the thread has copied a frame. -/
theorem Follows.copied (follows : Follows worker)
    (past : ∀ n, worker.pc ≠ .start ∧ worker.pc ≠ .wait n ∧ worker.pc ≠ .copy n) :
    worker.copied.head?.map Prod.fst = some (worker.origin + 1) := by
  rcases follows with first | ⟨_, ⟨pc, _⟩ | pc | pc⟩
  · exact first
  · exact absurd pc (past 0).1
  · exact absurd pc (past _).2.1
  · exact absurd pc (past _).2.2

theorem Follows.move (follows : Follows worker) {sdr_cptr : Int}
    {sdr_inbuf : Ring.Cells (SdrPacket D)} {move : Move S}
    (moves : worker.Moves sdr_cptr sdr_inbuf move next) :
    Follows next := by
  have needs := follows.needs
  cases moves with
  | begin pc =>
      rw [pc] at needs
      rcases needs with first | ⟨empty, needs⟩
      · exact .inl first
      · exact .inr ⟨empty, .inr (.inl (congrArg WorkerPc.wait (Option.some.inj needs)))⟩
  | @check mypos pc read room =>
      rw [pc] at needs
      rcases needs with first | ⟨empty, needs⟩
      · exact .inl first
      · exact .inr ⟨empty, .inr (.inr (congrArg WorkerPc.copy (Option.some.inj needs)))⟩
  | @copy mypos pc =>
      rw [pc] at needs
      left
      simp only [Worker.copy]
      rcases needs with first | ⟨empty, needs⟩
      · cases log : worker.copied with
        | nil =>
            rw [log] at first
            cases first
        | cons entry rest =>
            rw [log] at first
            exact first
      · rw [empty]
        exact needs
  | store packet pc | free pc => exact .inl (follows.copied (by simp [pc]))
  | commit pc =>
      have first := follows.copied (by simp [pc])
      unfold Worker.commit
      split
      · exact .inl first
      · exact .inl first

end Follows

/-! ## Steps -/

section Steps

variable {D S H P : Type*} {gauge : Metadata D (List P) H} {screen : Screen}

/-- At most one packet more is copied. -/
def Copies {D S : Type*} (sdr_inbuf : Ring.Cells (SdrPacket D)) (worker next : Worker D S) :
    Prop :=
  next.copied = worker.copied ∨
    ∃ mypos, next.copied = worker.copied ++ [(mypos, sdr_inbuf (mypos.tmod BUFSIZE))]

theorem Copies.of_moves {D S : Type*} {worker next : Worker D S} {sdr_cptr : Int}
    {sdr_inbuf : Ring.Cells (SdrPacket D)} {move : Move S}
    (moves : worker.Moves sdr_cptr sdr_inbuf move next) : Copies sdr_inbuf worker next := by
  cases moves with
  | copy pc => exact .inr ⟨_, rfl⟩
  | commit pc =>
      left
      unfold Worker.commit
      split <;> rfl
  | _ => exact .inl rfl

/-- What each step does. -/
inductive Step (gauge : Metadata D (List P) H) (screen : Screen) :
    State D S H P → State D S H P → Prop where
  | server {s : State D S H P} {server : MetadataLoop.State D (List P) H}
      {sent : List (Spectrum P)} (step : MetadataLoop.Step gauge s.server server)
      (new : ∀ payload ∈ sent, s.payload? = some payload) :
      Step gauge screen s { s with server := server, wire := s.wire ++ sent }
  | fft_cb {s : State D S H P} {payload : Spectrum P} {rest : List (Spectrum P)}
      (wire : s.wire = payload :: rest) :
      Step gauge screen s { s with
        wire := rest
        gui := s.gui.fft_cb screen payload.frame payload.frameno payload.d }
  | click {s : State D S H P} {pixpos : Nat} {startframe : Int}
      (stored : s.gui.pixel2frame screen pixpos = some startframe) :
      Step gauge screen s { s with
        requests := s.requests ++ [⟨startframe, s.gui.shown pixpos⟩] }
  | create {s : State D S H P} {request : Request} {rest : List Request}
      (requests : s.requests = request :: rest) :
      Step gauge screen s { s with
        requests := rest
        players := s.players ++
          [⟨request.asked, s.server.sdr, none,
            .create request.startframe s.server.sdr.sdr_cptr⟩] }
  | change {s : State D S H P} {i : Nat} {player : Player D S H P}
      {worker : Worker (Measured D (List P) H) S} (found : s.players[i]? = some player)
      (follows : Follows player.worker → Follows worker)
      (origin : worker.origin = player.worker.origin)
      (copies : Copies s.server.sdr.sdr_inbuf player.worker worker) :
      Step gauge screen s { s with players := s.players.set i (player.moved s.server.sdr worker) }

/-- A change of one worker that keeps its place. -/
theorem Step.of_change? {s t : State D S H P} {i : Nat}
    {f : Worker (Measured D (List P) H) S → Option (Worker (Measured D (List P) H) S)}
    (step : s.change? i f = some t)
    (keeps : ∀ worker next, f worker = some next → (Follows worker → Follows next) ∧
      next.origin = worker.origin ∧ Copies s.server.sdr.sdr_inbuf worker next) :
    Step gauge screen s t := by
  obtain ⟨player, found, step⟩ := Option.bind_eq_some_iff.mp step
  obtain ⟨worker, changed, rfl⟩ := Option.map_eq_some_iff.mp step
  obtain ⟨follows, origin, copies⟩ := keeps _ _ changed
  exact .change found follows origin copies

theorem Step.of_step? {s t : State D S H P} {act : Act D S}
    (step : s.step? gauge screen act = some t) : Step gauge screen s t := by
  cases act with
  | server act subscribed =>
      obtain ⟨server, moved, rfl⟩ := Option.map_eq_some_iff.mp step
      refine .server (.of_step? moved) fun payload member => ?_
      cases act with
      | next =>
          cases subscribed with
          | true => exact Option.mem_toList.mp member
          | false => exact absurd member List.not_mem_nil
      | _ => exact absurd member List.not_mem_nil
  | fft_cb =>
      rw [State.step?] at step
      split at step
      · cases step
      · rename_i payload rest wire
        obtain rfl := Option.some.inj step
        exact .fft_cb wire
  | click pixpos =>
      obtain ⟨startframe, stored, rfl⟩ := Option.map_eq_some_iff.mp step
      exact .click stored
  | create =>
      rw [State.step?] at step
      split at step
      · rename_i request rest _ requests
        obtain rfl := Option.some.inj step
        exact .create requests
      · cases step
  | worker i move =>
      rw [State.step?] at step
      refine .of_change? step fun worker next moved => ?_
      have moves := Worker.Moves.of_move? moved
      exact ⟨fun follows => follows.move moves, OutputRing.RingsInOrder.origin_move moves,
        .of_moves moves⟩
  | enable i | destroy i =>
      rw [State.step?] at step
      refine .of_change? step fun worker next changed => ?_
      obtain rfl := Option.some.inj changed
      exact ⟨fun follows => follows.touch rfl rfl rfl rfl, rfl, .inl rfl⟩
  | send i cursor =>
      rw [State.step?] at step
      refine .of_change? step fun worker next changed => ?_
      split at changed
      · obtain rfl := Option.some.inj changed
        exact ⟨fun follows => follows.touch rfl rfl rfl rfl, rfl, .inl rfl⟩
      · cases changed

end Steps

/-! ## Tags -/

section Tags

variable {D S H P : Type*} {gauge : Metadata D (List P) H} {screen : Screen}

/-- The number beside a frame that was read: the reader tags a frame with its
cursor before the frame. -/
def Tagged (sdr_cptr : Int) (frame : Nat) (frameno : Int) : Prop :=
  frameno = (frame : Int) - 1 ∧ (frame : Int) ≤ sdr_cptr

theorem Tagged.later {sdr_cptr later : Int} {frame : Nat} {frameno : Int}
    (tagged : Tagged sdr_cptr frame frameno) (le : sdr_cptr ≤ later) :
    Tagged later frame frameno :=
  ⟨tagged.1, Int.le_trans tagged.2 le⟩

/-- Every row that shows a spectrum has the tag of its frame. -/
def Gui.Tagged (sdr_cptr : Int) (gui : Gui) : Prop :=
  ∀ row frame, gui.shown row = some frame →
    ∃ frameno, gui.fftframes row = some frameno ∧ Waterfall.Tagged sdr_cptr frame frameno

theorem Gui.Tagged.row {sdr_cptr : Int} {gui : Gui} (tagged : gui.Tagged sdr_cptr) {frame : Nat}
    {frameno : Int} (tag : Waterfall.Tagged sdr_cptr frame frameno) :
    (gui.row screen frame frameno).Tagged sdr_cptr := by
  intro row other shown
  simp only [Gui.row] at shown ⊢
  by_cases here : row = gui.wfofs
  · subst here
    rw [Function.update_self] at shown ⊢
    obtain rfl := Option.some.inj shown
    exact ⟨frameno, rfl, tag⟩
  · rw [Function.update_of_ne here] at shown ⊢
    exact tagged row other shown

theorem Gui.Tagged.fft_cb {sdr_cptr : Int} {gui : Gui} (tagged : gui.Tagged sdr_cptr) {frame : Nat}
    {frameno : Int} (tag : Waterfall.Tagged sdr_cptr frame frameno) (d : List P) :
    (gui.fft_cb screen frame frameno d).Tagged sdr_cptr := by
  induction gui, d using Gui.fft_cb.induct screen frame frameno with
  | case1 gui d long ih =>
      rw [Gui.fft_cb, if_pos long]
      exact ih (tagged.row tag)
  | case2 gui d short =>
      rw [Gui.fft_cb, if_neg short]
      exact tagged

/-- The writer reads the tag of the frame that it handles. -/
theorem tagged_of_payload {s : State D S H P} (inv : MetadataLoop.Inv gauge s.server)
    {payload : Spectrum P} (sent : s.payload? = some payload) :
    Tagged s.server.sdr.sdr_cptr payload.frame payload.frameno := by
  obtain ⟨n, handling, sent⟩ := Option.bind_eq_some_iff.mp sent
  obtain ⟨packet, slot, rfl⟩ := Option.map_eq_some_iff.mp sent
  obtain ⟨⟨_, j, held, number, read, place, _⟩, _⟩ := inv.holdsFrame handling
  obtain rfl := Option.some.inj (slot.symm.trans place)
  have tag := inv.ringed.numbered j packet read
  have between := inv.between
  rw [MetadataLoop.State.handling?] at handling
  split at handling
  · rename_i last cursor pc
    split at handling
    · rename_i more
      obtain rfl := Option.some.inj handling
      rw [pc] at between
      obtain ⟨_, _, high, _⟩ := between
      constructor
      · simp only [tag, number, Int.toNat_natCast]
      · simp only [number, Int.toNat_natCast]
        omega
    · cases handling
  · cases handling

/-- A frame that is still in the ring is not cut off by the history limit. -/
theorem kept_of_present {sdr : Sdr D} (ringed : sdr.Ringed) {n : Nat} (present : sdr.Present n) :
    sdr.sdr_cptr - BUFSIZE ≤ (n : Int) - 1 := by
  obtain ⟨packet, slot, tag⟩ := present
  obtain ⟨j, after, read, _⟩ := ringed.within _ packet slot
  have number := ringed.numbered j packet read
  have count := ringed.count
  have refilling := sdr.pc.refilling_range
  have uncounted := sdr.pc.uncounted_range
  rw [Sdr.oldest] at after
  omega

/-- The tag of a frame in the ring, taken as a start frame, leads to the frame
unless it is the value that stands for the current frame. -/
theorem startCursor_iff {sdr : Sdr D} (ringed : sdr.Ringed) {n : Nat} {startframe : Int}
    (tagged : Tagged sdr.sdr_cptr n startframe) (present : sdr.Present n) :
    (n : Int) = Worker.startCursor startframe sdr.sdr_cptr + 1 ↔ n ≠ 0 := by
  have kept := kept_of_present ringed present
  obtain ⟨rfl, read⟩ := tagged
  rw [Worker.startCursor]
  split
  · omega
  · rw [if_neg (by omega)]
    omega

/-- The first packet copied is what the slot held at that time. -/
def Sourced (frames : List (SdrPacket (Measured D (List P) H))) (player : Player D S H P) :
    Prop :=
  match player.source with
  | none => player.worker.copied = []
  | some sdr => sdr.Ringed ∧ sdr.frames <+: frames ∧
      player.worker.copied.head? = some (player.worker.origin + 1,
        sdr.sdr_inbuf ((player.worker.origin + 1).tmod BUFSIZE))

theorem Sourced.later {frames more : List (SdrPacket (Measured D (List P) H))}
    {player : Player D S H P} (sourced : Sourced frames player) (grown : frames <+: more) :
    Sourced more player := by
  unfold Sourced at sourced ⊢
  split at sourced
  · exact sourced
  · exact ⟨sourced.1, sourced.2.1.trans grown, sourced.2.2⟩

/-- The worker copies a packet, or does something else. -/
theorem Sourced.moved {sdr : Sdr (Measured D (List P) H)} {player : Player D S H P}
    {worker : Worker (Measured D (List P) H) S} (sourced : Sourced sdr.frames player)
    (ringed : sdr.Ringed) (follows : Follows worker)
    (origin : worker.origin = player.worker.origin)
    (copies : Copies sdr.sdr_inbuf player.worker worker) :
    Sourced sdr.frames (player.moved sdr worker) := by
  rcases copies with same | ⟨mypos, copied⟩
  · have source : (player.moved sdr worker).source = player.source := by
      rw [Player.moved, same, Bool.and_not_self]
      rfl
    unfold Sourced at sourced ⊢
    rw [source]
    simp only [Player.moved, same, origin]
    exact sourced
  · cases log : player.worker.copied with
    | nil =>
        have source : (player.moved sdr worker).source = some sdr := by
          rw [Player.moved, copied, log]
          rfl
        have head : worker.copied.head? = some (mypos, sdr.sdr_inbuf (mypos.tmod BUFSIZE)) := by
          rw [copied, log]
          rfl
        have place : mypos = worker.origin + 1 := by
          rcases follows with first | ⟨empty, -⟩
          · rw [head] at first
            exact Option.some.inj first
          · rw [empty] at head
            cases head
        unfold Sourced
        rw [source]
        subst place
        exact ⟨ringed, List.prefix_rfl, head⟩
    | cons entry rest =>
        have source : (player.moved sdr worker).source = player.source := by
          rw [Player.moved, copied, log]
          rfl
        have head : worker.copied.head? = player.worker.copied.head? := by
          rw [copied, log]
          rfl
        unfold Sourced at sourced ⊢
        rw [source]
        cases known : player.source with
        | none =>
            rw [known, log] at sourced
            cases sourced
        | some first =>
            rw [known] at sourced
            simp only [Player.moved, head, origin]
            exact sourced

/-- A slot that holds a packet of frame `n` holds the packet that was read as it. -/
theorem frame_of_present {sdr : Sdr (Measured D (List P) H)} (ringed : sdr.Ringed) {n : Nat}
    (present : sdr.Present n) :
    ∃ packet, sdr.frames[n]? = some packet ∧
      sdr.sdr_inbuf ((n : Int).tmod BUFSIZE) = some packet := by
  obtain ⟨packet, slot, tag⟩ := present
  obtain ⟨j, -, read, -⟩ := ringed.within _ packet slot
  have number := ringed.numbered j packet read
  obtain rfl : j = n := by omega
  exact ⟨packet, read, slot⟩

/-- The first frame is the one after the first value of the cursor, unless its slot was
given up before it was copied. -/
theorem processesFirst_iff {sdr : Sdr (Measured D (List P) H)} (ringed : sdr.Ringed)
    {player : Player D S H P} (follows : Follows player.worker)
    (sourced : Sourced sdr.frames player) (n : Nat) :
    ProcessesFirst sdr.frames n player.worker ↔ (n : Int) = player.worker.origin + 1 ∧
      ∀ source, player.source = some source → source.Present n := by
  have needs := follows.needs
  unfold Sourced at sourced
  cases known : player.source with
  | none =>
      rw [known] at sourced
      have needs := needs.resolve_left fun first => by
        rw [sourced] at first
        cases first
      rw [ProcessesFirst, sourced, needs.2]
      constructor
      · rintro (⟨packet, -, head⟩ | ⟨-, same⟩)
        · cases head
        · refine ⟨(Option.some.inj same).symm, ?_⟩
          rintro source ⟨⟩
      · exact fun same => .inr ⟨rfl, congrArg some same.1.symm⟩
  | some source =>
      rw [known] at sourced
      obtain ⟨whole, grown, head⟩ := sourced
      constructor
      · rintro (⟨packet, read, first⟩ | ⟨empty, -⟩)
        · rw [head] at first
          obtain ⟨place, slot⟩ := Prod.mk.inj (Option.some.inj first)
          rw [place] at slot
          refine ⟨place.symm, ?_⟩
          rintro _ ⟨⟩
          exact ⟨packet, slot, ringed.numbered n packet read⟩
        · rw [empty] at head
          cases head
      · rintro ⟨place, present⟩
        obtain ⟨packet, read, slot⟩ := frame_of_present whole (present source rfl)
        obtain ⟨inside, was⟩ := List.getElem?_eq_some_iff.mp read
        have still : sdr.frames[n]? = some packet := by
          rw [List.prefix_iff_getElem?.mp grown n inside, was]
        refine .inl ⟨packet, still, ?_⟩
        rw [head, ← place, slot]

structure Inv (gauge : Metadata D (List P) H) (s : State D S H P) : Prop where
  server : MetadataLoop.Inv gauge s.server
  wire : ∀ payload ∈ s.wire, Tagged s.server.sdr.sdr_cptr payload.frame payload.frameno
  gui : s.gui.Tagged s.server.sdr.sdr_cptr
  requests : ∀ request ∈ s.requests, ∀ n, request.asked = some n →
    Tagged s.server.sdr.sdr_cptr n request.startframe
  players : ∀ player ∈ s.players, Follows player.worker ∧
    Sourced s.server.sdr.frames player ∧ ∀ n, player.asked = some n → player.born.Present n →
      ((n : Int) = player.worker.origin + 1 ↔ n ≠ 0)

theorem Inv.start (frequency samplerate : Int) :
    Inv gauge (.start frequency samplerate : State D S H P) where
  server := .start frequency samplerate
  wire := fun payload member => absurd member List.not_mem_nil
  gui := by
    intro row frame shown
    cases shown
  requests := fun request member => absurd member List.not_mem_nil
  players := fun player member => absurd member List.not_mem_nil

/-- Frames that have been read stay in the record. -/
theorem frames_prefix {s t : MetadataLoop.State D (List P) H}
    (step : MetadataLoop.Step gauge s t) : s.sdr.frames <+: t.sdr.frames := by
  cases step with
  | sdr step => exact FrameSupply.frames_step step
  | _ => exact List.prefix_rfl

/-- The writer and the requests leave the reader's cursor alone. -/
theorem sdr_cptr_le {s t : MetadataLoop.State D (List P) H}
    (step : MetadataLoop.Step gauge s t) : s.sdr.sdr_cptr ≤ t.sdr.sdr_cptr := by
  cases step with
  | sdr step => exact FrameSupply.sdr_cptr_step step
  | _ => exact Int.le_refl _

theorem Inv.step {s t : State D S H P} (inv : Inv gauge s) (step : Step gauge screen s t) :
    Inv gauge t := by
  cases step with
  | server step new =>
      have forward := sdr_cptr_le step
      have grown := frames_prefix step
      refine ⟨inv.server.step step, fun payload member => ?_, ?_, ?_, fun player member => ?_⟩
      · rcases List.mem_append.mp member with before | sent
        · exact (inv.wire payload before).later forward
        · exact (tagged_of_payload inv.server (new payload sent)).later forward
      · intro row frame shown
        obtain ⟨frameno, stored, tagged⟩ := inv.gui row frame shown
        exact ⟨frameno, stored, tagged.later forward⟩
      · exact fun request member n asked => (inv.requests request member n asked).later forward
      · obtain ⟨follows, sourced, same⟩ := inv.players player member
        exact ⟨follows, sourced.later grown, same⟩
  | fft_cb wire =>
      rename_i payload rest
      have tag := inv.wire payload (wire ▸ List.mem_cons_self)
      exact ⟨inv.server, fun other member => inv.wire other (wire ▸ List.mem_cons_of_mem _ member),
        inv.gui.fft_cb tag payload.d, inv.requests, inv.players⟩
  | @click pixpos startframe stored =>
      refine ⟨inv.server, inv.wire, inv.gui, fun request member n asked => ?_, inv.players⟩
      rcases List.mem_append.mp member with before | new
      · exact inv.requests request before n asked
      · obtain rfl := List.mem_singleton.mp new
        obtain ⟨frameno, found, tagged⟩ := inv.gui pixpos n asked
        rw [Gui.pixel2frame, found] at stored
        obtain rfl := Option.some.inj stored
        exact tagged
  | @create request rest requests =>
      refine ⟨inv.server, inv.wire, inv.gui,
        fun other member => inv.requests other (requests ▸ List.mem_cons_of_mem _ member),
        fun player member => ?_⟩
      rcases List.mem_append.mp member with before | new
      · exact inv.players player before
      · obtain rfl := List.mem_singleton.mp new
        refine ⟨.create _ _, rfl, fun n asked present => ?_⟩
        exact startCursor_iff inv.server.ringed
          (inv.requests request (requests ▸ List.mem_cons_self) n asked) present
  | @change i player worker found follows origin copies =>
      refine ⟨inv.server, inv.wire, inv.gui, inv.requests, fun other member => ?_⟩
      rcases List.mem_or_eq_of_mem_set member with before | rfl
      · exact inv.players other before
      · obtain ⟨place, sourced, same⟩ := inv.players player (List.mem_of_getElem? found)
        refine ⟨follows place,
          sourced.moved inv.server.ringed (follows place) origin copies, fun n asked present => ?_⟩
        simp only [Player.moved, origin]
        exact same n asked present

theorem inv_of_reachable {ok : State D S H P → Act D S → Prop} {s : State D S H P}
    (reach : (replay S gauge screen).Reachable ok s) : Inv gauge s := by
  refine reach.invariant ?_ ?_
  · rintro s ⟨frequency, samplerate, rfl⟩
    exact .start frequency samplerate
  · intro s act t inv _ step
    exact inv.step (.of_step? step)

/-- A worker created from a row that shows frame `n`, while the frame is still in
the ring, processes it first exactly if it is not frame 0 and the reader has left it in
the ring until the worker copied it. -/
theorem processesFirst_of_row (gauge : Metadata D (List P) H) (screen : Screen)
    {s : State D S H P} (reach : (replay S gauge screen).Reachable Machine.Any s)
    {player : Player D S H P} (created : player ∈ s.players) {n : Nat}
    (asked : player.asked = some n) (replayable : player.born.Present n) :
    ProcessesFirst s.server.sdr.frames n player.worker ↔
      n ≠ 0 ∧ ∀ source, player.source = some source → source.Present n := by
  have inv := inv_of_reachable reach
  obtain ⟨follows, sourced, same⟩ := inv.players player created
  rw [processesFirst_iff inv.server.ringed follows sourced, same n asked replayable]

end Tags

/-! ## Two runs -/

section Examples

/-- Spectra of one value. -/
def oneBin : Metadata Nat (List Nat) Nat := ⟨fun data => [data], id⟩

/-- Four rows of one value. -/
def fourRows : Screen := ⟨1, 4, Nat.one_pos⟩

/-- The reader reads one frame. -/
def readFrame (data : Nat) : List (Act Nat Nat) :=
  [.server (.sdr .top) false, .server (.sdr (.fill data 0)) false, .server (.sdr .commit) false]

/-- The writer sends the spectrum of one frame and the GUI draws it. -/
def showFrame : List (Act Nat Nat) := [.server .next true, .fft_cb]

/-- Two rows are drawn and a click on the second one starts a worker, which copies
its frame when the reader has read a third one. -/
theorem processesFirst_of_row_second :
    ∃ (s : State Nat Nat Nat Nat) (player : Player Nat Nat Nat Nat),
      (replay Nat oneBin fourRows).Reachable Machine.Any s ∧ player ∈ s.players ∧
        player.asked = some 1 ∧ player.source.isSome ∧
        ProcessesFirst s.server.sdr.frames 1 player.worker := by
  have run : ((replay Nat oneBin fourRows).run? (.start 0 0)
      (readFrame 7 ++ readFrame 8 ++ [.server .snapshot true] ++ showFrame ++ showFrame ++
        [.server .commit true, .click 1, .create] ++ readFrame 9 ++
        [.worker 0 .begin, .worker 0 .check, .worker 0 .copy])).any (fun s =>
      (s.players[0]?).any fun player => decide (player.asked = some 1) &&
        ((player.born.sdr_inbuf 1).any fun packet => packet.frameno = 0) &&
          player.source.any fun source =>
            (source.sdr_inbuf 1).any fun packet => packet.frameno = 0) = true := by
    decide +kernel
  obtain ⟨s, run, state⟩ := (Option.any_eq_true _ _).mp run
  obtain ⟨player, found, state⟩ := (Option.any_eq_true _ _).mp state
  obtain ⟨state, sourced⟩ := Bool.and_eq_true_iff.mp state
  obtain ⟨asked, born⟩ := Bool.and_eq_true_iff.mp state
  obtain ⟨packet, slot, tag⟩ := (Option.any_eq_true _ _).mp born
  obtain ⟨source, known, held⟩ := (Option.any_eq_true _ _).mp sourced
  obtain ⟨copied, place, number⟩ := (Option.any_eq_true _ _).mp held
  have asked := of_decide_eq_true asked
  have created := List.mem_of_getElem? found
  have present : player.born.Present 1 := ⟨packet, slot, of_decide_eq_true tag⟩
  have first := processesFirst_of_row oneBin fourRows ⟨_, _, ⟨0, 0, rfl⟩, .of_run? run⟩
    created asked present
  refine ⟨s, player, ⟨_, _, ⟨0, 0, rfl⟩, .of_run? run⟩, created, asked,
    Option.isSome_iff_exists.mpr ⟨source, known⟩, first.mpr ⟨Nat.one_ne_zero, ?_⟩⟩
  intro other same
  obtain rfl := Option.some.inj (known.symm.trans same)
  exact ⟨copied, place, of_decide_eq_true number⟩

/-- The row of frame 0 has the number -1, and a worker created from it waits for
frame 1. -/
theorem not_processesFirst_row_zero :
    ¬ ∀ (s : State Nat Nat Nat Nat) (player : Player Nat Nat Nat Nat) (n : Nat),
      (replay Nat oneBin fourRows).Reachable Machine.Any s → player ∈ s.players →
      player.asked = some n → player.born.Present n →
      ProcessesFirst s.server.sdr.frames n player.worker := by
  intro processes
  have run : ((replay Nat oneBin fourRows).run? (.start 0 0)
      (readFrame 7 ++ [.server .snapshot true] ++ showFrame ++
        [.server .commit true, .click 0, .create])).any (fun s =>
      (s.players[0]?).any fun player =>
        decide (player.asked = some 0 ∧ player.worker.copied.isEmpty ∧
          player.worker.pc.needs player.worker.last_written = some 1) &&
        (player.born.sdr_inbuf 0).any fun packet => packet.frameno = -1) = true := by
    decide +kernel
  obtain ⟨s, run, state⟩ := (Option.any_eq_true _ _).mp run
  obtain ⟨player, found, state⟩ := (Option.any_eq_true _ _).mp state
  obtain ⟨worker, state⟩ := Bool.and_eq_true_iff.mp state
  obtain ⟨packet, slot, tag⟩ := (Option.any_eq_true _ _).mp state
  obtain ⟨asked, copied, needs⟩ := of_decide_eq_true worker
  rcases processes s player 0 ⟨_, _, ⟨0, 0, rfl⟩, .of_run? run⟩ (List.mem_of_getElem? found)
    asked ⟨packet, slot, of_decide_eq_true tag⟩ with ⟨_, _, first⟩ | ⟨_, waits⟩
  · rw [List.isEmpty_iff.mp copied] at first
    cases first
  · rw [needs] at waits
    cases waits

end Examples

end Kukuruku.Clients.Waterfall
