import Kukuruku.Server.WorkerThread

/-!
# From the SDR to the sockets

The SDR thread, the workers' threads, the socket writer and the requests that
create and destroy workers, interleaved.  A pass of the socket writer holds
`llmutex` throughout, and so does the creation of a worker; every section under
`datamutex` is one step.
-/

namespace Kukuruku.Server.Pipeline

open Kukuruku.Server.SdrReader (Sdr SdrPacket)
open Kukuruku.Server.WorkerThread

/-- Where `socket_write_thr` is; `rest` is what remains of its walk through
`worker_head`. -/
inductive WriterPc where
  | idle
  | visit (rest : List Nat)
  | send (w : Nat) (rest : List Nat) (last_written send_cptr : Int)
  | metadata
  | publish (sdr_cptr : Int)
deriving DecidableEq

/-- The threads' shared memory.  Workers are addressed by their id; `creating`
is the worker whose creation still holds `llmutex`. -/
structure Pipe (D S : Type*) where
  sdr : Sdr D
  heap : Nat → Option (Worker D S)
  worker_head : List Nat
  widx : Nat
  creating : Option Nat
  writer : WriterPc

inductive Act (D S : Type*) where
  | sdr (act : SdrReader.Act D)
  | worker (w : Nat) (move : Move S)
  | create (history : Int)
  | enable
  | destroy (id : Nat)
  | lock
  | visit (esrch : Bool)
  | sendFrame
  | sendCommit
  | snapshot
  | publish

namespace Pipe

variable {D S : Type*}

def start (frequency samplerate : Int) : Pipe D S where
  sdr := .start frequency samplerate
  heap := fun _ => none
  worker_head := []
  widx := 0
  creating := none
  writer := .idle

/-- Change one worker in place. -/
def set (s : Pipe D S) (w : Nat) (worker : Option (Worker D S)) : Pipe D S :=
  { s with heap := Function.update s.heap w worker }

/-- `llmutex` is free. -/
def Unlocked (s : Pipe D S) : Prop := s.creating = none ∧ s.writer = .idle

instance (s : Pipe D S) : Decidable s.Unlocked := inferInstanceAs (Decidable (_ ∧ _))

/-- The SDR's own steps; its metadata cursor belongs to the socket writer. -/
def sdrStep? (s : Pipe D S) : SdrReader.Act D → Option (Pipe D S)
  | .send _ => none
  | act => (s.sdr.step? act).map fun sdr => { s with sdr := sdr }

/-- The first part of `create_xlate_worker`, up to the creation of the thread. -/
def create (s : Pipe D S) (history : Int) : Pipe D S :=
  { s.set s.widx (some (.create history s.sdr.sdr_cptr)) with creating := some s.widx }

/-- The rest of `create_xlate_worker`. -/
def enable (s : Pipe D S) (w : Nat) (worker : Worker D S) : Pipe D S :=
  { s.set w (some worker.enable) with
    worker_head := w :: s.worker_head
    widx := s.widx + 1
    creating := none }

/-- One round of the walk through the workers: send what is ready, or free a
worker whose thread has ended (`pthread_kill` says `ESRCH`). -/
def visit? (s : Pipe D S) (w : Nat) (rest : List Nat) (worker : Worker D S) (esrch : Bool) :
    Option (Pipe D S) :=
  if worker.enabled then
    some { s with writer := .send w rest worker.last_written worker.send_cptr }
  else if esrch then
    if worker.pc = .gone then
      some { s.set w none with
        worker_head := s.worker_head.filter (· ≠ w)
        writer := .idle }
    else none
  else some { s with writer := .visit rest }

def step? (s : Pipe D S) : Act D S → Option (Pipe D S)
  | .sdr act => s.sdrStep? act
  | .worker w move =>
      (s.heap w).bind fun worker =>
        (worker.move? s.sdr.sdr_cptr s.sdr.sdr_inbuf move).map fun next => s.set w (some next)
  | .create history => if s.Unlocked then some (s.create history) else none
  | .enable =>
      s.creating.bind fun w => (s.heap w).map fun worker => s.enable w worker
  | .destroy id =>
      if s.Unlocked ∧ id ∈ s.worker_head then
        (s.heap id).map fun worker => s.set id (some worker.disable)
      else none
  | .lock => if s.Unlocked then some { s with writer := .visit s.worker_head } else none
  | .visit esrch => match s.writer with
    | .visit [] => some { s with writer := .metadata }
    | .visit (w :: rest) => (s.heap w).bind fun worker => s.visit? w rest worker esrch
    | _ => none
  | .sendFrame => match s.writer with
    | .send w rest last_written send_cptr =>
        if send_cptr < last_written then
          (s.heap w).map fun worker =>
            { s.set w (some (worker.sendFrame send_cptr)) with
              writer := .send w rest last_written (send_cptr + 1) }
        else none
    | _ => none
  | .sendCommit => match s.writer with
    | .send w rest last_written send_cptr =>
        if send_cptr < last_written then none
        else (s.heap w).map fun worker =>
          { s.set w (some (worker.sendCommit send_cptr)) with writer := .visit rest }
    | _ => none
  | .snapshot => match s.writer with
    | .metadata => some { s with writer := .publish s.sdr.sdr_cptr }
    | _ => none
  | .publish => match s.writer with
    | .publish sdr_cptr =>
        some { s with
          sdr := { s.sdr with send_cptr := max s.sdr.send_cptr sdr_cptr }
          writer := .idle }
    | _ => none

/-- What each step of the pipeline does, and where it is taken. -/
inductive Step : Pipe D S → Act D S → Pipe D S → Prop where
  | sdr {s : Pipe D S} {act : SdrReader.Act D} {sdr : Sdr D}
      (step : Sdr.Step s.sdr act sdr) : Step s (.sdr act) { s with sdr := sdr }
  | worker {s : Pipe D S} {w : Nat} {ctx next : Worker D S} {move : Move S}
      (found : s.heap w = some ctx)
      (moves : ctx.Moves s.sdr.sdr_cptr s.sdr.sdr_inbuf move next) :
      Step s (.worker w move) (s.set w (some next))
  | create {s : Pipe D S} (history : Int) (unlocked : s.Unlocked) :
      Step s (.create history) (s.create history)
  | enable {s : Pipe D S} {w : Nat} {ctx : Worker D S} (creating : s.creating = some w)
      (found : s.heap w = some ctx) : Step s .enable (s.enable w ctx)
  | destroy {s : Pipe D S} {id : Nat} {ctx : Worker D S} (unlocked : s.Unlocked)
      (found : s.heap id = some ctx) : Step s (.destroy id) (s.set id (some ctx.disable))
  | lock {s : Pipe D S} (unlocked : s.Unlocked) :
      Step s .lock { s with writer := .visit s.worker_head }
  | last {s : Pipe D S} {esrch : Bool} (writer : s.writer = .visit []) :
      Step s (.visit esrch) { s with writer := .metadata }
  | send {s : Pipe D S} {esrch : Bool} {w : Nat} {rest : List Nat} {ctx : Worker D S}
      (writer : s.writer = .visit (w :: rest)) (found : s.heap w = some ctx)
      (enabled : ctx.enabled = true) :
      Step s (.visit esrch) { s with writer := .send w rest ctx.last_written ctx.send_cptr }
  | skip {s : Pipe D S} {esrch : Bool} {w : Nat} {rest : List Nat}
      (writer : s.writer = .visit (w :: rest)) :
      Step s (.visit esrch) { s with writer := .visit rest }
  | join {s : Pipe D S} {esrch : Bool} {w : Nat} {rest : List Nat} {ctx : Worker D S}
      (writer : s.writer = .visit (w :: rest)) (found : s.heap w = some ctx)
      (gone : ctx.pc = .gone) :
      Step s (.visit esrch) { s.set w none with
        worker_head := s.worker_head.filter (· ≠ w)
        writer := .idle }
  | sendFrame {s : Pipe D S} {w : Nat} {rest : List Nat} {last_written send_cptr : Int}
      {ctx : Worker D S} (writer : s.writer = .send w rest last_written send_cptr)
      (more : send_cptr < last_written) (found : s.heap w = some ctx) :
      Step s .sendFrame { s.set w (some (ctx.sendFrame send_cptr)) with
        writer := .send w rest last_written (send_cptr + 1) }
  | sendCommit {s : Pipe D S} {w : Nat} {rest : List Nat} {last_written send_cptr : Int}
      {ctx : Worker D S} (writer : s.writer = .send w rest last_written send_cptr)
      (found : s.heap w = some ctx) :
      Step s .sendCommit
        { s.set w (some (ctx.sendCommit send_cptr)) with writer := .visit rest }
  | snapshot {s : Pipe D S} (writer : s.writer = .metadata) :
      Step s .snapshot { s with writer := .publish s.sdr.sdr_cptr }
  | publish {s : Pipe D S} {sdr_cptr : Int} (writer : s.writer = .publish sdr_cptr) :
      Step s .publish { s with
        sdr := { s.sdr with send_cptr := max s.sdr.send_cptr sdr_cptr }
        writer := .idle }

theorem Step.of_visit? {s t : Pipe D S} {w : Nat} {rest : List Nat} {ctx : Worker D S}
    {esrch : Bool} (writer : s.writer = .visit (w :: rest)) (found : s.heap w = some ctx)
    (step : s.visit? w rest ctx esrch = some t) : Step s (.visit esrch) t := by
  unfold visit? at step
  split at step
  · rename_i enabled
    obtain rfl := Option.some.inj step
    exact .send writer found enabled
  · split at step
    · split at step
      · rename_i gone
        obtain rfl := Option.some.inj step
        exact .join writer found gone
      · cases step
    · obtain rfl := Option.some.inj step
      exact .skip writer

theorem Step.of_step? {s t : Pipe D S} {act : Act D S} (step : s.step? act = some t) :
    Step s act t := by
  cases act with
  | sdr act =>
      simp only [step?, sdrStep?] at step
      split at step
      · cases step
      · obtain ⟨sdr, moved, rfl⟩ := Option.map_eq_some_iff.mp step
        exact .sdr (.of_step? moved)
  | worker w move =>
      obtain ⟨ctx, found, step⟩ := Option.bind_eq_some_iff.mp step
      obtain ⟨next, moved, rfl⟩ := Option.map_eq_some_iff.mp step
      exact .worker found (.of_move? moved)
  | create history =>
      simp only [step?] at step
      split at step
      · rename_i unlocked
        obtain rfl := Option.some.inj step
        exact .create history unlocked
      · cases step
  | enable =>
      obtain ⟨w, creating, step⟩ := Option.bind_eq_some_iff.mp step
      obtain ⟨ctx, found, rfl⟩ := Option.map_eq_some_iff.mp step
      exact .enable creating found
  | destroy id =>
      simp only [step?] at step
      split at step
      · rename_i listed
        obtain ⟨ctx, found, rfl⟩ := Option.map_eq_some_iff.mp step
        exact .destroy listed.1 found
      · cases step
  | lock =>
      simp only [step?] at step
      split at step
      · rename_i unlocked
        obtain rfl := Option.some.inj step
        exact .lock unlocked
      · cases step
  | visit esrch =>
      simp only [step?] at step
      split at step
      · rename_i writer
        obtain rfl := Option.some.inj step
        exact .last writer
      · rename_i w rest writer
        obtain ⟨ctx, found, step⟩ := Option.bind_eq_some_iff.mp step
        exact .of_visit? writer found step
      · cases step
  | sendFrame =>
      simp only [step?] at step
      split at step
      · rename_i w rest last_written send_cptr writer
        split at step
        · rename_i more
          obtain ⟨ctx, found, rfl⟩ := Option.map_eq_some_iff.mp step
          exact .sendFrame writer more found
        · cases step
      · cases step
  | sendCommit =>
      simp only [step?] at step
      split at step
      · rename_i w rest last_written send_cptr writer
        split at step
        · cases step
        · obtain ⟨ctx, found, rfl⟩ := Option.map_eq_some_iff.mp step
          exact .sendCommit writer found
      · cases step
  | snapshot =>
      simp only [step?] at step
      split at step
      · rename_i writer
        obtain rfl := Option.some.inj step
        exact .snapshot writer
      · cases step
  | publish =>
      simp only [step?] at step
      split at step
      · rename_i sdr_cptr writer
        obtain rfl := Option.some.inj step
        exact .publish writer
      · cases step

end Pipe

def pipeline (D S : Type*) : Machine (Pipe D S) (Act D S) where
  Initial s := ∃ frequency samplerate, s = Pipe.start frequency samplerate
  step? := Pipe.step?

end Kukuruku.Server.Pipeline
