import Kukuruku.Foundation.Ring
import Kukuruku.Server.SdrReader

/-!
# The loop of an xlater worker

`xlate_worker_thr` waits for a frame and a free slot, copies the frame, stores
the filtered packet in its own ring `outbuf` and commits it.  `socket_write_thr`
reads the ring behind it.  What the filter computes is a label of the step that
stores it.  A slot of `outbuf` holds no packet while it is being written.
-/

namespace Kukuruku.Server.WorkerThread

open Kukuruku.Server.SdrReader (SdrPacket)

/-- One slot of `outbuf`. -/
structure WorkerPacket (S : Type*) where
  len : Int
  data : S
deriving DecidableEq

/-- Where `xlate_worker_thr` is, with its local `mypos`. -/
inductive WorkerPc where
  | start
  | wait (mypos : Int)
  | copy (mypos : Int)
  | fill (mypos : Int)
  | commit (mypos : Int)
  | leave
  | gone
deriving DecidableEq

/-- The frame that the thread will copy next, unless it has left its loop. -/
def WorkerPc.needs (last_written : Int) : WorkerPc → Option Int
  | .start => some (last_written + 1)
  | .wait mypos | .copy mypos => some mypos
  | .fill mypos | .commit mypos => some (mypos + 1)
  | .leave | .gone => none

/-- A worker, as far as its two rings are concerned.  The fields from `origin`
on are history: the first value of the cursors, the packets stored, the packets
read by the socket writer, the frames copied. -/
structure Worker (D S : Type*) where
  enabled : Bool
  last_written : Int
  send_cptr : Int
  outbuf : Ring.Cells (WorkerPacket S)
  pc : WorkerPc
  origin : Int
  stored : List (Int × WorkerPacket S)
  sent : List (Int × Option (WorkerPacket S))
  copied : List (Int × Option (SdrPacket D))

/-- The steps of the worker's thread. -/
inductive Move (S : Type*) where
  | begin
  | check
  | copy
  | store (packet : WorkerPacket S)
  | commit
  | free

namespace Worker

variable {D S : Type*}

/-- The cursor that `create_xlate_worker` starts from. -/
def startCursor (history sdr_cptr : Int) : Int :=
  if history = -1 then sdr_cptr
  else if history < sdr_cptr - BUFSIZE then sdr_cptr - BUFSIZE
  else history

/-- A worker whose thread has just been created; it is not enabled yet. -/
def create (history sdr_cptr : Int) : Worker D S where
  enabled := false
  last_written := startCursor history sdr_cptr
  send_cptr := startCursor history sdr_cptr
  outbuf := fun _ => none
  pc := .start
  origin := startCursor history sdr_cptr
  stored := []
  sent := []
  copied := []

variable (worker : Worker D S)

def begin : Worker D S := { worker with pc := .wait (worker.last_written + 1) }

/-- The guard of the wait has passed. -/
def enter (mypos : Int) : Worker D S := { worker with pc := .copy mypos }

/-- The frame is in `alldata`; from here on the slot of `outbuf` is written. -/
def copy (mypos : Int) (sdr_inbuf : Ring.Cells (SdrPacket D)) : Worker D S :=
  { worker with
    pc := .fill mypos
    outbuf := Function.update worker.outbuf (mypos.tmod BUFSIZE) none
    copied := worker.copied ++ [(mypos, sdr_inbuf (mypos.tmod BUFSIZE))] }

/-- The rotator's output and its length are complete. -/
def store (mypos : Int) (packet : WorkerPacket S) : Worker D S :=
  { worker with
    pc := .commit mypos
    outbuf := Function.update worker.outbuf (mypos.tmod BUFSIZE) (some packet)
    stored := worker.stored ++ [(mypos, packet)] }

/-- Under `datamutex`: leave the loop if disabled, else publish the frame. -/
def commit (mypos : Int) : Worker D S :=
  if worker.enabled then { worker with last_written := mypos, pc := .wait (mypos + 1) }
  else { worker with pc := .leave }

/-- Free the ring and end the thread. -/
def free : Worker D S := { worker with outbuf := fun _ => none, pc := .gone }

/-- The thread's steps; `check` is possible only when the wait's guard fails, and `copy`
only where the remainder of C is an index of the array, which it is not for most negative
frames. -/
def move? (sdr_cptr : Int) (sdr_inbuf : Ring.Cells (SdrPacket D)) :
    Move S → Option (Worker D S)
  | .begin => match worker.pc with
    | .start => some worker.begin
    | _ => none
  | .check => match worker.pc with
    | .wait mypos =>
        if sdr_cptr ≤ mypos ∨ worker.send_cptr ≤ mypos - BUFSIZE then none
        else some (worker.enter mypos)
    | _ => none
  | .copy => match worker.pc with
    | .copy mypos =>
        if 0 ≤ mypos.tmod BUFSIZE then some (worker.copy mypos sdr_inbuf) else none
    | _ => none
  | .store packet => match worker.pc with
    | .fill mypos => some (worker.store mypos packet)
    | _ => none
  | .commit => match worker.pc with
    | .commit mypos => some (worker.commit mypos)
    | _ => none
  | .free => match worker.pc with
    | .leave => some worker.free
    | _ => none

/-- What each step of the thread does. -/
inductive Moves (sdr_cptr : Int) (sdr_inbuf : Ring.Cells (SdrPacket D)) :
    Worker D S → Move S → Worker D S → Prop where
  | begin {ctx : Worker D S} (pc : ctx.pc = .start) :
      Moves sdr_cptr sdr_inbuf ctx .begin ctx.begin
  | check {ctx : Worker D S} {mypos : Int} (pc : ctx.pc = .wait mypos) (read : mypos < sdr_cptr)
      (room : mypos - BUFSIZE < ctx.send_cptr) :
      Moves sdr_cptr sdr_inbuf ctx .check (ctx.enter mypos)
  | copy {ctx : Worker D S} {mypos : Int} (pc : ctx.pc = .copy mypos)
      (index : 0 ≤ mypos.tmod BUFSIZE) :
      Moves sdr_cptr sdr_inbuf ctx .copy (ctx.copy mypos sdr_inbuf)
  | store {ctx : Worker D S} {mypos : Int} (packet : WorkerPacket S) (pc : ctx.pc = .fill mypos) :
      Moves sdr_cptr sdr_inbuf ctx (.store packet) (ctx.store mypos packet)
  | commit {ctx : Worker D S} {mypos : Int} (pc : ctx.pc = .commit mypos) :
      Moves sdr_cptr sdr_inbuf ctx .commit (ctx.commit mypos)
  | free {ctx : Worker D S} (pc : ctx.pc = .leave) :
      Moves sdr_cptr sdr_inbuf ctx .free ctx.free

theorem Moves.of_move? {sdr_cptr : Int} {sdr_inbuf : Ring.Cells (SdrPacket D)}
    {worker next : Worker D S} {move : Move S}
    (step : worker.move? sdr_cptr sdr_inbuf move = some next) :
    Moves sdr_cptr sdr_inbuf worker move next := by
  cases move with
  | check =>
      rw [move?] at step
      split at step
      · rename_i mypos pc
        split at step
        · cases step
        · rename_i guard
          obtain rfl := Option.some.inj step
          exact .check pc (by omega) (by omega)
      · cases step
  | copy =>
      rw [move?] at step
      split at step
      · rename_i mypos pc
        split at step
        · rename_i index
          obtain rfl := Option.some.inj step
          exact .copy pc index
        · cases step
      · cases step
  | _ =>
      rw [move?] at step
      split at step
      · rename_i pc
        obtain rfl := Option.some.inj step
        constructor
        exact pc
      · cases step

/-! ## What other threads do to a worker -/

/-- `create_xlate_worker` after the thread has been created. -/
def enable : Worker D S := { worker with enabled := true }

/-- `DESTROY_XLATER`. -/
def disable : Worker D S := { worker with enabled := false }

/-- The socket writer processes the frame after its local cursor. -/
def sendFrame (cptr : Int) : Worker D S :=
  { worker with sent := worker.sent ++ [(cptr + 1, worker.outbuf ((cptr + 1).tmod BUFSIZE))] }

/-- The socket writer publishes its local cursor. -/
def sendCommit (cptr : Int) : Worker D S := { worker with send_cptr := cptr }

end Worker

end Kukuruku.Server.WorkerThread
