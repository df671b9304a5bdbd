import Kukuruku.Server.Threads

/-!
# The accept loop

`network_listener` publishes the record of a new client with whatever its memory
holds, and `client_read_thr` empties the list of subscriptions when it starts.
In between every thread may already read the record.
-/

namespace Kukuruku.Server.Listener

open Kukuruku.Server.Messages
open Kukuruku.Server.ClientParser
open Kukuruku.Server.Threads

/-- `raw` are the clients whose thread has not started yet. -/
structure State where
  sys : Sys
  raw : List Nat

/-- The uninitialised list head of an accepted client leads to some list; memory
that is no list ends the process. -/
inductive Event where
  | accept (spectrum histo : Bool) (req_frames_head : List ReqFrames)
  | client_read_thr (cli : Nat)
  | thread (act : Act)

namespace State

def start (srv : Server) : State := ⟨Sys.start srv, []⟩

/-- The record is inserted under `llmutex`. -/
def accept (s : State) (spectrum histo : Bool) (req_frames_head : List ReqFrames) : State where
  sys := { s.sys with
    srv := { s.sys.srv with
      tcp_cli_head := ⟨s.sys.connections, spectrum, histo, req_frames_head⟩ ::
        s.sys.srv.tcp_cli_head }
    connections := s.sys.connections + 1 }
  raw := s.sys.connections :: s.raw

/-- `SLIST_INIT` at the beginning of the thread. -/
def client_read_thr (s : State) (cli : Nat) : State where
  sys := { s.sys with
    srv := s.sys.srv.setClient cli fun client => { client with req_frames_head := [] } }
  raw := s.raw.filter fun other => other ≠ cli

/-- A thread that has not started reads no request; connections are made by the
accept loop. -/
def started (s : State) : Act → Bool
  | .connect _ _ => false
  | .request cli _ _ | .hangup cli => decide (cli ∉ s.raw)
  | _ => true

def step? (pack : Protobuf) (s : State) : Event → Option State
  | .accept spectrum histo req_frames_head =>
      if s.sys.llmutex = none then some (s.accept spectrum histo req_frames_head) else none
  | .client_read_thr cli => if cli ∈ s.raw then some (s.client_read_thr cli) else none
  | .thread act =>
      if s.started act then (s.sys.step? pack act).map fun sys => ⟨sys, s.raw⟩ else none

/-- What each event does. -/
inductive Step (pack : Protobuf) (s : State) : Event → State → Prop where
  | accept (spectrum histo : Bool) (req_frames_head : List ReqFrames)
      (free : s.sys.llmutex = none) :
      Step pack s (.accept spectrum histo req_frames_head)
        (s.accept spectrum histo req_frames_head)
  | client_read_thr (cli : Nat) (accepted : cli ∈ s.raw) :
      Step pack s (.client_read_thr cli) (s.client_read_thr cli)
  | thread {act : Act} {u : Sys} (started : s.started act = true)
      (step : Sys.Step pack s.sys act u) : Step pack s (.thread act) ⟨u, s.raw⟩

theorem Step.of_step? {pack : Protobuf} {s u : State} {event : Event}
    (step : s.step? pack event = some u) : Step pack s event u := by
  cases event with
  | accept spectrum histo req_frames_head =>
      simp only [step?] at step
      split at step
      · rename_i free
        obtain rfl := Option.some.inj step
        exact .accept spectrum histo req_frames_head free
      · cases step
  | client_read_thr cli =>
      simp only [step?] at step
      split at step
      · rename_i accepted
        obtain rfl := Option.some.inj step
        exact .client_read_thr cli accepted
      · cases step
  | thread act =>
      simp only [step?] at step
      split at step
      · rename_i started
        obtain ⟨sys, taken, rfl⟩ := Option.map_eq_some_iff.mp step
        exact .thread started (.of_step? taken)
      · cases step

end State

/-- The server with its accept loop. -/
def listener (pack : Protobuf) : Machine State Event where
  Initial s := ∃ srv, Fresh srv ∧ s = State.start srv
  step? := State.step? pack

end Kukuruku.Server.Listener
