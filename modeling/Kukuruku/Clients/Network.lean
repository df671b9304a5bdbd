import Kukuruku.Clients.LibClient
import Kukuruku.Server.Threads

/-!
# Clients and server together

Every connection has a client of the library at its other end, under the number
of the connection.  The server reads a client's messages in the order in which
they were queued, and a client receives the messages begun for it in their
order.
-/

namespace Kukuruku.Clients.Network

open Kukuruku.Server.Messages
open Kukuruku.Server.ClientParser
open Kukuruku.Server.Threads
open Kukuruku.Clients.LibClient

structure Net where
  sys : Sys
  clients : Nat → Client
  received : Nat → Nat

inductive Act where
  | server (act : Server.Threads.Act)
  | read (cli : Nat) (now : Int)
  | create_xlater (cli : Nat) (rotate : Float32Bits) (decimation : Int)
      (taps : List Float32Bits) (history : Int)
  | modify_xlater (cli : Nat) (xid : Int) (rotate : Float32Bits) (taps : List Float32Bits)
  | set_auto_enable_xlater (cli : Nat) (val : Bool) (st : SampleFormat)
  | q_msg (cli : Nat) (msg : CliMsg)
  | receive (cli : Nat)

/-- Requests are what the clients have queued; the server takes no others. -/
def isRequest : Server.Threads.Act → Bool
  | .request _ _ _ => true
  | _ => false

namespace Net

def start (srv : Server) : Net where
  sys := Sys.start srv
  clients := fun _ => Client.init
  received := fun _ => 0

def setClient (s : Net) (cli : Nat) (client : Client) : Net :=
  { s with clients := Function.update s.clients cli client }

/-- The server takes the next message off a client's queue. -/
def read (s : Net) (cli : Nat) (later : List CliMsg) (sys : Sys) : Net :=
  { s.setClient cli { s.clients cli with msgq := later } with sys := sys }

def receive (s : Net) (cli : Nat) (client : Client) : Net :=
  { s.setClient cli client with
    received := Function.update s.received cli (s.received cli + 1) }

def step? (pack : Protobuf) (s : Net) : Act → Option Net
  | .server act =>
      if isRequest act then none
      else (s.sys.step? pack act).map fun sys => { s with sys := sys }
  | .read cli now =>
      match (s.clients cli).msgq with
      | [] => none
      | msg :: later => (s.sys.step? pack (.request cli now msg)).map (s.read cli later)
  | .create_xlater cli rotate decimation taps history =>
      some (s.setClient cli ((s.clients cli).create_xlater rotate decimation taps history))
  | .modify_xlater cli xid rotate taps =>
      ((s.clients cli).modify_xlater xid rotate taps).map (s.setClient cli)
  | .set_auto_enable_xlater cli val st =>
      some (s.setClient cli ((s.clients cli).set_auto_enable_xlater val st))
  | .q_msg cli msg => some (s.setClient cli ((s.clients cli).q_msg msg))
  | .receive cli =>
      (s.sys.log cli)[s.received cli]?.bind fun msg =>
        ((s.clients cli).dispatch msg).map (s.receive cli)

/-- The instruction that the server runs in an action. -/
def next? (s : Net) : Act → Option Instr
  | .server act => s.sys.next? act
  | _ => none

/-- What each step of clients and server does. -/
inductive Step (pack : Protobuf) (s : Net) : Act → Net → Prop where
  | server {act : Server.Threads.Act} {sys : Sys} (step : Sys.Step pack s.sys act sys)
      (own : isRequest act = false) :
      Step pack s (.server act) { s with sys := sys }
  | read {cli : Nat} {now : Int} {msg : CliMsg} {later : List CliMsg} {sys : Sys}
      (queued : (s.clients cli).msgq = msg :: later)
      (step : Sys.Step pack s.sys (.request cli now msg) sys) :
      Step pack s (.read cli now) (s.read cli later sys)
  | create_xlater (cli : Nat) (rotate : Float32Bits) (decimation : Int)
      (taps : List Float32Bits) (history : Int) :
      Step pack s (.create_xlater cli rotate decimation taps history)
        (s.setClient cli ((s.clients cli).create_xlater rotate decimation taps history))
  | modify_xlater {cli : Nat} {xid : Int} {rotate : Float32Bits} {taps : List Float32Bits}
      {next : Client} (step : (s.clients cli).modify_xlater xid rotate taps = some next) :
      Step pack s (.modify_xlater cli xid rotate taps) (s.setClient cli next)
  | set_auto_enable_xlater (cli : Nat) (val : Bool) (st : SampleFormat) :
      Step pack s (.set_auto_enable_xlater cli val st)
        (s.setClient cli ((s.clients cli).set_auto_enable_xlater val st))
  | q_msg (cli : Nat) (msg : CliMsg) :
      Step pack s (.q_msg cli msg) (s.setClient cli ((s.clients cli).q_msg msg))
  | receive {cli : Nat} {msg : SrvMsg} {next : Client}
      (delivered : (s.sys.log cli)[s.received cli]? = some msg)
      (step : (s.clients cli).dispatch msg = some next) :
      Step pack s (.receive cli) (s.receive cli next)

theorem Step.of_step? {pack : Protobuf} {s u : Net} {act : Act}
    (step : s.step? pack act = some u) : Step pack s act u := by
  cases act with
  | server act =>
      simp only [step?] at step
      split at step
      · cases step
      · rename_i own
        obtain ⟨sys, taken, rfl⟩ := Option.map_eq_some_iff.mp step
        exact .server (.of_step? taken) ((Bool.not_eq_true _).mp own)
  | read cli now =>
      simp only [step?] at step
      split at step
      · cases step
      · rename_i msg later queued
        obtain ⟨sys, taken, rfl⟩ := Option.map_eq_some_iff.mp step
        exact .read queued (.of_step? taken)
  | create_xlater cli rotate decimation taps history =>
      obtain rfl := Option.some.inj step
      exact .create_xlater cli rotate decimation taps history
  | modify_xlater cli xid rotate taps =>
      obtain ⟨next, taken, rfl⟩ := Option.map_eq_some_iff.mp step
      exact .modify_xlater taken
  | set_auto_enable_xlater cli val st =>
      obtain rfl := Option.some.inj step
      exact .set_auto_enable_xlater cli val st
  | q_msg cli msg =>
      obtain rfl := Option.some.inj step
      exact .q_msg cli msg
  | receive cli =>
      obtain ⟨msg, delivered, step⟩ := Option.bind_eq_some_iff.mp step
      obtain ⟨next, taken, rfl⟩ := Option.map_eq_some_iff.mp step
      exact .receive delivered taken

end Net

def net (pack : Protobuf) : Machine Net Act where
  Initial s := ∃ srv, Fresh srv ∧ s = Net.start srv
  step? := Net.step? pack

end Kukuruku.Clients.Network
