import Kukuruku.Foundation.Machine
import Kukuruku.Server.ClientParser

/-!
# Client threads and the socket writer

Every client has a thread that runs one handler at a time; `socket_write_thr`
runs one pass after the other.  A thread executes one instruction a step.  A
`writen` appends its bytes to the client's socket in one step.  `log` and the
fields after it are history: the messages begun for each client, the workers
created, with creator and requested id, the clients that have been listed the
workers, and the workers whose end has been announced.
-/

namespace Kukuruku.Server.Threads

open Kukuruku.Server.Messages
open Kukuruku.Server.ClientParser

inductive Tid where
  | client (cli : Nat)
  | writer
deriving DecidableEq

structure Sys where
  srv : Server
  llmutex : Option Tid
  prog : Tid → List Instr
  connections : Nat
  sock : Nat → List UInt8
  log : Nat → List SrvMsg
  created : List (Int × Nat × Int)
  listed : List Nat
  notified : List Int

inductive Act where
  | connect (spectrum histo : Bool)
  | request (cli : Nat) (now : Int) (msg : CliMsg)
  | hangup (cli : Nat)
  | pass
  | exec (t : Tid) (junk : Junk)
  | produce (wid : Int) (samples : Samples)
  | exit (wid : Int)
  | metadata (packet : Metadata)

/-- The rest of a message, unless it has been written. -/
def writing (cli : Nat) : List (List UInt8) → List Instr
  | [] => []
  | piece :: more => [.cont cli (piece :: more)]

/-- Neither a mutex operation nor a write. -/
def Plain : Instr → Prop
  | .lock | .unlock | .send _ _ | .cont _ _ => False
  | _ => True

namespace Sys

def start (srv : Server) : Sys where
  srv := srv
  llmutex := none
  prog := fun _ => []
  connections := 0
  sock := fun _ => []
  log := fun _ => []
  created := []
  listed := []
  notified := []

def setProg (s : Sys) (t : Tid) (prog : List Instr) : Sys :=
  { s with prog := Function.update s.prog t prog }

@[simp] theorem prog_setProg (s : Sys) (t : Tid) (prog : List Instr) :
    (s.setProg t prog).prog t = prog := by
  simp only [setProg, Function.update_self]

theorem prog_setProg_of_ne (s : Sys) {t v : Tid} (prog : List Instr) (other : v ≠ t) :
    (s.setProg t prog).prog v = s.prog v := by
  simp only [setProg, Function.update_of_ne other]

/-- Begin a message: its length goes out. -/
def send (pack : Protobuf) (s : Sys) (t : Tid) (cli : Nat) (msg : SrvMsg) (rest : List Instr) :
    Sys :=
  { s.setProg t (writing cli (msg.writes pack) ++ rest) with
    sock := Function.update s.sock cli (s.sock cli ++ LE32 (msg.size pack))
    log := Function.update s.log cli (s.log cli ++ [msg]) }

/-- One more write of the message begun last. -/
def cont (s : Sys) (t : Tid) (cli : Nat) (piece : List UInt8) (more : List (List UInt8))
    (rest : List Instr) : Sys :=
  { s.setProg t (writing cli more ++ rest) with
    sock := Function.update s.sock cli (s.sock cli ++ piece) }

/-- Any other instruction takes effect and is replaced by what it expands to. -/
def apply (pack : Protobuf) (junk : Junk) (s : Sys) (t : Tid) (i : Instr)
    (new rest : List Instr) : Sys :=
  { s.setProg t (new ++ rest) with
    srv := effect pack junk s.srv i
    created := match i with
      | .create me remoteid _ _ _ _ => s.created ++ [(s.srv.widx, me, remoteid)]
      | _ => s.created
    listed := match i with
      | .list me => me :: s.listed
      | _ => s.listed
    notified := match i with
      | .destroyed id => id :: s.notified
      | _ => s.notified }

def exec? (pack : Protobuf) (s : Sys) (t : Tid) (junk : Junk) : Option Sys :=
  match s.prog t with
  | [] => none
  | .lock :: rest =>
      if s.llmutex = none then some { s.setProg t rest with llmutex := some t } else none
  | .unlock :: rest =>
      if s.llmutex = some t then some { s.setProg t rest with llmutex := none } else none
  | .send cli msg :: rest => some (s.send pack t cli msg rest)
  | .cont _ [] :: rest => some (s.setProg t rest)
  | .cont cli (piece :: more) :: rest => some (s.cont t cli piece more rest)
  | i :: rest => (expand junk s.srv i).map fun new => s.apply pack junk t i new rest

/-- `accept`: the new entry comes from `malloc` and is inserted under `llmutex`.
Nobody has written to a socket with this number before.  Here its thread has emptied the
list of subscriptions before anyone reads it; `Listener` has the record as it is inserted. -/
def connect (s : Sys) (spectrum histo : Bool) : Sys :=
  { s with
    srv := { s.srv with
      tcp_cli_head := ⟨s.connections, spectrum, histo, []⟩ :: s.srv.tcp_cli_head }
    connections := s.connections + 1 }

/-- The worker's thread has a frame ready; it adopts new taps on the way. -/
def produce (pack : Protobuf) (s : Sys) (wid : Int) (samples : Samples) : Sys :=
  { s with srv := s.srv.setWorker wid fun worker =>
      { worker with
        ready := worker.ready ++ [samples]
        maxval := (worker.newtaps.map pack.calc_max_amplitude).getD worker.maxval
        newtaps := none } }

def step? (pack : Protobuf) (s : Sys) : Act → Option Sys
  | .connect spectrum histo =>
      if s.llmutex = none then some (s.connect spectrum histo) else none
  | .request cli now msg =>
      if (s.srv.client? cli).isSome ∧ s.prog (.client cli) = [] then
        some (s.setProg (.client cli) (parse_client_req cli now msg))
      else none
  | .hangup cli =>
      if (s.srv.client? cli).isSome ∧ s.prog (.client cli) = [] then
        some (s.setProg (.client cli) (disconnect cli))
      else none
  | .pass => if s.prog .writer = [] then some (s.setProg .writer socket_write_pass) else none
  | .exec t junk => s.exec? pack t junk
  | .produce wid samples =>
      if (s.srv.worker? wid).any fun worker => worker.enabled && !worker.exited then
        some (s.produce pack wid samples)
      else none
  | .exit wid =>
      some { s with srv := s.srv.setWorker wid fun worker => { worker with exited := true } }
  | .metadata packet =>
      some { s with srv := { s.srv with
        metadata := s.srv.metadata ++ [packet]
        sdr_cptr := s.srv.sdr_cptr + 1 } }

/-- What one instruction of a thread does. -/
inductive Exec (pack : Protobuf) (s : Sys) (t : Tid) (junk : Junk) : Sys → Prop where
  | lock {rest : List Instr} (prog : s.prog t = .lock :: rest) (free : s.llmutex = none) :
      Exec pack s t junk { s.setProg t rest with llmutex := some t }
  | unlock {rest : List Instr} (prog : s.prog t = .unlock :: rest)
      (held : s.llmutex = some t) : Exec pack s t junk { s.setProg t rest with llmutex := none }
  | send {cli : Nat} {msg : SrvMsg} {rest : List Instr}
      (prog : s.prog t = .send cli msg :: rest) :
      Exec pack s t junk (s.send pack t cli msg rest)
  | done {cli : Nat} {rest : List Instr} (prog : s.prog t = .cont cli [] :: rest) :
      Exec pack s t junk (s.setProg t rest)
  | cont {cli : Nat} {piece : List UInt8} {more : List (List UInt8)} {rest : List Instr}
      (prog : s.prog t = .cont cli (piece :: more) :: rest) :
      Exec pack s t junk (s.cont t cli piece more rest)
  | apply {i : Instr} {new rest : List Instr} (prog : s.prog t = i :: rest) (plain : Plain i)
      (expands : expand junk s.srv i = some new) :
      Exec pack s t junk (s.apply pack junk t i new rest)

theorem Exec.of_exec? {pack : Protobuf} {s u : Sys} {t : Tid} {junk : Junk}
    (step : s.exec? pack t junk = some u) : Exec pack s t junk u := by
  unfold exec? at step
  split at step
  · cases step
  · rename_i rest prog
    split at step
    · rename_i free
      obtain rfl := Option.some.inj step
      exact .lock prog free
    · cases step
  · rename_i rest prog
    split at step
    · rename_i held
      obtain rfl := Option.some.inj step
      exact .unlock prog held
    · cases step
  · rename_i prog
    obtain rfl := Option.some.inj step
    exact .send prog
  · rename_i prog
    obtain rfl := Option.some.inj step
    exact .done prog
  · rename_i prog
    obtain rfl := Option.some.inj step
    exact .cont prog
  · rename_i i rest notLock notUnlock notSend notDone notCont prog
    obtain ⟨new, expands, rfl⟩ := Option.map_eq_some_iff.mp step
    refine .apply prog ?_ expands
    cases i with
    | lock => exact (notLock rfl).elim
    | unlock => exact (notUnlock rfl).elim
    | send cli msg => exact (notSend cli msg rfl).elim
    | cont cli writes =>
        cases writes with
        | nil => exact (notDone cli rfl).elim
        | cons piece more => exact (notCont cli piece more rfl).elim
    | _ => trivial

/-- The instruction that an action runs. -/
def next? (s : Sys) : Act → Option Instr
  | .exec t _ => (s.prog t).head?
  | _ => none

/-- What each step of the system does. -/
inductive Step (pack : Protobuf) (s : Sys) : Act → Sys → Prop where
  | connect (spectrum histo : Bool) (free : s.llmutex = none) :
      Step pack s (.connect spectrum histo) (s.connect spectrum histo)
  | request (cli : Nat) (now : Int) (msg : CliMsg) (known : (s.srv.client? cli).isSome)
      (idle : s.prog (.client cli) = []) :
      Step pack s (.request cli now msg)
        (s.setProg (.client cli) (parse_client_req cli now msg))
  | hangup (cli : Nat) (known : (s.srv.client? cli).isSome)
      (idle : s.prog (.client cli) = []) :
      Step pack s (.hangup cli) (s.setProg (.client cli) (disconnect cli))
  | pass (idle : s.prog .writer = []) :
      Step pack s .pass (s.setProg .writer socket_write_pass)
  | exec {t : Tid} {junk : Junk} {u : Sys} (exec : Exec pack s t junk u) :
      Step pack s (.exec t junk) u
  | produce (wid : Int) (samples : Samples) :
      Step pack s (.produce wid samples) (s.produce pack wid samples)
  | exit (wid : Int) :
      Step pack s (.exit wid)
        { s with srv := s.srv.setWorker wid fun worker => { worker with exited := true } }
  | metadata (packet : Metadata) :
      Step pack s (.metadata packet) { s with srv := { s.srv with
        metadata := s.srv.metadata ++ [packet]
        sdr_cptr := s.srv.sdr_cptr + 1 } }

theorem Step.of_step? {pack : Protobuf} {s u : Sys} {act : Act}
    (step : s.step? pack act = some u) : Step pack s act u := by
  cases act with
  | exec t junk => exact .exec (.of_exec? step)
  | connect spectrum histo =>
      simp only [step?] at step
      split at step
      · rename_i free
        obtain rfl := Option.some.inj step
        exact .connect spectrum histo free
      · cases step
  | request cli now msg =>
      simp only [step?] at step
      split at step
      · rename_i ready
        obtain rfl := Option.some.inj step
        exact .request cli now msg ready.1 ready.2
      · cases step
  | hangup cli =>
      simp only [step?] at step
      split at step
      · rename_i ready
        obtain rfl := Option.some.inj step
        exact .hangup cli ready.1 ready.2
      · cases step
  | pass =>
      simp only [step?] at step
      split at step
      · rename_i idle
        obtain rfl := Option.some.inj step
        exact .pass idle
      · cases step
  | produce wid samples =>
      simp only [step?] at step
      split at step
      · obtain rfl := Option.some.inj step
        exact .produce wid samples
      · cases step
  | exit wid =>
      obtain rfl := Option.some.inj step
      exact .exit wid
  | metadata packet =>
      obtain rfl := Option.some.inj step
      exact .metadata packet

end Sys

/-- A server that starts without clients and workers, whatever its settings. -/
def Fresh (srv : Server) : Prop := srv.tcp_cli_head = [] ∧ srv.worker_head = []

instance (srv : Server) : Decidable (Fresh srv) := inferInstanceAs (Decidable (_ ∧ _))

/-- A server before its first connection. -/
def idleServer : Server where
  tcp_cli_head := []
  worker_head := []
  widx := 0
  samplerate := 2000000
  frequency := 100000000
  ppm := 0
  fftw := 1024
  gain := ⟨0, 0, 0, 0⟩
  sdr_cmd := []
  record := .initial
  sdr_cptr := -1
  metadata := []

def server (pack : Protobuf) : Machine Sys Act where
  Initial s := ∃ srv, Fresh srv ∧ s = Sys.start srv
  step? := Sys.step? pack

end Kukuruku.Server.Threads
