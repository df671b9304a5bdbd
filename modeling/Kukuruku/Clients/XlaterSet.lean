import Mathlib.Data.List.Induction
import Mathlib.Data.Set.Basic
import Kukuruku.Clients.Network
import Kukuruku.Server.AgreementRuns

/-!
# The xlaters that a client knows

The keys of `xlaters` are what the messages received so far amount to.  In an
orderly run nothing is announced after its end has been, so that once everything
has arrived the keys are the enabled workers.
-/

namespace Kukuruku.Clients.XlaterSet

open Kukuruku.Server.Messages
open Kukuruku.Server.ClientParser
open Kukuruku.Server.Threads hiding Act
open Kukuruku.Server.Announcements
open Kukuruku.Server.Agreement
open Kukuruku.Server.Connections
open Kukuruku.Server.AgreementRuns
open Kukuruku.Clients.LibClient
open Kukuruku.Clients.Network

/-! ## What messages amount to -/

/-- The workers that a client knows of after one more message. -/
def hear (known : Set Int) : SrvMsg → Set Int
  | .running msg => { id | id = msg.id ∨ id ∈ known }
  | .destroyed wid => { id | id ≠ wid ∧ id ∈ known }
  | _ => known

def heard (log : List SrvMsg) : Set Int := log.foldl hear ∅

theorem heard_append (log : List SrvMsg) (msg : SrvMsg) :
    heard (log ++ [msg]) = hear (heard log) msg := by
  rw [heard, List.foldl_append]
  rfl

/-- No worker is announced after its end has been. -/
def InSequence (log : List SrvMsg) : Prop :=
  ∀ before id after, log = before ++ .destroyed id :: after →
    ∀ msg, .running msg ∈ after → msg.id ≠ id

theorem InSequence.init {log : List SrvMsg} {msg : SrvMsg}
    (sequence : InSequence (log ++ [msg])) : InSequence log := by
  intro before id after same running mem
  refine sequence before id (after ++ [msg]) ?_ running (List.mem_append_left _ mem)
  rw [same, List.append_assoc, List.cons_append]

theorem InSequence.last {log : List SrvMsg} {msg : SRV_RUNNING_XLATER}
    (sequence : InSequence (log ++ [.running msg])) : .destroyed msg.id ∉ log := by
  intro mem
  obtain ⟨before, after, rfl⟩ := List.append_of_mem mem
  refine sequence before msg.id (after ++ [.running msg]) ?_ msg
    (List.mem_append_right _ (List.mem_singleton_self _)) rfl
  rw [List.append_assoc, List.cons_append]

/-- In sequence, a client knows what has been announced, but for what has ended. -/
theorem mem_heard {log : List SrvMsg} (sequence : InSequence log) (id : Int) :
    id ∈ heard log ↔ (∃ msg, .running msg ∈ log ∧ msg.id = id) ∧ .destroyed id ∉ log := by
  induction log using List.reverseRecOn with
  | nil => simp [heard]
  | append_singleton log msg ih =>
      rw [heard_append]
      have before := ih sequence.init
      cases msg with
      | running msg =>
          constructor
          · rintro (rfl | known)
            · refine ⟨⟨msg, by simp, rfl⟩, ?_⟩
              simpa using sequence.last
            · obtain ⟨⟨earlier, mem, named⟩, alive⟩ := before.mp known
              exact ⟨⟨earlier, List.mem_append_left _ mem, named⟩, by simpa using alive⟩
          · rintro ⟨⟨earlier, mem, named⟩, alive⟩
            rcases List.mem_append.mp mem with past | now
            · exact Or.inr (before.mpr ⟨⟨earlier, past, named⟩, by simpa using alive⟩)
            · obtain rfl : earlier = msg := by simpa using now
              exact Or.inl named.symm
      | destroyed wid =>
          constructor
          · rintro ⟨other, known⟩
            obtain ⟨⟨earlier, mem, named⟩, alive⟩ := before.mp known
            exact ⟨⟨earlier, List.mem_append_left _ mem, named⟩, by simpa [alive] using other⟩
          · rintro ⟨⟨earlier, mem, named⟩, alive⟩
            have parts : .destroyed id ∉ log ∧ id ≠ wid := by simpa using alive
            have past : .running earlier ∈ log := by simpa using mem
            exact ⟨parts.2, before.mpr ⟨⟨earlier, past, named⟩, parts.1⟩⟩
      | _ => simpa [hear] using before

/-- Receiving a message changes the keys as the message says. -/
theorem keys_dispatch {cl next : Client} {msg : SrvMsg} (step : cl.dispatch msg = some next) :
    next.keys = hear cl.keys msg := by
  cases msg with
  | running msg =>
      ext id
      exact (Client.Running.of_srv_running_xlater step).mem_keys id
  | destroyed wid =>
      obtain rfl := Option.some.inj step
      ext id
      exact Client.mem_keys_destroyed cl wid id
  | _ =>
      obtain rfl := Option.some.inj step
      rfl

/-! ## Clients follow their logs -/

/-- Every client's keys are what it has received so far. -/
def Follows (s : Net) : Prop :=
  ∀ cli, s.received cli ≤ (s.sys.log cli).length ∧
    (s.clients cli).keys = heard ((s.sys.log cli).take (s.received cli))

/-- Logs only grow. -/
theorem log_step {pack : Protobuf} {s u : Sys} {act : Server.Threads.Act}
    (step : Sys.Step pack s act u) (cli : Nat) : ∃ more, u.log cli = s.log cli ++ more := by
  have same : ∃ more, s.log cli = s.log cli ++ more := ⟨[], (List.append_nil _).symm⟩
  cases step with
  | exec exec =>
      cases exec with
      | @send other msg rest =>
          by_cases own : cli = other
          · subst own
            exact ⟨[msg], Function.update_self cli _ s.log⟩
          · obtain ⟨more, kept⟩ := same
            exact ⟨more, (Function.update_of_ne own _ s.log).trans kept⟩
      | _ => exact same
  | _ => exact same

namespace Follows

variable {pack : Protobuf} {s u : Net} {cli : Nat}

theorem start (srv : Server) : Follows (Net.start srv) := by
  intro cli
  refine ⟨Nat.le_refl 0, ?_⟩
  ext id
  exact iff_of_false nofun (Set.notMem_empty id)

theorem server {sys : Sys} (follows : Follows s) (clients : Nat → Client)
    (keys : ∀ cli, (clients cli).keys = (s.clients cli).keys)
    (grows : ∀ cli, ∃ more, sys.log cli = s.sys.log cli ++ more) :
    Follows ⟨sys, clients, s.received⟩ := by
  intro cli
  obtain ⟨below, known⟩ := follows cli
  obtain ⟨more, log⟩ := grows cli
  refine ⟨?_, ?_⟩
  · rw [log, List.length_append]
    exact Nat.le_add_right_of_le below
  · rw [keys, log, List.take_append_of_le_length below]
    exact known

theorem keys_setClient {next : Client} (keys : next.keys = (s.clients cli).keys) (other : Nat) :
    (Function.update s.clients cli next other).keys = (s.clients other).keys := by
  by_cases own : other = cli
  · subst own
    rw [Function.update_self, keys]
  · rw [Function.update_of_ne own]

/-- A client's call leaves its keys as they are. -/
theorem call {next : Client} (follows : Follows s) (keys : next.keys = (s.clients cli).keys) :
    Follows (s.setClient cli next) :=
  follows.server _ (keys_setClient keys) fun _ => ⟨[], (List.append_nil _).symm⟩

theorem receive {msg : SrvMsg} {next : Client} (follows : Follows s)
    (delivered : (s.sys.log cli)[s.received cli]? = some msg)
    (step : (s.clients cli).dispatch msg = some next) : Follows (s.receive cli next) := by
  intro other
  by_cases own : other = cli
  · subst own
    obtain ⟨below, known⟩ := follows other
    simp only [Net.receive, Net.setClient, Function.update_self]
    refine ⟨(List.getElem?_eq_some_iff.mp delivered).1, ?_⟩
    rw [List.take_add_one, delivered, Option.toList_some, heard_append, ← known]
    exact keys_dispatch step
  · simp only [Net.receive, Net.setClient, Function.update_of_ne own]
    exact follows other

theorem step {act : Act} (follows : Follows s) (step : Net.Step pack s act u) : Follows u := by
  cases step with
  | server step => exact follows.server _ (fun _ => rfl) (log_step step)
  | read queued step =>
      exact follows.server _ (keys_setClient rfl) (log_step step)
  | modify_xlater step => exact follows.call (Client.keys_modify_xlater step)
  | create_xlater | set_auto_enable_xlater | q_msg => exact follows.call rfl
  | receive delivered step => exact follows.receive delivered step

end Follows

/-! ## Agreement -/

/-- No handler is running, and all messages have arrived. -/
def Quiescent (s : Net) : Prop :=
  ∀ cli, cli < s.sys.connections →
    s.sys.prog (.client cli) = [] ∧ s.received cli = (s.sys.log cli).length

instance (s : Net) : Decidable (Quiescent s) :=
  inferInstanceAs (Decidable (∀ cli, cli < s.sys.connections → _))

/-- Once everything has settled, a client that has asked for the list knows the
enabled workers; and the end of a worker is the last that is sent about it. -/
def Agrees (s : Net) : Prop :=
  (Quiescent s → ∀ cli ∈ s.sys.listed, Connected s.sys.srv cli →
    ∀ id, id ∈ (s.clients cli).keys ↔ Running s.sys.srv id) ∧
  ∀ cli, InSequence (s.sys.log cli)

/-- The server's instructions are orderly ones. -/
def Ordered (s : Net) (act : Act) : Prop := ∀ i ∈ s.next? act, Orderly s.sys i = true

instance (s : Net) (act : Act) : Decidable (Ordered s act) :=
  inferInstanceAs (Decidable (∀ i ∈ s.next? act, _))

structure Consistent (s : Net) : Prop where
  known : Known s.sys
  agree : Agree s.sys
  follows : Follows s

theorem Consistent.step {pack : Protobuf} {s u : Net} {act : Act} (consistent : Consistent s)
    (admitted : Ordered s act) (step : Net.Step pack s act u) : Consistent u := by
  have follows := consistent.follows.step step
  cases step with
  | @server act sys step =>
      exact ⟨consistent.known.step step,
        consistent.agree.step consistent.known admitted step, follows⟩
  | @read cli now msg later sys queued step =>
      have admitted : InOrder s.sys (.request cli now msg) := by
        intro i taken
        cases taken
      exact ⟨consistent.known.step step,
        consistent.agree.step consistent.known admitted step, follows⟩
  | _ => exact ⟨consistent.known, consistent.agree, follows⟩

/-- When no handler is running, nothing about workers is before any thread. -/
theorem not_pending {s : Sys} {P : Instr → Prop} (known : Known s)
    (idle : ∀ cli, cli < s.connections → s.prog (.client cli) = [])
    (loud : ∀ i, P i → ¬ Quiet i) : ¬ Pending s P := by
  rintro ⟨t, i, mem, holds⟩
  cases t with
  | client cli =>
      rw [idle cli (known.threads cli (List.ne_nil_of_mem mem))] at mem
      cases mem
  | writer => exact loud i holds (known.writer i mem)

/-- In every orderly run clients and server agree on the set of xlaters. -/
theorem agrees_of_ordered {pack : Protobuf} {s : Net} (reach : (net pack).Reachable Ordered s) :
    Agrees s := by
  have consistent : Consistent s := by
    refine reach.invariant ?_ fun _ _ _ consistent admitted step =>
      consistent.step admitted (.of_step? step)
    rintro _ ⟨srv, fresh, rfl⟩
    exact ⟨Known.start srv fresh, Agree.start srv fresh, Follows.start srv⟩
  obtain ⟨known, agree, follows⟩ := consistent
  have sequence : ∀ cli, InSequence (s.sys.log cli) := agree.order
  refine ⟨fun quiescent cli listed connected id => ?_, sequence⟩
  have idle : ∀ {P : Instr → Prop}, (∀ i, P i → ¬ Quiet i) → ¬ Pending s.sys P :=
    not_pending known fun cli below => (quiescent cli below).1
  have received := (quiescent cli (known.listed cli listed)).2
  rw [(follows cli).2, received, List.take_length, mem_heard (sequence cli)]
  constructor
  · rintro ⟨⟨msg, sent, rfl⟩, alive⟩
    rcases agree.gone cli msg connected sent with ended | running | doomed | pending
    · exact absurd ended alive
    · exact running
    · exact absurd doomed (idle fun i same quiet => by rw [same] at quiet; exact quiet)
    · exact absurd pending (idle fun i both quiet => not_notices_of_quiet quiet both.1)
  · intro running
    refine ⟨?_, fun ended => (agree.notified id (agree.logged cli id ended)).1 running⟩
    rcases agree.told cli listed id connected running with told | pending
    · exact told
    · exact absurd pending (idle fun i both quiet => not_tells_of_quiet quiet both.1)

/-- A client has listed the workers, creates two of them and ends the first one. -/
theorem agrees_of_ordered_destroy :
    ∃ s, (net .documented).Reachable Ordered s ∧ Quiescent s ∧ 0 ∈ s.sys.listed ∧
      Connected s.sys.srv 0 ∧ Running s.sys.srv 1 ∧ Agrees s := by
  let turn (count : Nat) : List Act :=
    List.replicate count (.server (.exec (.client 0) Junk.zero))
  let create : List Act := [.create_xlater 0 0 1 [] (-1), .read 0 0] ++ turn 10
  have run : ((net .documented).runIf? Ordered (Net.start idleServer)
      (List.flatten [[.server (.connect false false), .q_msg 0 .LIST_XLATERS, .read 0 0], turn 3,
        create, create, [.q_msg 0 (.DESTROY_XLATER 0), .read 0 0], turn 12,
        [.receive 0, .receive 0, .receive 0]])).any (fun s =>
      decide (Quiescent s ∧ 0 ∈ s.sys.listed ∧ Connected s.sys.srv 0 ∧
        Running s.sys.srv 1)) = true := by
    decide +kernel
  obtain ⟨s, run, state⟩ := (Option.any_eq_true _ _).mp run
  obtain ⟨quiescent, listed, connected, running⟩ := of_decide_eq_true state
  have reach : (net .documented).Reachable Ordered s :=
    ⟨_, _, ⟨idleServer, by decide, rfl⟩, .of_runIf? run⟩
  exact ⟨s, reach, quiescent, listed, connected, running, agrees_of_ordered reach⟩

/-- A client lists the workers after it has ended one whose thread has not been
joined yet, and takes it for a running one again. -/
theorem not_agrees_list_ended :
    ¬ ∀ s, (net .documented).Reachable Machine.Any s → Agrees s := by
  intro agrees
  let turn (count : Nat) : List Act :=
    List.replicate count (.server (.exec (.client 0) Junk.zero))
  have run : ((net .documented).run? (Net.start idleServer)
      (List.flatten [[.server (.connect false false), .create_xlater 0 0 1 [] (-1), .read 0 0],
        turn 10, [.q_msg 0 (.DESTROY_XLATER 0), .read 0 0], turn 12,
        [.q_msg 0 .LIST_XLATERS, .read 0 0], turn 10,
        [.receive 0, .receive 0, .receive 0]])).any (fun s =>
      decide (Quiescent s ∧ 0 ∈ s.sys.listed ∧ Connected s.sys.srv 0 ∧
        0 ∈ (s.clients 0).keys ∧ ¬ Running s.sys.srv 0)) = true := by
    decide +kernel
  obtain ⟨s, run, state⟩ := (Option.any_eq_true _ _).mp run
  obtain ⟨quiescent, listed, connected, known, ended⟩ := of_decide_eq_true state
  have same := (agrees s ⟨_, _, ⟨idleServer, by decide, rfl⟩, .of_run? run⟩).1 quiescent 0 listed
    connected 0
  exact ended (same.mp known)

end Kukuruku.Clients.XlaterSet
