import Kukuruku.Server.Connections
import Kukuruku.Server.Listener

/-!
# The table of subscriptions

`ENABLE_XLATER` adds an entry to the list of its client without looking for the
worker or for an entry that is there already, the accept loop inserts a record with
whatever list its memory holds, and a removal goes on from the entry that it has freed.
`Tabled` is the table as all else keeps it; with it, a frame of a worker is sent to a
client at most once.
-/

namespace Kukuruku.Server.SubscriptionTable

open Kukuruku.Server.Messages
open Kukuruku.Server.ClientParser
open Kukuruku.Server.Threads
open Kukuruku.Server.Expansion
open Kukuruku.Server.Announcements
open Kukuruku.Server.Agreement
open Kukuruku.Server.Connections
open Kukuruku.Server.Listener (listener State Event)

/-! ## The table -/

structure Tabled (s : Server) : Prop where
  distinct : (s.worker_head.map WorkerEntry.wid).Nodup
  below : ∀ worker ∈ s.worker_head, worker.wid < s.widx
  once : ∀ client ∈ s.tcp_cli_head, (client.req_frames_head.map ReqFrames.wid).Nodup
  running : ∀ client ∈ s.tcp_cli_head, ∀ frm ∈ client.req_frames_head, Running s frm.wid

/-- `ENABLE_XLATER` names an enabled worker that its client has not subscribed to, and
nothing is read that has been freed. -/
def Apt (s : Server) : Instr → Bool
  | .enable me id _ => decide (Running s id ∧
      ∀ client ∈ s.tcp_cli_head, client.cli = me → ∀ frm ∈ client.req_frames_head, frm.wid ≠ id)
  | .disable id | .destroy id => decide (¬ s.Removes id)
  | _ => true

/-- The entries of a list are of enabled workers, one for each. -/
structure Listed (s : Server) (req_frames_head : List ReqFrames) : Prop where
  once : (req_frames_head.map ReqFrames.wid).Nodup
  running : ∀ frm ∈ req_frames_head, Running s frm.wid

instance (s : Server) (req_frames_head : List ReqFrames) : Decidable (Listed s req_frames_head) :=
  decidable_of_iff (_ ∧ _)
    ⟨fun both => ⟨both.1, both.2⟩, fun listed => ⟨listed.once, listed.running⟩⟩

namespace Tabled

variable {pack : Protobuf} {junk : Junk} {s : Server} {i : Instr}

theorem of_fresh (fresh : Fresh s) : Tabled s := by
  obtain ⟨clients, workers⟩ := fresh
  refine ⟨?_, ?_, ?_, ?_⟩
  · rw [workers]
    exact List.nodup_nil
  · rw [workers]
    exact fun _ mem => absurd mem List.not_mem_nil
  · rw [clients]
    exact fun _ mem => absurd mem List.not_mem_nil
  · rw [clients]
    exact fun _ mem => absurd mem List.not_mem_nil

theorem below_effect (tabled : Tabled s) :
    ∀ worker ∈ (effect pack junk s i).worker_head,
      worker.wid < (effect pack junk s i).widx := by
  intro worker mem
  rw [widx_effect]
  rcases mem_worker_head_effect mem with
    ⟨me, remoteid, rotate, decimation, startframe, taps, rfl, rfl⟩ | ⟨before, earlier, same, _⟩
  · exact Int.lt_succ s.widx
  · have old := tabled.below before earlier
    rw [same]
    split
    · omega
    · exact old

/-- What the entries of a client are after an instruction. -/
theorem entries_touch (tabled : Tabled s) (apt : Apt s i = true) {client : TcpCli}
    (connected : client ∈ s.tcp_cli_head) :
    ((touch s i client).req_frames_head.map ReqFrames.wid).Nodup ∧
      ∀ frm ∈ (touch s i client).req_frames_head, Running s frm.wid ∧ i ≠ .destroy frm.wid := by
  have once := tabled.once client connected
  have running := tabled.running client connected
  cases i with
  | enable me id type =>
      obtain ⟨enabled, absent⟩ := of_decide_eq_true apt
      simp only [touch]
      split
      · rename_i own
        refine ⟨List.nodup_cons.mpr ⟨fun mem => ?_, once⟩, fun frm mem => ⟨?_, by rintro ⟨⟩⟩⟩
        · obtain ⟨frm, listed, same⟩ := List.mem_map.mp mem
          exact absent client connected own frm listed same
        · rcases List.mem_cons.mp mem with rfl | earlier
          · exact enabled
          · exact running frm earlier
      · exact ⟨once, fun frm mem => ⟨running frm mem, by rintro ⟨⟩⟩⟩
  | disable id =>
      simp only [touch]
      split
      · refine ⟨once.sublist (List.filter_sublist.map _), fun frm mem => ⟨?_, by rintro ⟨⟩⟩⟩
        exact running frm (List.mem_filter.mp mem).1
      · exact ⟨once, fun frm mem => ⟨running frm mem, by rintro ⟨⟩⟩⟩
  | destroy id =>
      simp only [touch]
      split
      · refine ⟨once.sublist (List.filter_sublist.map _), fun frm mem => ?_⟩
        obtain ⟨listed, other⟩ := List.mem_filter.mp mem
        refine ⟨running frm listed, ?_⟩
        rintro ⟨⟩
        exact absurd rfl (of_decide_eq_true other)
      · rename_i none
        refine ⟨once, fun frm mem => ⟨running frm mem, ?_⟩⟩
        rintro ⟨⟩
        obtain ⟨worker, listed, named, _⟩ := running frm mem
        exact none (List.any_eq_true.mpr ⟨worker, listed, decide_eq_true named⟩)
  | spectrum | histo =>
      simp only [touch]
      split <;> exact ⟨once, fun frm mem => ⟨running frm mem, by rintro ⟨⟩⟩⟩
  | _ => exact ⟨once, fun frm mem => ⟨running frm mem, by rintro ⟨⟩⟩⟩

theorem effect (tabled : Tabled s) (apt : Apt s i = true) : Tabled (effect pack junk s i) where
  distinct := distinct_effect tabled.distinct tabled.below
  below := tabled.below_effect
  once client mem := by
    obtain ⟨before, earlier, rfl⟩ := mem_tcp_cli_head_effect mem
    exact (tabled.entries_touch apt earlier).1
  running client mem frm listed := by
    obtain ⟨before, earlier, rfl⟩ := mem_tcp_cli_head_effect mem
    obtain ⟨enabled, other⟩ := (tabled.entries_touch apt earlier).2 frm listed
    exact (running_keep tabled.distinct enabled).resolve_right other

/-- Changes of a worker that keep its id and whether it is enabled. -/
theorem setWorker (tabled : Tabled s) (wid : Int) {change : WorkerEntry → WorkerEntry}
    (keeps : ∀ worker, (change worker).wid = worker.wid ∧
      (change worker).enabled = worker.enabled) : Tabled (s.setWorker wid change) where
  distinct := distinct_setWorker tabled.distinct fun worker => (keeps worker).1
  below worker mem := by
    obtain ⟨before, earlier, ⟨_, rfl⟩ | ⟨_, rfl⟩⟩ := mem_setWorker mem
    · rw [(keeps before).1]
      exact tabled.below before earlier
    · exact tabled.below worker earlier
  once := tabled.once
  running client mem frm listed :=
    mem_setWorker_of_mem keeps (tabled.running client mem frm listed)

/-- A new client, with the list that its memory holds. -/
theorem publish (tabled : Tabled s) (cli : Nat) (spectrum histo : Bool)
    {req_frames_head : List ReqFrames} (listed : Listed s req_frames_head) :
    Tabled { s with
      tcp_cli_head := ⟨cli, spectrum, histo, req_frames_head⟩ :: s.tcp_cli_head } where
  distinct := tabled.distinct
  below := tabled.below
  once client mem := by
    rcases List.mem_cons.mp mem with rfl | earlier
    · exact listed.once
    · exact tabled.once client earlier
  running client mem frm entry := by
    rcases List.mem_cons.mp mem with rfl | earlier
    · exact listed.running frm entry
    · exact tabled.running client earlier frm entry

/-- `SLIST_INIT`. -/
theorem empty (tabled : Tabled s) (cli : Nat) :
    Tabled (s.setClient cli fun client => { client with req_frames_head := [] }) where
  distinct := tabled.distinct
  below := tabled.below
  once client mem := by
    obtain ⟨before, earlier, rfl⟩ := List.mem_map.mp mem
    split
    · exact List.nodup_nil
    · exact tabled.once before earlier
  running client mem frm entry := by
    obtain ⟨before, earlier, rfl⟩ := List.mem_map.mp mem
    split at entry
    · cases entry
    · exact tabled.running before earlier frm entry

end Tabled

/-! ## Frames on their way -/

/-- The frames of a worker among the messages to a client. -/
def sent (wid : Int) : List SrvMsg → List Samples
  | [] => []
  | .payload header _ _ samples :: rest =>
      if header.id = wid then samples :: sent wid rest else sent wid rest
  | _ :: rest => sent wid rest

/-- The frame of a worker that an instruction still has to send to a client. -/
def due (cli : Nat) (wid : Int) : Instr → List Samples
  | .send other msg => if other = cli then sent wid [msg] else []
  | .frame id samples => if id = wid then [samples] else []
  | _ => []

def ready (s : Server) (wid : Int) : List Samples := ((s.worker? wid).map WorkerEntry.ready).getD []

/-- All frames of a worker that have been or may come to be sent to a client, in
their order. -/
def flow (s : Sys) (cli : Nat) (wid : Int) : List Samples :=
  sent wid (s.log cli) ++ (s.prog .writer).flatMap (due cli wid) ++ ready s.srv wid

/-- The frames that a worker's thread has had ready. -/
def produced (wid : Int) : List Act → List Samples
  | [] => []
  | .produce id samples :: rest =>
      if id = wid then samples :: produced wid rest else produced wid rest
  | _ :: rest => produced wid rest

theorem sent_append (wid : Int) (log more : List SrvMsg) :
    sent wid (log ++ more) = sent wid log ++ sent wid more := by
  induction log with
  | nil => rfl
  | cons msg rest ih =>
      cases msg with
      | payload header format maxval samples =>
          simp only [List.cons_append, sent, ih]
          split <;> rfl
      | _ => exact ih

/-- Neither the walk through the workers nor anything that comes of it. -/
def Frameless : Instr → Prop
  | .pass | .walk _ | .frame _ _ => False
  | .send _ msg | .broadcast msg _ | .foreach msg _ _ _ => ∀ wid, sent wid [msg] = []
  | _ => True

/-- Payloads are not broadcast. -/
def Single : Instr → Prop
  | .broadcast msg _ | .foreach msg _ _ _ => ∀ wid, sent wid [msg] = []
  | _ => True

section Yields

variable {junk : Junk} {s : Server} {i j : Instr}

theorem frameless_of_yields (yields : Yields junk s i j) (frameless : Frameless i) :
    Frameless j := by
  cases yields with
  | pass | frame | walk | payload => exact frameless.elim
  | notice | reply | tell | info | tellInfo | spectrum | histo => exact fun _ => rfl
  | each | next | again => exact frameless
  | _ => trivial

theorem single_of_yields (yields : Yields junk s i j) (single : Single i) : Single j := by
  cases yields with
  | notice | tell | tellInfo => exact fun _ => rfl
  | each | again => exact single
  | _ => trivial

theorem due_of_frameless (frameless : Frameless i) (cli : Nat) (wid : Int) :
    due cli wid i = [] := by
  cases i with
  | send other msg =>
      simp only [due, frameless wid, ite_self]
  | frame => exact frameless.elim
  | _ => rfl

/-- Only a frame and the walk yield something about frames. -/
theorem due_of_yields (yields : Yields junk s i j) (single : Single i)
    (notFrame : ∀ wid samples, i ≠ .frame wid samples)
    (notWalk : ∀ wid rest, i ≠ .walk (wid :: rest)) (cli : Nat) (wid : Int) :
    due cli wid j = [] := by
  cases yields with
  | payload => exact absurd rfl (notFrame _ _)
  | frame => exact absurd rfl (notWalk _ _)
  | next => simp only [due, single wid, ite_self]
  | reply | info | spectrum | histo => simp only [due, sent, ite_self]
  | _ => rfl

end Yields

/-! ## The subscribers of a frame -/

/-- What only the member with a given key contributes is contributed once. -/
theorem flatMap_sublist_of_nodup {α β γ : Type*} (key : α → β) (own : β) (give : α → List γ)
    {once : List γ} {members : List α} (distinct : (members.map key).Nodup)
    (others : ∀ member ∈ members, key member ≠ own → give member = [])
    (each : ∀ member ∈ members, (give member).Sublist once) :
    (members.flatMap give).Sublist once := by
  induction members with
  | nil => exact List.nil_sublist once
  | cons member rest ih =>
      obtain ⟨absent, distinct⟩ := List.nodup_cons.mp distinct
      rw [List.flatMap_cons]
      by_cases mine : key member = own
      · have nothing : rest.flatMap give = [] := by
          refine List.flatMap_eq_nil_iff.mpr fun other mem => ?_
          refine others other (List.mem_cons_of_mem _ mem) fun same => absent ?_
          exact List.mem_map.mpr ⟨other, mem, same.trans mine.symm⟩
        rw [nothing, List.append_nil]
        exact each member List.mem_cons_self
      · rw [others member List.mem_cons_self mine]
        exact ih distinct (fun other mem => others other (List.mem_cons_of_mem _ mem))
          fun other mem => each other (List.mem_cons_of_mem _ mem)

/-- A frame goes to a client at most once. -/
theorem due_payloads {s : Server} (tabled : Tabled s)
    (numbers : (s.tcp_cli_head.map TcpCli.cli).Nodup) (junk : Junk) (cli : Nat) (wid id : Int)
    (samples : Samples) :
    ((payloads junk s id samples).flatMap (due cli wid)).Sublist
      (due cli wid (.frame id samples)) := by
  unfold payloads
  cases found : s.worker? id with
  | none => exact List.nil_sublist _
  | some worker =>
      simp only [List.flatMap_assoc]
      refine flatMap_sublist_of_nodup TcpCli.cli cli _ numbers (fun client _ other => ?_)
        fun client connected => ?_
      · refine List.flatMap_eq_nil_iff.mpr fun frm _ => ?_
        cases frm.sampletype <;> simp [due, other]
      · refine flatMap_sublist_of_nodup ReqFrames.wid id _ ?_ (fun frm mem other => ?_)
          fun frm mem => ?_
        · exact (tabled.once client connected).sublist (List.filter_sublist.map _)
        · exact absurd (of_decide_eq_true (List.mem_filter.mp mem).2) other
        · by_cases same : id = wid
          · cases frm.sampletype <;> by_cases own : client.cli = cli <;>
              simp [due, sent, same, own]
          · cases frm.sampletype <;> simp [due, sent, same]

/-! ## The queues of the workers -/

section Ready

variable {s : Server}

theorem worker?_setWorker (s : Server) (id wid : Int) {change : WorkerEntry → WorkerEntry}
    (keeps : ∀ worker, (change worker).wid = worker.wid) :
    (s.setWorker id change).worker? wid =
      (s.worker? wid).map fun worker => if worker.wid = id then change worker else worker := by
  have same : (fun worker => decide (worker.wid = wid)) ∘ (fun worker : WorkerEntry =>
      if worker.wid = id then change worker else worker) =
        fun worker => decide (worker.wid = wid) := by
    funext worker
    simp only [Function.comp_apply]
    split
    · rw [keeps]
    · rfl
  unfold Server.worker? Server.setWorker
  rw [List.find?_map, same]

theorem ready_setWorker (s : Server) (id wid : Int) {change : WorkerEntry → WorkerEntry}
    (keeps : ∀ worker, (change worker).wid = worker.wid)
    (holds : id = wid → ∀ worker, (change worker).ready = worker.ready) :
    ready (s.setWorker id change) wid = ready s wid := by
  unfold ready
  rw [worker?_setWorker s id wid keeps]
  cases found : s.worker? wid with
  | none => rfl
  | some worker =>
      have named := (worker?_mem found).2
      simp only [Option.map_some, Option.getD_some]
      split
      · rename_i own
        exact holds (own.symm.trans named) worker
      · rfl

theorem ready_drained (s : Server) (wid : Int) :
    ready (s.setWorker wid fun worker => { worker with ready := [] }) wid = [] := by
  unfold ready
  have keeps : ∀ worker : WorkerEntry, { worker with ready := [] }.wid = worker.wid := fun _ => rfl
  rw [worker?_setWorker s wid wid keeps]
  cases found : s.worker? wid with
  | none => rfl
  | some worker => simp [(worker?_mem found).2]

/-- The socket writer frees a worker. -/
theorem ready_freed (s : Server) (id wid : Int) :
    (ready { s with worker_head := s.worker_head.filter fun worker => worker.wid ≠ id }
      wid).Sublist (ready s wid) := by
  unfold ready Server.worker?
  rw [List.find?_filter]
  by_cases same : wid = id
  · have nobody : s.worker_head.find? (fun worker =>
        decide (decide (worker.wid ≠ id) = true ∧ decide (worker.wid = wid) = true)) = none := by
      refine List.find?_eq_none.mpr fun worker _ => ?_
      simp only [decide_eq_true_eq, not_and]
      exact fun other own => other (own.trans same)
    rw [nobody]
    exact List.nil_sublist _
  · have all : (fun worker : WorkerEntry =>
        decide (decide (worker.wid ≠ id) = true ∧ decide (worker.wid = wid) = true)) =
          fun worker => decide (worker.wid = wid) := by
      funext worker
      refine decide_eq_decide.mpr ?_
      simp only [decide_eq_true_eq]
      exact and_iff_right_of_imp fun own other => same (own.symm.trans other)
    rw [all]

/-- No instruction puts frames into a queue. -/
theorem ready_effect (pack : Protobuf) (junk : Junk) (s : Server) (i : Instr) (wid : Int) :
    (ready (effect pack junk s i) wid).Sublist (ready s wid) := by
  have same := List.Sublist.refl (ready s wid)
  cases i with
  | create me remoteid rotate decimation startframe taps =>
      unfold ready Server.worker? effect
      rw [List.find?_cons]
      split
      · exact List.nil_sublist _
      · exact same
  | modify me localid rotate newtaps =>
      refine (ready_setWorker s localid wid ?_ ?_).symm ▸ same
      · exact fun _ => rfl
      · exact fun _ _ => rfl
  | disable id =>
      have workers := worker_head_unsubscribeAll s id
      simp only [effect, ready, Server.worker?, workers]
      exact same
  | destroy id =>
      have workers := worker_head_unsubscribeAll s id
      refine (ready_setWorker _ id wid ?_ ?_).symm ▸ ?_
      · exact fun _ => rfl
      · exact fun _ _ => rfl
      · simp only [ready, Server.worker?, workers]
        exact same
  | walk rest =>
      cases rest with
      | nil => exact same
      | cons id rest =>
          simp only [effect]
          split
          · split
            · by_cases own : id = wid
              · subst own
                rw [ready_drained]
                exact List.nil_sublist _
              · refine (ready_setWorker s id wid ?_ ?_).symm ▸ same
                · exact fun _ => rfl
                · exact fun drained => absurd drained own
            · split
              · exact ready_freed s id wid
              · exact same
          · exact same
  | _ => exact same

end Ready

/-! ## The walk through the workers -/

def Walks : Instr → Prop
  | .pass | .walk _ => True
  | _ => False

theorem not_walks_of_yields {junk : Junk} {s : Server} {i j : Instr} (yields : Yields junk s i j)
    (other : ¬Walks i) : ¬Walks j := by
  cases yields with
  | pass | walk => exact absurd trivial other
  | _ => exact not_false

/-- The walk goes on after everything that it has found. -/
theorem dropLast_expand {junk : Junk} {s : Server} {i : Instr} {new : List Instr}
    (expands : expand junk s i = some new) : ∀ j ∈ new.dropLast, ¬Walks j := by
  intro j mem
  by_cases walks : Walks i
  · cases i with
    | pass =>
        obtain rfl := Option.some.inj expands
        cases mem
    | walk rest =>
        cases rest with
        | nil =>
            have yields := Yields.of_expand expands (List.dropLast_subset new mem)
            cases yields <;> exact not_false
        | cons wid rest =>
            rcases Yields.expand_walk_cons expands with ⟨worker, _, _, rfl⟩ | rfl | rfl
            · rw [List.dropLast_concat] at mem
              obtain ⟨samples, _, rfl⟩ := List.mem_map.mp mem
              exact not_false
            · cases mem
            · cases mem
    | _ => exact walks.elim
  · exact not_walks_of_yields (Yields.of_expand expands (List.dropLast_subset new mem)) walks

theorem flatMap_due_frames (cli : Nat) (id wid : Int) (frames : List Samples) :
    (frames.map (Instr.frame id)).flatMap (due cli wid) = if id = wid then frames else [] := by
  induction frames with
  | nil => simp
  | cons samples rest ih =>
      rw [List.map_cons, List.flatMap_cons, ih]
      split
      · rename_i same
        simp [due, same]
      · rename_i other
        simp [due, other]

/-- The walk takes the frames of a worker out of its queue. -/
theorem flow_walk {pack : Protobuf} {junk : Junk} {s : Server} {id : Int} {rest : List Int}
    {new : List Instr} (expands : expand junk s (.walk (id :: rest)) = some new) (cli : Nat)
    (wid : Int) :
    (new.flatMap (due cli wid) ++ ready (effect pack junk s (.walk (id :: rest))) wid).Sublist
      (ready s wid) := by
  have fewer := ready_effect pack junk s (.walk (id :: rest)) wid
  rcases Yields.expand_walk_cons expands with ⟨worker, found, enabled, rfl⟩ | rfl | rfl
  · rw [List.flatMap_append, flatMap_due_frames]
    by_cases own : id = wid
    · subst own
      have drained : ready (effect pack junk s (.walk (id :: rest))) id = [] := by
        simp only [effect, found, if_pos enabled]
        exact ready_drained s id
      have queue : ready s id = worker.ready := by
        rw [ready, found]
        rfl
      rw [drained, if_pos rfl, queue, List.append_nil, List.flatMap_singleton]
      exact (List.append_nil worker.ready).symm ▸ List.Sublist.refl _
    · rw [if_neg own]
      exact fewer
  · exact fewer
  · exact fewer

/-! ## One instruction -/

section Exec

variable {pack : Protobuf} {junk : Junk} {s u : Sys} {t : Tid} {i : Instr} {rest : List Instr}

/-- What an instruction sends leaves it for the log. -/
def passedOn (cli : Nat) (wid : Int) : Instr → List Samples
  | .send other msg => due cli wid (.send other msg)
  | _ => []

theorem sent_exec (exec : Sys.Exec pack s t junk u) (prog : s.prog t = i :: rest) (cli : Nat)
    (wid : Int) : sent wid (u.log cli) = sent wid (s.log cli) ++ passedOn cli wid i := by
  cases exec with
  | @send other msg later first =>
      obtain ⟨rfl, rfl⟩ := List.cons.inj (prog.symm.trans first)
      by_cases own : other = cli
      · subst own
        simp only [Sys.send, Function.update_self, sent_append, passedOn, due, if_true]
      · simp only [Sys.send, Function.update_of_ne (Ne.symm own), passedOn, due, if_neg own,
          List.append_nil]
  | apply first plain =>
      obtain ⟨rfl, rfl⟩ := List.cons.inj (prog.symm.trans first)
      cases i with
      | send => exact plain.elim
      | _ => exact (List.append_nil _).symm
  | lock first | unlock first | done first | cont first =>
      obtain ⟨rfl, rfl⟩ := List.cons.inj (prog.symm.trans first)
      exact (List.append_nil _).symm

/-- A client's thread has nothing to do with frames. -/
theorem flow_exec_client {me : Nat} (exec : Sys.Exec pack s (.client me) junk u)
    (frameless : ∀ i ∈ s.prog (.client me), Frameless i) (cli : Nat) (wid : Int) :
    (flow u cli wid).Sublist (flow s cli wid) := by
  obtain ⟨i, new, rest, prog, _, _⟩ := turn_of_exec exec
  have own : Frameless i := frameless i (prog ▸ List.mem_cons_self)
  have nothing : passedOn cli wid i = [] := by
    cases i with
    | send => exact due_of_frameless own cli wid
    | _ => rfl
  have writer : u.prog .writer = s.prog .writer := prog_exec_other exec (by rintro ⟨⟩)
  have queue := ready_effect pack junk s.srv i wid
  rw [flow, sent_exec exec prog, nothing, List.append_nil, writer, srv_exec exec prog]
  exact queue.append_left _

/-- What the socket writer takes from a queue or from a frame goes no further than
its program and the log. -/
theorem flow_exec_writer (exec : Sys.Exec pack s .writer junk u) (tabled : Tabled s.srv)
    (numbers : (s.srv.tcp_cli_head.map TcpCli.cli).Nodup)
    (single : ∀ i ∈ s.prog .writer, Single i) (last : ∀ i ∈ (s.prog .writer).dropLast, ¬Walks i)
    (cli : Nat) (wid : Int) : (flow u cli wid).Sublist (flow s cli wid) := by
  obtain ⟨i, new, rest, prog, next, yields⟩ := turn_of_exec exec
  have queue := ready_effect pack junk s.srv i wid
  have here : u.prog .writer = new ++ rest := by rw [next, Function.update_self]
  have plain : Plain i → expand junk s.srv i = some new := expand_of_next exec prog here
  unfold flow
  rw [sent_exec exec prog, here, srv_exec exec prog, prog, List.flatMap_append, List.flatMap_cons]
  simp only [List.append_assoc]
  refine List.Sublist.append_left ?_ _
  have others : (∀ id samples, i ≠ .frame id samples) → (∀ id ids, i ≠ .walk (id :: ids)) →
      new.flatMap (due cli wid) = [] := by
    intro notFrame notWalk
    refine List.flatMap_eq_nil_iff.mpr fun j mem => ?_
    have alone := single i (prog ▸ List.mem_cons_self)
    exact due_of_yields (yields j mem) alone notFrame notWalk cli wid
  cases i with
  | walk ids =>
      have ends : rest = [] := by
        by_contra more
        obtain ⟨j, later, rfl⟩ := List.exists_cons_of_ne_nil more
        exact last (.walk ids) (by rw [prog]; exact List.mem_cons_self) trivial
      subst ends
      cases ids with
      | nil =>
          rw [others (by rintro _ _ ⟨⟩) (by rintro _ _ ⟨⟩)]
          exact queue
      | cons id ids => exact flow_walk (plain trivial) cli wid
  | frame id samples =>
      obtain rfl := Option.some.inj (plain trivial)
      exact (due_payloads tabled numbers junk cli wid id samples).append (queue.append_left _)
  | send other msg =>
      rw [others (by rintro _ _ ⟨⟩) (by rintro _ _ ⟨⟩)]
      exact (queue.append_left _).append_left _
  | _ =>
      rw [others (by rintro _ _ ⟨⟩) (by rintro _ _ ⟨⟩)]
      exact queue.append_left _

end Exec

/-! ## Runs -/

/-- Every instruction that a thread executes is apt. -/
def FittingAct (s : Sys) (act : Act) : Prop := ∀ i ∈ s.next? act, Apt s.srv i = true

instance (s : Sys) (act : Act) : Decidable (FittingAct s act) :=
  inferInstanceAs (Decidable (∀ i ∈ s.next? act, Apt s.srv i = true))

/-- So is the list in the memory of a new record. -/
def Fitting (s : State) : Event → Prop
  | .accept _ _ req_frames_head => Listed s.sys.srv req_frames_head
  | .client_read_thr _ => True
  | .thread act => FittingAct s.sys act

instance (s : State) (event : Event) : Decidable (Fitting s event) := by
  cases event <;> unfold Fitting <;> infer_instance

/-- The threads' part of an event. -/
def act? : Event → Option Act
  | .thread act => some act
  | _ => none

/-- The table, and the way of the frames that have been made. -/
structure Delivery (s : Sys) (made : Int → List Samples) : Prop where
  tabled : Tabled s.srv
  numbers : (s.srv.tcp_cli_head.map TcpCli.cli).Nodup
  known : ∀ client ∈ s.srv.tcp_cli_head, client.cli < s.connections
  clients : ∀ cli, ∀ i ∈ s.prog (.client cli), Frameless i
  single : ∀ i ∈ s.prog .writer, Single i
  last : ∀ i ∈ (s.prog .writer).dropLast, ¬Walks i
  flow : ∀ cli wid, (flow s cli wid).Sublist (made wid)

theorem produced_cons (wid : Int) (act : Act) (rest : List Act) :
    produced wid (act :: rest) = produced wid [act] ++ produced wid rest := by
  cases act with
  | produce id samples =>
      simp only [produced]
      split <;> rfl
  | _ => rfl

theorem ready_produce (pack : Protobuf) (s : Sys) (id wid : Int) (samples : Samples) :
    (ready (s.produce pack id samples).srv wid).Sublist
      (ready s.srv wid ++ produced wid [.produce id samples]) := by
  obtain ⟨change, srv, keeps, grows⟩ : ∃ change : WorkerEntry → WorkerEntry,
      (s.produce pack id samples).srv = s.srv.setWorker id change ∧
        (∀ worker, (change worker).wid = worker.wid) ∧
        ∀ worker, (change worker).ready = worker.ready ++ [samples] :=
    ⟨_, rfl, fun _ => rfl, fun _ => rfl⟩
  rw [srv]
  by_cases own : id = wid
  · subst own
    rw [ready, worker?_setWorker _ id id keeps, ready]
    cases found : s.srv.worker? id with
    | none => exact List.nil_sublist _
    | some worker =>
        simp only [Option.map_some, Option.getD_some, if_pos (worker?_mem found).2, grows, produced,
          if_true]
        exact List.Sublist.refl _
  · rw [ready_setWorker _ id wid keeps fun same => absurd same own]
    exact List.sublist_append_left _ _

namespace Delivery

variable {pack : Protobuf} {junk : Junk} {s u : Sys} {t : Tid} {made : Int → List Samples}

theorem start {srv : Server} (fresh : Fresh srv) : Delivery (Sys.start srv) fun _ => [] where
  tabled := .of_fresh fresh
  numbers := by
    rw [Sys.start, fresh.1]
    exact List.nodup_nil
  known client mem := by
    rw [Sys.start, fresh.1] at mem
    cases mem
  clients _ _ mem := absurd mem List.not_mem_nil
  single _ mem := absurd mem List.not_mem_nil
  last _ mem := absurd mem List.not_mem_nil
  flow cli wid := by
    have none : ready srv wid = [] := by
      rw [ready, Server.worker?, fresh.2]
      rfl
    rw [SubscriptionTable.flow, show (Sys.start srv).srv = srv from rfl, none]
    exact List.Sublist.refl []

theorem last_exec (delivery : Delivery s made) (exec : Sys.Exec pack s .writer junk u) :
    ∀ i ∈ (u.prog .writer).dropLast, ¬Walks i := by
  obtain ⟨i, new, rest, prog, next, yields⟩ := turn_of_exec exec
  have here : u.prog .writer = new ++ rest := by rw [next, Function.update_self]
  have before := delivery.last
  rw [prog] at before
  rw [here]
  by_cases ends : rest = []
  · subst ends
    rw [List.append_nil]
    by_cases walks : Walks i
    · have plain : Plain i := by
        cases i with
        | pass | walk => trivial
        | _ => exact walks.elim
      exact dropLast_expand (expand_of_next exec prog here plain)
    · exact fun j mem => not_walks_of_yields (yields j (List.dropLast_subset new mem)) walks
  · obtain ⟨j, later, rfl⟩ := List.exists_cons_of_ne_nil ends
    rw [List.dropLast_append_of_ne_nil ends]
    intro k mem
    rcases List.mem_append.mp mem with expanded | after
    · exact not_walks_of_yields (yields k expanded) (before i List.mem_cons_self)
    · exact before k (List.mem_cons_of_mem i after)

theorem exec (delivery : Delivery s made) (exec : Sys.Exec pack s t junk u)
    (fitting : ∀ i ∈ (s.prog t).head?, Apt s.srv i = true) : Delivery u made := by
  obtain ⟨i, new, rest, prog, _, _⟩ := turn_of_exec exec
  have srv := srv_exec exec prog
  have apt : Apt s.srv i = true := fitting i (by rw [prog]; rfl)
  have head : ∀ i ∈ (s.prog t).head?, i ∈ s.prog t := fun _ => List.mem_of_mem_head?
  have tabled : Tabled u.srv := srv ▸ delivery.tabled.effect apt
  have numbers : (u.srv.tcp_cli_head.map TcpCli.cli).Nodup := by
    rw [srv]
    exact delivery.numbers.sublist (clis_effect pack junk s.srv i)
  have known : ∀ client ∈ u.srv.tcp_cli_head, client.cli < u.connections := by
    rw [srv, connections_exec exec]
    intro client mem
    obtain ⟨before, earlier, rfl⟩ := mem_tcp_cli_head_effect mem
    rw [cli_touch]
    exact delivery.known before earlier
  cases t with
  | writer =>
      have others : ∀ cli, u.prog (.client cli) = s.prog (.client cli) :=
        fun cli => prog_exec_other exec (by rintro ⟨⟩)
      refine ⟨tabled, numbers, known, ?_, ?_, delivery.last_exec exec, fun cli wid => ?_⟩
      · intro cli
        rw [others cli]
        exact delivery.clients cli
      · refine progs_exec exec ?_ delivery.single
        exact fun i first j yields => single_of_yields yields (delivery.single i (head i first))
      · exact (flow_exec_writer exec delivery.tabled delivery.numbers delivery.single
          delivery.last cli wid).trans (delivery.flow cli wid)
  | client me =>
      have writer : u.prog .writer = s.prog .writer := prog_exec_other exec (by rintro ⟨⟩)
      refine ⟨tabled, numbers, known, fun cli => ?_, writer ▸ delivery.single,
        writer ▸ delivery.last, fun cli wid => ?_⟩
      · by_cases mine : cli = me
        · subst mine
          refine progs_exec exec ?_ (delivery.clients cli)
          exact fun i first j yields =>
            frameless_of_yields yields (delivery.clients cli i (head i first))
        · have other : Tid.client cli ≠ .client me := fun same => mine (Tid.client.inj same)
          rw [prog_exec_other exec other]
          exact delivery.clients cli
      · exact (flow_exec_client exec (delivery.clients me) cli wid).trans (delivery.flow cli wid)

theorem frameless_parse_client_req (me : Nat) (now : Int) (msg : CliMsg) :
    ∀ i ∈ parse_client_req me now msg, Frameless i := by
  cases msg <;> simp [parse_client_req, Frameless]

theorem frameless_disconnect (me : Nat) : ∀ i ∈ disconnect me, Frameless i := by
  simp [disconnect, Frameless]

/-- A client's thread begins a program. -/
theorem turn (delivery : Delivery s made) {me : Nat} {prog : List Instr}
    (frameless : ∀ i ∈ prog, Frameless i) : Delivery (s.setProg (.client me) prog) made := by
  have writer : (s.setProg (.client me) prog).prog .writer = s.prog .writer :=
    Sys.prog_setProg_of_ne s prog (by rintro ⟨⟩)
  refine ⟨delivery.tabled, delivery.numbers, delivery.known, fun cli => ?_,
    writer ▸ delivery.single, writer ▸ delivery.last, fun cli wid => ?_⟩
  · by_cases mine : cli = me
    · subst mine
      rw [Sys.prog_setProg]
      exact frameless
    · have other : Tid.client cli ≠ .client me := fun same => mine (Tid.client.inj same)
      rw [Sys.prog_setProg_of_ne s prog other]
      exact delivery.clients cli
  · rw [SubscriptionTable.flow, writer]
    exact delivery.flow cli wid

/-- A new client with a number of its own. -/
theorem accept (delivery : Delivery s made) (spectrum histo : Bool)
    {req_frames_head : List ReqFrames} (listed : Listed s.srv req_frames_head) :
    Delivery { s with
      srv := { s.srv with
        tcp_cli_head := ⟨s.connections, spectrum, histo, req_frames_head⟩ :: s.srv.tcp_cli_head }
      connections := s.connections + 1 } made := by
  refine ⟨delivery.tabled.publish _ _ _ listed, ?_, ?_, delivery.clients, delivery.single,
    delivery.last, delivery.flow⟩
  · refine List.nodup_cons.mpr ⟨fun mem => ?_, delivery.numbers⟩
    obtain ⟨client, earlier, same⟩ := List.mem_map.mp mem
    exact absurd same (Nat.ne_of_lt (delivery.known client earlier))
  · intro client mem
    rcases List.mem_cons.mp mem with rfl | earlier
    · exact Nat.lt_succ_self _
    · exact Nat.lt_succ_of_lt (delivery.known client earlier)

theorem client_read_thr (delivery : Delivery s made) (cli : Nat) :
    Delivery { s with
      srv := s.srv.setClient cli fun client => { client with req_frames_head := [] } } made := by
  have clis : (s.srv.setClient cli fun client =>
      { client with req_frames_head := [] }).tcp_cli_head.map TcpCli.cli =
        s.srv.tcp_cli_head.map TcpCli.cli := by
    rw [Server.setClient, List.map_map]
    refine List.map_congr_left fun client _ => ?_
    rw [Function.comp_apply]
    split <;> rfl
  refine ⟨delivery.tabled.empty cli, clis ▸ delivery.numbers, fun client mem => ?_,
    delivery.clients, delivery.single, delivery.last, delivery.flow⟩
  obtain ⟨before, earlier, rfl⟩ := List.mem_map.mp mem
  split
  · exact delivery.known before earlier
  · exact delivery.known before earlier

theorem step {act : Act} (delivery : Delivery s made) (fitting : FittingAct s act)
    (step : Sys.Step pack s act u) :
    Delivery u fun wid => made wid ++ produced wid [act] := by
  have unmade : (∀ wid, produced wid [act] = []) → Delivery u made →
      Delivery u fun wid => made wid ++ produced wid [act] := by
    intro nothing after
    simp only [nothing, List.append_nil]
    exact after
  cases step with
  | connect spectrum histo =>
      exact unmade (fun _ => rfl) (delivery.accept spectrum histo ⟨List.nodup_nil, nofun⟩)
  | request cli now msg =>
      exact unmade (fun _ => rfl) (delivery.turn (frameless_parse_client_req cli now msg))
  | hangup cli => exact unmade (fun _ => rfl) (delivery.turn (frameless_disconnect cli))
  | pass idle =>
      have clients : ∀ cli, (s.setProg .writer socket_write_pass).prog (.client cli) =
          s.prog (.client cli) := fun cli => Sys.prog_setProg_of_ne s _ (by rintro ⟨⟩)
      have writer := Sys.prog_setProg s .writer socket_write_pass
      refine unmade (fun _ => rfl) ⟨delivery.tabled, delivery.numbers, delivery.known, ?_, ?_, ?_,
        fun cli wid => ?_⟩
      · intro cli
        rw [clients cli]
        exact delivery.clients cli
      · rw [writer]
        simp [socket_write_pass, Single]
      · rw [writer]
        simp [socket_write_pass, Walks]
      · have before := delivery.flow cli wid
        rw [SubscriptionTable.flow, idle] at before
        rw [SubscriptionTable.flow, writer]
        exact before
  | exec exec => exact unmade (fun _ => rfl) (delivery.exec exec fitting)
  | produce id samples =>
      have tabled : Tabled (s.produce pack id samples).srv :=
        delivery.tabled.setWorker id fun _ => ⟨rfl, rfl⟩
      refine ⟨tabled, delivery.numbers, delivery.known, delivery.clients, delivery.single,
        delivery.last, fun cli wid => ?_⟩
      have longer := ready_produce pack s id wid samples
      refine (longer.append_left _).trans ?_
      rw [← List.append_assoc]
      exact (delivery.flow cli wid).append_right _
  | exit id =>
      refine unmade (fun _ => rfl) ⟨delivery.tabled.setWorker id fun _ => ⟨rfl, rfl⟩,
        delivery.numbers, delivery.known, delivery.clients, delivery.single, delivery.last,
        fun cli wid => ?_⟩
      have queue : ready (s.srv.setWorker id fun worker => { worker with exited := true }) wid =
          ready s.srv wid := by
        refine ready_setWorker s.srv id wid ?_ ?_
        · exact fun _ => rfl
        · exact fun _ _ => rfl
      rw [SubscriptionTable.flow, queue]
      exact delivery.flow cli wid
  | metadata packet =>
      refine unmade (fun _ => rfl) ⟨?_, delivery.numbers, delivery.known, delivery.clients,
        delivery.single, delivery.last, delivery.flow⟩
      exact ⟨delivery.tabled.distinct, delivery.tabled.below, delivery.tabled.once,
        delivery.tabled.running⟩

theorem event {s u : State} {event : Event} (delivery : Delivery s.sys made)
    (fitting : Fitting s event) (step : State.Step pack s event u) :
    Delivery u.sys fun wid => made wid ++ produced wid (act? event).toList := by
  cases step with
  | accept spectrum histo req_frames_head free =>
      simp only [act?, Option.toList_none, produced, List.append_nil]
      exact delivery.accept spectrum histo fitting
  | client_read_thr cli accepted =>
      simp only [act?, Option.toList_none, produced, List.append_nil]
      exact delivery.client_read_thr cli
  | thread started step => exact delivery.step fitting step

theorem run {events : List Event} {s u : State} (run : (listener pack).Run Fitting s events u)
    (delivery : Delivery s.sys made) :
    Delivery u.sys fun wid => made wid ++ produced wid (events.filterMap act?) := by
  induction run generalizing made with
  | nil =>
      simp only [List.filterMap_nil, produced, List.append_nil]
      exact delivery
  | @cons first next last event rest fitting taken _ ih =>
      have later := ih (delivery.event fitting (.of_step? taken))
      have split (wid : Int) : produced wid ((event :: rest).filterMap act?) =
          produced wid (act? event).toList ++ produced wid (rest.filterMap act?) := by
        cases event with
        | thread act => exact produced_cons wid act _
        | _ => rfl
      simp only [List.append_assoc, ← split] at later
      exact later

end Delivery

/-- While every `ENABLE_XLATER` is apt, no entry is removed and new records hold lists that
are in order, the table stays in order, and the frames of a worker that are sent to a
client are some of those it has made, each at most once. -/
theorem subscription_table {pack : Protobuf} {srv : Server} (fresh : Fresh srv)
    {events : List Event} {s : State}
    (run : (listener pack).Run Fitting (State.start srv) events s) :
    Tabled s.sys.srv ∧ ∀ cli wid,
      (sent wid (s.sys.log cli)).Sublist (produced wid (events.filterMap act?)) := by
  have delivery := Delivery.run run (.start fresh)
  refine ⟨delivery.tabled, fun cli wid => ?_⟩
  have whole := delivery.flow cli wid
  rw [flow, List.append_assoc] at whole
  exact (List.sublist_append_left _ _).trans whole

/-- The events of a thread that executes some instructions. -/
def turns (t : Tid) (count : Nat) : List Event :=
  List.replicate count (.thread (.exec t Junk.zero))

/-- A client creates a worker and subscribes to it; the memory of another client's record
happens to hold such an entry.  Each of them is sent the first frame once, and the other
one, when its thread has started, not the second. -/
theorem subscription_table_frame :
    ∃ (s : State) (events : List Event), Tabled s.sys.srv ∧
      (∀ cli, (sent 0 (s.sys.log cli)).Sublist (produced 0 (events.filterMap act?))) ∧
      (sent 0 (s.sys.log 0)).length = 2 ∧ (sent 0 (s.sys.log 1)).length = 1 := by
  obtain ⟨s, found, sizes⟩ : ∃ s, (listener .documented).runIf? Fitting (State.start idleServer)
      (List.flatten [[.accept false false [], .client_read_thr 0,
        .thread (.request 0 0 (.CREATE_XLATER 0 0 1 (-1) []))], turns (.client 0) 10,
        [.thread (.request 0 0 (.ENABLE_XLATER 0 .F32))], turns (.client 0) 3,
        [.accept false false [⟨0, .F32⟩], .thread (.produce 0 ⟨[], by decide⟩), .thread .pass],
        turns .writer 12, [.client_read_thr 1, .thread (.produce 0 ⟨[], by decide⟩),
        .thread .pass], turns .writer 9]) = some s ∧
      ((sent 0 (s.sys.log 0)).length = 2 ∧ (sent 0 (s.sys.log 1)).length = 1) := ⟨_, rfl, rfl, rfl⟩
  obtain ⟨tabled, once⟩ := subscription_table (show Fresh idleServer by decide) (.of_runIf? found)
  exact ⟨s, _, tabled, fun cli => once cli 0, sizes⟩

/-- A client that asks twice for a worker has two entries. -/
theorem not_subscription_table_twice :
    ¬∀ s : State, (listener .documented).Reachable Machine.Any s → Tabled s.sys.srv := by
  intro tabled
  obtain ⟨s, found, entries⟩ : ∃ s, (listener .documented).run? (State.start idleServer)
      (List.flatten [[.accept false false [], .client_read_thr 0,
        .thread (.request 0 0 (.CREATE_XLATER 0 0 1 (-1) []))], turns (.client 0) 10,
        [.thread (.request 0 0 (.ENABLE_XLATER 0 .F32))], turns (.client 0) 3,
        [.thread (.request 0 0 (.ENABLE_XLATER 0 .F32))], turns (.client 0) 3]) = some s ∧
      s.sys.srv.tcp_cli_head = [⟨0, false, false, [⟨0, .F32⟩, ⟨0, .F32⟩]⟩] := ⟨_, rfl, rfl⟩
  have once := (tabled s ⟨_, _, ⟨idleServer, by decide, rfl⟩, .of_run? found⟩).once
  rw [entries] at once
  exact absurd (once _ (List.mem_singleton_self _)) (by decide)

end Kukuruku.Server.SubscriptionTable
