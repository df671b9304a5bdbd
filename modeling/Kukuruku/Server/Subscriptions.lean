import Kukuruku.Server.Expansion

/-!
# Subscriptions of other clients

`handle` runs a whole handler over the server's lists, and `handle?` the same where
nothing that has been freed is read.  The only handler, apart from the one of
`DESTROY_XLATER`, that touches another client's entry is the one of `DISABLE_XLATER`:
it walks through all clients, where the subscription of the requesting one is meant.
-/

namespace Kukuruku.Server.Subscriptions

open Kukuruku.Server.Messages
open Kukuruku.Server.ClientParser
open Kukuruku.Server.Threads
open Kukuruku.Server.Expansion

/-- What a whole program does to the server's lists and globals. -/
def outcome (pack : Protobuf) (junk : Junk) (s : Server) (prog : List Instr) : Server :=
  prog.foldl (effect pack junk) s

/-- A message of client `me` is handled by itself. -/
def handle (pack : Protobuf) (junk : Junk) (s : Server) (me : Nat) (now : Int) (msg : CliMsg) :
    Server :=
  outcome pack junk s (parse_client_req me now msg)

/-- What an instruction does; `none` where it reads what it has freed. -/
def effect? (pack : Protobuf) (junk : Junk) (s : Server) : Instr → Option Server
  | .disable id => s.unsubscribeAll? id
  | .destroy id => (s.unsubscribeAll? id).map fun s =>
      s.setWorker id fun worker => { worker with enabled := false }
  | i => some (effect pack junk s i)

def handle? (pack : Protobuf) (junk : Junk) (s : Server) (me : Nat) (now : Int) (msg : CliMsg) :
    Option Server :=
  (parse_client_req me now msg).foldlM (effect? pack junk) s

/-! ## Handlers as runs of their thread -/

/-- Instructions of handlers that only lock, read and write to sockets. -/
def Silent : Instr → Prop
  | .lock | .unlock | .list _ | .destroyed _ | .serverInfo _ | .announce _ _ | .broadcast _ _
  | .foreach _ _ _ _ | .send _ _ | .cont _ _ => True
  | _ => False

/-- Instructions of the client threads. -/
def OfClient : Instr → Prop
  | .pass | .walk _ | .frame _ _ | .metaFrame _ | .spectrumTo _ _ | .histoTo _ _ => False
  | _ => True

theorem effect_silent (pack : Protobuf) (junk : Junk) (s : Server) {i : Instr}
    (silent : Silent i) : effect pack junk s i = s := by
  cases i with
  | lock | unlock | list | destroyed | serverInfo | announce | broadcast | foreach | send | cont =>
      rfl
  | _ => exact silent.elim

/-- What memory happens to hold matters to no handler's effect. -/
theorem effect_junk (pack : Protobuf) (junk other : Junk) (s : Server) {i : Instr}
    (client : OfClient i) : effect pack junk s i = effect pack other s i := by
  cases i with
  | walk => exact client.elim
  | _ => rfl

/-- Silent instructions in front of a program do not change its outcome. -/
theorem outcome_append (pack : Protobuf) (junk : Junk) (s : Server) {new : List Instr}
    (silent : ∀ i ∈ new, Silent i) (rest : List Instr) :
    outcome pack junk s (new ++ rest) = outcome pack junk s rest := by
  induction new with
  | nil => rfl
  | cons i later ih =>
      rw [List.cons_append, outcome, List.foldl_cons,
        effect_silent pack junk s (silent i List.mem_cons_self)]
      exact ih fun j mem => silent j (List.mem_cons_of_mem i mem)

/-- What an instruction of a handler yields only locks and writes. -/
theorem silent_of_yields {junk : Junk} {s : Server} {i j : Instr} (client : OfClient i)
    (yields : Yields junk s i j) : Silent j := by
  cases yields with
  | pass | metaFrame | frame | walk | walked | spectrumTo | histoTo | payload | spectrum | histo =>
      exact client.elim
  | _ => trivial

theorem ofClient_of_silent {i : Instr} (silent : Silent i) : OfClient i := by
  cases i with
  | pass | walk | frame | metaFrame | spectrumTo | histoTo => exact silent.elim
  | _ => trivial

/-- Only thread `t` runs. -/
def Alone (t : Tid) (_ : Sys) : Act → Prop
  | .exec u _ => u = t
  | _ => False

/-- What a handler still has to do to the lists stays the same while its thread
runs; the instructions it expands to on the way do nothing to them. -/
theorem outcome_exec {pack : Protobuf} {junk now : Junk} {s u : Sys} {t : Tid}
    (client : ∀ i ∈ s.prog t, OfClient i) (exec : Sys.Exec pack s t now u) :
    (∀ i ∈ u.prog t, OfClient i) ∧
      outcome pack junk u.srv (u.prog t) = outcome pack junk s.srv (s.prog t) := by
  obtain ⟨i, new, rest, prog, next, yields⟩ := turn_of_exec exec
  have own : OfClient i := client i (by rw [prog]; exact List.mem_cons_self)
  have silent : ∀ j ∈ new, Silent j := fun j mem => silent_of_yields own (yields j mem)
  rw [next, Function.update_self]
  constructor
  · intro j mem
    rcases List.mem_append.mp mem with expanded | later
    · exact ofClient_of_silent (silent j expanded)
    · exact client j (by rw [prog]; exact List.mem_cons_of_mem i later)
  · rw [outcome_append pack junk _ silent, srv_exec exec prog, prog,
      effect_junk pack now junk s.srv own]
    rfl

theorem outcome_run {pack : Protobuf} (junk : Junk) {s u : Sys} {t : Tid} {acts : List Act}
    (run : (server pack).Run (Alone t) s acts u) (client : ∀ i ∈ s.prog t, OfClient i) :
    outcome pack junk u.srv (u.prog t) = outcome pack junk s.srv (s.prog t) := by
  induction run with
  | nil => rfl
  | cons alone step _ ih =>
      cases Sys.Step.of_step? step with
      | exec exec =>
          obtain rfl := alone
          obtain ⟨later, kept⟩ := outcome_exec client exec
          exact (ih later).trans kept
      | _ => exact alone.elim

theorem ofClient_parse_client_req (me : Nat) (now : Int) (msg : CliMsg) :
    ∀ i ∈ parse_client_req me now msg, OfClient i := by
  cases msg <;> simp [parse_client_req, OfClient]

/-- A handler that runs alone to its end has the effect that `handle` says. -/
theorem handle_of_run {pack : Protobuf} {s u : Sys} {me : Nat} {now : Int} {msg : CliMsg}
    {acts : List Act} (prog : s.prog (.client me) = parse_client_req me now msg)
    (run : (server pack).Run (Alone (.client me)) s acts u)
    (finished : u.prog (.client me) = []) (junk : Junk) :
    u.srv = handle pack junk s.srv me now msg := by
  have client : ∀ i ∈ s.prog (.client me), OfClient i := by
    rw [prog]
    exact ofClient_parse_client_req me now msg
  have kept := outcome_run junk run client
  rwa [finished, prog] at kept

/-! ## Whose entries a handler changes -/

/-- The client has a subscription of the worker. -/
def Subscribed (s : Server) (cli : Nat) (id : Int) : Prop :=
  ∃ client, s.client? cli = some client ∧ ∃ frm ∈ client.req_frames_head, frm.wid = id

/-- A client's own entry is the only one that `setClient` changes. -/
theorem client?_setClient (s : Server) {me cli : Nat} (other : cli ≠ me)
    {change : TcpCli → TcpCli} (keeps : ∀ client, (change client).cli = client.cli) :
    (s.setClient me change).client? cli = s.client? cli := by
  unfold Server.client? Server.setClient
  have same : (fun client => decide (client.cli = cli)) ∘ (fun client : TcpCli =>
      if client.cli = me then change client else client) =
        fun client => decide (client.cli = cli) := by
    funext client
    simp only [Function.comp_apply]
    split
    · rw [keeps]
    · rfl
  rw [List.find?_map, same]
  cases found : s.tcp_cli_head.find? fun client => client.cli = cli with
  | none => rfl
  | some client =>
      have named : client.cli = cli := by simpa using List.find?_some found
      rw [Option.map_some, if_neg (by rw [named]; exact other)]

theorem unsubscribe?_eq_some {id : Int} {frms : List ReqFrames}
    (nobody : ∀ frm ∈ frms, frm.wid ≠ id) : Server.unsubscribe? id frms = some frms := by
  induction frms with
  | nil => rfl
  | cons frm rest ih =>
      rw [Server.unsubscribe?, if_neg (nobody frm List.mem_cons_self),
        ih fun other mem => nobody other (List.mem_cons_of_mem _ mem)]
      rfl

theorem unsubscribe?_eq_none {id : Int} {frms : List ReqFrames}
    (somebody : ∃ frm ∈ frms, frm.wid = id) : Server.unsubscribe? id frms = none := by
  obtain ⟨frm, mem, named⟩ := somebody
  induction frms with
  | nil => cases mem
  | cons first rest ih =>
      rw [Server.unsubscribe?]
      split_ifs with own
      · rfl
      · rcases List.mem_cons.mp mem with rfl | later
        · exact absurd named own
        · rw [ih later, Option.map_none]

/-- The loop over the subscriptions of one client. -/
def unsubscribed? (id : Int) (client : TcpCli) : Option TcpCli :=
  (Server.unsubscribe? id client.req_frames_head).map fun req_frames_head =>
    { client with req_frames_head := req_frames_head }

theorem mapM_unsubscribed?_eq_some {id : Int} {clients : List TcpCli}
    (nobody : ∀ client ∈ clients, ∀ frm ∈ client.req_frames_head, frm.wid ≠ id) :
    clients.mapM (unsubscribed? id) = some clients := by
  induction clients with
  | nil => rfl
  | cons client rest ih =>
      rw [List.mapM_cons, unsubscribed?,
        unsubscribe?_eq_some (nobody client List.mem_cons_self),
        ih fun other mem => nobody other (List.mem_cons_of_mem _ mem)]
      rfl

theorem mapM_unsubscribed?_eq_none {id : Int} {clients : List TcpCli}
    (somebody : ∃ client ∈ clients, ∃ frm ∈ client.req_frames_head, frm.wid = id) :
    clients.mapM (unsubscribed? id) = none := by
  obtain ⟨client, mem, subscribed⟩ := somebody
  induction clients with
  | nil => cases mem
  | cons first rest ih =>
      rw [List.mapM_cons]
      rcases List.mem_cons.mp mem with rfl | later
      · rw [unsubscribed?, unsubscribe?_eq_none subscribed]
        rfl
      · rw [ih later]
        cases unsubscribed? id first <;> rfl

theorem known_iff {s : Server} {id : Int} :
    (s.worker_head.any fun worker => worker.wid = id) = true ↔
      ∃ worker ∈ s.worker_head, worker.wid = id := by
  simp only [List.any_eq_true, decide_eq_true_eq]

/-- The loops come to their end exactly where they have nothing to remove. -/
theorem unsubscribeAll?_eq (s : Server) (id : Int) :
    s.unsubscribeAll? id = if s.Removes id then none else some s := by
  have loops : s.unsubscribeAll? id =
      if s.worker_head.any fun worker => worker.wid = id then
        (s.tcp_cli_head.mapM (unsubscribed? id)).map fun tcp_cli_head =>
          { s with tcp_cli_head := tcp_cli_head }
      else some s := rfl
  rw [loops]
  by_cases running : ∃ worker ∈ s.worker_head, worker.wid = id
  · rw [if_pos (known_iff.mpr running)]
    by_cases listed : ∃ client ∈ s.tcp_cli_head, ∃ frm ∈ client.req_frames_head, frm.wid = id
    · rw [mapM_unsubscribed?_eq_none listed, if_pos ⟨running, listed⟩, Option.map_none]
    · rw [if_neg fun removes : s.Removes id => listed removes.2, mapM_unsubscribed?_eq_some]
      · rfl
      · exact fun client mem frm inside named => listed ⟨client, mem, frm, inside, named⟩
  · rw [if_neg (known_iff.not.mpr running),
      if_neg fun removes : s.Removes id => running removes.1]

theorem unsubscribeAll_of_not_removes {s : Server} {id : Int} (nothing : ¬ s.Removes id) :
    s.unsubscribeAll id = s := by
  unfold Server.unsubscribeAll
  split
  · rename_i running
    have unchanged : ∀ client ∈ s.tcp_cli_head, { client with
        req_frames_head := client.req_frames_head.filter fun frm => frm.wid ≠ id } = client := by
      intro client mem
      have all : (client.req_frames_head.filter fun frm => frm.wid ≠ id) =
          client.req_frames_head := by
        refine List.filter_eq_self.mpr fun frm inside => decide_eq_true fun named => nothing ?_
        obtain ⟨worker, known, same⟩ := List.any_eq_true.mp running
        exact ⟨⟨worker, known, of_decide_eq_true same⟩, client, mem, frm, inside, named⟩
      rw [all]
    rw [List.map_congr_left unchanged, List.map_id']
  · rfl

theorem handle?_disable (pack : Protobuf) (junk : Junk) (s : Server) (me : Nat) (now id : Int) :
    handle? pack junk s me now (.DISABLE_XLATER id) =
      if s.Removes id then none else some (handle pack junk s me now (.DISABLE_XLATER id)) := by
  have loops : handle? pack junk s me now (.DISABLE_XLATER id) = s.unsubscribeAll? id := by
    show (s.unsubscribeAll? id).bind some = _
    exact Option.bind_fun_some _
  have clean : handle pack junk s me now (.DISABLE_XLATER id) = s.unsubscribeAll id := rfl
  rw [loops, clean, unsubscribeAll?_eq]
  split_ifs with removes
  · rfl
  · rw [unsubscribeAll_of_not_removes removes]

theorem client?_unsubscribeAll (s : Server) (cli : Nat) (id : Int) :
    (s.unsubscribeAll id).client? cli = s.client? cli ↔
      ¬ ((∃ worker ∈ s.worker_head, worker.wid = id) ∧ Subscribed s cli id) := by
  unfold Server.unsubscribeAll
  split
  · rename_i running
    have worker : ∃ worker ∈ s.worker_head, worker.wid = id := by
      obtain ⟨worker, mem, named⟩ := List.any_eq_true.mp running
      exact ⟨worker, mem, of_decide_eq_true named⟩
    simp only [Server.client?, List.find?_map, Function.comp_def]
    cases found : s.tcp_cli_head.find? fun client => client.cli = cli with
    | none =>
        have nobody : ¬ Subscribed s cli id := by
          rintro ⟨client, known, _⟩
          rw [Server.client?, found] at known
          cases known
        exact iff_of_true rfl fun both => nobody both.2
    | some client =>
        have subscribed : Subscribed s cli id ↔ ∃ frm ∈ client.req_frames_head, frm.wid = id := by
          constructor
          · rintro ⟨other, known, frm⟩
            rw [Server.client?, found] at known
            obtain rfl := Option.some.inj known
            exact frm
          · exact fun frm => ⟨client, found, frm⟩
        have kept : { client with
            req_frames_head := client.req_frames_head.filter fun frm => frm.wid ≠ id } = client ↔
              ∀ frm ∈ client.req_frames_head, frm.wid ≠ id := by
          constructor
          · intro same frm mem
            rw [← congrArg TcpCli.req_frames_head same] at mem
            simpa using (List.mem_filter.mp mem).2
          · intro all
            have same : (client.req_frames_head.filter fun frm => frm.wid ≠ id) =
                client.req_frames_head :=
              List.filter_eq_self.mpr fun frm mem => by simpa using all frm mem
            rw [same]
        rw [subscribed, Option.map_some, Option.some.injEq, kept]
        constructor
        · rintro all ⟨_, frm, mem, named⟩
          exact all frm mem named
        · exact fun apart frm mem named => apart ⟨worker, frm, mem, named⟩
  · rename_i none
    refine iff_of_true rfl ?_
    rintro ⟨⟨worker, mem, named⟩, _⟩
    exact none (List.any_eq_true.mpr ⟨worker, mem, decide_eq_true named⟩)

theorem client?_handle (pack : Protobuf) (junk : Junk) (s : Server) {me other : Nat}
    (distinct : other ≠ me) (now : Int) (msg : CliMsg)
    (notDestroy : ∀ id, msg ≠ .DESTROY_XLATER id) :
    (handle pack junk s me now msg).client? other = s.client? other ↔
      ¬ ∃ id, msg = .DISABLE_XLATER id ∧
        (∃ worker ∈ s.worker_head, worker.wid = id) ∧ Subscribed s other id := by
  cases msg with
  | DESTROY_XLATER id => exact absurd rfl (notDestroy id)
  | DISABLE_XLATER id =>
      have effect : handle pack junk s me now (.DISABLE_XLATER id) = s.unsubscribeAll id := rfl
      rw [effect, client?_unsubscribeAll]
      refine not_congr ⟨fun both => ⟨id, rfl, both⟩, ?_⟩
      rintro ⟨_, ⟨⟩, both⟩
      exact both
  | ENABLE_XLATER | ENABLE_SPECTRUM | ENABLE_HISTO =>
      refine iff_of_true (client?_setClient s distinct fun _ => rfl) ?_
      rintro ⟨_, ⟨⟩, _⟩
  | _ =>
      refine iff_of_true rfl ?_
      rintro ⟨_, ⟨⟩, _⟩

/-- Handling a message of `me` comes to its end and leaves the subscriptions and the flags
of every other client as they were, unless it is a `DISABLE_XLATER` for a running worker
that some client has subscribed to, the requesting one included. -/
theorem others_kept_iff (pack : Protobuf) (junk : Junk) (s : Server) {me other : Nat}
    (distinct : other ≠ me) (now : Int) (msg : CliMsg)
    (notDestroy : ∀ id, msg ≠ .DESTROY_XLATER id) :
    (∃ next, handle? pack junk s me now msg = some next ∧
        next.client? other = s.client? other) ↔
      ¬ ∃ id, msg = .DISABLE_XLATER id ∧ s.Removes id := by
  by_cases removes : ∃ id, msg = .DISABLE_XLATER id ∧ s.Removes id
  · refine iff_of_false ?_ (not_not_intro removes)
    obtain ⟨id, rfl, removes⟩ := removes
    rw [handle?_disable, if_pos removes]
    rintro ⟨_, ⟨⟩, _⟩
  · have ends : handle? pack junk s me now msg = some (handle pack junk s me now msg) := by
      cases msg with
      | DESTROY_XLATER id => exact absurd rfl (notDestroy id)
      | DISABLE_XLATER id => rw [handle?_disable, if_neg fun found => removes ⟨id, rfl, found⟩]
      | _ => rfl
    refine iff_of_true ⟨_, ends, ?_⟩ removes
    rw [client?_handle pack junk s distinct now msg notDestroy]
    rintro ⟨id, same, worker, client, found, frm⟩
    exact removes ⟨id, same, worker, client, List.mem_of_find?_eq_some found, frm⟩

/-- A request for the spectrum changes the requesting client alone, and so does the end of
a subscription that nobody has. -/
theorem others_kept_spectrum :
    (∃ next, handle? .documented Junk.zero { idleServer with
        tcp_cli_head := [⟨1, false, false, [⟨0, .F32⟩]⟩, ⟨0, false, false, []⟩] }
      0 0 .ENABLE_SPECTRUM = some next ∧
        next.client? 1 = some ⟨1, false, false, [⟨0, .F32⟩]⟩) ∧
    ∃ next, handle? .documented Junk.zero { idleServer with
        tcp_cli_head := [⟨1, false, false, [⟨0, .F32⟩]⟩, ⟨0, false, false, []⟩] }
      0 0 (.DISABLE_XLATER 7) = some next ∧
        next.client? 1 = some ⟨1, false, false, [⟨0, .F32⟩]⟩ :=
  ⟨(others_kept_iff .documented Junk.zero _ (show 1 ≠ 0 by decide) 0 .ENABLE_SPECTRUM
      (by rintro id ⟨⟩)).mpr (by rintro ⟨id, ⟨⟩, _⟩),
    (others_kept_iff .documented Junk.zero _ (show 1 ≠ 0 by decide) 0 (.DISABLE_XLATER 7)
      (by rintro id ⟨⟩)).mpr (by rintro ⟨_, ⟨⟩, removes⟩; revert removes; decide)⟩

/-- One client stops its own listening: the loops go on from what they have freed, and as
far as it still reads as before, another client that is subscribed to the same worker loses
its subscription. -/
theorem not_others_kept_disable :
    ¬ ∀ s : Sys, (server .documented).Reachable Machine.Any s →
      ∀ (junk : Junk) (me other : Nat), other ≠ me → ∀ (now : Int) (msg : CliMsg),
        (∀ id, msg ≠ .DESTROY_XLATER id) →
        (∃ next, handle? .documented junk s.srv me now msg = some next ∧
          next.client? other = s.srv.client? other) ∨
        (handle .documented junk s.srv me now msg).client? other = s.srv.client? other := by
  intro kept
  let turn (cli count : Nat) : List Act := List.replicate count (.exec (.client cli) Junk.zero)
  obtain ⟨s, run, before, after, faults⟩ :
      ∃ s, (server .documented).run? (Sys.start idleServer)
        (List.flatten [[.connect false false, .connect false false,
          .request 0 0 (.CREATE_XLATER 0 0 1 (-1) [])], turn 0 14,
          [.request 1 0 (.ENABLE_XLATER 0 .F32)], turn 1 3]) = some s ∧
        s.srv.client? 1 = some ⟨1, false, false, [⟨0, .F32⟩]⟩ ∧
        (handle .documented Junk.zero s.srv 0 0 (.DISABLE_XLATER 0)).client? 1 =
          some ⟨1, false, false, []⟩ ∧
        handle? .documented Junk.zero s.srv 0 0 (.DISABLE_XLATER 0) = none :=
    ⟨_, rfl, rfl, rfl, rfl⟩
  rcases kept s ⟨_, _, ⟨idleServer, by decide, rfl⟩, .of_run? run⟩ Junk.zero 0 1
    (by decide) 0 (.DISABLE_XLATER 0) (by rintro id ⟨⟩) with ⟨_, found, _⟩ | same
  · cases faults.symm.trans found
  · rw [before, after] at same
    cases same

end Kukuruku.Server.Subscriptions
