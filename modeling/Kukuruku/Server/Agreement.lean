import Mathlib.Data.List.Nodup
import Kukuruku.Server.Announcements

/-!
# What the clients are told about the workers

A worker that is not enabled any more stays in `worker_head` until its thread
has been joined.  `Orderly` admits the runs in which no request takes up such a
worker once its end has been announced, and in which the announcements of a
worker and of its end do not overtake each other.  `Agree` relates the list of
the workers to the messages that have been sent and to those still to be sent.
-/

namespace Kukuruku.Server.Agreement

open Kukuruku.Server.Messages
open Kukuruku.Server.ClientParser
open Kukuruku.Server.Threads
open Kukuruku.Server.Expansion
open Kukuruku.Server.Announcements

/-- The worker that an instruction announces. -/
def announced : Instr → Option Int
  | .announce _ wid => some wid
  | .broadcast (.running msg) _ | .foreach (.running msg) _ _ _ | .send _ (.running msg) =>
      some msg.id
  | _ => none

def Tells (id : Int) (i : Instr) : Prop := announced i = some id

instance (id : Int) (i : Instr) : Decidable (Tells id i) :=
  inferInstanceAs (Decidable (announced i = some id))

/-- The instruction announces the end of the worker. -/
def Notices (id : Int) : Instr → Prop
  | .broadcast (.destroyed wid) _ | .foreach (.destroyed wid) _ _ _ | .send _ (.destroyed wid) =>
      wid = id
  | _ => False

/-- The message that an instruction passes on. -/
def message? : Instr → Option SrvMsg
  | .broadcast msg _ | .foreach msg _ _ _ | .send _ msg => some msg
  | _ => none

theorem announced_of_message {i : Instr} {msg : SRV_RUNNING_XLATER}
    (carries : message? i = some (.running msg)) : announced i = some msg.id := by
  cases i <;> cases carries <;> rfl

theorem notices_of_message {i : Instr} {id : Int} (carries : message? i = some (.destroyed id)) :
    Notices id i := by
  cases i <;> cases carries <;> rfl

/-- The client is among those that the instruction announces something to. -/
def Reaches (cli : Nat) : Instr → Prop
  | .announce _ _ => True
  | .broadcast _ skip => skip ≠ some cli
  | .foreach _ skip _ rest => skip ≠ some cli ∧ cli ∈ rest
  | .send other _ => other = cli
  | _ => False

/-- Some thread still has such an instruction before it. -/
def Pending (s : Sys) (P : Instr → Prop) : Prop := ∃ t, ∃ i ∈ s.prog t, P i

/-- The worker is in `worker_head` and enabled. -/
def Running (s : Server) (id : Int) : Prop :=
  ∃ worker ∈ s.worker_head, worker.wid = id ∧ worker.enabled = true

def Connected (s : Server) (cli : Nat) : Prop := ∃ client ∈ s.tcp_cli_head, client.cli = cli

instance (s : Server) (id : Int) : Decidable (Running s id) :=
  inferInstanceAs (Decidable (∃ worker ∈ s.worker_head, _))

instance (s : Server) (cli : Nat) : Decidable (Connected s cli) :=
  inferInstanceAs (Decidable (∃ client ∈ s.tcp_cli_head, _))

/-- `LIST_XLATERS` and `MODIFY_XLATER` take up no worker whose end has been
announced, and no announced worker has been freed; `CREATE_XLATER` assigns no id
that `DESTROY_XLATER` has named before, and the announcement of a worker's end
waits for those of the worker. -/
def Orderly (s : Sys) : Instr → Bool
  | .create _ _ _ _ _ _ => decide (s.srv.widx ∉ s.notified ∧
      ∀ cli, cli < s.connections → .destroyed s.srv.widx ∉ s.prog (.client cli))
  | .list _ => decide (∀ worker ∈ s.srv.worker_head, worker.wid ∉ s.notified)
  | .modify _ localid _ _ => decide ((s.srv.worker? localid).isSome → localid ∉ s.notified)
  | .announce _ wid => (s.srv.worker? wid).isSome
  | .destroyed id => decide
      (∀ cli, cli < s.connections → ∀ i ∈ s.prog (.client cli), ¬ Tells id i)
  | _ => true

/-! ## Pending instructions -/

section Pending

variable {s u : Sys} {t : Tid} {i : Instr} {new rest : List Instr} {P : Instr → Prop}

theorem pending_next (prog : s.prog t = i :: rest)
    (next : u.prog = Function.update s.prog t (new ++ rest)) (pending : Pending u P) :
    (∃ j ∈ new, P j) ∨ Pending s P := by
  obtain ⟨v, j, mem, holds⟩ := pending
  rw [next] at mem
  by_cases mine : v = t
  · subst mine
    rw [Function.update_self] at mem
    rcases List.mem_append.mp mem with expanded | later
    · exact Or.inl ⟨j, expanded, holds⟩
    · exact Or.inr ⟨v, j, by rw [prog]; exact List.mem_cons_of_mem i later, holds⟩
  · rw [Function.update_of_ne mine] at mem
    exact Or.inr ⟨v, j, mem, holds⟩

theorem pending_keep (prog : s.prog t = i :: rest)
    (next : u.prog = Function.update s.prog t (new ++ rest)) (pending : Pending s P) :
    P i ∨ Pending u P := by
  obtain ⟨v, j, mem, holds⟩ := pending
  by_cases mine : v = t
  · subst mine
    rw [prog] at mem
    rcases List.mem_cons.mp mem with rfl | later
    · exact Or.inl holds
    · refine Or.inr ⟨v, j, ?_, holds⟩
      rw [next, Function.update_self]
      exact List.mem_append_right new later
  · refine Or.inr ⟨v, j, ?_, holds⟩
    rwa [next, Function.update_of_ne mine]

theorem pending_new {j : Instr} (next : u.prog = Function.update s.prog t (new ++ rest))
    (mem : j ∈ new) (holds : P j) : Pending u P := by
  refine ⟨t, j, ?_, holds⟩
  rw [next, Function.update_self]
  exact List.mem_append_left rest mem

end Pending

/-! ## What expansion adds and keeps -/

section Expansion

variable {junk : Junk} {s : Server} {i j : Instr} {new : List Instr} {id : Int} {cli : Nat}

theorem announced_of_quiet (quiet : Quiet i) : announced i = none := by
  cases i with
  | announce => exact quiet.elim
  | broadcast msg | foreach msg =>
      cases msg with
      | running => exact quiet.elim
      | _ => rfl
  | send other msg =>
      cases msg with
      | running => exact quiet.elim
      | _ => rfl
  | _ => rfl

theorem not_tells_of_quiet (quiet : Quiet i) : ¬ Tells id i := by
  intro tells
  rw [Tells, announced_of_quiet quiet] at tells
  cases tells

theorem not_notices_of_quiet (quiet : Quiet i) : ¬ Notices id i := by
  cases i with
  | broadcast msg | foreach msg =>
      cases msg with
      | destroyed => exact quiet.elim
      | _ => exact not_false
  | send other msg =>
      cases msg with
      | destroyed => exact quiet.elim
      | _ => exact not_false
  | _ => exact not_false

/-- A worker comes to be announced by an earlier announcement, by its creation, or
because a request takes it up. -/
theorem tells_of_yields (yields : Yields junk s i j) (tells : Tells id j)
    (freed : ∀ me wid, i = .announce me wid → (s.worker? wid).isSome) :
    Tells id i ∨ ((∃ me remoteid rotate decimation startframe taps,
        i = .create me remoteid rotate decimation startframe taps) ∧ id = s.widx) ∨
      (∃ me, i = .list me) ∧ (∃ worker ∈ s.worker_head, worker.wid = id) ∨
      (∃ me rotate newtaps, i = .modify me id rotate newtaps) ∧ (s.worker? id).isSome := by
  have same : ∀ me wid, i = .announce me wid → (told junk s wid).id = wid := by
    intro me wid head
    obtain ⟨worker, found⟩ := Option.isSome_iff_exists.mp (freed me wid head)
    rw [told, found]
    exact (worker?_mem found).2
  cases yields with
  | create => exact Or.inr (Or.inl ⟨⟨_, _, _, _, _, _, rfl⟩, (Option.some.inj tells).symm⟩)
  | @modify worker me localid rotate newtaps found =>
      obtain rfl := Option.some.inj tells
      exact Or.inr (Or.inr (Or.inr ⟨⟨me, rotate, newtaps, rfl⟩, by rw [found]; rfl⟩))
  | @list worker me mem => exact Or.inr (Or.inr (Or.inl ⟨⟨me, rfl⟩, worker, mem,
      Option.some.inj tells⟩))
  | reply me wid | tell me wid =>
      exact Or.inl (congrArg some ((same me wid rfl).symm.trans (Option.some.inj tells)))
  | each msg | next msg | again msg =>
      cases msg with
      | running => exact Or.inl tells
      | _ => cases tells
  | _ => cases tells

theorem notices_of_yields (yields : Yields junk s i j) (notices : Notices id j) :
    Notices id i ∨ i = .destroyed id := by
  cases yields with
  | notice wid =>
      obtain rfl : wid = id := notices
      exact Or.inr rfl
  | each msg | next msg | again msg =>
      cases msg with
      | destroyed => exact Or.inl notices
      | _ => exact notices.elim
  | _ => exact notices.elim

theorem destroyed_of_yields (yields : Yields junk s i (.destroyed id)) : i = .destroy id := by
  cases yields
  rfl

/-- Whoever is connected stays among those that a message reaches. -/
theorem reaches_expand {msg : SrvMsg} (expands : expand junk s i = some new) (plain : Plain i)
    (connected : Connected s cli) (reaches : Reaches cli i) (carries : message? i = some msg) :
    ∃ j ∈ new, message? j = some msg ∧ Reaches cli j := by
  cases i with
  | broadcast passed skip =>
      obtain rfl := Option.some.inj carries
      obtain rfl := Option.some.inj expands
      refine ⟨_, List.mem_singleton_self _, rfl, reaches, ?_⟩
      obtain ⟨client, mem, rfl⟩ := connected
      exact List.mem_map_of_mem mem
  | foreach passed skip current rest =>
      obtain rfl := Option.some.inj carries
      simp only [expand] at expands
      split at expands
      · cases expands
      · have next : cli ∈ nextClient s rest := mem_nextClient.mpr ⟨reaches.2, connected⟩
        split at expands
        · rename_i none
          rw [none] at next
          cases next
        · rename_i first later found
          obtain rfl := Option.some.inj expands
          rw [found] at next
          rcases List.mem_cons.mp next with rfl | mem
          · rw [if_neg reaches.1]
            exact ⟨_, List.mem_cons_self, rfl, rfl⟩
          · have again : Reaches cli (.foreach passed skip (some first) later) :=
              ⟨reaches.1, mem⟩
            refine ⟨_, ?_, rfl, again⟩
            split
            · exact List.mem_singleton_self _
            · exact List.mem_cons_of_mem _ (List.mem_singleton_self _)
  | send => exact plain.elim
  | _ => cases carries

theorem tells_keep (expands : expand junk s i = some new) (plain : Plain i)
    (connected : Connected s cli) (tells : Tells id i) (reaches : Reaches cli i)
    (freed : ∀ me wid, i = .announce me wid → (s.worker? wid).isSome) :
    ∃ j ∈ new, Tells id j ∧ Reaches cli j := by
  cases i with
  | announce me wid =>
      obtain ⟨worker, found⟩ := Option.isSome_iff_exists.mp (freed me wid rfl)
      have same : (told junk s wid).id = wid := by
        rw [told, found]
        exact (worker?_mem found).2
      have named : some (told junk s wid).id = some id := by rw [same, ← tells, announced]
      obtain rfl := Option.some.inj expands
      by_cases mine : me = cli
      · exact ⟨_, List.mem_cons_self, named, mine⟩
      · refine ⟨_, List.mem_cons_of_mem _ (List.mem_singleton_self _), named, ?_⟩
        exact fun same => mine (Option.some.inj same)
  | broadcast msg | foreach msg =>
      cases msg with
      | running =>
          obtain ⟨j, mem, carries, reaches⟩ := reaches_expand expands plain connected reaches rfl
          exact ⟨j, mem, (announced_of_message carries).trans tells, reaches⟩
      | _ => cases tells
  | send => exact plain.elim
  | _ => cases tells

theorem notices_keep (expands : expand junk s i = some new) (plain : Plain i)
    (connected : Connected s cli) (notices : Notices id i) (reaches : Reaches cli i) :
    ∃ j ∈ new, Notices id j ∧ Reaches cli j := by
  cases i with
  | broadcast msg | foreach msg =>
      cases msg with
      | destroyed =>
          obtain rfl := notices
          obtain ⟨j, mem, carries, reaches⟩ := reaches_expand expands plain connected reaches rfl
          exact ⟨j, mem, notices_of_message carries, reaches⟩
      | _ => exact notices.elim
  | send => exact plain.elim
  | _ => exact notices.elim

end Expansion

/-! ## The lists after an instruction -/

section Effect

variable {pack : Protobuf} {junk : Junk} {s : Server} {i : Instr} {id : Int} {cli : Nat}

theorem running_effect (running : Running (effect pack junk s i) id) :
    Running s id ∨ (∃ me remoteid rotate decimation startframe taps,
      i = .create me remoteid rotate decimation startframe taps) ∧ id = s.widx := by
  obtain ⟨worker, mem, rfl, enabled⟩ := running
  rcases mem_worker_head_effect mem with
    ⟨me, remoteid, rotate, decimation, startframe, taps, rfl, rfl⟩ |
    ⟨before, earlier, wid, _, same | ⟨_, disabled⟩⟩
  · exact Or.inr ⟨⟨_, _, _, _, _, _, rfl⟩, rfl⟩
  · exact Or.inl ⟨before, earlier, wid.symm, same.symm.trans enabled⟩
  · rw [disabled] at enabled
    cases enabled

theorem not_running_destroy (pack : Protobuf) (junk : Junk) (s : Server) (id : Int) :
    ¬ Running (effect pack junk s (.destroy id)) id := by
  rintro ⟨worker, mem, named, enabled⟩
  obtain ⟨before, _, ⟨_, rfl⟩ | ⟨other, rfl⟩⟩ := mem_setWorker mem
  · cases enabled
  · exact other named

theorem mem_setWorker_of_mem {wid : Int} {change : WorkerEntry → WorkerEntry}
    (keeps : ∀ worker, (change worker).wid = worker.wid ∧ (change worker).enabled = worker.enabled)
    (running : Running s id) : Running (s.setWorker wid change) id := by
  obtain ⟨worker, mem, rfl, enabled⟩ := running
  refine ⟨_, List.mem_map_of_mem mem, ?_⟩
  split
  · exact ⟨(keeps worker).1, (keeps worker).2.trans enabled⟩
  · exact ⟨rfl, enabled⟩

/-- Only `DESTROY_XLATER` ends a worker: the socket writer frees workers that are
not enabled, and ids are not shared. -/
theorem running_keep (distinct : (s.worker_head.map WorkerEntry.wid).Nodup)
    (running : Running s id) : Running (effect pack junk s i) id ∨ i = .destroy id := by
  have kept := running
  obtain ⟨worker, mem, named, enabled⟩ := running
  cases i with
  | create => exact Or.inl ⟨worker, List.mem_cons_of_mem _ mem, named, enabled⟩
  | modify => exact Or.inl (mem_setWorker_of_mem (fun _ => ⟨rfl, rfl⟩) kept)
  | disable wid =>
      refine Or.inl ⟨worker, ?_, named, enabled⟩
      rwa [effect, worker_head_unsubscribeAll]
  | destroy wid =>
      by_cases same : wid = id
      · exact Or.inr (congrArg Instr.destroy same)
      · refine Or.inl ⟨worker, List.mem_map.mpr ⟨worker, ?_, ?_⟩, named, enabled⟩
        · rwa [worker_head_unsubscribeAll]
        · rw [if_neg]
          exact fun own => same (own.symm.trans named)
  | walk rest =>
      refine Or.inl ?_
      cases rest with
      | nil => exact kept
      | cons wid rest =>
          simp only [effect]
          split
          · rename_i freed found
            split
            · exact mem_setWorker_of_mem (fun _ => ⟨rfl, rfl⟩) kept
            · rename_i disabled
              split
              · refine ⟨worker, List.mem_filter.mpr ⟨mem, decide_eq_true fun same => ?_⟩, named,
                  enabled⟩
                -- the worker that is freed would be this one
                obtain ⟨memFreed, own⟩ := worker?_mem found
                obtain rfl := List.inj_on_of_nodup_map distinct mem memFreed (same.trans own.symm)
                exact disabled enabled
              · exact kept
          · exact kept
  | _ => exact Or.inl kept

theorem distinct_setWorker {wid : Int} {change : WorkerEntry → WorkerEntry}
    (distinct : (s.worker_head.map WorkerEntry.wid).Nodup)
    (keeps : ∀ worker, (change worker).wid = worker.wid) :
    ((s.setWorker wid change).worker_head.map WorkerEntry.wid).Nodup := by
  have same : (s.setWorker wid change).worker_head.map WorkerEntry.wid =
      s.worker_head.map WorkerEntry.wid := by
    simp only [Server.setWorker, List.map_map]
    refine List.map_congr_left fun worker _ => ?_
    simp only [Function.comp_apply]
    split
    · exact keeps worker
    · rfl
  rwa [same]

theorem distinct_effect (distinct : (s.worker_head.map WorkerEntry.wid).Nodup)
    (ids : ∀ worker ∈ s.worker_head, worker.wid < s.widx) :
    ((effect pack junk s i).worker_head.map WorkerEntry.wid).Nodup := by
  cases i with
  | create =>
      refine List.nodup_cons.mpr ⟨fun mem => ?_, distinct⟩
      obtain ⟨worker, mem, same⟩ := List.mem_map.mp mem
      exact absurd same (Int.ne_of_lt (ids worker mem))
  | modify =>
      refine distinct_setWorker distinct ?_
      exact fun _ => rfl
  | disable id =>
      rw [effect, worker_head_unsubscribeAll]
      exact distinct
  | destroy id =>
      have same : ((s.unsubscribeAll id).worker_head.map WorkerEntry.wid).Nodup := by
        rwa [worker_head_unsubscribeAll]
      refine distinct_setWorker same ?_
      exact fun _ => rfl
  | walk rest =>
      cases rest with
      | nil => exact distinct
      | cons wid rest =>
          simp only [effect]
          split
          · split
            · refine distinct_setWorker distinct ?_
              exact fun _ => rfl
            · split
              · exact distinct.sublist (List.filter_sublist.map _)
              · exact distinct
          · exact distinct
  | _ => exact distinct

theorem connected_effect (connected : Connected (effect pack junk s i) cli) :
    Connected s cli := by
  obtain ⟨client, mem, rfl⟩ := connected
  obtain ⟨before, earlier, rfl⟩ := mem_tcp_cli_head_effect mem
  exact ⟨before, earlier, (cli_touch s i before).symm⟩

end Effect

end Kukuruku.Server.Agreement
