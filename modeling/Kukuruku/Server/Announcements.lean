import Kukuruku.Server.Expansion

/-!
# Announcements of workers

Announcements and destroy notices start at the requests about workers and are
passed on from one instruction to the next until they are sent.  Instructions
that have nothing to do with them yield only such instructions.  The last two
sections say what an instruction makes of the workers and of the clients.
-/

namespace Kukuruku.Server.Announcements

open Kukuruku.Server.Messages
open Kukuruku.Server.ClientParser
open Kukuruku.Server.Threads
open Kukuruku.Server.Expansion

/-- Neither an announcement nor a destroy notice. -/
def Other : SrvMsg → Prop
  | .running _ | .destroyed _ => False
  | _ => True

/-- Instructions that have nothing to do with announcements. -/
def Quiet : Instr → Prop
  | .create _ _ _ _ _ _ | .modify _ _ _ _ | .list _ | .destroy _ | .destroyed _ | .announce _ _ =>
      False
  | .broadcast msg _ | .foreach msg _ _ _ | .send _ msg => Other msg
  | _ => True

/-- The socket writer never comes to announce a worker. -/
theorem quiet_of_yields {junk : Junk} {s : Server} {i j : Instr} (yields : Yields junk s i j)
    (quiet : Quiet i) : Quiet j := by
  cases yields with
  | create | modify | list | destroy | notice | reply | tell => exact quiet.elim
  | each | next | again => exact quiet
  | _ => trivial

theorem quiet_writing {cli : Nat} {writes : List (List UInt8)} {i : Instr}
    (mem : i ∈ writing cli writes) : Quiet i := by
  cases writes with
  | nil => cases mem
  | cons piece more =>
      rw [List.mem_singleton.mp mem]
      trivial

/-! ## The workers -/

theorem worker?_mem {s : Server} {wid : Int} {worker : WorkerEntry}
    (found : s.worker? wid = some worker) : worker ∈ s.worker_head ∧ worker.wid = wid :=
  ⟨List.mem_of_find?_eq_some found, by simpa using List.find?_some found⟩

theorem client?_mem {s : Server} {cli : Nat} {client : TcpCli}
    (found : s.client? cli = some client) : client ∈ s.tcp_cli_head ∧ client.cli = cli :=
  ⟨List.mem_of_find?_eq_some found, by simpa using List.find?_some found⟩

theorem mem_setWorker {s : Server} {wid : Int} {change : WorkerEntry → WorkerEntry}
    {worker : WorkerEntry} (mem : worker ∈ (s.setWorker wid change).worker_head) :
    ∃ before ∈ s.worker_head,
      before.wid = wid ∧ worker = change before ∨ before.wid ≠ wid ∧ worker = before := by
  obtain ⟨before, earlier, rfl⟩ := List.mem_map.mp mem
  refine ⟨before, earlier, ?_⟩
  split
  · exact Or.inl ⟨‹_›, rfl⟩
  · exact Or.inr ⟨‹_›, rfl⟩

theorem worker_head_unsubscribeAll (s : Server) (id : Int) :
    (s.unsubscribeAll id).worker_head = s.worker_head := by
  unfold Server.unsubscribeAll
  split <;> rfl

/-- The workers after an instruction: the one just created, and those from before,
of which `DESTROY_XLATER` disables some. -/
theorem mem_worker_head_effect {pack : Protobuf} {junk : Junk} {s : Server} {i : Instr}
    {worker : WorkerEntry} (mem : worker ∈ (effect pack junk s i).worker_head) :
    (∃ me remoteid rotate decimation startframe taps,
        i = .create me remoteid rotate decimation startframe taps ∧
          worker = newWorker pack s remoteid rotate decimation taps) ∨
      ∃ before ∈ s.worker_head, worker.wid = before.wid ∧ worker.remoteid = before.remoteid ∧
        (worker.enabled = before.enabled ∨ i = .destroy worker.wid ∧ worker.enabled = false) := by
  have keep : worker ∈ s.worker_head → ∃ before ∈ s.worker_head, worker.wid = before.wid ∧
      worker.remoteid = before.remoteid ∧
      (worker.enabled = before.enabled ∨ i = .destroy worker.wid ∧ worker.enabled = false) :=
    fun mem => ⟨worker, mem, rfl, rfl, Or.inl rfl⟩
  cases i with
  | create me remoteid rotate decimation startframe taps =>
      rcases List.mem_cons.mp mem with rfl | mem
      · exact Or.inl ⟨me, remoteid, rotate, decimation, startframe, taps, rfl, rfl⟩
      · exact Or.inr (keep mem)
  | modify =>
      obtain ⟨before, earlier, ⟨_, rfl⟩ | ⟨_, rfl⟩⟩ := mem_setWorker mem
      · exact Or.inr ⟨before, earlier, rfl, rfl, Or.inl rfl⟩
      · exact Or.inr (keep earlier)
  | disable id =>
      have same := worker_head_unsubscribeAll s id
      rw [effect, same] at mem
      exact Or.inr (keep mem)
  | destroy id =>
      have same := worker_head_unsubscribeAll s id
      obtain ⟨before, earlier, ⟨own, rfl⟩ | ⟨_, rfl⟩⟩ := mem_setWorker mem
      · rw [same] at earlier
        exact Or.inr ⟨before, earlier, rfl, rfl, Or.inr ⟨by rw [own], rfl⟩⟩
      · rw [same] at earlier
        exact Or.inr (keep earlier)
  | walk rest =>
      refine Or.inr ?_
      cases rest with
      | nil => exact keep mem
      | cons wid rest =>
          simp only [effect] at mem
          split at mem
          · split at mem
            · obtain ⟨before, earlier, ⟨_, rfl⟩ | ⟨_, rfl⟩⟩ := mem_setWorker mem
              · exact ⟨before, earlier, rfl, rfl, Or.inl rfl⟩
              · exact keep earlier
            · split at mem
              · exact keep (List.mem_filter.mp mem).1
              · exact keep mem
          · exact keep mem
  | _ => exact Or.inr (keep mem)

/-- The walk changes workers and the measured frames alone. -/
theorem effect_walk (pack : Protobuf) (junk : Junk) (s : Server) (rest : List Int) :
    ∃ workers measured, effect pack junk s (.walk rest) =
      { s with worker_head := workers, metadata := measured } := by
  cases rest with
  | nil => exact ⟨_, _, rfl⟩
  | cons wid rest =>
      simp only [effect]
      split
      · split
        · exact ⟨_, _, rfl⟩
        · split <;> exact ⟨_, _, rfl⟩
      · exact ⟨_, _, rfl⟩

theorem widx_effect (pack : Protobuf) (junk : Junk) (s : Server) (i : Instr) :
    (effect pack junk s i).widx =
      match i with
      | .create _ _ _ _ _ _ => s.widx + 1
      | _ => s.widx := by
  cases i with
  | disable id | destroy id =>
      simp only [effect, Server.setWorker, Server.unsubscribeAll]
      split <;> rfl
  | walk rest =>
      obtain ⟨workers, measured, same⟩ := effect_walk pack junk s rest
      rw [same]
  | _ => rfl

/-! ## The clients -/

/-- The record of a client after an instruction that does not remove it. -/
def touch (s : Server) (i : Instr) (client : TcpCli) : TcpCli :=
  match i with
  | .enable me id type =>
      if client.cli = me then
        { client with req_frames_head := ⟨id, type⟩ :: client.req_frames_head }
      else client
  | .disable id | .destroy id =>
      if s.worker_head.any fun worker => worker.wid = id then
        { client with req_frames_head := client.req_frames_head.filter fun frm => frm.wid ≠ id }
      else client
  | .spectrum me => if client.cli = me then { client with spectrum := true } else client
  | .histo me => if client.cli = me then { client with histo := true } else client
  | _ => client

theorem cli_touch (s : Server) (i : Instr) (client : TcpCli) :
    (touch s i client).cli = client.cli := by
  unfold touch
  split <;> first | rfl | (split <;> rfl)

/-- The clients after an instruction are some of those before, each of them touched
by it. -/
theorem tcp_cli_head_effect (pack : Protobuf) (junk : Junk) (s : Server) (i : Instr) :
    ∃ kept : List TcpCli, kept.Sublist s.tcp_cli_head ∧
      (effect pack junk s i).tcp_cli_head = kept.map (touch s i) := by
  have all := List.Sublist.refl s.tcp_cli_head
  have untouched : s.tcp_cli_head = s.tcp_cli_head.map fun client => client :=
    (List.map_id' _).symm
  have unsubscribed : ∀ id : Int, (s.unsubscribeAll id).tcp_cli_head =
      s.tcp_cli_head.map (touch s (.disable id)) := by
    intro id
    unfold Server.unsubscribeAll
    split
    · rename_i running
      exact List.map_congr_left fun client _ => (if_pos running).symm
    · rename_i none
      exact untouched.trans (List.map_congr_left fun client _ => (if_neg none).symm)
  cases i with
  | enable | spectrum | histo => exact ⟨_, all, rfl⟩
  | disable id | destroy id => exact ⟨_, all, unsubscribed id⟩
  | close me => exact ⟨_, List.filter_sublist, (List.map_id' _).symm⟩
  | walk rest =>
      obtain ⟨workers, measured, same⟩ := effect_walk pack junk s rest
      rw [same]
      exact ⟨_, all, untouched⟩
  | _ => exact ⟨_, all, untouched⟩

theorem mem_tcp_cli_head_effect {pack : Protobuf} {junk : Junk} {s : Server} {i : Instr}
    {client : TcpCli} (mem : client ∈ (effect pack junk s i).tcp_cli_head) :
    ∃ before ∈ s.tcp_cli_head, client = touch s i before := by
  obtain ⟨kept, fewer, same⟩ := tcp_cli_head_effect pack junk s i
  rw [same] at mem
  obtain ⟨before, earlier, rfl⟩ := List.mem_map.mp mem
  exact ⟨before, fewer.subset earlier, rfl⟩

/-- No instruction connects a client. -/
theorem clis_effect (pack : Protobuf) (junk : Junk) (s : Server) (i : Instr) :
    ((effect pack junk s i).tcp_cli_head.map TcpCli.cli).Sublist
      (s.tcp_cli_head.map TcpCli.cli) := by
  obtain ⟨kept, fewer, same⟩ := tcp_cli_head_effect pack junk s i
  have numbers : (kept.map (touch s i)).map TcpCli.cli = kept.map TcpCli.cli := by
    rw [List.map_map]
    exact List.map_congr_left fun client _ => cli_touch s i client
  rw [same, numbers]
  exact fewer.map TcpCli.cli

end Kukuruku.Server.Announcements
