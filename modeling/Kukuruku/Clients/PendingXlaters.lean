import Mathlib.Data.List.Nodup
import Kukuruku.Clients.Network
import Kukuruku.Server.Announcements

/-!
# Pending xlaters and their workers

A worker is announced with the id that its creator has asked for.  `CREATE_XLATER`
announces it to the creator; `LIST_XLATERS` and `MODIFY_XLATER` announce any
worker with that id to the client that has sent them.  Where they only take up
workers of that client, every announcement with an id answers the very request
that carried it.
-/

namespace Kukuruku.Clients.PendingXlaters

open Kukuruku.Server.Messages
open Kukuruku.Server.ClientParser
open Kukuruku.Server.Threads hiding Act
open Kukuruku.Server.Expansion
open Kukuruku.Server.Announcements
open Kukuruku.Clients.LibClient
open Kukuruku.Clients.Network

/-! ## What the server announces -/

/-- The worker was created for a request of this client. -/
def Created (s : Sys) (me : Nat) (wid : Int) : Prop :=
  ∃ entry ∈ s.created, entry.1 = wid ∧ entry.2.1 = me

instance (s : Sys) (me : Nat) (wid : Int) : Decidable (Created s me wid) :=
  inferInstanceAs (Decidable (∃ entry ∈ s.created, _))

/-- `LIST_XLATERS` and `MODIFY_XLATER` take up workers of the requesting client
only, and no announced worker has been freed. -/
def TakesOwn (s : Sys) : Instr → Prop
  | .list me => ∀ worker ∈ s.srv.worker_head, Created s me worker.wid
  | .modify me localid _ _ => (s.srv.worker? localid).isSome → Created s me localid
  | .announce _ wid => (s.srv.worker? wid).isSome
  | _ => True

instance (s : Sys) (i : Instr) : Decidable (TakesOwn s i) := by
  cases i with
  | list me =>
      exact inferInstanceAs (Decidable (∀ worker ∈ s.srv.worker_head, Created s me worker.wid))
  | modify me localid =>
      exact inferInstanceAs (Decidable ((s.srv.worker? localid).isSome → Created s me localid))
  | announce _ wid => exact inferInstanceAs (Decidable ((s.srv.worker? wid).isSome = true))
  | _ => exact instDecidableTrue

/-- What is announced with an id is announced to the client that asked for it. -/
def Owned (created : List (Int × Nat × Int)) : Instr → Prop
  | .announce me wid => ∃ remoteid, (wid, me, remoteid) ∈ created
  | .send cli (.running msg) => msg.remoteid ≠ -1 → (msg.id, cli, msg.remoteid) ∈ created
  | .broadcast (.running msg) _ | .foreach (.running msg) _ _ _ => msg.remoteid = -1
  | _ => True

theorem Owned.weaken {created more : List (Int × Nat × Int)} {i : Instr}
    (subset : ∀ entry ∈ created, entry ∈ more) (owned : Owned created i) : Owned more i := by
  cases i with
  | announce me wid =>
      obtain ⟨remoteid, mem⟩ := owned
      exact ⟨remoteid, subset _ mem⟩
  | send cli msg =>
      cases msg with
      | running => exact fun named => subset _ (owned named)
      | _ => trivial
  | broadcast msg | foreach msg =>
      cases msg with
      | running => exact owned
      | _ => trivial
  | _ => trivial

structure Announced (s : Sys) : Prop where
  ids : ∀ entry ∈ s.created, entry.1 < s.srv.widx
  unique : ∀ left ∈ s.created, ∀ right ∈ s.created, left.1 = right.1 → left = right
  workers : ∀ worker ∈ s.srv.worker_head, ∃ me, (worker.wid, me, worker.remoteid) ∈ s.created
  progs : ∀ t, ∀ i ∈ s.prog t, Owned s.created i
  logs : ∀ cli msg, .running msg ∈ s.log cli →
    msg.remoteid ≠ -1 → (msg.id, cli, msg.remoteid) ∈ s.created

/-- The id that an instruction of the handler of `CREATE_XLATER` will give to a
new worker. -/
def asked : Instr → Option Int
  | .create _ remoteid _ _ _ _ => some remoteid
  | _ => none

/-- Only `CREATE_XLATER` creates, and it numbers the workers. -/
theorem created_exec {pack : Protobuf} {junk : Junk} {s u : Sys} {t : Tid} {i : Instr}
    {rest : List Instr} (exec : Sys.Exec pack s t junk u) (prog : s.prog t = i :: rest) :
    (asked i = none ∧ u.created = s.created ∧ u.srv.widx = s.srv.widx) ∨
      ∃ me remoteid rotate decimation startframe taps,
        i = .create me remoteid rotate decimation startframe taps ∧
          u.created = s.created ++ [(s.srv.widx, me, remoteid)] ∧
          u.srv.widx = s.srv.widx + 1 := by
  cases exec with
  | apply first =>
      obtain ⟨rfl, rfl⟩ := List.cons.inj (prog.symm.trans first)
      have widx : (effect pack junk s.srv i).widx = _ := widx_effect pack junk s.srv i
      cases i with
      | create me remoteid => exact Or.inr ⟨me, remoteid, _, _, _, _, rfl, rfl, widx⟩
      | _ => exact Or.inl ⟨rfl, rfl, widx⟩
  | lock first | unlock first | send first | done first | cont first =>
      obtain ⟨rfl, rfl⟩ := List.cons.inj (prog.symm.trans first)
      exact Or.inl ⟨rfl, rfl, rfl⟩

theorem mem_created_exec {pack : Protobuf} {junk : Junk} {s u : Sys} {t : Tid}
    (exec : Sys.Exec pack s t junk u) : ∀ entry ∈ s.created, entry ∈ u.created := by
  intro entry mem
  obtain ⟨i, _, _, prog, _⟩ := turn_of_exec exec
  rcases created_exec exec prog with ⟨_, created, _⟩ | ⟨_, _, _, _, _, _, _, created, _⟩
  · rwa [created]
  · rw [created]
    exact List.mem_append_left _ mem

namespace Announced

variable {pack : Protobuf} {junk : Junk} {s u : Sys} {t : Tid} {i : Instr} {new rest : List Instr}

theorem start (srv : Server) (fresh : Fresh srv) : Announced (Sys.start srv) where
  ids _ mem := nomatch mem
  unique _ mem := nomatch mem
  workers worker mem := by
    rw [Sys.start, fresh.2] at mem
    cases mem
  progs _ _ mem := nomatch mem
  logs _ _ mem := nomatch mem

/-- What an instruction yields is announced to the right client again. -/
theorem of_yields {j : Instr} (announced : Announced s) (own : Owned s.created i)
    (takes : TakesOwn s i) (silent : asked i = none) (yields : Yields junk s.srv i j) :
    Owned s.created j := by
  cases yields with
  | create => cases silent
  | modify me rotate newtaps found =>
      obtain ⟨⟨wid, cli, remoteid⟩, mem, rfl, rfl⟩ := takes (by rw [found]; rfl)
      exact ⟨remoteid, mem⟩
  | list me mem =>
      obtain ⟨⟨wid, cli, remoteid⟩, mem, same, rfl⟩ := takes _ mem
      exact ⟨remoteid, by rw [← same]; exact mem⟩
  | reply me wid =>
      intro _
      obtain ⟨worker, found⟩ := Option.isSome_iff_exists.mp takes
      obtain ⟨mem, rfl⟩ := worker?_mem found
      obtain ⟨creator, created⟩ := announced.workers worker mem
      obtain ⟨remoteid, asked⟩ := own
      have same := announced.unique _ created _ asked rfl
      simp only [Prod.mk.injEq] at same
      obtain ⟨_, rfl, _⟩ := same
      rw [told, found]
      exact created
  | tell => rfl
  | each msg | again msg =>
      cases msg with
      | running => exact own
      | _ => trivial
  | next msg =>
      cases msg with
      | running => exact fun named => absurd own named
      | _ => trivial
  | _ => trivial

theorem exec (announced : Announced s) (takes : ∀ i ∈ (s.prog t).head?, TakesOwn s i)
    (exec : Sys.Exec pack s t junk u) : Announced u := by
  obtain ⟨i, new, rest, prog, next, yields⟩ := turn_of_exec exec
  have creation := created_exec exec prog
  have subset := mem_created_exec exec
  constructor
  · rcases creation with ⟨_, created, widx⟩ | ⟨me, remoteid, _, _, _, _, _, created, widx⟩
    · rw [created, widx]
      exact announced.ids
    · rw [created, widx]
      intro entry mem
      rcases List.mem_append.mp mem with before | now
      · exact Int.lt_add_one_of_le (Int.le_of_lt (announced.ids entry before))
      · rw [List.mem_singleton.mp now]
        exact Int.lt_succ _
  · rcases creation with ⟨_, created, _⟩ | ⟨me, remoteid, _, _, _, _, _, created, _⟩
    · rw [created]
      exact announced.unique
    · rw [created]
      intro left memLeft right memRight same
      rcases List.mem_append.mp memLeft with before | now
      · rcases List.mem_append.mp memRight with earlier | later
        · exact announced.unique left before right earlier same
        · rw [List.mem_singleton.mp later] at same
          exact absurd same (Int.ne_of_lt (announced.ids left before))
      · rcases List.mem_append.mp memRight with earlier | later
        · rw [List.mem_singleton.mp now] at same
          exact absurd same.symm (Int.ne_of_lt (announced.ids right earlier))
        · rw [List.mem_singleton.mp now, List.mem_singleton.mp later]
  · intro worker mem
    rw [srv_exec exec prog] at mem
    rcases mem_worker_head_effect mem with
      ⟨me, remoteid, rotate, decimation, startframe, taps, rfl, rfl⟩ |
      ⟨before, earlier, wid, remoteid, _⟩
    · rcases creation with ⟨⟨⟩, _⟩ | ⟨_, _, _, _, _, _, ⟨⟩, created, _⟩
      rw [created]
      exact ⟨me, List.mem_append_right _ (List.mem_singleton_self _)⟩
    · obtain ⟨me, created⟩ := announced.workers before earlier
      rw [wid, remoteid]
      exact ⟨me, subset _ created⟩
  · intro v j mem
    by_cases mine : v = t
    · subst mine
      rw [prog] at takes
      have own : Owned s.created i := announced.progs v i (by rw [prog]; exact List.mem_cons_self)
      rw [next, Function.update_self] at mem
      rcases List.mem_append.mp mem with now | later
      · rcases creation with ⟨silent, _⟩ | ⟨me, remoteid, _, _, _, _, rfl, created, _⟩
        · exact (announced.of_yields own (takes i rfl) silent (yields j now)).weaken subset
        · cases yields j now
          rw [created]
          exact ⟨remoteid, List.mem_append_right _ (List.mem_singleton_self _)⟩
      · refine (announced.progs v j ?_).weaken subset
        rw [prog]
        exact List.mem_cons_of_mem i later
    · rw [prog_exec_other exec mine] at mem
      exact (announced.progs v j mem).weaken subset
  · intro cli msg mem named
    rcases mem_log_exec exec mem with before | sent
    · exact subset _ (announced.logs cli msg before named)
    · exact subset _ (announced.progs t _ sent named)

theorem progs_setProg (announced : Announced s) {prog : List Instr}
    (owned : ∀ j ∈ prog, Owned s.created j) :
    ∀ v, ∀ j ∈ (s.setProg t prog).prog v, Owned s.created j := by
  intro v j mem
  by_cases mine : v = t
  · subst mine
    exact owned j (by simpa [Sys.setProg] using mem)
  · exact announced.progs v j (by simpa [Sys.setProg, Function.update_of_ne mine] using mem)

/-- A step that creates no worker and takes up none. -/
theorem keep (announced : Announced s) (created : u.created = s.created)
    (widx : u.srv.widx = s.srv.widx)
    (workers : ∀ worker ∈ u.srv.worker_head, ∃ before ∈ s.srv.worker_head,
      worker.wid = before.wid ∧ worker.remoteid = before.remoteid)
    (progs : ∀ v, ∀ j ∈ u.prog v, Owned s.created j)
    (logs : ∀ cli msg, .running msg ∈ u.log cli → msg.remoteid ≠ -1 →
      (msg.id, cli, msg.remoteid) ∈ s.created) : Announced u := by
  constructor
  · rw [created, widx]
    exact announced.ids
  · rw [created]
    exact announced.unique
  · intro worker mem
    obtain ⟨before, earlier, wid, remoteid⟩ := workers worker mem
    rw [created, wid, remoteid]
    exact announced.workers before earlier
  · rw [created]
    exact progs
  · rw [created]
    exact logs

theorem owned_parse_client_req {created : List (Int × Nat × Int)} (me : Nat) (now : Int)
    (msg : CliMsg) : ∀ i ∈ parse_client_req me now msg, Owned created i := by
  cases msg <;> simp [parse_client_req, Owned]

theorem step {act : Server.Threads.Act} (announced : Announced s)
    (takes : ∀ i ∈ s.next? act, TakesOwn s i)
    (step : Sys.Step pack s act u) : Announced u := by
  have changed : ∀ {wid : Int} {change : WorkerEntry → WorkerEntry},
      (∀ worker, (change worker).wid = worker.wid ∧ (change worker).remoteid = worker.remoteid) →
      ∀ worker ∈ (s.srv.setWorker wid change).worker_head, ∃ before ∈ s.srv.worker_head,
        worker.wid = before.wid ∧ worker.remoteid = before.remoteid := by
    intro wid change keeps worker mem
    obtain ⟨before, earlier, ⟨_, rfl⟩ | ⟨_, rfl⟩⟩ := mem_setWorker mem
    · exact ⟨before, earlier, keeps before⟩
    · exact ⟨worker, earlier, rfl, rfl⟩
  have same : ∀ worker ∈ s.srv.worker_head, ∃ before ∈ s.srv.worker_head,
      worker.wid = before.wid ∧ worker.remoteid = before.remoteid :=
    fun worker mem => ⟨worker, mem, rfl, rfl⟩
  cases step with
  | connect | metadata => exact announced.keep rfl rfl same announced.progs announced.logs
  | request cli now msg =>
      exact announced.keep rfl rfl same
        (announced.progs_setProg (owned_parse_client_req cli now msg)) announced.logs
  | hangup cli =>
      refine announced.keep rfl rfl same (announced.progs_setProg ?_) announced.logs
      simp [disconnect, Owned]
  | pass =>
      refine announced.keep rfl rfl same (announced.progs_setProg ?_) announced.logs
      simp [socket_write_pass, Owned]
  | produce | exit =>
      exact announced.keep rfl rfl (changed fun _ => ⟨rfl, rfl⟩) announced.progs announced.logs
  | exec exec => exact announced.exec takes exec

end Announced

/-! ## What the clients ask for -/

def askedBy : CliMsg → Option Int
  | .CREATE_XLATER remoteid _ _ _ _ => some remoteid
  | _ => none

/-- The ids of a client's requests, in the order in which the server takes them:
those of its workers, and that of the request being handled. -/
def issued (s : Sys) (cli : Nat) : List Int :=
  ((s.created.filter fun entry => entry.2.1 = cli).map fun entry => entry.2.2) ++
    (s.prog (.client cli)).filterMap asked

/-- A handler creates workers for its own client. -/
def Creators (s : Sys) : Prop :=
  ∀ t, ∀ i ∈ s.prog t, (asked i).isSome → ∃ cli, t = .client cli ∧
    ∀ me remoteid rotate decimation startframe taps,
      i = .create me remoteid rotate decimation startframe taps → me = cli

theorem asked_of_yields {junk : Junk} {s : Server} {i j : Instr} (yields : Yields junk s i j) :
    asked j = none := by
  cases yields <;> rfl

theorem filterMap_asked_parse_client_req (me : Nat) (now : Int) (msg : CliMsg) :
    (parse_client_req me now msg).filterMap asked = [msg].filterMap askedBy := by
  cases msg <;> rfl

/-- A turn of a thread whose new instructions create nothing. -/
theorem Creators.turn {s u : Sys} {t : Tid} {new rest : List Instr} (creators : Creators s)
    (prog : u.prog = Function.update s.prog t (new ++ rest))
    (tail : ∀ j ∈ rest, j ∈ s.prog t) (silent : new.filterMap asked = []) : Creators u := by
  intro v j mem creates
  rw [prog] at mem
  by_cases mine : v = t
  · subst mine
    rw [Function.update_self] at mem
    rcases List.mem_append.mp mem with expanded | later
    · rw [List.filterMap_eq_nil_iff.mp silent j expanded] at creates
      cases creates
    · exact creators v j (tail j later) creates
  · rw [Function.update_of_ne mine] at mem
    exact creators v j mem creates

/-- A turn that creates nothing leaves what has been issued as it is. -/
theorem issued_turn {s u : Sys} {t : Tid} {i : Instr} {new rest : List Instr}
    (prog : s.prog t = i :: rest) (next : u.prog = Function.update s.prog t (new ++ rest))
    (silent : new.filterMap asked = []) (head : asked i = none)
    (created : u.created = s.created) (cli : Nat) : issued u cli = issued s cli := by
  rw [issued, issued, created, next]
  by_cases mine : t = .client cli
  · subst mine
    rw [Function.update_self, List.filterMap_append, silent, List.nil_append, prog,
      List.filterMap_cons_none head]
  · rw [Function.update_of_ne (Ne.symm mine)]

theorem issued_exec {pack : Protobuf} {junk : Junk} {s u : Sys} {t : Tid}
    (creators : Creators s) (exec : Sys.Exec pack s t junk u) :
    Creators u ∧ ∀ cli, issued u cli = issued s cli := by
  obtain ⟨i, new, rest, prog, next, yields⟩ := turn_of_exec exec
  have silent : new.filterMap asked = [] :=
    List.filterMap_eq_nil_iff.mpr fun j mem => asked_of_yields (yields j mem)
  have tail : ∀ j ∈ rest, j ∈ s.prog t := by
    intro j mem
    rw [prog]
    exact List.mem_cons_of_mem i mem
  refine ⟨creators.turn next tail silent, ?_⟩
  rcases created_exec exec prog with
    ⟨head, created, _⟩ | ⟨me, remoteid, _, _, _, _, rfl, created, _⟩
  · exact issued_turn prog next silent head created
  · intro cli
    obtain ⟨owner, rfl, own⟩ := creators t _ (by rw [prog]; exact List.mem_cons_self) rfl
    obtain rfl := own _ _ _ _ _ _ rfl
    rw [issued, issued, created, next]
    simp only [List.filter_append, List.map_append]
    by_cases mine : cli = me
    · subst mine
      simp [prog, asked, silent]
    · simp [Ne.symm mine, mine]

theorem creators_parse_client_req (cli : Nat) (now : Int) (msg : CliMsg) :
    ∀ i ∈ parse_client_req cli now msg, ∀ me remoteid rotate decimation startframe taps,
      i = .create me remoteid rotate decimation startframe taps → me = cli := by
  cases msg <;> simp [parse_client_req]
  intro me _ _ _ _ _ same _ _ _ _ _
  exact same.symm

/-- An idle thread takes up a new program. -/
theorem Creators.take {s u : Sys} {t : Tid} {prog : List Instr} (creators : Creators s)
    (next : u.prog = Function.update s.prog t prog)
    (own : ∀ i ∈ prog, (asked i).isSome → ∃ cli, t = .client cli ∧
      ∀ me remoteid rotate decimation startframe taps,
        i = .create me remoteid rotate decimation startframe taps → me = cli) : Creators u := by
  intro v j mem creates
  rw [next] at mem
  by_cases mine : v = t
  · subst mine
    rw [Function.update_self] at mem
    exact own j mem creates
  · rw [Function.update_of_ne mine] at mem
    exact creators v j mem creates

/-- Taking a request up moves its id from the queue to the handler; no other step
of the server changes what has been issued. -/
theorem issued_step {pack : Protobuf} {s u : Sys} {act : Server.Threads.Act}
    (creators : Creators s) (step : Sys.Step pack s act u) :
    Creators u ∧ ∀ cli, issued u cli = issued s cli ++
      match act with
      | .request me _ msg => if me = cli then [msg].filterMap askedBy else []
      | _ => [] := by
  cases step with
  | connect | produce | exit | metadata =>
      exact ⟨creators, fun cli => (List.append_nil (issued s cli)).symm⟩
  | request me now msg known idle =>
      refine ⟨creators.take rfl fun i mem _ =>
        ⟨me, rfl, creators_parse_client_req me now msg i mem⟩, fun cli => ?_⟩
      rw [issued, issued]
      by_cases mine : me = cli
      · subst mine
        simp only [Sys.setProg, Function.update_self, idle, List.filterMap_nil, List.append_nil,
          filterMap_asked_parse_client_req, if_true]
      · have other : Tid.client cli ≠ .client me := fun same => mine (Tid.client.inj same).symm
        simp only [Sys.setProg, Function.update_of_ne other, if_neg mine, List.append_nil]
  | hangup me known idle =>
      refine ⟨creators.take rfl (by simp [disconnect, asked]), fun cli => ?_⟩
      rw [issued, issued, List.append_nil]
      by_cases mine : me = cli
      · subst mine
        simp [Sys.setProg, idle, disconnect, asked]
      · have other : Tid.client cli ≠ .client me := fun same => mine (Tid.client.inj same).symm
        simp only [Sys.setProg, Function.update_of_ne other]
  | pass idle =>
      refine ⟨creators.take rfl (by simp [socket_write_pass, asked]), fun cli => ?_⟩
      have other : Tid.client cli ≠ .writer := by
        intro same
        cases same
      simp only [issued, Sys.setProg, Function.update_of_ne other, List.append_nil]
  | exec exec =>
      obtain ⟨later, same⟩ := issued_exec creators exec
      exact ⟨later, fun cli => by rw [same, List.append_nil]⟩

/-! ## Runs -/

/-- The message that a client queues by itself. -/
def queued? : Act → Option CliMsg
  | .q_msg _ msg => some msg
  | _ => none

/-- The clients create xlaters with `create_xlater` alone. -/
def OfLibrary (_ : Net) (act : Act) : Prop := ∀ msg ∈ queued? act, askedBy msg = none

instance (s : Net) (act : Act) : Decidable (OfLibrary s act) :=
  inferInstanceAs (Decidable (∀ msg ∈ queued? act, _))

/-- The server takes up workers for their own clients only. -/
def TakesUp (s : Net) (act : Act) : Prop := ∀ i ∈ s.next? act, TakesOwn s.sys i

instance (s : Net) (act : Act) : Decidable (TakesUp s act) :=
  inferInstanceAs (Decidable (∀ i ∈ s.next? act, _))

def OwnOnly (s : Net) (act : Act) : Prop := OfLibrary s act ∧ TakesUp s act

instance (s : Net) (act : Act) : Decidable (OwnOnly s act) :=
  inferInstanceAs (Decidable (_ ∧ _))

/-- An announcement with an id reaches only the client that asked for it, and
what this client has moved from `xlater_q` to `xlaters` are, each once, the
workers created for the requests they were pending for. -/
def Answered (s : Net) (cli : Nat) : Prop :=
  (∀ msg, .running msg ∈ s.sys.log cli → msg.remoteid ≠ -1 →
    (msg.id, cli, msg.remoteid) ∈ s.sys.created) ∧
  (∀ r id, (r, id) ∈ (s.clients cli).moved →
    (id, cli, r) ∈ s.sys.created ∧ ∀ other, (other, cli, r) ∈ s.sys.created → other = id) ∧
  ((s.clients cli).moved.map Prod.fst).Nodup

/-- A client's books agree with the server's history. -/
structure Tracks (sys : Sys) (cli : Nat) (client : Client) : Prop where
  issued : issued sys cli ++ client.msgq.filterMap askedBy =
    (List.range client.xln).map Nat.cast
  pending : ∀ r, (client.xlater_q r).isSome →
    (∃ k < client.xln, r = k) ∧ r ∉ client.moved.map Prod.fst
  moved : ∀ entry ∈ client.moved,
    (entry.2, cli, entry.1) ∈ sys.created ∧ ∃ k < client.xln, entry.1 = k
  once : (client.moved.map Prod.fst).Nodup

namespace Tracks

variable {sys next : Sys} {cli : Nat} {client : Client}

theorem init (srv : Server) (cli : Nat) : Tracks (Sys.start srv) cli Client.init where
  issued := rfl
  pending _ queued := nomatch queued
  moved _ mem := nomatch mem
  once := List.nodup_nil

/-- A step of the server that takes up none of this client's messages. -/
theorem server (tracks : Tracks sys cli client)
    (created : ∀ entry ∈ sys.created, entry ∈ next.created)
    (same : PendingXlaters.issued next cli = PendingXlaters.issued sys cli) :
    Tracks next cli client where
  issued := by rw [same, tracks.issued]
  pending := tracks.pending
  moved entry mem := ⟨created _ (tracks.moved entry mem).1, (tracks.moved entry mem).2⟩
  once := tracks.once

/-- Anything but a request for a new xlater is queued. -/
theorem queue {later : Client} (tracks : Tracks sys cli client)
    (msgq : later.msgq.filterMap askedBy = client.msgq.filterMap askedBy)
    (xln : later.xln = client.xln) (moved : later.moved = client.moved)
    (xlater_q : later.xlater_q = client.xlater_q) : Tracks sys cli later where
  issued := by rw [msgq, xln, tracks.issued]
  pending := by rw [xlater_q, xln, moved]; exact tracks.pending
  moved := by rw [moved, xln]; exact tracks.moved
  once := by rw [moved]; exact tracks.once

theorem create_xlater (tracks : Tracks sys cli client) (rotate : Float32Bits) (decimation : Int)
    (taps : List Float32Bits) (history : Int) :
    Tracks sys cli (client.create_xlater rotate decimation taps history) where
  issued := by
    have asks : (client.create_xlater rotate decimation taps history).msgq.filterMap askedBy =
        client.msgq.filterMap askedBy ++ [(client.xln : Int)] := List.filterMap_append
    have counts : (List.range (client.xln + 1)).map (Nat.cast : Nat → Int) =
        (List.range client.xln).map Nat.cast ++ [(client.xln : Int)] := by
      rw [List.range_succ, List.map_append, List.map_singleton]
    rw [asks, ← List.append_assoc, tracks.issued]
    exact counts.symm
  pending r queued := by
    by_cases own : r = client.xln
    · refine ⟨⟨client.xln, Nat.lt_succ_self _, own⟩, ?_⟩
      intro mem
      obtain ⟨entry, mem, same⟩ := List.mem_map.mp mem
      obtain ⟨_, k, lt, past⟩ := tracks.moved entry mem
      rw [← same, past] at own
      exact absurd (Int.ofNat_inj.mp own) (Nat.ne_of_lt lt)
    · have earlier : (client.xlater_q r).isSome := by
        simpa [Client.create_xlater, Function.update_of_ne own] using queued
      obtain ⟨⟨k, lt, same⟩, apart⟩ := tracks.pending r earlier
      exact ⟨⟨k, Nat.lt_succ_of_lt lt, same⟩, apart⟩
  moved entry mem := by
    obtain ⟨created, k, lt, past⟩ := tracks.moved entry mem
    exact ⟨created, k, Nat.lt_succ_of_lt lt, past⟩
  once := tracks.once

/-- A pending xlater becomes the worker that was announced with its id. -/
theorem move {later : Client} {r id : Int} (tracks : Tracks sys cli client)
    (queued : (client.xlater_q r).isSome) (created : (id, cli, r) ∈ sys.created)
    (msgq : later.msgq.filterMap askedBy = client.msgq.filterMap askedBy)
    (xln : later.xln = client.xln)
    (xlater_q : later.xlater_q = Function.update client.xlater_q r none)
    (moved : later.moved = client.moved ++ [(r, id)]) : Tracks sys cli later where
  issued := by rw [msgq, xln, tracks.issued]
  pending other left := by
    rw [xlater_q] at left
    by_cases own : other = r
    · subst own
      rw [Function.update_self] at left
      cases left
    · rw [Function.update_of_ne own] at left
      obtain ⟨past, apart⟩ := tracks.pending other left
      rw [xln, moved, List.map_append, List.mem_append, List.map_singleton, List.mem_singleton]
      exact ⟨past, fun mem => mem.elim apart own⟩
  moved entry mem := by
    rw [moved] at mem
    rw [xln]
    rcases List.mem_append.mp mem with before | now
    · exact tracks.moved entry before
    · rw [List.mem_singleton.mp now]
      exact ⟨created, (tracks.pending r queued).1⟩
  once := by
    rw [moved, List.map_append, List.map_singleton]
    exact List.nodup_append.mpr ⟨tracks.once, List.nodup_singleton r, by
      intro left before right now
      rw [List.mem_singleton.mp now]
      rintro rfl
      exact (tracks.pending left queued).2 before⟩

/-- Two workers that a client created for one id are the same. -/
theorem unique (tracks : Tracks sys cli client) {left right r : Int}
    (first : (left, cli, r) ∈ sys.created) (second : (right, cli, r) ∈ sys.created) :
    left = right := by
  have distinct : (PendingXlaters.issued sys cli ++ client.msgq.filterMap askedBy).Nodup := by
    rw [tracks.issued]
    exact List.Nodup.map (fun _ _ => Int.ofNat_inj.mp) List.nodup_range
  have nodup := (List.nodup_append.mp (List.nodup_append.mp distinct).1).1
  have same := List.inj_on_of_nodup_map nodup (List.mem_filter.mpr ⟨first, by simp⟩)
    (List.mem_filter.mpr ⟨second, by simp⟩) rfl
  exact congrArg Prod.fst same

end Tracks

structure Matched (s : Net) : Prop where
  announced : Announced s.sys
  creators : Creators s.sys
  tracks : ∀ cli, Tracks s.sys cli (s.clients cli)

theorem created_step {pack : Protobuf} {s u : Sys} {act : Server.Threads.Act}
    (step : Sys.Step pack s act u) : ∀ entry ∈ s.created, entry ∈ u.created := by
  cases step with
  | exec exec => exact mem_created_exec exec
  | _ => exact fun _ mem => mem

namespace Matched

variable {pack : Protobuf} {s u : Net} {cli : Nat}

theorem start (srv : Server) (fresh : Fresh srv) : Matched (Net.start srv) where
  announced := Announced.start srv fresh
  creators _ _ mem := nomatch mem
  tracks cli := Tracks.init srv cli

/-- A step of one client. -/
theorem setClient {next : Client} (matched : Matched s) (tracks : Tracks s.sys cli next) :
    Matched (s.setClient cli next) where
  announced := matched.announced
  creators := matched.creators
  tracks other := by
    by_cases own : other = cli
    · subst own
      simpa [Net.setClient] using tracks
    · simpa [Net.setClient, Function.update_of_ne own] using matched.tracks other

/-- The server takes up the next message of a client. -/
theorem read {now : Int} {msg : CliMsg} {later : List CliMsg} {sys : Sys} (matched : Matched s)
    (queued : (s.clients cli).msgq = msg :: later)
    (step : Sys.Step pack s.sys (.request cli now msg) sys) : Matched (s.read cli later sys) := by
  obtain ⟨creators, same⟩ := issued_step matched.creators step
  have none : ∀ i ∈ s.sys.next? (.request cli now msg), TakesOwn s.sys i := by
    intro i taken
    cases taken
  refine ⟨matched.announced.step none step, creators, fun other => ?_⟩
  have tracks := matched.tracks other
  have created := created_step step
  by_cases own : other = cli
  · subst own
    have issues := tracks.issued
    rw [queued, ← List.singleton_append, List.filterMap_append, ← List.append_assoc] at issues
    have now := same other
    simp only [if_true] at now
    simp only [Net.read, Net.setClient, Function.update_self]
    exact ⟨by rw [now]; exact issues, tracks.pending,
      fun entry mem => ⟨created _ (tracks.moved entry mem).1, (tracks.moved entry mem).2⟩,
      tracks.once⟩
  · simp only [Net.read, Net.setClient, Function.update_of_ne own]
    have now := same other
    simp only [if_neg (Ne.symm own), List.append_nil] at now
    exact tracks.server created now

/-- A message arrives: a pending xlater can only become the worker whose
announcement answers its request. -/
theorem receive {msg : SrvMsg} {next : Client} (matched : Matched s)
    (delivered : (s.sys.log cli)[s.received cli]? = some msg)
    (step : (s.clients cli).dispatch msg = some next) : Matched (s.receive cli next) := by
  have tracks := matched.tracks cli
  have later : Tracks s.sys cli next := by
    cases msg with
    | running msg =>
        cases Client.Running.of_srv_running_xlater step with
        | update | new => exact tracks.queue rfl rfl rfl rfl
        | @move xl msgq unknown pending sent =>
            have queued : ((s.clients cli).xlater_q msg.remoteid).isSome := by rw [pending]; rfl
            have named : msg.remoteid ≠ -1 := by
              obtain ⟨⟨k, _, same⟩, _⟩ := tracks.pending _ queued
              rw [same]
              omega
            have created := matched.announced.logs cli msg
              (List.mem_of_getElem? delivered) named
            refine tracks.move queued created ?_ rfl rfl rfl
            rcases sent with rfl | ⟨type, rfl⟩
            · rfl
            · simp [askedBy]
    | destroyed id =>
        obtain rfl := Option.some.inj step
        exact tracks.queue rfl rfl rfl rfl
    | _ =>
        obtain rfl := Option.some.inj step
        exact tracks
  have after := matched.setClient later
  exact ⟨after.announced, after.creators, after.tracks⟩

theorem step {act : Act} (matched : Matched s) (admitted : OwnOnly s act)
    (step : Net.Step pack s act u) : Matched u := by
  cases step with
  | @server act sys step own =>
      obtain ⟨creators, same⟩ := issued_step matched.creators step
      refine ⟨matched.announced.step admitted.2 step, creators, fun cli => ?_⟩
      refine (matched.tracks cli).server (created_step step) ?_
      have now := same cli
      cases act with
      | request => cases own
      | _ => simpa using now
  | read queued step => exact matched.read queued step
  | create_xlater cli rotate decimation taps history =>
      exact matched.setClient
        ((matched.tracks cli).create_xlater rotate decimation taps history)
  | @modify_xlater cli xid rotate taps next step =>
      obtain ⟨xl, known, rfl⟩ := Option.map_eq_some_iff.mp step
      refine matched.setClient ((matched.tracks cli).queue ?_ rfl rfl rfl)
      simp [Client.q_msg, askedBy]
  | set_auto_enable_xlater cli =>
      exact matched.setClient ((matched.tracks cli).queue rfl rfl rfl rfl)
  | q_msg cli msg =>
      refine matched.setClient ((matched.tracks cli).queue ?_ rfl rfl rfl)
      have silent : askedBy msg = none := admitted.1 msg rfl
      simp [Client.q_msg, silent]
  | receive delivered step => exact matched.receive delivered step

end Matched

/-- In every run of library clients in which the server takes up workers for
their own clients only, every announcement with an id answers the request for
it, and every pending xlater is moved once, to its own worker. -/
theorem answered_of_ownOnly {pack : Protobuf} {s : Net} (reach : (net pack).Reachable OwnOnly s)
    (cli : Nat) : Answered s cli := by
  have matched : Matched s := by
    refine reach.invariant ?_ fun _ _ _ matched admitted step =>
      matched.step admitted (.of_step? step)
    rintro _ ⟨srv, fresh, rfl⟩
    exact Matched.start srv fresh
  have tracks := matched.tracks cli
  refine ⟨matched.announced.logs cli, fun r id mem => ?_, tracks.once⟩
  have created := (tracks.moved (r, id) mem).1
  exact ⟨created, fun other second => tracks.unique second created⟩

/-- Two clients ask for a worker under the same id.  The first lists its worker before the
second has one, the second modifies its own, and each moves the worker that is its own. -/
theorem answered_of_ownOnly_two :
    ∃ s, (net .documented).Reachable OwnOnly s ∧
      ((s.clients 0).moved = [(0, 0)] ∧ s.received 0 = 4 ∧ Answered s 0) ∧
      (s.clients 1).moved = [(0, 1)] ∧ s.received 1 = 4 ∧ Answered s 1 := by
  let turn (cli count : Nat) : List Act :=
    List.replicate count (.server (.exec (.client cli) Junk.zero))
  have run : ((net .documented).runIf? OwnOnly (Net.start idleServer)
      (List.flatten [[.server (.connect false false), .server (.connect false false),
        .create_xlater 0 0 1 [] (-1), .create_xlater 1 0 2 [] (-1), .read 0 0], turn 0 14,
        [.q_msg 0 .LIST_XLATERS, .read 0 0], turn 0 14, [.receive 1, .read 1 0], turn 1 14,
        [.receive 0, .receive 0, .receive 0, .receive 1, .receive 1, .modify_xlater 1 1 0 [],
          .read 1 0], turn 1 14, [.receive 0, .receive 1]])).any (fun s =>
      decide (((s.clients 0).moved = [(0, 0)] ∧ s.received 0 = 4) ∧
        (s.clients 1).moved = [(0, 1)] ∧ s.received 1 = 4)) = true := by
    decide +kernel
  obtain ⟨s, run, state⟩ := (Option.any_eq_true _ _).mp run
  obtain ⟨⟨first, heard⟩, second, told⟩ := of_decide_eq_true state
  have reach : (net .documented).Reachable OwnOnly s :=
    ⟨_, _, ⟨idleServer, by decide, rfl⟩, .of_runIf? run⟩
  exact ⟨s, reach, ⟨first, heard, answered_of_ownOnly reach 0⟩, second, told,
    answered_of_ownOnly reach 1⟩

/-- A client lists another client's worker while its own first request is
pending: both have asked for id 0, and the worker it moves is not its own. -/
theorem not_answered_list :
    ¬ ∀ s, (net .documented).Reachable OfLibrary s → ∀ cli, Answered s cli := by
  intro answered
  let turn (cli count : Nat) : List Act :=
    List.replicate count (.server (.exec (.client cli) Junk.zero))
  have run : ((net .documented).runIf? OfLibrary (Net.start idleServer)
      (List.flatten [[.server (.connect false false), .create_xlater 0 0 1 [] (-1), .read 0 0],
        turn 0 10, [.server (.connect false false), .q_msg 1 .LIST_XLATERS, .read 1 0], turn 1 10,
        [.create_xlater 1 0 2 [] (-1), .receive 1]])).any (fun s =>
      decide ((s.clients 1).moved = [(0, 0)] ∧ s.sys.created = [(0, 0, 0)])) = true := by
    decide +kernel
  obtain ⟨s, run, state⟩ := (Option.any_eq_true _ _).mp run
  obtain ⟨moved, created⟩ := of_decide_eq_true state
  have own := ((answered s ⟨_, _, ⟨idleServer, by decide, rfl⟩, .of_runIf? run⟩ 1).2.1 0 0
    (by rw [moved]; exact List.mem_singleton_self _)).1
  rw [created] at own
  cases List.mem_singleton.mp own

end Kukuruku.Clients.PendingXlaters
