import Kukuruku.Server.Connections

/-!
# The agreement along runs

Every orderly instruction keeps each clause of `Agree`; sending moves what is
pending into the logs, and all other steps announce nothing.
-/

namespace Kukuruku.Server.AgreementRuns

open Kukuruku.Server.Messages
open Kukuruku.Server.ClientParser
open Kukuruku.Server.Threads
open Kukuruku.Server.Expansion
open Kukuruku.Server.Announcements
open Kukuruku.Server.Agreement
open Kukuruku.Server.Connections

/-- A notice of the worker's end has been decided on but not begun. -/
def Doomed (s : Sys) (id : Int) : Prop := Pending s fun i => i = .destroyed id

/-- The list of the workers against what has been and will be sent. -/
structure Agree (s : Sys) : Prop where
  distinct : (s.srv.worker_head.map WorkerEntry.wid).Nodup
  ids : ∀ worker ∈ s.srv.worker_head, worker.wid < s.srv.widx
  doomed : ∀ id, Doomed s id → ¬ Running s.srv id
  notified : ∀ id ∈ s.notified, ¬ Running s.srv id ∧ ¬ Pending s (Tells id)
  lingering : ∀ worker ∈ s.srv.worker_head,
    worker.enabled = true ∨ Doomed s worker.wid ∨ worker.wid ∈ s.notified
  telling : ∀ id, Pending s (Tells id) → Running s.srv id ∨ Doomed s id
  noticing : ∀ id, Pending s (Notices id) → id ∈ s.notified
  logged : ∀ cli id, .destroyed id ∈ s.log cli → id ∈ s.notified
  order : ∀ cli before id after, s.log cli = before ++ .destroyed id :: after →
    ∀ msg, .running msg ∈ after → msg.id ≠ id
  told : ∀ cli ∈ s.listed, ∀ id, Connected s.srv cli → Running s.srv id →
    (∃ msg, .running msg ∈ s.log cli ∧ msg.id = id) ∨
      Pending s fun i => Tells id i ∧ Reaches cli i
  gone : ∀ cli msg, Connected s.srv cli → .running msg ∈ s.log cli →
    .destroyed msg.id ∈ s.log cli ∨ Running s.srv msg.id ∨ Doomed s msg.id ∨
      Pending s fun i => Notices msg.id i ∧ Reaches cli i

/-! ## An instruction takes effect -/

/-- One orderly instruction of a thread. -/
structure Applies (junk : Junk) (s : Sys) (t : Tid) (i : Instr) (new rest : List Instr) :
    Prop where
  prog : s.prog t = i :: rest
  plain : Plain i
  expands : expand junk s.srv i = some new
  orderly : Orderly s i = true
  known : Known s

namespace Applies

variable {pack : Protobuf} {junk : Junk} {s : Sys} {t : Tid} {i : Instr} {new rest : List Instr}

theorem head (applies : Applies junk s t i new rest) {P : Instr → Prop} (holds : P i) :
    Pending s P :=
  ⟨t, i, by rw [applies.prog]; exact List.mem_cons_self, holds⟩

theorem next (applies : Applies junk s t i new rest) {P : Instr → Prop}
    (pending : Pending (s.apply pack junk t i new rest) P) : (∃ j ∈ new, P j) ∨ Pending s P :=
  pending_next applies.prog rfl pending

theorem keep (applies : Applies junk s t i new rest) {P : Instr → Prop} (pending : Pending s P) :
    P i ∨ Pending (s.apply pack junk t i new rest) P :=
  pending_keep applies.prog rfl pending

theorem added {P : Instr → Prop} {j : Instr} (mem : j ∈ new) (holds : P j) :
    Pending (s.apply pack junk t i new rest) P :=
  pending_new rfl mem holds

theorem freed (applies : Applies junk s t i new rest) (me : Nat) (wid : Int)
    (same : i = .announce me wid) : (s.srv.worker? wid).isSome := by
  subst same
  exact applies.orderly

/-- The notice of a worker's end waits for the announcements of the worker. -/
theorem silent {id : Int} (applies : Applies junk s t (.destroyed id) new rest) :
    ¬ Pending s (Tells id) := by
  rintro ⟨v, j, mem, tells⟩
  cases v with
  | client cli =>
      have below := applies.known.threads cli (List.ne_nil_of_mem mem)
      exact of_decide_eq_true applies.orderly cli below j mem tells
  | writer => exact not_tells_of_quiet (applies.known.writer j mem) tells

/-- A new worker's id has not been announced as ended. -/
theorem unclaimed {me : Nat} {remoteid decimation startframe : Int} {rotate : Float32Bits}
    {taps : List Float32Bits}
    (applies : Applies junk s t (.create me remoteid rotate decimation startframe taps) new rest) :
    s.srv.widx ∉ s.notified ∧ ¬ Doomed s s.srv.widx := by
  have orderly := of_decide_eq_true applies.orderly
  refine ⟨orderly.1, ?_⟩
  rintro ⟨v, j, mem, rfl⟩
  cases v with
  | client cli =>
      have below := applies.known.threads cli (List.ne_nil_of_mem mem)
      exact orderly.2 cli below mem
  | writer => exact applies.known.writer _ mem

theorem widx_le (_ : Applies junk s t i new rest) :
    s.srv.widx ≤ (s.apply pack junk t i new rest).srv.widx := by
  have widx : (s.apply pack junk t i new rest).srv.widx = _ := widx_effect pack junk s.srv i
  rw [widx]
  split
  · exact Int.le_of_lt (Int.lt_succ _)
  · exact Int.le_refl _

theorem mem_notified {id : Int} (mem : id ∈ (s.apply pack junk t i new rest).notified) :
    id ∈ s.notified ∨ i = .destroyed id := by
  cases i with
  | destroyed wid =>
      rcases List.mem_cons.mp mem with rfl | earlier
      · exact Or.inr rfl
      · exact Or.inl earlier
  | _ => exact Or.inl mem

theorem notified_apply {id : Int} (notified : id ∈ s.notified ∨ i = .destroyed id) :
    id ∈ (s.apply pack junk t i new rest).notified := by
  rcases notified with earlier | rfl
  · cases i with
    | destroyed => exact List.mem_cons_of_mem _ earlier
    | _ => exact earlier
  · exact List.mem_cons_self

theorem doomed_destroy {id : Int} (applies : Applies junk s t i new rest)
    (same : i = .destroy id) : Doomed (s.apply pack junk t i new rest) id := by
  subst same
  obtain rfl := Option.some.inj applies.expands
  exact added (by simp) rfl

/-- A worker whose end is or has been announced does not come back. -/
theorem not_running {id : Int} (applies : Applies junk s t i new rest)
    (ended : Doomed s id ∨ id ∈ s.notified) (stopped : ¬ Running s.srv id) :
    ¬ Running (s.apply pack junk t i new rest).srv id := by
  intro running
  rcases running_effect running with before | ⟨⟨_, _, _, _, _, _, rfl⟩, rfl⟩
  · exact stopped before
  · exact ended.elim applies.unclaimed.2 applies.unclaimed.1

/-- A worker that runs goes on, or its end is to be announced. -/
theorem running (applies : Applies junk s t i new rest) (agree : Agree s) {id : Int}
    (running : Running s.srv id) : Running (s.apply pack junk t i new rest).srv id ∨
      Doomed (s.apply pack junk t i new rest) id := by
  rcases running_keep agree.distinct running with kept | same
  · exact Or.inl kept
  · exact Or.inr (applies.doomed_destroy same)

theorem alive (applies : Applies junk s t i new rest) (agree : Agree s) {id : Int}
    (alive : Running s.srv id ∨ Doomed s id) (other : i ≠ .destroyed id) :
    Running (s.apply pack junk t i new rest).srv id ∨
      Doomed (s.apply pack junk t i new rest) id := by
  rcases alive with runs | doomed
  · exact applies.running agree runs
  · rcases applies.keep doomed with same | kept
    · exact absurd same other
    · exact Or.inr kept

theorem doomed (applies : Applies junk s t i new rest) (agree : Agree s) (id : Int)
    (doomed : Doomed (s.apply pack junk t i new rest) id) :
    ¬ Running (s.apply pack junk t i new rest).srv id := by
  rcases applies.next doomed with ⟨j, mem, rfl⟩ | before
  · obtain rfl := destroyed_of_yields (.of_expand applies.expands mem)
    exact not_running_destroy pack junk s.srv id
  · exact applies.not_running (Or.inl before) (agree.doomed id before)

theorem notified (applies : Applies junk s t i new rest) (agree : Agree s) (id : Int)
    (mem : id ∈ (s.apply pack junk t i new rest).notified) :
    ¬ Running (s.apply pack junk t i new rest).srv id ∧
      ¬ Pending (s.apply pack junk t i new rest) (Tells id) := by
  have before : (Doomed s id ∨ id ∈ s.notified) ∧ ¬ Running s.srv id ∧ ¬ Pending s (Tells id) := by
    rcases mem_notified mem with earlier | rfl
    · exact ⟨Or.inr earlier, agree.notified id earlier⟩
    · have doomed : Doomed s id := applies.head rfl
      exact ⟨Or.inl doomed, agree.doomed id doomed, applies.silent⟩
  obtain ⟨ended, stopped, silent⟩ := before
  refine ⟨applies.not_running ended stopped, fun pending => ?_⟩
  rcases applies.next pending with ⟨j, memNew, tells⟩ | earlier
  · rcases tells_of_yields (.of_expand applies.expands memNew) tells applies.freed with
      head | ⟨⟨_, _, _, _, _, _, rfl⟩, rfl⟩ | ⟨⟨me, rfl⟩, worker, running, rfl⟩ |
      ⟨⟨me, _, _, rfl⟩, found⟩
    · exact silent (applies.head head)
    · exact ended.elim applies.unclaimed.2 applies.unclaimed.1
    · exact of_decide_eq_true applies.orderly worker running mem
    · exact of_decide_eq_true applies.orderly found mem
  · exact silent earlier

theorem lingering (applies : Applies junk s t i new rest) (agree : Agree s) (worker : WorkerEntry)
    (mem : worker ∈ (s.apply pack junk t i new rest).srv.worker_head) :
    worker.enabled = true ∨ Doomed (s.apply pack junk t i new rest) worker.wid ∨
      worker.wid ∈ (s.apply pack junk t i new rest).notified := by
  rcases mem_worker_head_effect mem with
    ⟨me, remoteid, rotate, decimation, startframe, taps, rfl, rfl⟩ |
    ⟨before, earlier, wid, _, same | ⟨destroys, _⟩⟩
  · exact Or.inl rfl
  · rw [wid, same]
    rcases agree.lingering before earlier with enabled | doomed | notified
    · exact Or.inl enabled
    · rcases applies.keep doomed with starts | kept
      · exact Or.inr (Or.inr (notified_apply (Or.inr starts)))
      · exact Or.inr (Or.inl kept)
    · exact Or.inr (Or.inr (notified_apply (Or.inl notified)))
  · exact Or.inr (Or.inl (applies.doomed_destroy destroys))

theorem telling (applies : Applies junk s t i new rest) (agree : Agree s) (id : Int)
    (pending : Pending (s.apply pack junk t i new rest) (Tells id)) :
    Running (s.apply pack junk t i new rest).srv id ∨
      Doomed (s.apply pack junk t i new rest) id := by
  have earlier : Pending s (Tells id) → Running (s.apply pack junk t i new rest).srv id ∨
      Doomed (s.apply pack junk t i new rest) id := by
    intro tells
    refine applies.alive agree (agree.telling id tells) ?_
    rintro rfl
    exact applies.silent tells
  -- a worker that a request takes up is enabled, or its end is to be announced
  have taken : (∃ worker ∈ s.srv.worker_head, worker.wid = id) → id ∉ s.notified →
      Running s.srv id ∨ Doomed s id := by
    rintro ⟨worker, mem, rfl⟩ fresh
    rcases agree.lingering worker mem with enabled | doomed | notified
    · exact Or.inl ⟨worker, mem, rfl, enabled⟩
    · exact Or.inr doomed
    · exact absurd notified fresh
  rcases applies.next pending with ⟨j, mem, tells⟩ | before
  · rcases tells_of_yields (.of_expand applies.expands mem) tells applies.freed with
      head | ⟨⟨me, remoteid, rotate, decimation, startframe, taps, rfl⟩, rfl⟩ |
      ⟨⟨me, rfl⟩, worker, running, rfl⟩ | ⟨⟨me, _, _, rfl⟩, found⟩
    · exact earlier (applies.head head)
    · exact Or.inl ⟨_, List.mem_cons_self, rfl, rfl⟩
    · have fresh := of_decide_eq_true applies.orderly worker running
      exact applies.alive agree (taken ⟨worker, running, rfl⟩ fresh) nofun
    · have fresh := of_decide_eq_true applies.orderly found
      obtain ⟨worker, known⟩ := Option.isSome_iff_exists.mp found
      exact applies.alive agree (taken ⟨worker, worker?_mem known⟩ fresh) nofun
  · exact earlier before

theorem noticing (applies : Applies junk s t i new rest) (agree : Agree s) (id : Int)
    (pending : Pending (s.apply pack junk t i new rest) (Notices id)) :
    id ∈ (s.apply pack junk t i new rest).notified := by
  rcases applies.next pending with ⟨j, mem, notices⟩ | before
  · rcases notices_of_yields (.of_expand applies.expands mem) notices with head | starts
    · exact notified_apply (Or.inl (agree.noticing id (applies.head head)))
    · exact notified_apply (Or.inr starts)
  · exact notified_apply (Or.inl (agree.noticing id before))

theorem told (applies : Applies junk s t i new rest) (agree : Agree s) (cli : Nat)
    (listed : cli ∈ (s.apply pack junk t i new rest).listed) (id : Int)
    (connected : Connected (s.apply pack junk t i new rest).srv cli)
    (running : Running (s.apply pack junk t i new rest).srv id) :
    (∃ msg, .running msg ∈ s.log cli ∧ msg.id = id) ∨
      Pending (s.apply pack junk t i new rest) fun i => Tells id i ∧ Reaches cli i := by
  have connected : Connected s.srv cli := connected_effect connected
  rcases running_effect running with
    before | ⟨⟨me, remoteid, rotate, decimation, startframe, taps, rfl⟩, rfl⟩
  · rcases mem_listed_apply listed with earlier | rfl
    · rcases agree.told cli earlier id connected before with known | pending
      · exact Or.inl known
      · rcases applies.keep pending with ⟨tells, reaches⟩ | kept
        · obtain ⟨j, mem, both⟩ := tells_keep applies.expands applies.plain connected tells reaches
            applies.freed
          exact Or.inr (added mem both)
        · exact Or.inr kept
    · obtain ⟨worker, mem, rfl, _⟩ := before
      obtain rfl := Option.some.inj applies.expands
      exact Or.inr (added (List.mem_map_of_mem mem) ⟨rfl, trivial⟩)
  · obtain rfl := Option.some.inj applies.expands
    exact Or.inr (added (List.mem_singleton_self _) ⟨rfl, trivial⟩)

theorem gone (applies : Applies junk s t i new rest) (agree : Agree s) (cli : Nat)
    (msg : SRV_RUNNING_XLATER)
    (connected : Connected (s.apply pack junk t i new rest).srv cli)
    (mem : .running msg ∈ s.log cli) :
    .destroyed msg.id ∈ s.log cli ∨ Running (s.apply pack junk t i new rest).srv msg.id ∨
      Doomed (s.apply pack junk t i new rest) msg.id ∨
      Pending (s.apply pack junk t i new rest) fun i => Notices msg.id i ∧ Reaches cli i := by
  have connected : Connected s.srv cli := connected_effect connected
  rcases agree.gone cli msg connected mem with known | running | doomed | pending
  · exact Or.inl known
  · exact Or.inr ((applies.running agree running).imp_right Or.inl)
  · rcases applies.keep doomed with rfl | kept
    · obtain rfl := Option.some.inj applies.expands
      exact Or.inr (Or.inr (Or.inr (added (List.mem_singleton_self _) ⟨rfl, nofun⟩)))
    · exact Or.inr (Or.inr (Or.inl kept))
  · rcases applies.keep pending with ⟨notices, reaches⟩ | kept
    · obtain ⟨j, mem, both⟩ := notices_keep applies.expands applies.plain connected notices reaches
      exact Or.inr (Or.inr (Or.inr (added mem both)))
    · exact Or.inr (Or.inr (Or.inr kept))

theorem ids (applies : Applies junk s t i new rest) (agree : Agree s) (worker : WorkerEntry)
    (mem : worker ∈ (s.apply pack junk t i new rest).srv.worker_head) :
    worker.wid < (s.apply pack junk t i new rest).srv.widx := by
  have widx : (s.apply pack junk t i new rest).srv.widx = _ := widx_effect pack junk s.srv i
  rcases mem_worker_head_effect mem with
    ⟨me, remoteid, rotate, decimation, startframe, taps, rfl, rfl⟩ | ⟨before, earlier, wid, _⟩
  · rw [widx]
    exact Int.lt_succ _
  · rw [wid]
    exact Int.lt_of_lt_of_le (agree.ids before earlier) applies.widx_le

theorem agree (applies : Applies junk s t i new rest) (agree : Agree s) :
    Agree (s.apply pack junk t i new rest) where
  distinct := distinct_effect agree.distinct agree.ids
  ids := applies.ids agree
  doomed := applies.doomed agree
  notified := applies.notified agree
  lingering := applies.lingering agree
  telling := applies.telling agree
  noticing := applies.noticing agree
  logged cli id mem := notified_apply (Or.inl (agree.logged cli id mem))
  order := agree.order
  told := applies.told agree
  gone := applies.gone agree

end Applies

/-! ## Sending and all other steps -/

/-- Neither announces anything nor is about to. -/
def Mute (i : Instr) : Prop := ∀ id, ¬ Tells id i ∧ ¬ Notices id i ∧ i ≠ .destroyed id

theorem mute_of_quiet {i : Instr} (quiet : Quiet i) : Mute i := by
  intro id
  refine ⟨not_tells_of_quiet quiet, not_notices_of_quiet quiet, ?_⟩
  rintro rfl
  exact quiet

theorem mute_parse_client_req (me : Nat) (now : Int) (msg : CliMsg) :
    ∀ i ∈ parse_client_req me now msg, Mute i := by
  cases msg <;> simp [parse_client_req, Mute, Tells, announced, Notices]

namespace Agree

variable {pack : Protobuf} {junk : Junk} {s u : Sys} {t : Tid}

theorem start (srv : Server) (fresh : Fresh srv) : Agree (Sys.start srv) := by
  have none : ∀ P, ¬ Pending (Sys.start srv) P := by
    rintro P ⟨t, i, mem, _⟩
    cases mem
  have stopped : ∀ id, ¬ Running srv id := by
    rintro id ⟨worker, mem, _⟩
    rw [fresh.2] at mem
    cases mem
  constructor
  · simp [Sys.start, fresh.2]
  · simp [Sys.start, fresh.2]
  · exact fun id pending => absurd pending (none _)
  · intro id mem
    cases mem
  · simp [Sys.start, fresh.2]
  · exact fun id pending => absurd pending (none _)
  · exact fun id pending => absurd pending (none _)
  · intro cli id mem
    cases mem
  · intro cli before id after log
    cases before <;> cases log
  · intro cli mem
    cases mem
  · intro cli msg _ mem
    cases mem

/-- A step that announces nothing, in which workers neither start nor end. -/
theorem mute (agree : Agree s)
    (progs : ∀ v, ∀ j, ¬ Mute j → (j ∈ u.prog v ↔ j ∈ s.prog v))
    (widx : u.srv.widx = s.srv.widx)
    (distinct : (u.srv.worker_head.map WorkerEntry.wid).Nodup)
    (workers : ∀ worker ∈ u.srv.worker_head, ∃ before ∈ s.srv.worker_head,
      worker.wid = before.wid ∧ worker.enabled = before.enabled)
    (running : ∀ id, Running s.srv id → Running u.srv id)
    (notified : u.notified = s.notified) (listed : u.listed = s.listed) (log : u.log = s.log)
    (connected : ∀ cli, Connected u.srv cli →
      Connected s.srv cli ∨ cli ∉ s.listed ∧ ∀ msg, .running msg ∉ s.log cli) : Agree u := by
  have stopped : ∀ id, Running u.srv id → Running s.srv id := by
    rintro id ⟨worker, mem, rfl, enabled⟩
    obtain ⟨before, earlier, wid, same⟩ := workers worker mem
    exact ⟨before, earlier, wid.symm, same.symm.trans enabled⟩
  have same : ∀ P : Instr → Prop, (∀ j, P j → ¬ Mute j) → (Pending u P ↔ Pending s P) := by
    intro P loud
    constructor
    · rintro ⟨v, j, mem, holds⟩
      exact ⟨v, j, (progs v j (loud j holds)).mp mem, holds⟩
    · rintro ⟨v, j, mem, holds⟩
      exact ⟨v, j, (progs v j (loud j holds)).mpr mem, holds⟩
  have tells : ∀ id, Pending u (Tells id) ↔ Pending s (Tells id) :=
    fun id => same _ fun j holds quiet => (quiet id).1 holds
  have notices : ∀ id, Pending u (Notices id) ↔ Pending s (Notices id) :=
    fun id => same _ fun j holds quiet => (quiet id).2.1 holds
  have doomed : ∀ id, Doomed u id ↔ Doomed s id :=
    fun id => same _ fun j holds quiet => (quiet id).2.2 holds
  constructor
  · exact distinct
  · intro worker mem
    obtain ⟨before, earlier, wid, _⟩ := workers worker mem
    rw [wid, widx]
    exact agree.ids before earlier
  · exact fun id pending runs => agree.doomed id ((doomed id).mp pending) (stopped id runs)
  · intro id mem
    rw [notified] at mem
    rw [tells]
    obtain ⟨ends, silent⟩ := agree.notified id mem
    exact ⟨fun runs => ends (stopped id runs), silent⟩
  · intro worker mem
    obtain ⟨before, earlier, wid, enabled⟩ := workers worker mem
    rw [wid, enabled, notified, doomed]
    exact agree.lingering before earlier
  · intro id pending
    rw [doomed]
    exact (agree.telling id ((tells id).mp pending)).imp_left (running id)
  · intro id pending
    rw [notified]
    exact agree.noticing id ((notices id).mp pending)
  · rw [log, notified]
    exact agree.logged
  · rw [log]
    exact agree.order
  · intro cli mem id joined runs
    rw [listed] at mem
    rw [log, same _ fun j holds quiet => (quiet id).1 holds.1]
    rcases connected cli joined with before | ⟨unlisted, _⟩
    · exact agree.told cli mem id before (stopped id runs)
    · exact absurd mem unlisted
  · intro cli msg joined mem
    rw [log] at mem ⊢
    rw [doomed, same _ fun j holds quiet => (quiet msg.id).2.1 holds.1]
    rcases connected cli joined with before | ⟨_, silent⟩
    · rcases agree.gone cli msg before mem with known | runs | rest
      · exact Or.inl known
      · exact Or.inr (Or.inl (running _ runs))
      · exact Or.inr (Or.inr rest)
    · exact absurd mem (silent msg)

/-- The instruction that is being sent is the only one that is used up. -/
theorem pending_send {cli : Nat} {msg : SrvMsg} {rest : List Instr} {P : Instr → Prop}
    (prog : s.prog t = .send cli msg :: rest) (loud : ∀ j, P j → ¬ Mute j) :
    (Pending (s.send pack t cli msg rest) P → Pending s P) ∧
      (Pending s P → P (.send cli msg) ∨ Pending (s.send pack t cli msg rest) P) := by
  refine ⟨fun pending => ?_, pending_keep prog rfl⟩
  rcases pending_next prog rfl pending with ⟨j, mem, holds⟩ | before
  · exact absurd (mute_of_quiet (quiet_writing mem)) (loud j holds)
  · exact before

/-- After the notice of a worker's end nothing more is sent about it. -/
theorem order_send {cli : Nat} {msg : SrvMsg} {rest : List Instr} (agree : Agree s)
    (prog : s.prog t = .send cli msg :: rest) (other : Nat) (before : List SrvMsg) (id : Int)
    (after : List SrvMsg)
    (log : (s.send pack t cli msg rest).log other = before ++ .destroyed id :: after)
    (running : SRV_RUNNING_XLATER) (mem : .running running ∈ after) : running.id ≠ id := by
  by_cases own : other = cli
  · subst own
    simp only [Sys.send, Function.update_self] at log
    rcases List.eq_nil_or_concat after with rfl | ⟨earlier, last, rfl⟩
    · cases mem
    · rw [List.concat_eq_append] at mem log
      have parts : s.log other = before ++ .destroyed id :: earlier ∧ msg = last := by
        have split : s.log other ++ [msg] = (before ++ .destroyed id :: earlier) ++ [last] := by
          rw [log, List.append_assoc, List.cons_append]
        exact List.append_singleton_inj.mp split
      rcases List.mem_append.mp mem with past | now
      · exact agree.order other before id earlier parts.1 running past
      · rintro rfl
        have noticed : .destroyed running.id ∈ s.log other := by
          rw [parts.1]
          exact List.mem_append_right _ List.mem_cons_self
        have silent := (agree.notified _ (agree.logged other _ noticed)).2
        refine silent ⟨t, _, by rw [prog]; exact List.mem_cons_self, ?_⟩
        rw [parts.2, ← List.mem_singleton.mp now]
        exact rfl
  · simp only [Sys.send, Function.update_of_ne own] at log
    exact agree.order other before id after log running mem

theorem send {cli : Nat} {msg : SrvMsg} {rest : List Instr} (agree : Agree s)
    (prog : s.prog t = .send cli msg :: rest) : Agree (s.send pack t cli msg rest) := by
  have head : ∀ {P : Instr → Prop}, P (.send cli msg) → Pending s P :=
    fun holds => ⟨t, _, by rw [prog]; exact List.mem_cons_self, holds⟩
  have tells : ∀ id, ∀ j, Tells id j → ¬ Mute j := fun id j holds quiet => (quiet id).1 holds
  have notices : ∀ id, ∀ j, Notices id j → ¬ Mute j := fun id j holds quiet => (quiet id).2.1 holds
  have doomed : ∀ id, Doomed (s.send pack t cli msg rest) id ↔ Doomed s id := by
    intro id
    have moves : (Doomed (s.send pack t cli msg rest) id → Doomed s id) ∧
        (Doomed s id → Instr.send cli msg = .destroyed id ∨
          Doomed (s.send pack t cli msg rest) id) :=
      pending_send prog fun j holds quiet => (quiet id).2.2 holds
    exact ⟨moves.1, fun pending => (moves.2 pending).resolve_left nofun⟩
  constructor
  · exact agree.distinct
  · exact agree.ids
  · exact fun id pending => agree.doomed id ((doomed id).mp pending)
  · intro id mem
    obtain ⟨ends, silent⟩ := agree.notified id mem
    exact ⟨ends, fun pending => silent ((pending_send prog (tells id)).1 pending)⟩
  · intro worker mem
    rw [doomed]
    exact agree.lingering worker mem
  · intro id pending
    rw [doomed]
    exact agree.telling id ((pending_send prog (tells id)).1 pending)
  · exact fun id pending => agree.noticing id ((pending_send prog (notices id)).1 pending)
  · intro other id mem
    rcases mem_log_send.mp mem with before | ⟨_, rfl⟩
    · exact agree.logged other id before
    · exact agree.noticing id (head rfl)
  · exact agree.order_send prog
  · intro other mem id joined runs
    rcases agree.told other mem id joined runs with ⟨sent, known, named⟩ | pending
    · exact Or.inl ⟨sent, mem_log_send.mpr (Or.inl known), named⟩
    · rcases (pending_send prog fun j holds => tells id j holds.1).2 pending with
        ⟨now, reaches⟩ | kept
      · cases msg with
        | running sent =>
            exact Or.inl ⟨sent, mem_log_send.mpr (Or.inr ⟨reaches, rfl⟩), Option.some.inj now⟩
        | _ => cases now
      · exact Or.inr kept
  · intro other sent joined mem
    rw [doomed]
    rcases mem_log_send.mp mem with before | ⟨_, rfl⟩
    · rcases agree.gone other sent joined before with known | runs | ends | pending
      · exact Or.inl (mem_log_send.mpr (Or.inl known))
      · exact Or.inr (Or.inl runs)
      · exact Or.inr (Or.inr (Or.inl ends))
      · rcases (pending_send prog fun j holds => notices sent.id j holds.1).2 pending with
          ⟨now, reaches⟩ | kept
        · cases msg with
          | destroyed id =>
              obtain rfl : id = sent.id := now
              exact Or.inl (mem_log_send.mpr (Or.inr ⟨reaches, rfl⟩))
          | _ => exact now.elim
        · exact Or.inr (Or.inr (Or.inr kept))
    · exact Or.inr ((agree.telling sent.id (head rfl)).imp_right Or.inl)

end Agree

/-! ## Orderly runs -/

/-- The instructions that run are orderly ones. -/
def InOrder (s : Sys) (act : Act) : Prop := ∀ i ∈ s.next? act, Orderly s i = true

namespace Agree

variable {pack : Protobuf} {junk : Junk} {s u : Sys} {t : Tid}

/-- A thread takes up or goes on with a program that announces nothing more. -/
theorem mute_turn {prog : List Instr} (agree : Agree s)
    (next : u.prog = Function.update s.prog t prog)
    (same : ∀ j, ¬ Mute j → (j ∈ prog ↔ j ∈ s.prog t)) (srv : u.srv = s.srv)
    (notified : u.notified = s.notified) (listed : u.listed = s.listed) (log : u.log = s.log) :
    Agree u := by
  refine agree.mute ?_ (by rw [srv]) (by rw [srv]; exact agree.distinct) ?_ ?_ notified listed
    log ?_
  · intro v j loud
    rw [next]
    by_cases mine : v = t
    · subst mine
      rw [Function.update_self]
      exact same j loud
    · rw [Function.update_of_ne mine]
  · rw [srv]
    exact fun worker mem => ⟨worker, mem, rfl, rfl⟩
  · rw [srv]
    exact fun _ runs => runs
  · rw [srv]
    exact fun _ joined => Or.inl joined

theorem exec (agree : Agree s) (known : Known s) (admitted : InOrder s (.exec t junk))
    (exec : Sys.Exec pack s t junk u) : Agree u := by
  have quiet : ∀ {i : Instr} {rest : List Instr} (cli : Nat) (writes : List (List UInt8)),
      s.prog t = i :: rest → Mute i →
      ∀ j, ¬ Mute j → (j ∈ writing cli writes ++ rest ↔ j ∈ s.prog t) := by
    intro i rest cli writes prog mute j loud
    rw [prog, List.mem_append, List.mem_cons]
    constructor
    · rintro (piece | later)
      · exact absurd (mute_of_quiet (quiet_writing piece)) loud
      · exact Or.inr later
    · rintro (rfl | later)
      · exact absurd mute loud
      · exact Or.inr later
  cases exec with
  | lock prog | unlock prog | done prog =>
      exact agree.mute_turn rfl (quiet 0 [] prog (mute_of_quiet trivial)) rfl rfl rfl rfl
  | cont prog =>
      exact agree.mute_turn rfl (quiet _ _ prog (mute_of_quiet trivial)) rfl rfl rfl rfl
  | send prog => exact agree.send prog
  | apply prog plain expands =>
      have orderly := admitted _ (by rw [Sys.next?, prog]; rfl)
      exact (Applies.mk prog plain expands orderly known).agree agree

theorem step {act : Act} (agree : Agree s) (known : Known s) (admitted : InOrder s act)
    (step : Sys.Step pack s act u) : Agree u := by
  have taken : ∀ {t : Tid} {prog : List Instr}, s.prog t = [] → (∀ i ∈ prog, Mute i) →
      ∀ j, ¬ Mute j → (j ∈ prog ↔ j ∈ s.prog t) := by
    intro t prog idle mute j loud
    rw [idle]
    exact iff_of_false (fun mem => loud (mute j mem)) List.not_mem_nil
  have changed : ∀ {wid : Int} {change : WorkerEntry → WorkerEntry},
      (∀ worker, (change worker).wid = worker.wid ∧ (change worker).enabled = worker.enabled) →
      ∀ worker ∈ (s.srv.setWorker wid change).worker_head, ∃ before ∈ s.srv.worker_head,
        worker.wid = before.wid ∧ worker.enabled = before.enabled := by
    intro wid change keeps worker mem
    obtain ⟨before, earlier, ⟨_, rfl⟩ | ⟨_, rfl⟩⟩ := mem_setWorker mem
    · exact ⟨before, earlier, keeps before⟩
    · exact ⟨worker, earlier, rfl, rfl⟩
  cases step with
  | connect =>
      refine agree.mute (fun _ _ _ => Iff.rfl) rfl agree.distinct
        (fun worker mem => ⟨worker, mem, rfl, rfl⟩) (fun _ runs => runs) rfl rfl rfl ?_
      rintro cli ⟨client, mem, rfl⟩
      rcases List.mem_cons.mp mem with rfl | earlier
      · refine Or.inr ⟨fun listed => ?_, fun msg sent => ?_⟩
        · exact Nat.lt_irrefl _ (known.listed _ listed)
        · exact Nat.lt_irrefl _ (known.logs _ msg sent)
      · exact Or.inl ⟨client, earlier, rfl⟩
  | request cli now msg _ idle =>
      exact agree.mute_turn rfl (taken idle (mute_parse_client_req cli now msg)) rfl rfl rfl rfl
  | hangup cli _ idle =>
      refine agree.mute_turn rfl (taken idle ?_) rfl rfl rfl rfl
      simp [disconnect, Mute, Tells, announced, Notices]
  | pass idle =>
      refine agree.mute_turn rfl (taken idle ?_) rfl rfl rfl rfl
      simp [socket_write_pass, Mute, Tells, announced, Notices]
  | exec exec => exact agree.exec known admitted exec
  | produce | exit =>
      refine agree.mute (fun _ _ _ => Iff.rfl) rfl (distinct_setWorker agree.distinct ?_)
        (changed ?_) (fun _ => mem_setWorker_of_mem ?_) rfl rfl rfl fun _ => Or.inl
      · exact fun _ => rfl
      · exact fun _ => ⟨rfl, rfl⟩
      · exact fun _ => ⟨rfl, rfl⟩
  | metadata =>
      exact agree.mute (fun _ _ _ => Iff.rfl) rfl agree.distinct
        (fun worker mem => ⟨worker, mem, rfl, rfl⟩) (fun _ runs => runs) rfl rfl rfl
        fun _ => Or.inl

end Agree

end Kukuruku.Server.AgreementRuns
