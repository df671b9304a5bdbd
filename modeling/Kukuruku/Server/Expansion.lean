import Kukuruku.Server.Threads

/-!
# What instructions are replaced by

`Yields` lists every way in which an instruction can come to be part of a
program while the program runs.  What it preserves of instructions, every
execution preserves of the programs of all threads.
-/

namespace Kukuruku.Server.Expansion

open Kukuruku.Server.Messages
open Kukuruku.Server.ClientParser
open Kukuruku.Server.Threads

/-- `Yields junk s i j`: `j` may be among the instructions that take the place of `i`. -/
inductive Yields (junk : Junk) (s : Server) : Instr → Instr → Prop where
  | create (me : Nat) (remoteid : Int) (rotate : Float32Bits) (decimation startframe : Int)
      (taps : List Float32Bits) :
      Yields junk s (.create me remoteid rotate decimation startframe taps) (.announce me s.widx)
  | modify {worker : WorkerEntry} (me : Nat) {localid : Int} (rotate : Float32Bits)
      (newtaps : List Float32Bits) (found : s.worker? localid = some worker) :
      Yields junk s (.modify me localid rotate newtaps) (.announce me localid)
  | modified (me : Nat) (localid : Int) (rotate : Float32Bits) (newtaps : List Float32Bits) :
      Yields junk s (.modify me localid rotate newtaps) .unlock
  | list {worker : WorkerEntry} (me : Nat) (mem : worker ∈ s.worker_head) :
      Yields junk s (.list me) (.announce me worker.wid)
  | unlock (id : Int) : Yields junk s (.destroy id) .unlock
  | relock (id : Int) : Yields junk s (.destroy id) .lock
  | destroy (id : Int) : Yields junk s (.destroy id) (.destroyed id)
  | notice (id : Int) : Yields junk s (.destroyed id) (.broadcast (.destroyed id) none)
  | reply (me : Nat) (wid : Int) :
      Yields junk s (.announce me wid) (.send me (.running (told junk s wid)))
  | tell (me : Nat) (wid : Int) :
      Yields junk s (.announce me wid)
        (.broadcast (.running { told junk s wid with remoteid := -1 }) (some me))
  | info (me : Nat) : Yields junk s (.serverInfo (some me)) (.send me (.info s.info))
  | tellInfo : Yields junk s (.serverInfo none) (.broadcast (.info s.info) none)
  | each (msg : SrvMsg) (skip : Option Nat) :
      Yields junk s (.broadcast msg skip)
        (.foreach msg skip none (s.tcp_cli_head.map TcpCli.cli))
  | next {cli : Nat} {rest : List Nat} (msg : SrvMsg) (skip current : Option Nat)
      (mem : cli ∈ rest) : Yields junk s (.foreach msg skip current rest) (.send cli msg)
  | again {cli : Nat} {later rest : List Nat} (msg : SrvMsg) (skip current : Option Nat)
      (subset : ∀ other ∈ cli :: later, other ∈ rest) :
      Yields junk s (.foreach msg skip current rest) (.foreach msg skip (some cli) later)
  | pass : Yields junk s .pass (.walk (s.worker_head.map WorkerEntry.wid))
  | metaFrame (packet : Metadata) : Yields junk s (.walk []) (.metaFrame packet)
  | frame (wid : Int) (rest : List Int) (samples : Samples) :
      Yields junk s (.walk (wid :: rest)) (.frame wid samples)
  | walk (wid : Int) (rest : List Int) : Yields junk s (.walk (wid :: rest)) (.walk rest)
  | walked (rest : List Int) : Yields junk s (.walk rest) .unlock
  | payload (wid : Int) (samples : Samples) (cli : Nat) (header : PayloadHeader)
      (format : SampleType) (maxval : Float32Bits) :
      Yields junk s (.frame wid samples) (.send cli (.payload header format maxval samples))
  | spectrumTo (packet : Metadata) (cli : Nat) :
      Yields junk s (.metaFrame packet) (.spectrumTo cli packet)
  | histoTo (packet : Metadata) (cli : Nat) :
      Yields junk s (.metaFrame packet) (.histoTo cli packet)
  | spectrum (packet : Metadata) (cli : Nat) (header : PayloadHeader) :
      Yields junk s (.spectrumTo cli packet) (.send cli (.spectrum header packet.spectrum))
  | histo (packet : Metadata) (cli : Nat) (header : PayloadHeader) :
      Yields junk s (.histoTo cli packet) (.send cli (.histo header packet.histo))
  | body (cli : Nat) (msg : SrvMsg) (writes : List (List UInt8)) :
      Yields junk s (.send cli msg) (.cont cli writes)
  | later (cli : Nat) (writes more : List (List UInt8)) :
      Yields junk s (.cont cli writes) (.cont cli more)

theorem mem_nextClient {s : Server} {rest : List Nat} {cli : Nat} :
    cli ∈ nextClient s rest ↔ cli ∈ rest ∧ ∃ client ∈ s.tcp_cli_head, client.cli = cli := by
  simp [nextClient]

namespace Yields

variable {junk : Junk} {s : Server} {i j : Instr}

theorem of_payloads {wid : Int} {samples : Samples} (mem : j ∈ payloads junk s wid samples) :
    Yields junk s (.frame wid samples) j := by
  unfold payloads at mem
  cases found : s.worker? wid with
  | none =>
      rw [found] at mem
      cases mem
  | some worker =>
      rw [found] at mem
      obtain ⟨client, _, mem⟩ := List.mem_flatMap.mp mem
      obtain ⟨frm, _, mem⟩ := List.mem_flatMap.mp mem
      cases format : frm.sampletype with
      | other =>
          rw [format] at mem
          cases mem
      | _ =>
          rw [format] at mem
          rw [List.mem_singleton.mp mem]
          exact .payload ..

theorem of_foreach {msg : SrvMsg} {skip current : Option Nat} {rest : List Nat} {new : List Instr}
    (expands : expand junk s (.foreach msg skip current rest) = some new) (mem : j ∈ new) :
    Yields junk s (.foreach msg skip current rest) j := by
  simp only [expand] at expands
  split at expands
  · cases expands
  · split at expands
    · obtain rfl := Option.some.inj expands
      cases mem
    · rename_i cli later next
      obtain rfl := Option.some.inj expands
      have subset : ∀ other ∈ cli :: later, other ∈ rest := by
        intro other mem
        rw [← next] at mem
        exact (mem_nextClient.mp mem).1
      have again : Yields junk s (.foreach msg skip current rest)
          (.foreach msg skip (some cli) later) := .again msg skip current subset
      split at mem
      · rwa [List.mem_singleton.mp mem]
      · rcases List.mem_cons.mp mem with rfl | mem
        · exact .next msg skip current (subset cli List.mem_cons_self)
        · rwa [List.mem_singleton.mp mem]

/-- What the walk puts into the program at its next worker. -/
theorem expand_walk_cons {wid : Int} {rest : List Int} {new : List Instr}
    (expands : expand junk s (.walk (wid :: rest)) = some new) :
    (∃ worker, s.worker? wid = some worker ∧ worker.enabled = true ∧
      new = worker.ready.map (Instr.frame wid) ++ [.walk rest]) ∨
      new = [.unlock] ∨ new = [.walk rest] := by
  simp only [expand] at expands
  split at expands
  · rename_i worker found
    split at expands
    · rename_i enabled
      exact Or.inl ⟨worker, found, enabled, (Option.some.inj expands).symm⟩
    · split at expands
      · exact Or.inr (Or.inl (Option.some.inj expands).symm)
      · exact Or.inr (Or.inr (Option.some.inj expands).symm)
  · exact Or.inr (Or.inr (Option.some.inj expands).symm)

theorem of_walk {rest : List Int} {new : List Instr}
    (expands : expand junk s (.walk rest) = some new) (mem : j ∈ new) :
    Yields junk s (.walk rest) j := by
  cases rest with
  | nil =>
      obtain rfl := Option.some.inj expands
      rcases List.mem_append.mp mem with mem | mem
      · obtain ⟨packet, _, rfl⟩ := List.mem_map.mp mem
        exact .metaFrame packet
      · rw [List.mem_singleton.mp mem]
        exact .walked []
  | cons wid rest =>
      rcases expand_walk_cons expands with ⟨worker, _, _, rfl⟩ | rfl | rfl
      · rcases List.mem_append.mp mem with mem | mem
        · obtain ⟨samples, _, rfl⟩ := List.mem_map.mp mem
          exact .frame wid rest samples
        · rw [List.mem_singleton.mp mem]
          exact .walk wid rest
      · rw [List.mem_singleton.mp mem]
        exact .walked (wid :: rest)
      · rw [List.mem_singleton.mp mem]
        exact .walk wid rest

theorem of_expand {new : List Instr} (expands : expand junk s i = some new) (mem : j ∈ new) :
    Yields junk s i j := by
  cases i with
  | foreach msg skip current rest => exact of_foreach expands mem
  | walk rest => exact of_walk expands mem
  | frame wid samples =>
      obtain rfl := Option.some.inj expands
      exact of_payloads mem
  | create | destroyed | broadcast | pass =>
      obtain rfl := Option.some.inj expands
      rw [List.mem_singleton.mp mem]
      constructor
  | modify me localid =>
      obtain rfl := Option.some.inj expands
      rcases List.mem_cons.mp mem with rfl | mem
      · exact .modified ..
      · split at mem
        · rename_i worker found
          rw [List.mem_singleton.mp mem]
          exact .modify me _ _ found
        · cases mem
  | list me =>
      obtain rfl := Option.some.inj expands
      obtain ⟨worker, running, rfl⟩ := List.mem_map.mp mem
      exact .list me running
  | destroy id =>
      obtain rfl := Option.some.inj expands
      simp only [List.mem_cons, List.not_mem_nil, or_false] at mem
      rcases mem with rfl | rfl | rfl | rfl
      · exact .unlock id
      · exact .relock id
      · exact .destroy id
      · exact .unlock id
  | serverInfo me =>
      cases me with
      | none | some =>
          obtain rfl := Option.some.inj expands
          rw [List.mem_singleton.mp mem]
          constructor
  | announce me wid =>
      obtain rfl := Option.some.inj expands
      rcases List.mem_cons.mp mem with rfl | mem
      · exact .reply me wid
      · rw [List.mem_singleton.mp mem]
        exact .tell me wid
  | metaFrame packet =>
      obtain rfl := Option.some.inj expands
      obtain ⟨client, _, mem⟩ := List.mem_flatMap.mp mem
      rcases List.mem_cons.mp mem with rfl | mem
      · exact .spectrumTo packet client.cli
      · rw [List.mem_singleton.mp mem]
        exact .histoTo packet client.cli
  | spectrumTo | histoTo =>
      obtain rfl := Option.some.inj expands
      split at mem
      · rw [List.mem_singleton.mp mem]
        constructor
      · cases mem
  | _ =>
      obtain rfl := Option.some.inj expands
      cases mem

end Yields

section Programs

variable {pack : Protobuf} {junk : Junk} {s u : Sys} {t : Tid}

theorem mem_writing {cli : Nat} {writes : List (List UInt8)} {j : Instr}
    (mem : j ∈ writing cli writes) : ∃ piece more, j = .cont cli (piece :: more) := by
  cases writes with
  | nil => cases mem
  | cons piece more => exact ⟨piece, more, List.mem_singleton.mp mem⟩

/-- An executed instruction makes room for those that it yields. -/
theorem turn_of_exec (exec : Sys.Exec pack s t junk u) :
    ∃ i new rest, s.prog t = i :: rest ∧ u.prog = Function.update s.prog t (new ++ rest) ∧
      ∀ j ∈ new, Yields junk s.srv i j := by
  cases exec with
  | lock prog | unlock prog | done prog =>
      exact ⟨_, [], _, prog, rfl, fun _ mem => absurd mem List.not_mem_nil⟩
  | send prog =>
      refine ⟨_, writing _ _, _, prog, rfl, fun j mem => ?_⟩
      obtain ⟨piece, more, rfl⟩ := mem_writing mem
      exact .body ..
  | cont prog =>
      refine ⟨_, writing _ _, _, prog, rfl, fun j mem => ?_⟩
      obtain ⟨piece, more, rfl⟩ := mem_writing mem
      exact .later ..
  | apply prog _ expands => exact ⟨_, _, _, prog, rfl, fun j => .of_expand expands⟩

/-- What holds of all instructions of a thread, and of those that its first one
yields, holds of them after it. -/
theorem progs_exec {P : Instr → Prop} (exec : Sys.Exec pack s t junk u)
    (yields : ∀ i ∈ (s.prog t).head?, ∀ j, Yields junk s.srv i j → P j)
    (held : ∀ i ∈ s.prog t, P i) : ∀ j ∈ u.prog t, P j := by
  obtain ⟨i, new, rest, prog, next, expanded⟩ := turn_of_exec exec
  rw [prog] at yields held
  rw [next, Function.update_self]
  intro j mem
  rcases List.mem_append.mp mem with now | later
  · exact yields i rfl j (expanded j now)
  · exact held j (List.mem_cons_of_mem i later)

/-- Only the program of the thread that runs changes. -/
theorem prog_exec_other (exec : Sys.Exec pack s t junk u) {v : Tid} (other : v ≠ t) :
    u.prog v = s.prog v := by
  obtain ⟨_, _, _, _, next, _⟩ := turn_of_exec exec
  rw [next, Function.update_of_ne other]

/-- Every instruction changes the server as `effect` says. -/
theorem srv_exec {i : Instr} {rest : List Instr} (exec : Sys.Exec pack s t junk u)
    (prog : s.prog t = i :: rest) : u.srv = effect pack junk s.srv i := by
  cases exec with
  | lock first | unlock first | send first | done first | cont first | apply first =>
      obtain ⟨rfl, rfl⟩ := List.cons.inj (prog.symm.trans first)
      rfl

theorem connections_exec (exec : Sys.Exec pack s t junk u) : u.connections = s.connections := by
  cases exec <;> rfl

/-- Instructions that neither lock nor write are replaced by what they expand to. -/
theorem expands_exec {i : Instr} {rest : List Instr} (exec : Sys.Exec pack s t junk u)
    (prog : s.prog t = i :: rest) (plain : Plain i) :
    ∃ new, expand junk s.srv i = some new ∧ u = s.apply pack junk t i new rest := by
  cases exec with
  | lock first | unlock first | send first | done first | cont first =>
      obtain ⟨rfl, rfl⟩ := List.cons.inj (prog.symm.trans first)
      exact plain.elim
  | apply first _ expands =>
      obtain ⟨rfl, rfl⟩ := List.cons.inj (prog.symm.trans first)
      exact ⟨_, expands, rfl⟩

/-- What stands before the rest of the program is the expansion. -/
theorem expand_of_next {i : Instr} {new rest : List Instr} (exec : Sys.Exec pack s t junk u)
    (prog : s.prog t = i :: rest) (next : u.prog t = new ++ rest) (plain : Plain i) :
    expand junk s.srv i = some new := by
  obtain ⟨new', expands, rfl⟩ := expands_exec exec prog plain
  have later : (s.apply pack junk t i new' rest).prog t = new' ++ rest := by
    simp only [Sys.apply, Sys.setProg, Function.update_self]
  rw [expands, List.append_cancel_right (later.symm.trans next)]

/-- Messages are sent by their own instruction. -/
theorem mem_log_exec (exec : Sys.Exec pack s t junk u) {cli : Nat} {msg : SrvMsg}
    (mem : msg ∈ u.log cli) : msg ∈ s.log cli ∨ .send cli msg ∈ s.prog t := by
  cases exec with
  | @send other sent rest prog =>
      by_cases own : cli = other
      · subst own
        simp only [Sys.send, Function.update_self] at mem
        rcases List.mem_append.mp mem with before | now
        · exact Or.inl before
        · rw [prog, List.mem_singleton.mp now]
          exact Or.inr List.mem_cons_self
      · simp only [Sys.send, Function.update_of_ne own] at mem
        exact Or.inl mem
  | _ => exact Or.inl mem

end Programs

end Kukuruku.Server.Expansion
