import Kukuruku.Server.Agreement

/-!
# The numbers of the connections

In every run only clients that have connected have a thread and are announced
anything, and `socket_write_thr` announces nothing.
-/

namespace Kukuruku.Server.Connections

open Kukuruku.Server.Messages
open Kukuruku.Server.ClientParser
open Kukuruku.Server.Threads
open Kukuruku.Server.Expansion
open Kukuruku.Server.Announcements
open Kukuruku.Server.Agreement

theorem mem_listed_apply {pack : Protobuf} {junk : Junk} {s : Sys} {t : Tid} {i : Instr}
    {new rest : List Instr} {cli : Nat}
    (mem : cli ∈ (s.apply pack junk t i new rest).listed) :
    cli ∈ s.listed ∨ i = .list cli := by
  cases i with
  | list me =>
      rcases List.mem_cons.mp mem with rfl | earlier
      · exact Or.inr rfl
      · exact Or.inl earlier
  | _ => exact Or.inl mem

theorem mem_log_send {pack : Protobuf} {s : Sys} {t : Tid} {cli other : Nat}
    {msg sent : SrvMsg} {rest : List Instr} :
    sent ∈ (s.send pack t cli msg rest).log other ↔
      sent ∈ s.log other ∨ cli = other ∧ sent = msg := by
  by_cases own : other = cli
  · subst own
    simp [Sys.send]
  · simp [Sys.send, Function.update_of_ne own, Ne.symm own]

/-- The instruction may announce something to the client. -/
def Names (cli : Nat) : Instr → Prop
  | .create me _ _ _ _ _ | .modify me _ _ _ | .list me | .announce me _ => me = cli
  | .foreach (.running _) _ _ rest => cli ∈ rest
  | .send other (.running _) => other = cli
  | _ => False

theorem names_of_yields {junk : Junk} {s : Server} {i j : Instr} {cli : Nat}
    (yields : Yields junk s i j) (names : Names cli j) : Names cli i ∨ Connected s cli := by
  cases yields with
  | create | modify | list | reply => exact Or.inl names
  | each msg =>
      cases msg with
      | running =>
          obtain ⟨client, mem, rfl⟩ := List.mem_map.mp names
          exact Or.inr ⟨client, mem, rfl⟩
      | _ => exact names.elim
  | next msg skip current mem =>
      cases msg with
      | running =>
          obtain rfl := names
          exact Or.inl mem
      | _ => exact names.elim
  | again msg skip current subset =>
      cases msg with
      | running => exact Or.inl (subset cli (List.mem_cons_of_mem _ names))
      | _ => exact names.elim
  | _ => exact names.elim

/-- Only clients that have connected have a thread and are announced anything;
the socket writer announces nothing. -/
structure Known (s : Sys) : Prop where
  clients : ∀ cli, Connected s.srv cli → cli < s.connections
  threads : ∀ cli, s.prog (.client cli) ≠ [] → cli < s.connections
  names : ∀ t, ∀ i ∈ s.prog t, ∀ cli, Names cli i → cli < s.connections
  listed : ∀ cli ∈ s.listed, cli < s.connections
  logs : ∀ cli msg, .running msg ∈ s.log cli → cli < s.connections
  writer : ∀ i ∈ s.prog .writer, Quiet i

namespace Known

variable {pack : Protobuf} {junk : Junk} {s u : Sys} {t : Tid}

theorem start (srv : Server) (fresh : Fresh srv) : Known (Sys.start srv) where
  clients cli := by
    rintro ⟨client, mem, _⟩
    rw [Sys.start, fresh.1] at mem
    cases mem
  threads _ busy := absurd rfl busy
  names _ _ mem := nomatch mem
  listed _ mem := nomatch mem
  logs _ _ mem := nomatch mem
  writer _ mem := nomatch mem

/-- A thread goes on with another program. -/
theorem turn {prog : List Instr} (known : Known s) (next : u.prog = Function.update s.prog t prog)
    (connections : s.connections ≤ u.connections)
    (clients : ∀ cli, Connected u.srv cli → Connected s.srv cli)
    (thread : ∀ cli, t = .client cli → cli < s.connections)
    (names : ∀ i ∈ prog, ∀ cli, Names cli i → cli < s.connections)
    (listed : ∀ cli ∈ u.listed, cli < s.connections)
    (logs : ∀ cli msg, .running msg ∈ u.log cli → cli < s.connections)
    (writer : t = .writer → ∀ i ∈ prog, Quiet i) : Known u where
  clients cli joined := Nat.lt_of_lt_of_le (known.clients cli (clients cli joined)) connections
  threads cli busy := by
    refine Nat.lt_of_lt_of_le ?_ connections
    by_cases mine : t = .client cli
    · exact thread cli mine
    · rw [next, Function.update_of_ne (Ne.symm mine)] at busy
      exact known.threads cli busy
  names v i mem cli named := by
    refine Nat.lt_of_lt_of_le ?_ connections
    rw [next] at mem
    by_cases mine : v = t
    · subst mine
      rw [Function.update_self] at mem
      exact names i mem cli named
    · rw [Function.update_of_ne mine] at mem
      exact known.names v i mem cli named
  listed cli mem := Nat.lt_of_lt_of_le (listed cli mem) connections
  logs cli msg mem := Nat.lt_of_lt_of_le (logs cli msg mem) connections
  writer i mem := by
    rw [next] at mem
    by_cases mine : t = .writer
    · subst mine
      rw [Function.update_self] at mem
      exact writer rfl i mem
    · rw [Function.update_of_ne (Ne.symm mine)] at mem
      exact known.writer i mem

theorem not_names_of_quiet {i : Instr} {cli : Nat} (quiet : Quiet i) : ¬ Names cli i := by
  cases i with
  | create | modify | list | announce => exact quiet.elim
  | foreach msg | send other msg =>
      cases msg with
      | running => exact quiet.elim
      | _ => exact not_false
  | _ => exact not_false

theorem exec (known : Known s) (exec : Sys.Exec pack s t junk u) : Known u := by
  obtain ⟨i, new, rest, prog, next, _⟩ := turn_of_exec exec
  have head : ∀ i ∈ (s.prog t).head?, i ∈ s.prog t := fun _ => List.mem_of_mem_head?
  have names : ∀ j ∈ u.prog t, ∀ cli, Names cli j → cli < s.connections := by
    refine progs_exec exec ?_ (known.names t)
    intro i first j yields cli named
    rcases names_of_yields yields named with own | joined
    · exact known.names t i (head i first) cli own
    · exact known.clients cli joined
  have quiet : t = .writer → ∀ j ∈ u.prog t, Quiet j := by
    rintro rfl
    refine progs_exec exec ?_ known.writer
    exact fun i first j yields => quiet_of_yields yields (known.writer i (head i first))
  have mine : u.prog t = new ++ rest := by rw [next, Function.update_self]
  rw [mine] at names quiet
  refine known.turn next ?_ ?_ ?_ names ?_ ?_ quiet
  · exact Nat.le_of_eq (connections_exec exec).symm
  · intro cli joined
    rw [srv_exec exec prog] at joined
    exact connected_effect joined
  · rintro cli rfl
    exact known.threads cli (by rw [prog]; exact List.cons_ne_nil i rest)
  · intro cli mem
    cases exec with
    | apply first =>
        rcases mem_listed_apply mem with earlier | rfl
        · exact known.listed cli earlier
        · have listing : .list cli ∈ s.prog t := by
            rw [first]
            exact List.mem_cons_self
          exact known.names t _ listing cli rfl
    | _ => exact known.listed cli mem
  · intro cli msg mem
    rcases mem_log_exec exec mem with before | sent
    · exact known.logs cli msg before
    · exact known.names t _ sent cli rfl

theorem of_client? {cli : Nat} (known : Known s) (joined : (s.srv.client? cli).isSome) :
    cli < s.connections := by
  obtain ⟨client, found⟩ := Option.isSome_iff_exists.mp joined
  exact known.clients cli ⟨client, client?_mem found⟩

theorem names_parse_client_req (me : Nat) (now : Int) (msg : CliMsg) :
    ∀ i ∈ parse_client_req me now msg, ∀ cli, Names cli i → cli = me := by
  have named : ∀ i ∈ parse_client_req me now msg, ∀ cli, Names cli i → me = cli := by
    cases msg <;> simp [parse_client_req, Names]
  exact fun i mem cli names => (named i mem cli names).symm

/-- A client's thread begins a program that names no other client. -/
theorem setProg {cli : Nat} {prog : List Instr} (known : Known s)
    (joined : (s.srv.client? cli).isSome)
    (names : ∀ i ∈ prog, ∀ other, Names other i → other = cli) :
    Known (s.setProg (.client cli) prog) := by
  have below := known.of_client? joined
  refine known.turn rfl (Nat.le_refl _) (fun _ joined => joined) ?_ ?_ known.listed known.logs nofun
  · rintro other ⟨⟩
    exact below
  · intro i mem other named
    rwa [names i mem other named]

theorem step {act : Act} (known : Known s) (step : Sys.Step pack s act u) : Known u := by
  cases step with
  | connect =>
      refine ⟨?_, fun cli busy => Nat.lt_succ_of_lt (known.threads cli busy),
        fun t i mem cli named => Nat.lt_succ_of_lt (known.names t i mem cli named),
        fun cli mem => Nat.lt_succ_of_lt (known.listed cli mem),
        fun cli msg mem => Nat.lt_succ_of_lt (known.logs cli msg mem), known.writer⟩
      rintro cli ⟨client, mem, rfl⟩
      rcases List.mem_cons.mp mem with rfl | earlier
      · exact Nat.lt_succ_self _
      · exact Nat.lt_succ_of_lt (known.clients _ ⟨client, earlier, rfl⟩)
  | request cli now msg joined =>
      exact known.setProg joined (names_parse_client_req cli now msg)
  | hangup cli joined =>
      refine known.setProg joined fun i mem other named => ?_
      simp only [disconnect, List.mem_cons, List.not_mem_nil, or_false] at mem
      rcases mem with rfl | rfl | rfl <;> exact named.elim
  | pass =>
      have quiet : ∀ i ∈ socket_write_pass, Quiet i := by simp [socket_write_pass, Quiet]
      exact known.turn rfl (Nat.le_refl _) (fun _ joined => joined) nofun
        (fun i mem cli named => absurd named (not_names_of_quiet (quiet i mem))) known.listed
        known.logs fun _ => quiet
  | exec exec => exact known.exec exec
  | produce | exit | metadata =>
      exact ⟨known.clients, known.threads, known.names, known.listed, known.logs, known.writer⟩

end Known

end Kukuruku.Server.Connections
