import Kukuruku.Server.Expansion

/-!
# Whole messages on every socket

A thread is idle, holds `llmutex`, or announces a modified worker without it.
While at most one thread is not idle, the writes of a message are never
interrupted by another message.  Only an announcement without the mutex can
overlap with anything, and it does so only in runs that the guard excludes.
-/

namespace Kukuruku.Server.StreamIntegrity

open Kukuruku.Server.Messages
open Kukuruku.Server.ClientParser
open Kukuruku.Server.Threads
open Kukuruku.Server.Expansion

/-! ## What is on a socket -/

/-- The messages begun for a client, on its socket: all whole, except that
`owed` is still missing from the last one. -/
def Written (pack : Protobuf) (log : List SrvMsg) (sock owed : List UInt8) : Prop :=
  (log = [] ∧ sock = [] ∧ owed = []) ∨
    ∃ whole last part, log = whole ++ [last] ∧ last.bytes pack = part ++ owed ∧
      sock = whole.flatMap (SrvMsg.bytes pack) ++ part

/-- Whole messages and at most one unfinished one, each of them a length and
that many bytes. -/
def Intact (pack : Protobuf) (log : List SrvMsg) (sock : List UInt8) : Prop :=
  (∃ owed, Written pack log sock owed) ∧ ∀ msg ∈ log, SrvMsg.Framed (msg.bytes pack)

theorem Written.flush {pack : Protobuf} {log : List SrvMsg} {sock : List UInt8}
    (written : Written pack log sock []) : sock = log.flatMap (SrvMsg.bytes pack) := by
  rcases written with ⟨rfl, rfl, _⟩ | ⟨whole, last, part, rfl, bytes, rfl⟩
  · rfl
  · rw [List.append_nil] at bytes
    rw [List.flatMap_append, List.flatMap_singleton, bytes]

theorem Written.begin {pack : Protobuf} {log : List SrvMsg} {sock : List UInt8}
    (written : Written pack log sock []) (msg : SrvMsg) :
    Written pack (log ++ [msg]) (sock ++ LE32 (msg.size pack)) (msg.writes pack).flatten :=
  Or.inr ⟨log, msg, LE32 (msg.size pack), rfl, rfl, by rw [written.flush]⟩

theorem Written.continue {pack : Protobuf} {log : List SrvMsg} {sock piece later : List UInt8}
    (written : Written pack log sock (piece ++ later)) :
    Written pack log (sock ++ piece) later := by
  rcases written with ⟨rfl, rfl, none⟩ | ⟨whole, last, part, rfl, bytes, rfl⟩
  · obtain ⟨rfl, rfl⟩ := List.append_eq_nil_iff.mp none
    exact Or.inl ⟨rfl, rfl, rfl⟩
  · refine Or.inr ⟨whole, last, part ++ piece, rfl, ?_, ?_⟩
    · rw [bytes, List.append_assoc]
    · rw [List.append_assoc]

/-! ## The order of a program's instructions -/

inductive Mode where
  | idle
  | held
  | announcing
deriving DecidableEq

inductive Kind where
  | lock
  | unlock
  | last
  | inner
  | free
  | announce
  | sends
  | cont
deriving DecidableEq

/-- How an instruction relates to the mutex and to the sockets; `last` are
those that bring the rest of their program themselves. -/
def kind : Instr → Kind
  | .lock => .lock
  | .unlock => .unlock
  | .modify _ _ _ _ | .destroy _ | .pass | .walk _ => .last
  | .recordStart _ _ _ | .recordStop | .spectrum _ | .histo _ => .free
  | .announce _ _ => .announce
  | .broadcast _ _ | .foreach _ _ _ _ | .send _ _ => .sends
  | .cont _ _ => .cont
  | _ => .inner

def Ordered : Mode → List Instr → Prop
  | mode, [] => mode ≠ .held
  | mode, i :: rest =>
      match mode, kind i with
      | .idle, .lock => Ordered .held rest
      | .idle, .free => Ordered .idle rest
      | .idle, .announce => Ordered .announcing rest
      | .held, .unlock => Ordered .idle rest
      | .held, .last => rest = []
      | .held, .inner | .held, .announce | .held, .sends => Ordered .held rest
      | .announcing, .sends => Ordered .announcing rest
      | _, _ => False

/-- Only the message that is being written can be at the head. -/
def Lined (mode : Mode) : List Instr → Prop
  | .cont _ _ :: rest => mode ≠ .idle ∧ Ordered mode rest
  | prog => Ordered mode prog

/-- The mode of a thread that holds the mutex or does not. -/
def modeOf (held : Bool) (prog : List Instr) : Mode :=
  if held then .held
  else match prog.head?.map kind with
    | some .sends | some .cont => .announcing
    | _ => .idle

def mode (s : Sys) (t : Tid) : Mode := modeOf (decide (s.llmutex = some t)) (s.prog t)

/-- A program in order is lined up for the mode its thread is in. -/
theorem lined_modeOf {m : Mode} {prog : List Instr} {held : Bool} (ordered : Ordered m prog)
    (agree : held = true ↔ m = .held) : Lined (modeOf held prog) prog := by
  cases m with
  | held =>
      have same : modeOf held prog = .held := by rw [modeOf, if_pos (agree.mpr rfl)]
      rw [same]
      cases prog with
      | nil => exact ordered
      | cons i rest =>
          cases i with
          | cont => exact ordered.elim
          | _ => exact ordered
  | idle | announcing =>
      obtain rfl : held = false := by simpa using agree
      cases prog with
      | nil => exact Mode.noConfusion
      | cons i rest => cases i <;> first | exact ordered.elim | exact ordered

/-- A thread in the middle of a message is lined up as it is after the message. -/
theorem lined_writing {m : Mode} {prog : List Instr} {held : Bool} (cli : Nat)
    (writes : List (List UInt8)) (ordered : Ordered m prog) (busy : m ≠ .idle)
    (agree : held = true ↔ m = .held) :
    Lined (modeOf held (writing cli writes ++ prog)) (writing cli writes ++ prog) := by
  cases writes with
  | nil => exact lined_modeOf ordered agree
  | cons piece more =>
      have same : modeOf held (writing cli (piece :: more) ++ prog) = m := by
        cases m with
        | idle => exact (busy rfl).elim
        | held => rw [modeOf, if_pos (agree.mpr rfl)]
        | announcing =>
            obtain rfl : held = false := by simpa using agree
            rfl
      rw [same]
      exact ⟨busy, ordered⟩

/-! ## What instructions expand to -/

theorem ordered_sends {new rest : List Instr} (sends : ∀ i ∈ new, kind i = .sends)
    (ordered : Ordered .announcing rest) : Ordered .announcing (new ++ rest) := by
  induction new with
  | nil => exact ordered
  | cons i later ih =>
      have own := sends i List.mem_cons_self
      have tail := ih fun j mem => sends j (List.mem_cons_of_mem i mem)
      simpa only [List.cons_append, Ordered, own] using tail

/-- Instructions that stay inside a section under the mutex. -/
def Inside (i : Instr) : Prop := kind i = .inner ∨ kind i = .announce ∨ kind i = .sends

theorem ordered_inside {new rest : List Instr} (inside : ∀ i ∈ new, Inside i)
    (ordered : Ordered .held rest) : Ordered .held (new ++ rest) := by
  induction new with
  | nil => exact ordered
  | cons i later ih =>
      have tail := ih fun j mem => inside j (List.mem_cons_of_mem i mem)
      rcases inside i List.mem_cons_self with own | own | own
      · simpa only [List.cons_append, Ordered, own] using tail
      · simpa only [List.cons_append, Ordered, own] using tail
      · simpa only [List.cons_append, Ordered, own] using tail

/-- Announcements and loops over the clients yield messages and loops. -/
theorem sends_of_yields {junk : Junk} {s : Server} {i j : Instr}
    (sends : kind i = .announce ∨ kind i = .sends) (plain : Plain i)
    (yields : Yields junk s i j) : kind j = .sends := by
  cases yields with
  | reply | tell | each | next | again => rfl
  | body => exact plain.elim
  | _ => rcases sends with ⟨⟨⟩⟩ | ⟨⟨⟩⟩

/-- What an instruction inside a section yields stays inside it. -/
theorem inside_of_yields {junk : Junk} {s : Server} {i j : Instr} (inside : Inside i)
    (plain : Plain i) (yields : Yields junk s i j) : Inside j := by
  rcases inside with inner | sends
  · cases yields with
    | create | list => exact Or.inr (Or.inl rfl)
    | notice | info | tellInfo | payload | spectrum | histo => exact Or.inr (Or.inr rfl)
    | spectrumTo | histoTo => exact Or.inl rfl
    | _ => cases inner
  · exact Or.inr (Or.inr (sends_of_yields sends plain yields))

/-- The instructions that end a section bring the unlock themselves. -/
theorem ordered_of_last {junk : Junk} {s : Server} {i : Instr} {new : List Instr}
    (last : kind i = .last) (expands : expand junk s i = some new) : Ordered .held new := by
  cases i with
  | modify me localid =>
      obtain rfl := Option.some.inj expands
      split
      · exact Mode.noConfusion
      · exact Mode.noConfusion
  | destroy =>
      obtain rfl := Option.some.inj expands
      exact Mode.noConfusion
  | pass =>
      obtain rfl := Option.some.inj expands
      rfl
  | walk rest =>
      cases rest with
      | nil =>
          obtain rfl := Option.some.inj expands
          have tail : Ordered .held [.unlock] := Mode.noConfusion
          refine ordered_inside ?_ tail
          intro j mem
          obtain ⟨packet, _, rfl⟩ := List.mem_map.mp mem
          exact Or.inl rfl
      | cons wid rest =>
          rcases Yields.expand_walk_cons expands with ⟨worker, _, _, rfl⟩ | rfl | rfl
          · have tail : Ordered .held [.walk rest] := rfl
            refine ordered_inside ?_ tail
            intro j mem
            obtain ⟨samples, _, rfl⟩ := List.mem_map.mp mem
            exact Or.inl rfl
          · exact Mode.noConfusion
          · rfl
  | _ => cases last

/-- An instruction of an idle thread is one that needs no mutex, or it begins an
announcement; all others leave the thread in its mode. -/
theorem ordered_expand {junk : Junk} {s : Server} {m : Mode} {i : Instr} {new rest : List Instr}
    (ordered : Ordered m (i :: rest)) (plain : Plain i) (expands : expand junk s i = some new) :
    (m = .idle ∧ kind i ≠ .announce ∧ Ordered .idle (new ++ rest)) ∨
      ((m = .idle → kind i = .announce) ∧
        ∃ later, (later = .held ↔ m = .held) ∧ Ordered later (new ++ rest)) := by
  have sends : kind i = .announce ∨ kind i = .sends → ∀ j ∈ new, kind j = .sends :=
    fun own _ mem => sends_of_yields own plain (.of_expand expands mem)
  have inside : Inside i → ∀ j ∈ new, Inside j :=
    fun own _ mem => inside_of_yields own plain (.of_expand expands mem)
  cases m with
  | idle =>
      cases i with
      | lock => exact plain.elim
      | recordStart | recordStop | spectrum | histo =>
          obtain rfl := Option.some.inj expands
          exact Or.inl ⟨rfl, by rintro ⟨⟩, ordered⟩
      | announce =>
          refine Or.inr ⟨fun _ => rfl, .announcing, by simp, ?_⟩
          exact ordered_sends (sends (Or.inl rfl)) ordered
      | _ => exact ordered.elim
  | announcing =>
      refine Or.inr ⟨nofun, .announcing, Iff.rfl, ?_⟩
      cases i with
      | broadcast | foreach =>
          exact ordered_sends (sends (Or.inr rfl)) ordered
      | send => exact plain.elim
      | _ => exact ordered.elim
  | held =>
      refine Or.inr ⟨nofun, .held, Iff.rfl, ?_⟩
      cases i with
      | unlock | send | cont => exact plain.elim
      | lock | recordStart | recordStop | spectrum | histo => exact ordered.elim
      | modify | destroy | pass | walk =>
          obtain rfl : rest = [] := ordered
          rw [List.append_nil]
          exact ordered_of_last rfl expands
      | announce | broadcast | foreach =>
          refine ordered_inside (inside ?_) ordered
          simp [Inside, kind]
      | _ => exact ordered_inside (inside (Or.inl rfl)) ordered

/-! ## Runs -/

/-- What is still to be written of the message a program is in the middle of. -/
def owed (cli : Nat) : List Instr → List UInt8
  | .cont current writes :: _ => if current = cli then writes.flatten else []
  | _ => []

/-- An announcement without the mutex runs as if its thread held the mutex: it
begins while all other threads are idle, and until its end no other thread takes
the mutex or begins such an announcement. -/
def Exclusive (s : Sys) : Act → Prop
  | .exec t _ =>
      match (s.prog t).head? with
      | some .lock | some (.announce _ _) => ∀ u, u ≠ t → mode s u = .idle
      | _ => True
  | _ => True

structure Streams (pack : Protobuf) (s : Sys) : Prop where
  lined : ∀ t, Lined (mode s t) (s.prog t)
  sole : ∃ t, ∀ u, u ≠ t → mode s u = .idle
  written : ∀ t, (∀ u, u ≠ t → mode s u = .idle) →
    ∀ cli, Written pack (s.log cli) (s.sock cli) (owed cli (s.prog t))

theorem owed_ordered {m : Mode} {prog : List Instr} (ordered : Ordered m prog) (cli : Nat) :
    owed cli prog = [] := by
  cases prog with
  | nil => rfl
  | cons i rest =>
      cases i with
      | cont => cases m <;> exact ordered.elim
      | _ => rfl

theorem owed_writing {m : Mode} {prog : List Instr} (ordered : Ordered m prog) (current cli : Nat)
    (writes : List (List UInt8)) :
    owed cli (writing current writes ++ prog) =
      if current = cli then writes.flatten else [] := by
  cases writes with
  | nil =>
      rw [writing, List.nil_append, owed_ordered ordered, List.flatten_nil, ite_self]
  | cons piece more => rfl

theorem modeOf_idle {prog : List Instr} (ordered : Ordered .idle prog) :
    modeOf false prog = .idle := by
  cases prog with
  | nil => rfl
  | cons i rest => cases i <;> first | rfl | exact ordered.elim

theorem ordered_of_idle {prog : List Instr} (lined : Lined .idle prog) : Ordered .idle prog := by
  cases prog with
  | nil => exact lined
  | cons i rest =>
      cases i with
      | cont => exact absurd rfl lined.1
      | _ => exact lined

namespace Streams

variable {pack : Protobuf} {s u : Sys} {t : Tid}

theorem start (srv : Server) : Streams pack (Sys.start srv) where
  lined _ := Mode.noConfusion
  sole := ⟨.writer, fun _ _ => rfl⟩
  written _ _ _ := Or.inl ⟨rfl, rfl, rfl⟩

/-- A busy thread is the only one. -/
theorem alone (streams : Streams pack s) (busy : mode s t ≠ .idle) :
    ∀ v, v ≠ t → mode s v = .idle := by
  obtain ⟨sole, others⟩ := streams.sole
  have same : sole = t := by
    by_contra apart
    exact busy (others t (Ne.symm apart))
  rwa [same] at others

theorem mode_other {new : List Instr} (turn : u.prog = Function.update s.prog t new)
    (llmutex : ∀ v, v ≠ t → (u.llmutex = some v ↔ s.llmutex = some v)) {v : Tid} (other : v ≠ t) :
    u.prog v = s.prog v ∧ mode u v = mode s v := by
  have same : u.prog v = s.prog v := by rw [turn, Function.update_of_ne other]
  refine ⟨same, ?_⟩
  rw [mode, mode, same]
  simp only [llmutex v other]

/-- An idle thread stays idle, and nothing is written. -/
theorem of_quiet {new : List Instr} (streams : Streams pack s) (idle : mode s t = .idle)
    (turn : u.prog = Function.update s.prog t new) (llmutex : u.llmutex = s.llmutex)
    (log : u.log = s.log) (sock : u.sock = s.sock) (ordered : Ordered .idle new) :
    Streams pack u := by
  have mine : u.prog t = new := by rw [turn, Function.update_self]
  have others := fun v => mode_other (v := v) turn fun _ _ => by rw [llmutex]
  have free : decide (u.llmutex = some t) = false := by
    rw [llmutex]
    by_contra held
    rw [mode, modeOf, if_pos (by simpa using held)] at idle
    cases idle
  have still : mode u t = .idle := by rw [mode, free, mine, modeOf_idle ordered]
  have same : ∀ v, mode u v = mode s v := by
    intro v
    by_cases own : v = t
    · rw [own, still, idle]
    · exact (others v own).2
  constructor
  · intro v
    by_cases own : v = t
    · rw [own, mode, free, mine]
      exact lined_modeOf ordered (by simp)
    · rw [same, (others v own).1]
      exact streams.lined v
  · simpa only [same] using streams.sole
  · intro v only cli
    have before := streams.written v (by simpa only [same] using only) cli
    rw [log, sock]
    by_cases own : v = t
    · subst own
      have nothing := streams.lined v
      rw [idle] at nothing
      rw [owed_ordered (ordered_of_idle nothing)] at before
      rwa [mine, owed_ordered ordered]
    · rwa [(others v own).1]

/-- The turn of a thread while all others are idle. -/
theorem of_turn {new : List Instr} (streams : Streams pack s)
    (idle : ∀ v, v ≠ t → mode s v = .idle) (turn : u.prog = Function.update s.prog t new)
    (llmutex : ∀ v, v ≠ t → (u.llmutex = some v ↔ s.llmutex = some v))
    (lined : Lined (modeOf (decide (u.llmutex = some t)) new) new)
    (written : ∀ cli, Written pack (u.log cli) (u.sock cli) (owed cli new)) :
    Streams pack u := by
  have mine : u.prog t = new := by rw [turn, Function.update_self]
  have others := fun v => mode_other (v := v) turn llmutex
  constructor
  · intro v
    by_cases own : v = t
    · rw [own, mode, mine]
      exact lined
    · rw [(others v own).2, (others v own).1]
      exact streams.lined v
  · exact ⟨t, fun v other => (others v other).2.trans (idle v other)⟩
  · intro v only cli
    by_cases own : v = t
    · rw [own, mine]
      exact written cli
    · -- then `t` is idle as well, and nothing is owed by either
      have quiet := only t (Ne.symm own)
      rw [mode, mine] at quiet
      rw [quiet] at lined
      have nothing := written cli
      rw [owed_ordered (ordered_of_idle lined)] at nothing
      have still := streams.lined v
      rw [idle v own] at still
      rwa [(others v own).1, owed_ordered (ordered_of_idle still)]

theorem held_iff (s : Sys) (t : Tid) : decide (s.llmutex = some t) = true ↔ mode s t = .held := by
  rw [mode, modeOf]
  by_cases own : decide (s.llmutex = some t) = true
  · simp [own]
  · rw [if_neg own]
    refine iff_of_false own ?_
    split <;> exact Mode.noConfusion

/-- While a thread writes, it is the only busy one, and it goes on in its mode. -/
theorem of_write {rest : List Instr} {writes : List (List UInt8)} {cli : Nat}
    (streams : Streams pack s) (busy : mode s t ≠ .idle) (ordered : Ordered (mode s t) rest)
    (turn : u.prog = Function.update s.prog t (writing cli writes ++ rest))
    (llmutex : u.llmutex = s.llmutex)
    (others : ∀ other, other ≠ cli → u.log other = s.log other ∧ u.sock other = s.sock other)
    (none : ∀ other, other ≠ cli → owed other (s.prog t) = [])
    (written : Written pack (u.log cli) (u.sock cli) writes.flatten) : Streams pack u := by
  have alone := streams.alone busy
  refine streams.of_turn alone turn (fun _ _ => by rw [llmutex]) ?_ ?_
  · rw [llmutex]
    exact lined_writing cli writes ordered busy (held_iff s t)
  · intro other
    rw [owed_writing ordered]
    by_cases own : cli = other
    · subst own
      rwa [if_pos rfl]
    · have before := streams.written t alone other
      rw [none other (Ne.symm own)] at before
      rwa [if_neg own, (others other (Ne.symm own)).1, (others other (Ne.symm own)).2]

/-- A turn that writes nothing, of a thread that is not in the middle of a message. -/
theorem of_silent {m : Mode} {new : List Instr} (streams : Streams pack s)
    (others : ∀ v, v ≠ t → mode s v = .idle) (between : ∀ cli, owed cli (s.prog t) = [])
    (turn : u.prog = Function.update s.prog t new)
    (llmutex : ∀ v, v ≠ t → (u.llmutex = some v ↔ s.llmutex = some v)) (ordered : Ordered m new)
    (held : decide (u.llmutex = some t) = true ↔ m = .held) (log : u.log = s.log)
    (sock : u.sock = s.sock) : Streams pack u := by
  refine streams.of_turn others turn llmutex (lined_modeOf ordered held) fun cli => ?_
  have before := streams.written t others cli
  rw [between cli] at before
  rwa [owed_ordered ordered, log, sock]

theorem ordered_of_send {m : Mode} {cli : Nat} {msg : SrvMsg} {rest : List Instr}
    (ordered : Ordered m (.send cli msg :: rest)) : m ≠ .idle ∧ Ordered m rest := by
  cases m with
  | idle => exact ordered.elim
  | held | announcing => exact ⟨Mode.noConfusion, ordered⟩

theorem exec_apply {junk : Junk} {i : Instr} {new rest : List Instr} (streams : Streams pack s)
    (admitted : Exclusive s (.exec t junk)) (prog : s.prog t = i :: rest) (plain : Plain i)
    (expands : expand junk s.srv i = some new) :
    Streams pack (s.apply pack junk t i new rest) := by
  have ordered : Ordered (mode s t) (i :: rest) := by
    have lined := streams.lined t
    rw [prog] at lined
    cases i with
    | cont => exact plain.elim
    | _ => exact lined
  rcases ordered_expand ordered plain expands with
    ⟨idle, _, after⟩ | ⟨announces, later, same, after⟩
  · exact streams.of_quiet idle rfl rfl rfl rfl after
  · have others : ∀ v, v ≠ t → mode s v = .idle := by
      by_cases idle : mode s t = .idle
      · rw [Exclusive, prog] at admitted
        cases i with
        | announce => exact admitted
        | _ => cases announces idle
      · exact streams.alone idle
    refine streams.of_silent others (fun cli => ?_) rfl (fun _ _ => Iff.rfl) after
      ((held_iff s t).trans same.symm) rfl rfl
    rw [prog]
    exact owed_ordered ordered cli

theorem exec {junk : Junk} (streams : Streams pack s) (admitted : Exclusive s (.exec t junk))
    (exec : Sys.Exec pack s t junk u) : Streams pack u := by
  have lined := streams.lined t
  cases exec with
  | lock prog free =>
      rename_i rest
      rw [Exclusive, prog] at admitted
      rw [mode, prog, free] at lined
      have ordered : Ordered .held rest := lined
      refine streams.of_silent admitted (fun cli => ?_) rfl ?_ ordered (by simp) rfl rfl
      · rw [prog]
        rfl
      · intro v other
        rw [free]
        simp [Ne.symm other]
  | unlock prog mine =>
      rename_i rest
      have now := (held_iff s t).mp (decide_eq_true mine)
      rw [now, prog] at lined
      have ordered : Ordered .idle rest := lined
      have others := streams.alone (by rw [now]; exact Mode.noConfusion)
      refine streams.of_silent others (fun cli => ?_) rfl ?_ ordered (by simp) rfl rfl
      · rw [prog]
        rfl
      · intro v other
        rw [mine]
        simp [Ne.symm other]
  | send prog =>
      rename_i cli msg rest
      rw [prog] at lined
      obtain ⟨busy, ordered⟩ := ordered_of_send lined
      have whole := streams.written t (streams.alone busy) cli
      rw [prog] at whole
      refine streams.of_write busy ordered rfl rfl ?_ ?_ ?_
      · intro other apart
        exact ⟨Function.update_of_ne apart _ _, Function.update_of_ne apart _ _⟩
      · intro other _
        rw [prog]
        rfl
      · simp only [Sys.send, Function.update_self]
        exact whole.begin msg
  | done prog =>
      rename_i cli rest
      rw [prog] at lined
      obtain ⟨busy, ordered⟩ := lined
      have whole := streams.written t (streams.alone busy) cli
      rw [prog, owed, if_pos rfl] at whole
      have turn : (s.setProg t rest).prog = Function.update s.prog t (writing cli [] ++ rest) := rfl
      refine streams.of_write busy ordered turn rfl ?_ ?_ whole
      · exact fun _ _ => ⟨rfl, rfl⟩
      · intro other apart
        rw [prog, owed, if_neg (Ne.symm apart)]
  | cont prog =>
      rename_i cli piece more rest
      rw [prog] at lined
      obtain ⟨busy, ordered⟩ := lined
      have whole := streams.written t (streams.alone busy) cli
      rw [prog, owed, if_pos rfl, List.flatten_cons] at whole
      refine streams.of_write busy ordered rfl rfl ?_ ?_ ?_
      · intro other apart
        exact ⟨rfl, Function.update_of_ne apart _ _⟩
      · intro other apart
        rw [prog, owed, if_neg (Ne.symm apart)]
      · simp only [Sys.cont, Sys.setProg, Function.update_self]
        exact whole.continue
  | apply prog plain expands => exact streams.exec_apply admitted prog plain expands

theorem quiet_prog (streams : Streams pack s) (none : s.prog t = []) : mode s t = .idle := by
  have lined := streams.lined t
  rw [none] at lined
  rw [mode, none] at lined ⊢
  cases mine : decide (s.llmutex = some t) with
  | false => rfl
  | true =>
      rw [mine] at lined
      exact absurd rfl lined

theorem step {act : Act} (streams : Streams pack s) (admitted : Exclusive s act)
    (step : Sys.Step pack s act u) : Streams pack u := by
  cases step with
  | connect | produce | exit | metadata => exact ⟨streams.lined, streams.sole, streams.written⟩
  | request cli now msg _ idle =>
      refine streams.of_quiet (streams.quiet_prog idle) rfl rfl rfl rfl ?_
      cases msg with
      | MODIFY_XLATER | DESTROY_XLATER => rfl
      | _ => exact Mode.noConfusion
  | hangup cli _ idle =>
      exact streams.of_quiet (streams.quiet_prog idle) rfl rfl rfl rfl Mode.noConfusion
  | pass idle => exact streams.of_quiet (streams.quiet_prog idle) rfl rfl rfl rfl rfl
  | exec exec => exact streams.exec admitted exec

end Streams

/-- As long as the announcements without the mutex run exclusively, every socket
carries whole messages and at most one unfinished message. -/
theorem streams_intact {pack : Protobuf} {s : Sys} (reach : (server pack).Reachable Exclusive s)
    (cli : Nat) : Intact pack (s.log cli) (s.sock cli) := by
  have streams : Streams pack s := by
    refine reach.invariant ?_ fun _ _ _ streams admitted step =>
      streams.step admitted (.of_step? step)
    rintro _ ⟨srv, _, rfl⟩
    exact Streams.start srv
  obtain ⟨t, others⟩ := streams.sole
  exact ⟨⟨_, streams.written t others cli⟩, fun msg _ => msg.framed pack⟩

/-- The threads of the first two clients. -/
def pair : List Tid := [.client 0, .client 1]

/-- Only these threads run, and one of them takes the mutex or begins an announcement
only while the other is idle. -/
def paired (s : Sys) : Act → Bool
  | .connect _ _ => true
  | .request cli _ _ => decide (.client cli ∈ pair)
  | .exec t _ => decide (t ∈ pair) &&
      match (s.prog t).head? with
      | some .lock | some (.announce _ _) =>
          pair.all fun u => decide (u = t) || decide (mode s u = .idle)
      | _ => true
  | _ => false

def Paired (s : Sys) (act : Act) : Prop := paired s act = true

instance (s : Sys) (act : Act) : Decidable (Paired s act) :=
  inferInstanceAs (Decidable (paired s act = true))

/-- The other threads are not busy. -/
def Quiet (s : Sys) : Prop := ∀ v ∉ pair, s.prog v = [] ∧ s.llmutex ≠ some v

theorem Quiet.idle {s : Sys} (quiet : Quiet s) {v : Tid} (other : v ∉ pair) :
    mode s v = .idle := by
  rw [mode, (quiet v other).1, decide_eq_false (quiet v other).2]
  rfl

theorem Quiet.turn {s u : Sys} {t : Tid} {new : List Instr} (quiet : Quiet s) (served : t ∈ pair)
    (turn : u.prog = Function.update s.prog t new)
    (llmutex : u.llmutex = s.llmutex ∨ u.llmutex = some t ∨ u.llmutex = none) :
    Quiet u := by
  intro v other
  have apart : v ≠ t := fun same => other (same ▸ served)
  rw [turn, Function.update_of_ne apart]
  refine ⟨(quiet v other).1, ?_⟩
  rcases llmutex with same | mine | free
  · rw [same]
    exact (quiet v other).2
  · rw [mine]
    exact fun same => apart (Option.some.inj same).symm
  · rw [free]
    exact nofun

theorem Quiet.step {pack : Protobuf} {s u : Sys} {act : Act} (quiet : Quiet s)
    (paired : Paired s act) (step : Sys.Step pack s act u) : Quiet u := by
  cases step with
  | connect => exact quiet
  | request => exact quiet.turn (of_decide_eq_true paired) rfl (Or.inl rfl)
  | exec exec =>
      have served := of_decide_eq_true (Bool.and_eq_true_iff.mp paired).1
      cases exec with
      | lock => exact quiet.turn served rfl (Or.inr (Or.inl rfl))
      | unlock => exact quiet.turn served rfl (Or.inr (Or.inr rfl))
      | send | done | cont | apply => exact quiet.turn served rfl (Or.inl rfl)
  | _ => cases paired

/-- Two clients that take turns are served exclusively. -/
theorem Quiet.exclusive {s : Sys} {act : Act} (quiet : Quiet s) (paired : Paired s act) :
    Exclusive s act := by
  cases act with
  | exec t junk =>
      obtain ⟨_, turns⟩ := Bool.and_eq_true_iff.mp paired
      have idle (all : pair.all fun u => decide (u = t) || decide (mode s u = .idle)) :
          ∀ u, u ≠ t → mode s u = .idle := by
        intro u other
        by_cases served : u ∈ pair
        · have either := List.all_eq_true.mp all u served
          rw [decide_eq_false other, Bool.false_or] at either
          exact of_decide_eq_true either
        · exact quiet.idle served
      simp only [Exclusive]
      cases head : (s.prog t).head? with
      | none => trivial
      | some i =>
          rw [head] at turns
          cases i with
          | lock | announce => exact idle turns
          | _ => trivial
  | _ => trivial

theorem Quiet.start (srv : Server) : Quiet (Sys.start srv) := fun _ _ => ⟨rfl, nofun⟩

/-- A worker is announced to both clients, and announced again after it was modified, while
the second client waits for its reply to `GET_INFO`, of which the body is still to be
written. -/
theorem streams_intact_two : ∃ s, (server .documented).Reachable Exclusive s ∧
    (s.log 1).length = 3 ∧ Intact .documented (s.log 1) (s.sock 1) := by
  let turn (cli count : Nat) : List Act := List.replicate count (.exec (.client cli) Junk.zero)
  have run : ((server .documented).runIf? Paired (Sys.start idleServer)
      (List.flatten [[.connect false false, .connect false false,
        .request 0 0 (.CREATE_XLATER 0 0 1 (-1) [])], turn 0 14,
        [.request 0 0 (.MODIFY_XLATER 0 0 []), .request 1 0 .GET_INFO], turn 0 14,
        turn 1 4])).any (fun s => (s.log 1).length == 3) = true := by
    decide +kernel
  obtain ⟨s, run, three⟩ := (Option.any_eq_true _ _).mp run
  have exclusive := (Machine.Run.of_runIf? run).weaken
    (fun _ _ _ quiet paired step => Quiet.step quiet paired (.of_step? step))
    (fun _ _ quiet paired => quiet.exclusive paired) (Quiet.start idleServer)
  have reach : (server .documented).Reachable Exclusive s :=
    ⟨_, _, ⟨idleServer, by decide, rfl⟩, exclusive⟩
  exact ⟨s, reach, beq_iff_eq.mp three, streams_intact reach 1⟩

theorem Intact.isPrefix {pack : Protobuf} {log : List SrvMsg} {sock : List UInt8}
    (intact : Intact pack log sock) : sock <+: log.flatMap (SrvMsg.bytes pack) := by
  obtain ⟨⟨owed, written⟩, _⟩ := intact
  rcases written with ⟨rfl, rfl, _⟩ | ⟨whole, last, part, rfl, bytes, rfl⟩
  · exact List.prefix_rfl
  · refine ⟨owed, ?_⟩
    rw [List.flatMap_append, List.flatMap_singleton, bytes, List.append_assoc]

/-- The announcement of a modified worker is in the middle of its message to the
second client when that client's own thread begins the reply to `GET_INFO`. -/
theorem not_streams_intact_modify :
    ¬ ∀ s, (server .documented).Reachable Machine.Any s →
      ∀ cli, Intact .documented (s.log cli) (s.sock cli) := by
  intro intact
  let turn (cli count : Nat) : List Act := List.replicate count (.exec (.client cli) Junk.zero)
  have run : ((server .documented).run? (Sys.start idleServer)
      (List.flatten [[.connect false false, .connect false false,
        .request 0 0 (.CREATE_XLATER 0 0 1 (-1) [])], turn 0 14,
        [.request 0 0 (.MODIFY_XLATER 0 0 [])], turn 0 10,
        [.request 1 0 .GET_INFO], turn 1 3])).any (fun s =>
      ! decide (s.sock 1 <+: (s.log 1).flatMap (SrvMsg.bytes .documented))) = true := by
    decide +kernel
  obtain ⟨s, run, mixed⟩ := (Option.any_eq_true _ _).mp run
  have mixed : ¬ s.sock 1 <+: (s.log 1).flatMap (SrvMsg.bytes .documented) := by
    simpa using mixed
  exact mixed (intact s ⟨_, _, ⟨idleServer, by decide, rfl⟩, .of_run? run⟩ 1).isPrefix

end Kukuruku.Server.StreamIntegrity
