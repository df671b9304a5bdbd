import Kukuruku.Server.Connections
import Kukuruku.Server.SdrIface

/-!
# The configuration of the radio

`SET_GAIN`, `RETUNE` and `SET_PPM` write a command to `sdr_cmd` and change the
server's variables in one section under `llmutex`, and tell all clients in a
second one.  The sections of several clients may follow each other in any order.
`Hist` adds the commands to the system, in the order in which their sections ran.
-/

namespace Kukuruku.Server.RadioConfig

open Kukuruku.Server.Messages
open Kukuruku.Server.ClientParser
open Kukuruku.Server.Threads
open Kukuruku.Server.Expansion
open Kukuruku.Server.Announcements
open Kukuruku.Server.Agreement
open Kukuruku.Server.Connections
open Kukuruku.Server.SdrIface

/-- The command that a request asks for. -/
def asked : CliMsg → Option Command
  | .SET_GAIN gain => some (.gain gain)
  | .RETUNE freq => some (.tune freq)
  | .SET_PPM ppm => some (.ppm ppm)
  | _ => none

/-- The command that an instruction writes to `sdr_cmd`. -/
def command? : Instr → Option Command
  | .setGain gain => some (.gain gain)
  | .retune freq => some (.tune freq)
  | .setPpm ppm => some (.ppm ppm)
  | _ => none

/-- The `SRV_INFO` that an instruction passes on. -/
def passed : Instr → Option SRV_INFO
  | .broadcast (.info msg) _ | .foreach (.info msg) _ _ _ | .send _ (.info msg) => some msg
  | _ => none

/-- The instruction sets the configuration or tells it to clients. -/
def configures : Instr → Bool
  | .serverInfo _ => true
  | i => (command? i).isSome || (passed i).isSome

structure Hist where
  sys : Sys
  commands : List Command

def Hist.step? (pack : Protobuf) (h : Hist) (act : Act) : Option Hist :=
  (h.sys.step? pack act).map fun next =>
    ⟨next, h.commands ++ ((h.sys.next? act).bind command?).toList⟩

def recorder (pack : Protobuf) : Machine Hist Act where
  Initial h := ∃ srv, Fresh srv ∧ srv.sdr_cmd = [] ∧ h = ⟨Sys.start srv, []⟩
  step? := Hist.step? pack

/-- The fields of the requests are values of their C types. -/
def Typed (_ : Hist) : Act → Prop
  | .request _ _ msg => ∀ command ∈ asked msg, command.Fits
  | _ => True

instance (h : Hist) (act : Act) : Decidable (Typed h act) :=
  match act with
  | .request _ _ _ => inferInstanceAs (Decidable (∀ command ∈ _, Command.Fits command))
  | .connect _ _ | .hangup _ | .pass | .exec _ _ | .produce _ _ | .exit _ | .metadata _ =>
      .isTrue trivial

/-- No handler of `SET_GAIN`, `RETUNE`, `SET_PPM` or `GET_INFO` is in progress. -/
def Idle (s : Sys) : Prop :=
  ∀ cli, cli < s.connections → ∀ i ∈ s.prog (.client cli), configures i = false

instance (s : Sys) : Decidable (Idle s) :=
  inferInstanceAs (Decidable (∀ cli, cli < s.connections → _))

/-! ## The last of a kind -/

/-- The last element of a history that is of some kind. -/
def last {α β : Type*} (kind : α → Option β) (history : List α) : Option β :=
  (history.filterMap kind).getLast?

theorem last_concat {α β : Type*} (kind : α → Option β) (history : List α) (event : α) :
    last kind (history ++ [event]) = (kind event).or (last kind history) := by
  rw [last, List.filterMap_append]
  cases own : kind event with
  | none => simp [own, last]
  | some value => simp [own]

/-- A variable that takes the value of a new element of the kind is that of the last one. -/
theorem last_settled {α β : Type*} {kind : α → Option β} {history : List α} {event : α}
    {before after : β} (settled : ∀ value, last kind history = some value → before = value)
    (next : after = (kind event).getD before) (value : β)
    (found : last kind (history ++ [event]) = some value) : after = value := by
  rw [last_concat] at found
  cases own : kind event with
  | none =>
      rw [own] at next found
      rw [next]
      exact settled value found
  | some changed =>
      rw [own] at next found
      exact next.trans (Option.some.inj found)

def freq? : Command → Option Int
  | .tune freq => some freq
  | _ => none

def ppm? : Command → Option Int
  | .ppm ppm => some ppm
  | _ => none

def gain? : Command → Option Gain
  | .gain gain => some gain
  | _ => none

def info? : SrvMsg → Option SRV_INFO
  | .info msg => some msg
  | _ => none

/-- What the pipe, the server's variables and the clients have in common: the pipe
holds the commands in their order and nothing else, the variables are those of the
last commands, and the last `SRV_INFO` of a client tells the variables. -/
structure Agreed (h : Hist) : Prop where
  parsed : set_param_thr h.sys.srv.sdr_cmd = (h.commands, [])
  frequency : ∀ freq, last freq? h.commands = some freq → h.sys.srv.frequency = freq
  ppm : ∀ ppm, last ppm? h.commands = some ppm → h.sys.srv.ppm = ppm
  gain : ∀ gain, last gain? h.commands = some gain → h.sys.srv.gain = gain
  informed : ∀ cli, Connected h.sys.srv cli →
    ∀ msg, last info? (h.sys.log cli) = some msg → msg = h.sys.srv.info

/-! ## Where a thread is in its handler -/

/-- The instruction tells clients the present configuration. -/
def Current (info : SRV_INFO) : Instr → Prop
  | .serverInfo _ | .cont _ _ => True
  | i => passed i = some info

/-- The second section of a handler, after the first one. -/
def report : List Instr := [.unlock, .lock, .serverInfo none, .unlock]

/-- The handlers set the configuration and tell it under `llmutex`. -/
inductive Phase (s : Sys) (t : Tid) : List Instr → Prop where
  | apart {prog : List Instr} (none : ∀ i ∈ prog, configures i = false) : Phase s t prog
  | ask {i : Instr} {command : Command} (sets : command? i = some command)
      (fits : command.Fits) : Phase s t (.lock :: i :: report)
  | set {i : Instr} {command : Command} (held : s.llmutex = some t)
      (sets : command? i = some command) (fits : command.Fits) : Phase s t (i :: report)
  | leave (held : s.llmutex = some t) : Phase s t report
  | tell (me : Option Nat) : Phase s t [.lock, .serverInfo me, .unlock]
  | inside {new : List Instr} (held : s.llmutex = some t)
      (current : ∀ i ∈ new, Current s.srv.info i) : Phase s t (new ++ [.unlock])

section Instructions

variable {pack : Protobuf} {junk : Junk} {s : Server} {i j : Instr}

theorem configures_of_yields (yields : Yields junk s i j) (none : configures i = false) :
    configures j = false := by
  cases yields with
  | each msg | next msg | again msg =>
      cases msg with
      | info => cases none
      | _ => rfl
  | info | tellInfo => cases none
  | _ => rfl

theorem current_of_yields (yields : Yields junk s i j) (current : Current s.info i) :
    Current s.info j := by
  cases yields with
  | each msg | next msg | again msg =>
      cases msg with
      | info => exact current
      | _ => cases current
  | info | tellInfo => rfl
  | body | later => trivial
  | _ => cases current

theorem configures_of_command {command : Command} (sets : command? i = some command) :
    configures i = true := by
  cases i with
  | serverInfo => rfl
  | _ => simp [configures, sets]

theorem configures_of_passed (informs : (passed i).isSome = true) : configures i = true := by
  cases i with
  | serverInfo => rfl
  | _ => simp [configures, informs]

theorem not_yields_lock : ¬ Yields junk s .lock j := by
  rintro ⟨⟩

theorem not_yields_unlock : ¬ Yields junk s .unlock j := by
  rintro ⟨⟩

/-- An instruction that sets the configuration has done so when it has run. -/
theorem not_yields_of_command {command : Command} (sets : command? i = some command) :
    ¬ Yields junk s i j := by
  intro yields
  cases yields <;> cases sets

/-- Only the instructions that write a command change the configuration. -/
theorem effect_frame (pack : Protobuf) (junk : Junk) (s : Server) (none : command? i = none) :
    (effect pack junk s i).info = s.info ∧ (effect pack junk s i).sdr_cmd = s.sdr_cmd := by
  cases i with
  | setGain | retune | setPpm => cases none
  | disable id | destroy id =>
      simp only [effect, Server.setWorker, Server.unsubscribeAll]
      split <;> exact ⟨rfl, rfl⟩
  | walk rest =>
      obtain ⟨workers, measured, same⟩ := effect_walk pack junk s rest
      rw [same]
      exact ⟨rfl, rfl⟩
  | _ => exact ⟨rfl, rfl⟩

end Instructions

section Executions

variable {pack : Protobuf} {junk : Junk} {s u : Sys} {t v : Tid} {i : Instr} {rest : List Instr}

/-- Only `lock` and `unlock` work on the mutex. -/
theorem llmutex_exec (exec : Sys.Exec pack s t junk u) (prog : s.prog t = i :: rest) :
    u.llmutex =
      match i with
      | .lock => some t
      | .unlock => none
      | _ => s.llmutex := by
  cases exec with
  | lock first | unlock first | send first | done first | cont first =>
      obtain ⟨rfl, rfl⟩ := List.cons.inj (prog.symm.trans first)
      rfl
  | apply first plain =>
      obtain ⟨rfl, rfl⟩ := List.cons.inj (prog.symm.trans first)
      cases i with
      | lock | unlock => exact plain.elim
      | _ => rfl

/-- Whoever else holds the mutex keeps it. -/
theorem llmutex_exec_other (exec : Sys.Exec pack s t junk u) (other : v ≠ t)
    (held : s.llmutex = some v) : u.llmutex = some v := by
  cases exec with
  | lock _ free => cases held.symm.trans free
  | unlock _ own => exact absurd (Option.some.inj (held.symm.trans own)) other
  | _ => exact held

theorem info_exec (exec : Sys.Exec pack s t junk u) (prog : s.prog t = i :: rest)
    (none : command? i = none) : u.srv.info = s.srv.info := by
  rw [srv_exec exec prog]
  exact (effect_frame pack junk s.srv none).1

/-- An instruction that yields nothing leaves the rest of the program. -/
theorem prog_exec_silent (exec : Sys.Exec pack s t junk u) (prog : s.prog t = i :: rest)
    (silent : ∀ j, ¬ Yields junk s.srv i j) : u.prog t = rest := by
  obtain ⟨_, new, _, first, next, yields⟩ := turn_of_exec exec
  obtain ⟨rfl, rfl⟩ := List.cons.inj (prog.symm.trans first)
  obtain rfl : new = [] := List.eq_nil_iff_forall_not_mem.mpr fun j mem => silent j (yields j mem)
  rw [next, Function.update_self, List.nil_append]

theorem command?_of_current {info : SRV_INFO} (current : Current info i) : command? i = none := by
  cases i <;> first | rfl | cases current

end Executions

namespace Phase

variable {pack : Protobuf} {junk : Junk} {s u : Sys} {t v : Tid} {prog rest : List Instr}
  {i : Instr}

/-- A thread that does not hold the mutex does not depend on the configuration. -/
theorem frame (phase : Phase s t prog) (same : s.llmutex = some t →
    u.llmutex = some t ∧ u.srv.info = s.srv.info) : Phase u t prog := by
  cases phase with
  | apart none => exact .apart none
  | ask sets fits => exact .ask sets fits
  | set held sets fits => exact .set (same held).1 sets fits
  | leave held => exact .leave (same held).1
  | tell me => exact .tell me
  | inside held current =>
      refine .inside (same held).1 ?_
      rw [(same held).2]
      exact current

/-- A thread that is about to set or to tell the configuration holds the mutex. -/
theorem head (phase : Phase s t (i :: rest)) (busy : configures i = true) :
    s.llmutex = some t ∧
      ((∃ command, command? i = some command ∧ command.Fits ∧ rest = report) ∨
        Current s.srv.info i) := by
  generalize whole : i :: rest = prog at phase
  cases phase with
  | apart none =>
      rw [none i (whole ▸ List.mem_cons_self)] at busy
      cases busy
  | set held sets fits =>
      obtain ⟨rfl, rfl⟩ := List.cons.inj whole
      exact ⟨held, Or.inl ⟨_, sets, fits, rfl⟩⟩
  | ask | leave | tell =>
      obtain ⟨rfl, -⟩ := List.cons.inj whole
      cases busy
  | @inside new held current =>
      cases new with
      | nil =>
          obtain ⟨rfl, -⟩ := List.cons.inj whole
          cases busy
      | cons first later =>
          obtain ⟨rfl, -⟩ := List.cons.inj whole
          exact ⟨held, Or.inr (current i List.mem_cons_self)⟩

/-- Whoever sets the configuration reports the change afterwards. -/
theorem of_command {command : Command} (phase : Phase s t (i :: rest))
    (sets : command? i = some command) :
    s.llmutex = some t ∧ command.Fits ∧ rest = report := by
  obtain ⟨held, ⟨other, same, fits, rfl⟩ | now⟩ := phase.head (configures_of_command sets)
  · obtain rfl := Option.some.inj (sets.symm.trans same)
    exact ⟨held, fits, rfl⟩
  · rw [command?_of_current now] at sets
    cases sets

/-- What is passed on to clients is the present configuration. -/
theorem of_passed {info : SRV_INFO} (phase : Phase s t (i :: rest))
    (passes : passed i = some info) : info = s.srv.info := by
  have informs : (passed i).isSome = true := by rw [passes]; rfl
  obtain ⟨_, ⟨command, sets, _⟩ | now⟩ := phase.head (configures_of_passed informs)
  · cases i <;> first | cases passes | cases sets
  · cases i with
    | serverInfo | cont => cases passes
    | _ => exact Option.some.inj (passes.symm.trans now)

/-- The thread that runs goes on to the next phase. -/
theorem exec (phase : Phase s t (s.prog t)) (exec : Sys.Exec pack s t junk u) :
    Phase u t (u.prog t) := by
  generalize whole : s.prog t = prog at phase
  cases phase with
  | apart none =>
      subst whole
      exact .apart (progs_exec exec (fun i first j yields =>
        configures_of_yields yields (none i (List.mem_of_mem_head? first))) none)
  | ask sets fits =>
      rw [prog_exec_silent exec whole fun _ => not_yields_lock]
      exact .set (llmutex_exec exec whole) sets fits
  | @set i command held sets fits =>
      rw [prog_exec_silent exec whole fun j => not_yields_of_command sets]
      refine .leave ((llmutex_exec exec whole).trans ?_)
      cases i <;> first | exact held | cases sets
  | leave held =>
      rw [prog_exec_silent exec whole fun _ => not_yields_unlock]
      exact .tell none
  | tell me =>
      rw [prog_exec_silent exec whole fun _ => not_yields_lock]
      have current : ∀ i ∈ [Instr.serverInfo me], Current u.srv.info i := by
        intro i mem
        rw [List.mem_singleton.mp mem]
        trivial
      exact .inside (llmutex_exec exec whole) current
  | @inside new held current =>
      cases new with
      | nil =>
          have first : s.prog t = .unlock :: [] := whole
          rw [prog_exec_silent exec first fun _ => not_yields_unlock]
          exact .apart fun _ mem => absurd mem List.not_mem_nil
      | cons i later =>
          have now := current i List.mem_cons_self
          obtain ⟨_, new, _, first, next, yields⟩ := turn_of_exec exec
          obtain ⟨rfl, rfl⟩ := List.cons.inj (whole.symm.trans first)
          have mutex : u.llmutex = some t := by
            rw [llmutex_exec exec whole]
            cases i <;> first | exact held | cases now
          rw [next, Function.update_self, List.append_eq, ← List.append_assoc]
          refine .inside mutex ?_
          rw [info_exec exec whole (command?_of_current now)]
          intro j mem
          rcases List.mem_append.mp mem with expanded | old
          · exact current_of_yields (yields j expanded) now
          · exact current j (List.mem_cons_of_mem i old)

end Phase

/-! ## What the clients are told -/

/-- The client is named by an instruction that tells the configuration. -/
def Informs (cli : Nat) : Instr → Prop
  | .serverInfo me => me = some cli
  | .foreach (.info _) _ _ rest => cli ∈ rest
  | .send other (.info _) => other = cli
  | _ => False

/-- The instruction will send the client an `SRV_INFO`. -/
def Owes (cli : Nat) (i : Instr) : Prop :=
  i = .serverInfo none ∨ (passed i).isSome ∧ Reaches cli i

/-- The last `SRV_INFO` of the client is the present one, or another one follows. -/
def Told (s : Sys) (cli : Nat) : Prop :=
  (∀ msg, last info? (s.log cli) = some msg → msg = s.srv.info) ∨ Pending s (Owes cli)

section Instructions

variable {junk : Junk} {s : Server} {i j : Instr} {cli : Nat}

theorem informs_of_yields (yields : Yields junk s i j) (informs : Informs cli j) :
    Informs cli i ∨ Connected s cli := by
  cases yields with
  | info me => exact Or.inl (congrArg some informs)
  | each msg =>
      cases msg with
      | info =>
          obtain ⟨client, mem, rfl⟩ := List.mem_map.mp informs
          exact Or.inr ⟨client, mem, rfl⟩
      | _ => exact informs.elim
  | next msg skip current mem =>
      cases msg with
      | info =>
          obtain rfl := informs
          exact Or.inl mem
      | _ => exact informs.elim
  | again msg skip current subset =>
      cases msg with
      | info => exact Or.inl (subset cli (List.mem_cons_of_mem _ informs))
      | _ => exact informs.elim
  | _ => exact informs.elim

theorem passed_of_message {msg : SRV_INFO} (carries : message? i = some (.info msg)) :
    passed i = some msg := by
  cases i <;> cases carries <;> rfl

/-- Whoever is connected stays among those that will be told. -/
theorem owes_keep {new : List Instr} (expands : expand junk s i = some new) (plain : Plain i)
    (connected : Connected s cli) (owes : Owes cli i) : ∃ j ∈ new, Owes cli j := by
  rcases owes with rfl | ⟨informed, reaches⟩
  · obtain rfl := Option.some.inj expands
    have reaches : Reaches cli (.broadcast (.info s.info) none) := (Option.some_ne_none cli).symm
    exact ⟨_, List.mem_singleton_self _, Or.inr ⟨rfl, reaches⟩⟩
  · cases i with
    | broadcast msg | foreach msg =>
        cases msg with
        | info =>
            obtain ⟨j, mem, carries, reaches⟩ := reaches_expand expands plain connected reaches rfl
            refine ⟨j, mem, Or.inr ⟨?_, reaches⟩⟩
            rw [passed_of_message carries]
            rfl
        | _ => cases informed
    | send => exact plain.elim
    | _ => cases informed

end Instructions

section Sending

variable {pack : Protobuf} {junk : Junk} {s u : Sys} {t : Tid} {i : Instr} {rest : List Instr}
  {cli : Nat}

theorem mem_of_last {log : List SrvMsg} {msg : SRV_INFO} (found : last info? log = some msg) :
    .info msg ∈ log := by
  obtain ⟨sent, mem, kind⟩ := List.mem_filterMap.mp (List.mem_of_getLast? found)
  cases sent <;> cases kind
  exact mem

/-- Only an instruction that sends the client an `SRV_INFO` changes the last one. -/
theorem last_log_exec (exec : Sys.Exec pack s t junk u) (prog : s.prog t = i :: rest) (cli : Nat) :
    (∃ msg, i = .send cli (.info msg) ∧ last info? (u.log cli) = some msg) ∨
      (∀ msg, i ≠ .send cli (.info msg)) ∧
        last info? (u.log cli) = last info? (s.log cli) := by
  cases exec with
  | @send other msg _ first =>
      obtain ⟨rfl, rfl⟩ := List.cons.inj (prog.symm.trans first)
      by_cases own : cli = other
      · subst own
        simp only [Sys.send, Function.update_self, last_concat]
        cases msg with
        | info msg => exact Or.inl ⟨msg, rfl, rfl⟩
        | _ =>
            refine Or.inr ⟨?_, rfl⟩
            rintro msg ⟨⟩
      · refine Or.inr ⟨?_, ?_⟩
        · rintro msg ⟨⟩
          exact own rfl
        · simp only [Sys.send, Function.update_of_ne own]
  | lock first | unlock first | done first | cont first =>
      obtain ⟨rfl, rfl⟩ := List.cons.inj (prog.symm.trans first)
      refine Or.inr ⟨?_, rfl⟩
      rintro msg ⟨⟩
  | apply first plain =>
      obtain ⟨rfl, rfl⟩ := List.cons.inj (prog.symm.trans first)
      refine Or.inr ⟨?_, rfl⟩
      rintro msg rfl
      exact plain

theorem plain_of_owes (owes : Owes cli i) (other : ∀ msg, i ≠ .send cli (.info msg)) :
    Plain i := by
  rcases owes with rfl | ⟨informed, reaches⟩
  · trivial
  · cases i with
    | lock | unlock | cont => cases informed
    | send receiver msg =>
        obtain rfl : receiver = cli := reaches
        cases msg with
        | info msg => exact other msg rfl
        | _ => cases informed
    | _ => trivial

theorem told_exec (phase : Phase s t (s.prog t)) (told : Told s cli)
    (connected : Connected s.srv cli) (exec : Sys.Exec pack s t junk u) : Told u cli := by
  obtain ⟨i, new, rest, prog, next, _⟩ := turn_of_exec exec
  rw [prog] at phase
  cases command : command? i with
  | some command =>
      -- everybody is owed the change that has just been made
      obtain ⟨_, _, rfl⟩ := phase.of_command command
      refine Or.inr ⟨t, .serverInfo none, ?_, Or.inl rfl⟩
      rw [prog_exec_silent exec prog fun j => not_yields_of_command command]
      simp [report]
  | none =>
      have same := info_exec exec prog command
      rcases last_log_exec exec prog cli with ⟨msg, rfl, sent⟩ | ⟨other, log⟩
      · refine Or.inl fun told found => ?_
        obtain rfl := Option.some.inj (sent.symm.trans found)
        rw [same]
        exact phase.of_passed rfl
      · rcases told with now | pending
        · refine Or.inl ?_
          rw [log, same]
          exact now
        · refine Or.inr ?_
          rcases pending_keep prog next pending with owes | kept
          · have plain := plain_of_owes owes other
            obtain ⟨new', expands, rfl⟩ := expands_exec exec prog plain
            obtain ⟨j, mem, owed⟩ := owes_keep expands plain connected owes
            exact pending_new rfl mem owed
          · exact kept

end Sending

/-! ## Every run -/

/-- Every thread is in some phase, the socket writer in no handler; whoever is
connected is told or will be told the present configuration, nobody else anything. -/
structure Telling (s : Sys) : Prop where
  known : Known s
  phases : ∀ t, Phase s t (s.prog t)
  informs : ∀ t, ∀ i ∈ s.prog t, ∀ cli, Informs cli i → cli < s.connections
  logged : ∀ cli msg, .info msg ∈ s.log cli → cli < s.connections
  told : ∀ cli, Connected s.srv cli → Told s cli
  writer : ∀ i ∈ s.prog .writer, configures i = false

theorem informs_parse_client_req (me : Nat) (now : Int) (msg : CliMsg) :
    ∀ i ∈ parse_client_req me now msg, ∀ cli, Informs cli i → cli = me := by
  have named : ∀ i ∈ parse_client_req me now msg, ∀ cli, Informs cli i → me = cli := by
    cases msg <;> simp [parse_client_req, Informs]
  exact fun i mem cli informs => (named i mem cli informs).symm

theorem Phase.request {s : Sys} {t : Tid} (me : Nat) (now : Int) {msg : CliMsg}
    (typed : ∀ command ∈ asked msg, command.Fits) : Phase s t (parse_client_req me now msg) := by
  cases msg with
  | SET_GAIN gain => exact .ask rfl (typed (.gain gain) rfl)
  | RETUNE freq => exact .ask rfl (typed (.tune freq) rfl)
  | SET_PPM ppm => exact .ask rfl (typed (.ppm ppm) rfl)
  | GET_INFO => exact .tell (some me)
  | _ => exact .apart (by simp [parse_client_req, configures, command?, passed])

namespace Telling

variable {pack : Protobuf} {junk : Junk} {s u : Sys} {t : Tid}

theorem start (srv : Server) (fresh : Fresh srv) : Telling (Sys.start srv) where
  known := Known.start srv fresh
  phases _ := .apart fun _ mem => absurd mem List.not_mem_nil
  informs _ _ mem := absurd mem List.not_mem_nil
  logged _ _ mem := absurd mem List.not_mem_nil
  told _ _ := Or.inl fun _ found => by cases found
  writer _ mem := absurd mem List.not_mem_nil

/-- A thread that has nothing to do begins a program. -/
theorem setProg {prog : List Instr} (telling : Telling s) (known : Known (s.setProg t prog))
    (idle : s.prog t = []) (phase : Phase s t prog)
    (informs : ∀ i ∈ prog, ∀ cli, Informs cli i → cli < s.connections)
    (writer : t = .writer → ∀ i ∈ prog, configures i = false) :
    Telling (s.setProg t prog) where
  known := known
  phases v := by
    by_cases mine : v = t
    · subst mine
      rw [Sys.prog_setProg]
      exact phase.frame fun held => ⟨held, rfl⟩
    · rw [s.prog_setProg_of_ne prog mine]
      exact (telling.phases v).frame fun held => ⟨held, rfl⟩
  informs v i mem := by
    by_cases mine : v = t
    · subst mine
      rw [Sys.prog_setProg] at mem
      exact informs i mem
    · rw [s.prog_setProg_of_ne prog mine] at mem
      exact telling.informs v i mem
  logged := telling.logged
  told cli connected := by
    rcases telling.told cli connected with now | ⟨v, i, mem, owes⟩
    · exact Or.inl now
    · refine Or.inr ⟨v, i, ?_, owes⟩
      have other : v ≠ t := by
        rintro rfl
        rw [idle] at mem
        cases mem
      rwa [s.prog_setProg_of_ne prog other]
  writer i mem := by
    by_cases mine : .writer = t
    · subst mine
      rw [Sys.prog_setProg] at mem
      exact writer rfl i mem
    · rw [s.prog_setProg_of_ne prog mine] at mem
      exact telling.writer i mem

theorem exec (telling : Telling s) (exec : Sys.Exec pack s t junk u) : Telling u where
  known := telling.known.exec exec
  phases v := by
    by_cases mine : v = t
    · subst mine
      exact (telling.phases v).exec exec
    · rw [prog_exec_other exec mine]
      refine (telling.phases v).frame fun held => ⟨llmutex_exec_other exec mine held, ?_⟩
      obtain ⟨i, new, rest, prog, _⟩ := turn_of_exec exec
      have phase := telling.phases t
      rw [prog] at phase
      cases command : command? i with
      | none => exact info_exec exec prog command
      | some command =>
          have own := (phase.of_command ‹_›).1
          exact absurd (Option.some.inj (held.symm.trans own)) mine
  informs v i mem cli informs := by
    rw [connections_exec exec]
    by_cases mine : v = t
    · subst mine
      have all := progs_exec exec (P := fun j => ∀ cli, Informs cli j → cli < s.connections)
        ?_ (telling.informs v)
      · exact all i mem cli informs
      · intro j first k yields cli informs
        rcases informs_of_yields yields informs with own | joined
        · exact telling.informs v j (List.mem_of_mem_head? first) cli own
        · exact telling.known.clients cli joined
    · rw [prog_exec_other exec mine] at mem
      exact telling.informs v i mem cli informs
  logged cli msg mem := by
    rw [connections_exec exec]
    rcases mem_log_exec exec mem with before | sent
    · exact telling.logged cli msg before
    · exact telling.informs t _ sent cli rfl
  told cli connected := by
    obtain ⟨i, new, rest, prog, _⟩ := turn_of_exec exec
    rw [srv_exec exec prog] at connected
    have before := connected_effect connected
    exact told_exec (telling.phases t) (telling.told cli before) before exec
  writer := by
    by_cases mine : .writer = t
    · subst mine
      exact progs_exec exec (fun i first j yields =>
        configures_of_yields yields (telling.writer i (List.mem_of_mem_head? first)))
        telling.writer
    · rw [prog_exec_other exec mine]
      exact telling.writer

theorem step {h : Hist} {act : Act} (telling : Telling h.sys) (typed : Typed h act)
    (step : Sys.Step pack h.sys act u) : Telling u := by
  have known := telling.known.step step
  cases step with
  | connect =>
      refine ⟨known, fun t => (telling.phases t).frame fun held => ⟨held, rfl⟩,
        fun t i mem cli informs => Nat.lt_succ_of_lt (telling.informs t i mem cli informs),
        fun cli msg mem => Nat.lt_succ_of_lt (telling.logged cli msg mem), ?_, telling.writer⟩
      rintro cli ⟨client, mem, rfl⟩
      rcases List.mem_cons.mp mem with rfl | earlier
      · -- nothing has been sent to a client that has just connected
        refine Or.inl fun msg found => ?_
        exact absurd (telling.logged _ msg (mem_of_last found)) (Nat.lt_irrefl _)
      · exact telling.told _ ⟨client, earlier, rfl⟩
  | request cli now msg joined idle =>
      refine telling.setProg known idle (.request cli now typed) (fun i mem other informs => ?_)
        nofun
      rw [informs_parse_client_req cli now msg i mem other informs]
      exact telling.known.of_client? joined
  | hangup cli joined idle =>
      refine telling.setProg known idle (.apart ?_) ?_ nofun
      · simp [disconnect, configures, command?, passed]
      · simp [disconnect, Informs]
  | pass idle =>
      have apart : ∀ i ∈ socket_write_pass, configures i = false := by
        simp [socket_write_pass, configures, command?, passed]
      refine telling.setProg known idle (.apart apart) ?_ fun _ => apart
      simp [socket_write_pass, Informs]
  | exec exec => exact telling.exec exec
  | produce | exit | metadata =>
      exact ⟨known, fun t => (telling.phases t).frame fun held => ⟨held, rfl⟩, telling.informs,
        telling.logged, telling.told, telling.writer⟩

end Telling

/-- The pipe holds the commands and the variables are those of the last ones. -/
structure Settled (h : Hist) : Prop where
  written : h.sys.srv.sdr_cmd = h.commands.flatMap Command.bytes
  fits : ∀ command ∈ h.commands, command.Fits
  frequency : ∀ freq, last freq? h.commands = some freq → h.sys.srv.info.frequency = freq
  ppm : ∀ ppm, last ppm? h.commands = some ppm → h.sys.srv.info.ppm = ppm
  gain : ∀ gain, last gain? h.commands = some gain → h.sys.srv.info.gain = gain

namespace Settled

variable {pack : Protobuf} {junk : Junk} {h : Hist} {u : Sys}

/-- A step that writes no command. -/
theorem frame (settled : Settled h) (info : u.srv.info = h.sys.srv.info)
    (sdr_cmd : u.srv.sdr_cmd = h.sys.srv.sdr_cmd) : Settled ⟨u, h.commands⟩ where
  written := sdr_cmd.trans settled.written
  fits := settled.fits
  frequency freq found := (congrArg SRV_INFO.frequency info).trans (settled.frequency freq found)
  ppm ppm found := (congrArg SRV_INFO.ppm info).trans (settled.ppm ppm found)
  gain gain found := (congrArg SRV_INFO.gain info).trans (settled.gain gain found)

theorem write {i : Instr} {command : Command} (settled : Settled h)
    (sets : command? i = some command) (fits : command.Fits)
    (srv : u.srv = effect pack junk h.sys.srv i) : Settled ⟨u, h.commands ++ [command]⟩ := by
  have all : ∀ other ∈ h.commands ++ [command], other.Fits := by
    intro other mem
    rcases List.mem_append.mp mem with before | now
    · exact settled.fits other before
    · rwa [List.mem_singleton.mp now]
  have written : (effect pack junk h.sys.srv i).sdr_cmd =
      (h.commands ++ [command]).flatMap Command.bytes := by
    rw [List.flatMap_append, ← settled.written]
    cases i <;> cases sets <;> simp [effect, Command.bytes]
  refine ⟨srv ▸ written, all, last_settled settled.frequency ?_, last_settled settled.ppm ?_,
    last_settled settled.gain ?_⟩
  · rw [srv]
    cases i <;> cases sets <;> rfl
  · rw [srv]
    cases i <;> cases sets <;> rfl
  · rw [srv]
    cases i <;> cases sets <;> rfl

theorem exec {t : Tid} (settled : Settled h) (phase : Phase h.sys t (h.sys.prog t))
    (exec : Sys.Exec pack h.sys t junk u) :
    Settled ⟨u, h.commands ++ ((h.sys.next? (.exec t junk)).bind command?).toList⟩ := by
  obtain ⟨i, new, rest, prog, _⟩ := turn_of_exec exec
  have srv := srv_exec exec prog
  have next : h.sys.next? (.exec t junk) = some i := by rw [Sys.next?, prog]; rfl
  rw [prog] at phase
  rw [next, Option.bind_some]
  cases command : command? i with
  | none =>
      obtain ⟨info, sdr_cmd⟩ := effect_frame pack junk h.sys.srv command
      rw [← srv] at info sdr_cmd
      rw [Option.toList_none, List.append_nil]
      exact settled.frame info sdr_cmd
  | some command => exact settled.write ‹_› (phase.of_command ‹_›).2.1 srv

theorem step {act : Act} (settled : Settled h) (phases : ∀ t, Phase h.sys t (h.sys.prog t))
    (step : Sys.Step pack h.sys act u) :
    Settled ⟨u, h.commands ++ ((h.sys.next? act).bind command?).toList⟩ := by
  have silent : Settled ⟨u, h.commands⟩ → Settled ⟨u, h.commands ++ []⟩ := by
    intro same
    rwa [List.append_nil]
  cases step with
  | exec exec => exact settled.exec (phases _) exec
  | _ => exact silent (settled.frame rfl rfl)

end Settled

/-- When no handler is in progress, nobody is owed anything. -/
theorem not_pending_owes {s : Sys} {cli : Nat} (telling : Telling s) (idle : Idle s) :
    ¬ Pending s (Owes cli) := by
  rintro ⟨t, i, mem, owes⟩
  have busy : configures i = true := by
    rcases owes with rfl | ⟨informed, _⟩
    · rfl
    · exact configures_of_passed informed
  have apart : configures i = false := by
    cases t with
    | client cli => exact idle cli (telling.known.threads cli (List.ne_nil_of_mem mem)) i mem
    | writer => exact telling.writer i mem
  rw [busy] at apart
  cases apart

structure Configured (h : Hist) : Prop where
  telling : Telling h.sys
  settled : Settled h

namespace Configured

theorem start (srv : Server) (fresh : Fresh srv) (empty : srv.sdr_cmd = []) :
    Configured ⟨Sys.start srv, []⟩ := by
  refine ⟨.start srv fresh, empty, ?_, ?_, ?_, ?_⟩
  · rintro _ ⟨⟩
  · rintro _ ⟨⟩
  · rintro _ ⟨⟩
  · rintro _ ⟨⟩

theorem step {pack : Protobuf} {h next : Hist} {act : Act} (configured : Configured h)
    (typed : Typed h act) (step : h.step? pack act = some next) : Configured next := by
  obtain ⟨u, taken, rfl⟩ := Option.map_eq_some_iff.mp step
  have step := Sys.Step.of_step? taken
  exact ⟨configured.telling.step typed step, configured.settled.step configured.telling.phases step⟩

end Configured

/-- Whenever no handler is in progress, the pipe, the variables and the clients agree. -/
theorem agreed_of_idle {pack : Protobuf} {h : Hist} (reach : (recorder pack).Reachable Typed h)
    (idle : Idle h.sys) : Agreed h := by
  obtain ⟨telling, settled⟩ : Configured h := by
    refine reach.invariant ?_ fun _ _ _ configured typed step => configured.step typed step
    rintro _ ⟨srv, fresh, empty, rfl⟩
    exact .start srv fresh empty
  refine ⟨?_, settled.frequency, settled.ppm, settled.gain, fun cli connected => ?_⟩
  · rw [settled.written]
    exact set_param_thr_bytes settled.fits
  · exact (telling.told cli connected).resolve_right (not_pending_owes telling idle)

/-- One client tunes and another one sets the gain; the second one's report comes first. -/
theorem agreed_of_idle_crossed :
    ∃ h, (recorder .documented).Reachable Typed h ∧ Idle h.sys ∧
      h.commands = [.tune 433000000, .gain ⟨1, 2, 3, -4⟩] ∧ Connected h.sys.srv 0 ∧
      (last info? (h.sys.log 0)).isSome ∧ Agreed h := by
  let turn (cli count : Nat) : List Act := List.replicate count (.exec (.client cli) Junk.zero)
  have run : ((recorder .documented).runIf? Typed ⟨Sys.start idleServer, []⟩
      (List.flatten [[.connect false false, .connect false false,
        .request 0 0 (.RETUNE 433000000), .request 1 0 (.SET_GAIN ⟨1, 2, 3, -4⟩)],
        turn 0 3, turn 1 16, turn 0 13])).any (fun h =>
      decide (Idle h.sys ∧ h.commands = [.tune 433000000, .gain ⟨1, 2, 3, -4⟩] ∧
        Connected h.sys.srv 0 ∧ (last info? (h.sys.log 0)).isSome)) = true := by
    decide +kernel
  obtain ⟨h, run, state⟩ := (Option.any_eq_true _ _).mp run
  obtain ⟨idle, commands, connected, told⟩ := of_decide_eq_true state
  have reach : (recorder .documented).Reachable Typed h :=
    ⟨_, _, ⟨idleServer, by decide, rfl, rfl⟩, .of_runIf? run⟩
  exact ⟨h, reach, idle, commands, connected, told, agreed_of_idle reach idle⟩

end Kukuruku.Server.RadioConfig
