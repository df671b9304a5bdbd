import Kukuruku.Server.Agreement
import Kukuruku.Server.Listener

/-!
# Requests for spectrum and histogram

The server with the messages that it has handled for each client.  Both
quantities have a message to start and one to stop their transmission; the
server knows the first ones only.
-/

namespace Kukuruku.Server.MetadataRequests

open Kukuruku.Server.Messages
open Kukuruku.Server.ClientParser
open Kukuruku.Server.Threads
open Kukuruku.Server.Expansion
open Kukuruku.Server.Announcements
open Kukuruku.Server.Listener

inductive Kind where
  | spectrum
  | histo
deriving DecidableEq

namespace Kind

def enable : Kind → CliMsg
  | .spectrum => .ENABLE_SPECTRUM
  | .histo => .ENABLE_HISTO

/-- `DISABLE_SPECTRUM` and `DISABLE_HISTO`. -/
def disable : Kind → CliMsg
  | .spectrum => .unknown 14
  | .histo => .unknown 16

def flag : Kind → TcpCli → Bool
  | .spectrum => TcpCli.spectrum
  | .histo => TcpCli.histo

/-- The handler's instruction. -/
def request : Kind → Nat → Instr
  | .spectrum => .spectrum
  | .histo => .histo

/-- The instruction of `socket_write_thr` that reads the flag. -/
def offer : Kind → Nat → Metadata → Instr
  | .spectrum => .spectrumTo
  | .histo => .histoTo

def Carried : Kind → SrvMsg → Prop
  | .spectrum, .spectrum _ _ => True
  | .histo, .histo _ _ => True
  | _, _ => False

end Kind

/-! ## The handled messages -/

/-- `current` is the message whose handler a client's thread runs. -/
structure Hist where
  state : State
  current : Nat → Option CliMsg
  handled : Nat → List CliMsg

namespace Hist

def start (srv : Server) : Hist := ⟨State.start srv, fun _ => none, fun _ => []⟩

/-- The message is handled when nothing of its handler is left. -/
def finish (h : Hist) (cli : Nat) : Hist :=
  match h.current cli with
  | some msg =>
      if h.state.sys.prog (.client cli) = [] then
        { h with
          current := Function.update h.current cli none
          handled := Function.update h.handled cli (h.handled cli ++ [msg]) }
      else h
  | none => h

def record (h : Hist) (next : State) : Event → Hist
  | .thread (.request cli _ msg) =>
      finish { h with state := next, current := Function.update h.current cli (some msg) } cli
  | .thread (.exec (.client cli) _) => finish { h with state := next } cli
  | _ => { h with state := next }

def step? (pack : Protobuf) (h : Hist) (event : Event) : Option Hist :=
  (h.state.step? pack event).map fun next => h.record next event

end Hist

def recorder (pack : Protobuf) : Machine Hist Event where
  Initial h := ∃ srv, Fresh srv ∧ h = Hist.start srv
  step? := Hist.step? pack

theorem state_finish (h : Hist) (cli : Nat) : (h.finish cli).state = h.state := by
  unfold Hist.finish
  split
  · split <;> rfl
  · rfl

theorem state_record (h : Hist) (next : State) (event : Event) :
    (h.record next event).state = next := by
  unfold Hist.record
  split
  · exact state_finish _ _
  · exact state_finish _ _
  · rfl

/-- Every run of the server is a recorded one. -/
theorem recorded {pack : Protobuf} {s u : State} {events : List Event}
    (run : (listener pack).Run Machine.Any s events u) (h : Hist) (same : h.state = s) :
    ∃ last, (recorder pack).Run Machine.Any h events last ∧ last.state = u := by
  induction run generalizing h with
  | nil => exact ⟨h, .nil h, same⟩
  | @cons first next last event rest _ step _ ih =>
      obtain ⟨last', run', reached⟩ := ih (h.record next event) (state_record h next event)
      refine ⟨last', .cons trivial ?_ run', reached⟩
      have taken : h.state.step? pack event = some next := by rw [same]; exact step
      exact congrArg (Option.map fun next => h.record next event) taken

/-- The last message about the quantity asks for it. -/
def Asked (kind : Kind) (handled : List CliMsg) : Prop :=
  (handled.filter fun msg => msg = kind.enable ∨ msg = kind.disable).getLast? = some kind.enable

theorem not_asked_nil (kind : Kind) : ¬Asked kind [] := by
  rintro ⟨⟩

theorem asked_append (kind : Kind) (handled : List CliMsg) (msg : CliMsg) :
    Asked kind (handled ++ [msg]) ↔
      msg = kind.enable ∨ msg ≠ kind.disable ∧ Asked kind handled := by
  have distinct : kind.disable ≠ kind.enable := by cases kind <;> decide
  unfold Asked
  rw [List.filter_append]
  by_cases enable : msg = kind.enable
  · simp [enable]
  · by_cases disable : msg = kind.disable
    · simp [disable, distinct]
    · simp [enable, disable]

/-! ## Instructions -/

/-- The flags after an instruction. -/
theorem flag_touch (s : Server) (i : Instr) (client : TcpCli) (kind : Kind) :
    kind.flag (touch s i client) = true ↔
      kind.flag client = true ∨ i = kind.request client.cli := by
  cases i with
  | spectrum me | histo me =>
      by_cases own : client.cli = me
      · cases kind <;> simp [touch, Kind.flag, Kind.request, own]
      · cases kind <;> simp [touch, Kind.flag, Kind.request, own, Ne.symm own]
  | enable me id type =>
      by_cases own : client.cli = me <;> cases kind <;>
        simp [touch, Kind.flag, Kind.request, own]
  | disable id | destroy id =>
      by_cases running : s.worker_head.any fun worker => worker.wid = id
      · cases kind <;> simp only [touch, if_pos running] <;> simp [Kind.flag, Kind.request]
      · cases kind <;> simp only [touch, if_neg running] <;> simp [Kind.flag, Kind.request]
  | _ => cases kind <;> simp [touch, Kind.flag, Kind.request]

/-- A message about the quantity is due only to clients that ask for it. -/
def Due (handled : Nat → List CliMsg) : Instr → Prop
  | .send cli msg => ∀ kind : Kind, kind.Carried msg → Asked kind (handled cli)
  | .broadcast msg _ | .foreach msg _ _ _ => ∀ kind : Kind, ¬kind.Carried msg
  | _ => True

theorem due_mono {handled later : Nat → List CliMsg}
    (kept : ∀ kind cli, Asked kind (handled cli) → Asked kind (later cli)) {i : Instr}
    (due : Due handled i) : Due later i := by
  cases i with
  | send cli msg => exact fun kind carried => kept kind cli (due kind carried)
  | _ => exact due

theorem due_of_yields {junk : Junk} {s : Server} {i j : Instr} {handled : Nat → List CliMsg}
    (yields : Yields junk s i j) (due : Due handled i)
    (offered : ∀ (kind : Kind) cli packet, i = kind.offer cli packet →
      Asked kind (handled cli)) : Due handled j := by
  cases yields with
  | notice | tell | tellInfo | reply | info | payload =>
      intro kind
      cases kind <;> exact False.elim
  | each | again => exact due
  | next => exact fun kind carried => absurd carried (due kind)
  | spectrum packet cli header =>
      intro kind carried
      cases kind with
      | spectrum => exact offered .spectrum cli packet rfl
      | histo => exact carried.elim
  | histo packet cli header =>
      intro kind carried
      cases kind with
      | spectrum => exact carried.elim
      | histo => exact offered .histo cli packet rfl
  | _ => trivial

theorem not_request_of_yields {junk : Junk} {s : Server} {i j : Instr}
    (yields : Yields junk s i j) (kind : Kind) (cli : Nat) : j ≠ kind.request cli := by
  cases yields <;> cases kind <;> rintro ⟨⟩

section Exec

variable {pack : Protobuf} {junk : Junk} {s u : Sys} {t : Tid}

/-- A message is due only to a client whose flag is set. -/
theorem flag_of_offer {kind : Kind} {cli : Nat} {packet : Metadata} {new rest : List Instr}
    (exec : Sys.Exec pack s t junk u) (prog : s.prog t = kind.offer cli packet :: rest)
    (next : u.prog t = new ++ rest) (begun : new ≠ []) :
    ∃ client ∈ s.srv.tcp_cli_head, client.cli = cli ∧ kind.flag client = true := by
  have plain : Plain (kind.offer cli packet) := by cases kind <;> trivial
  have expands := expand_of_next exec prog next plain
  have flag : (s.srv.client? cli).any kind.flag = true := by
    by_contra unset
    refine begun ?_
    cases kind <;> simp_all [expand, Kind.offer, Kind.flag]
  obtain ⟨client, found, set⟩ := (Option.any_eq_true _ _).mp flag
  obtain ⟨connected, named⟩ := client?_mem found
  exact ⟨client, connected, named, set⟩

end Exec

/-! ## Runs -/

/-- Records come with both flags false, and no client whose flag is set asks to
stop. -/
def Obeyed (h : Hist) : Event → Prop
  | .accept spectrum histo _ => spectrum = false ∧ histo = false
  | .thread (.request cli _ msg) => ∀ kind : Kind, msg = kind.disable →
      ∀ client ∈ h.state.sys.srv.tcp_cli_head, client.cli = cli → kind.flag client = false
  | _ => True

/-- The flags are what the handled messages have asked for, and what is due to be
sent was decided by them. -/
structure Faithful (h : Hist) : Prop where
  known : ∀ client ∈ h.state.sys.srv.tcp_cli_head, client.cli < h.state.sys.connections
  fresh : ∀ cli, h.state.sys.connections ≤ cli → h.handled cli = [] ∧ h.current cli = none
  flags : ∀ client ∈ h.state.sys.srv.tcp_cli_head, ∀ kind : Kind,
    kind.flag client = true ↔ Asked kind (h.handled client.cli)
  due : ∀ t, ∀ i ∈ h.state.sys.prog t, Due h.handled i
  own : ∀ t (kind : Kind) cli, kind.request cli ∈ h.state.sys.prog t →
    t = .client cli ∧ h.state.sys.prog t = [kind.request cli] ∧ h.current cli = some kind.enable
  current : ∀ cli msg, h.current cli = some msg → h.state.sys.prog (.client cli) ≠ [] ∧
    ∀ kind : Kind, msg ≠ kind.disable ∧
      (msg = kind.enable → kind.request cli ∈ h.state.sys.prog (.client cli))

theorem finish_eq (h : Hist) (cli : Nat) :
    (h.current cli = none ∨ h.state.sys.prog (.client cli) ≠ []) ∧ h.finish cli = h ∨
      ∃ msg, h.current cli = some msg ∧ h.state.sys.prog (.client cli) = [] ∧
        h.finish cli = { h with
          current := Function.update h.current cli none
          handled := Function.update h.handled cli (h.handled cli ++ [msg]) } := by
  unfold Hist.finish
  cases waiting : h.current cli with
  | none => exact Or.inl ⟨Or.inl rfl, rfl⟩
  | some msg =>
      by_cases ended : h.state.sys.prog (.client cli) = []
      · exact Or.inr ⟨msg, rfl, ended, if_pos ended⟩
      · exact Or.inl ⟨Or.inr ended, if_neg ended⟩

theorem request_mem_parse_client_req {kind : Kind} {me cli : Nat} {now : Int} {msg : CliMsg}
    (mem : kind.request cli ∈ parse_client_req me now msg) :
    cli = me ∧ msg = kind.enable ∧ parse_client_req me now msg = [kind.request me] := by
  cases kind <;> cases msg <;> simp_all [parse_client_req, Kind.request, Kind.enable]

theorem parse_client_req_enable (kind : Kind) (me : Nat) (now : Int) :
    parse_client_req me now kind.enable = [kind.request me] := by
  cases kind <;> rfl

theorem due_parse_client_req (handled : Nat → List CliMsg) (me : Nat) (now : Int) (msg : CliMsg) :
    ∀ i ∈ parse_client_req me now msg, Due handled i := by
  cases msg <;> simp [parse_client_req, Due]

namespace Faithful

variable {pack : Protobuf} {h : Hist}

theorem start (srv : Server) (initial : Fresh srv) : Faithful (Hist.start srv) := by
  have nobody : (Hist.start srv).state.sys.srv.tcp_cli_head = [] := initial.1
  refine ⟨?_, fun _ _ => ⟨rfl, rfl⟩, ?_, ?_, ?_, ?_⟩
  · rw [nobody]
    exact fun _ mem => absurd mem List.not_mem_nil
  · rw [nobody]
    exact fun _ mem => absurd mem List.not_mem_nil
  · exact fun _ _ mem => absurd mem List.not_mem_nil
  · exact fun _ _ _ mem => absurd mem List.not_mem_nil
  · rintro _ _ ⟨⟩

theorem accept (faithful : Faithful h) (req_frames_head : List ReqFrames) :
    Faithful { h with state := h.state.accept false false req_frames_head } := by
  refine ⟨?_, ?_, ?_, faithful.due, faithful.own, faithful.current⟩
  · intro client mem
    rcases List.mem_cons.mp mem with rfl | earlier
    · exact Nat.lt_succ_self _
    · exact Nat.lt_succ_of_lt (faithful.known client earlier)
  · exact fun cli above => faithful.fresh cli (Nat.le_of_succ_le above)
  · intro client mem kind
    rcases List.mem_cons.mp mem with rfl | earlier
    · rw [(faithful.fresh _ (Nat.le_refl _)).1]
      refine iff_of_false ?_ (not_asked_nil kind)
      cases kind <;> exact Bool.false_ne_true
    · exact faithful.flags client earlier kind

theorem client_read_thr (faithful : Faithful h) (cli : Nat) :
    Faithful { h with state := h.state.client_read_thr cli } := by
  have records : ∀ client ∈ (h.state.client_read_thr cli).sys.srv.tcp_cli_head,
      ∃ before ∈ h.state.sys.srv.tcp_cli_head, client.cli = before.cli ∧
        ∀ kind : Kind, kind.flag client = kind.flag before := by
    intro client mem
    obtain ⟨before, earlier, rfl⟩ := List.mem_map.mp mem
    refine ⟨before, earlier, ?_⟩
    split
    · exact ⟨rfl, fun kind => by cases kind <;> rfl⟩
    · exact ⟨rfl, fun _ => rfl⟩
  refine ⟨?_, faithful.fresh, ?_, faithful.due, faithful.own, faithful.current⟩
  · intro client mem
    obtain ⟨before, earlier, same, _⟩ := records client mem
    rw [same]
    exact faithful.known before earlier
  · intro client mem kind
    obtain ⟨before, earlier, same, flag⟩ := records client mem
    rw [same, flag]
    exact faithful.flags before earlier kind

/-- A thread goes on with another program, and its client may have a message
handled. -/
theorem turn (faithful : Faithful h) {u : Sys} {t : Tid} {prog : List Instr}
    {current : Nat → Option CliMsg} {handled : Nat → List CliMsg}
    (next : u.prog = Function.update h.state.sys.prog t prog)
    (connections : u.connections = h.state.sys.connections)
    (flags : ∀ client ∈ u.srv.tcp_cli_head, client.cli < h.state.sys.connections ∧
      ∀ kind : Kind, kind.flag client = true ↔ Asked kind (handled client.cli))
    (fresh : ∀ cli, h.state.sys.connections ≤ cli → handled cli = [] ∧ current cli = none)
    (kept : ∀ kind cli, Asked kind (h.handled cli) → Asked kind (handled cli))
    (due : ∀ i ∈ prog, Due handled i)
    (own : ∀ (kind : Kind) cli, kind.request cli ∈ prog →
      t = .client cli ∧ prog = [kind.request cli] ∧ current cli = some kind.enable)
    (elsewhere : ∀ cli, t ≠ .client cli → current cli = h.current cli)
    (mine : ∀ cli msg, t = .client cli → current cli = some msg → prog ≠ [] ∧
      ∀ kind : Kind, msg ≠ kind.disable ∧ (msg = kind.enable → kind.request cli ∈ prog)) :
    Faithful ⟨⟨u, h.state.raw⟩, current, handled⟩ := by
  have others : ∀ v, v ≠ t → u.prog v = h.state.sys.prog v := by
    intro v other
    rw [next, Function.update_of_ne other]
  have here : u.prog t = prog := by rw [next, Function.update_self]
  refine ⟨fun client mem => ?_, fun cli above => ?_, fun client mem => (flags client mem).2,
    fun v i mem => ?_, fun v kind cli mem => ?_, fun cli msg waiting => ?_⟩
  · exact connections ▸ (flags client mem).1
  · exact fresh cli (connections ▸ above)
  · by_cases same : v = t
    · subst same
      exact due i (here ▸ mem)
    · exact due_mono kept (faithful.due v i (others v same ▸ mem))
  · by_cases same : v = t
    · subst same
      obtain ⟨thread, single, asked⟩ := own kind cli (here ▸ mem)
      exact ⟨thread, here.trans single, asked⟩
    · obtain ⟨thread, single, asked⟩ := faithful.own v kind cli (others v same ▸ mem)
      refine ⟨thread, (others v same).trans single, ?_⟩
      rw [← asked]
      exact elsewhere cli fun running => same (thread.trans running.symm)
  · by_cases same : Tid.client cli = t
    · subst same
      simp only [here]
      exact mine cli msg rfl waiting
    · have before := faithful.current cli msg ((elsewhere cli (Ne.symm same)).symm.trans waiting)
      simp only [others _ same]
      exact before

/-- A handled message that is no request to stop leaves what is asked for. -/
theorem asked_update {handled : Nat → List CliMsg} {cli : Nat} {msg : CliMsg}
    (other : ∀ kind : Kind, msg = kind.disable → ¬Asked kind (handled cli))
    (kind : Kind) (client : Nat) (asked : Asked kind (handled client)) :
    Asked kind (Function.update handled cli (handled cli ++ [msg]) client) := by
  by_cases own : client = cli
  · subst own
    rw [Function.update_self, asked_append]
    exact Or.inr ⟨fun stop => other kind stop asked, asked⟩
  · rwa [Function.update_of_ne own]

theorem asked_update_iff {handled : Nat → List CliMsg} {cli : Nat} {msg : CliMsg} {kind : Kind}
    (enable : msg ≠ kind.enable) (stops : msg = kind.disable → ¬Asked kind (handled cli))
    (client : Nat) :
    Asked kind (Function.update handled cli (handled cli ++ [msg]) client) ↔
      Asked kind (handled client) := by
  by_cases own : client = cli
  · subst own
    rw [Function.update_self, asked_append]
    exact ⟨fun asked => (asked.resolve_left enable).2,
      fun asked => Or.inr ⟨fun stop => stops stop asked, asked⟩⟩
  · rw [Function.update_of_ne own]

/-- The handler of a client's message has come to its end. -/
theorem finished (faithful : Faithful h) {u : Sys} {cli : Nat} {msg : CliMsg}
    {current : Nat → Option CliMsg} (below : cli < h.state.sys.connections)
    (next : u.prog = Function.update h.state.sys.prog (.client cli) [])
    (connections : u.connections = h.state.sys.connections)
    (elsewhere : ∀ other, other ≠ cli → current other = h.current other)
    (stops : ∀ kind : Kind, msg = kind.disable → ¬Asked kind (h.handled cli))
    (flags : ∀ client ∈ u.srv.tcp_cli_head, client.cli < h.state.sys.connections ∧
      ∀ kind : Kind, kind.flag client = true ↔
        Asked kind (Function.update h.handled cli (h.handled cli ++ [msg]) client.cli)) :
    Faithful ⟨⟨u, h.state.raw⟩, Function.update current cli none,
      Function.update h.handled cli (h.handled cli ++ [msg])⟩ := by
  have untouched : ∀ other, other ≠ cli →
      Function.update current cli none other = h.current other := by
    intro other apart
    rw [Function.update_of_ne apart, elsewhere other apart]
  refine faithful.turn next connections flags ?_ (asked_update stops)
    (fun _ mem => absurd mem List.not_mem_nil) (fun _ _ mem => absurd mem List.not_mem_nil) ?_ ?_
  · intro other above
    have apart : other ≠ cli := Nat.ne_of_gt (Nat.lt_of_lt_of_le below above)
    rw [untouched other apart, Function.update_of_ne apart]
    exact faithful.fresh other above
  · intro other running
    exact untouched other fun same => running (congrArg Tid.client same.symm)
  · rintro _ msg' ⟨⟩ waiting
    rw [Function.update_self] at waiting
    cases waiting

theorem request (faithful : Faithful h) {cli : Nat} {now : Int} {msg : CliMsg}
    (known : (h.state.sys.srv.client? cli).isSome) (idle : h.state.sys.prog (.client cli) = [])
    (obeyed : Obeyed h (.thread (.request cli now msg))) :
    Faithful (h.record
      ⟨h.state.sys.setProg (.client cli) (parse_client_req cli now msg), h.state.raw⟩
      (.thread (.request cli now msg))) := by
  obtain ⟨client, found⟩ := Option.isSome_iff_exists.mp known
  obtain ⟨connected, named⟩ := client?_mem found
  have below : cli < h.state.sys.connections := named ▸ faithful.known client connected
  have apart : ∀ other, h.state.sys.connections ≤ other → other ≠ cli := fun other above =>
    Nat.ne_of_gt (Nat.lt_of_lt_of_le below above)
  have here : (h.state.sys.setProg (.client cli) (parse_client_req cli now msg)).prog
      (.client cli) = parse_client_req cli now msg := Function.update_self _ _ _
  simp only [Hist.record]
  obtain ⟨running, same⟩ | ⟨msg', waiting, ended, done⟩ := finish_eq
    ⟨⟨h.state.sys.setProg (.client cli) (parse_client_req cli now msg), h.state.raw⟩,
      Function.update h.current cli (some msg), h.handled⟩ cli
  · rw [same]
    have busy : parse_client_req cli now msg ≠ [] := by
      simpa only [Function.update_self, reduceCtorEq, false_or, here] using running
    refine faithful.turn rfl rfl ?_ ?_ (fun _ _ asked => asked) (due_parse_client_req _ cli now msg)
      ?_ ?_ ?_
    · exact fun client mem => ⟨faithful.known client mem, faithful.flags client mem⟩
    · intro other above
      rw [Function.update_of_ne (apart other above)]
      exact faithful.fresh other above
    · intro kind other mem
      obtain ⟨rfl, rfl, single⟩ := request_mem_parse_client_req mem
      exact ⟨rfl, single, Function.update_self _ _ _⟩
    · intro other running
      exact Function.update_of_ne (fun same => running (congrArg Tid.client same.symm)) _ _
    · rintro _ msg' ⟨⟩ waiting
      rw [Function.update_self] at waiting
      obtain rfl := Option.some.inj waiting
      refine ⟨busy, fun kind => ⟨?_, ?_⟩⟩
      · rintro rfl
        cases kind <;> exact busy rfl
      · rintro rfl
        rw [parse_client_req_enable]
        exact List.mem_singleton_self _
  · rw [done]
    have begun : Function.update h.current cli (some msg) cli = some msg :=
      Function.update_self _ _ _
    obtain rfl : msg = msg' := Option.some.inj (begun.symm.trans waiting)
    have nothing : parse_client_req cli now msg = [] := here.symm.trans ended
    have enable : ∀ kind : Kind, msg ≠ kind.enable := by
      rintro kind rfl
      rw [parse_client_req_enable] at nothing
      cases nothing
    have stops : ∀ kind : Kind, msg = kind.disable → ¬Asked kind (h.handled cli) := by
      intro kind stop asked
      have unset := obeyed kind stop client connected named
      have set := (faithful.flags client connected kind).mpr (named.symm ▸ asked)
      rw [unset] at set
      cases set
    have elsewhere : ∀ other, other ≠ cli →
        Function.update h.current cli (some msg) other = h.current other :=
      fun other apart => Function.update_of_ne apart _ _
    rw [nothing]
    refine faithful.finished below rfl rfl elsewhere stops
      fun client mem => ⟨faithful.known client mem, fun kind => ?_⟩
    exact (faithful.flags client mem kind).trans
      (asked_update_iff (enable kind) (stops kind) client.cli).symm

section Exec

variable {junk : Junk} {u : Sys} {t : Tid} {i : Instr} {new rest : List Instr}

theorem due_exec (faithful : Faithful h) (exec : Sys.Exec pack h.state.sys t junk u)
    (prog : h.state.sys.prog t = i :: rest)
    (next : u.prog = Function.update h.state.sys.prog t (new ++ rest))
    (yields : ∀ j ∈ new, Yields junk h.state.sys.srv i j) :
    ∀ j ∈ new ++ rest, Due h.handled j := by
  have reached : u.prog t = new ++ rest := by rw [next, Function.update_self]
  intro j mem
  rcases List.mem_append.mp mem with expanded | later
  · refine due_of_yields (yields j expanded) (faithful.due t i (prog ▸ List.mem_cons_self)) ?_
    rintro kind cli packet rfl
    obtain ⟨client, connected, rfl, set⟩ :=
      flag_of_offer exec prog reached (List.ne_nil_of_mem expanded)
    exact (faithful.flags client connected kind).mp set
  · exact faithful.due t j (prog ▸ List.mem_cons_of_mem i later)

theorem not_request_exec (faithful : Faithful h) (prog : h.state.sys.prog t = i :: rest)
    (yields : ∀ j ∈ new, Yields junk h.state.sys.srv i j) (kind : Kind) (cli : Nat) :
    kind.request cli ∉ new ++ rest := by
  intro mem
  rcases List.mem_append.mp mem with expanded | later
  · exact not_request_of_yields (yields _ expanded) kind cli rfl
  · have single := (faithful.own t kind cli (prog ▸ List.mem_cons_of_mem i later)).2.1
    rw [prog] at single
    obtain rfl := (List.cons.inj single).2
    cases later

/-- The records of the clients after an instruction. -/
theorem records_exec (faithful : Faithful h) (exec : Sys.Exec pack h.state.sys t junk u)
    (prog : h.state.sys.prog t = i :: rest) {client : TcpCli}
    (mem : client ∈ u.srv.tcp_cli_head) :
    client.cli < h.state.sys.connections ∧ ∀ kind : Kind, kind.flag client = true ↔
      Asked kind (h.handled client.cli) ∨ i = kind.request client.cli := by
  rw [srv_exec exec prog] at mem
  obtain ⟨before, earlier, rfl⟩ := mem_tcp_cli_head_effect mem
  rw [cli_touch]
  refine ⟨faithful.known before earlier, fun kind => ?_⟩
  rw [flag_touch, faithful.flags before earlier]

/-- The handler of a request sets the flag. -/
theorem exec_request (faithful : Faithful h) {kind : Kind} {cli : Nat}
    (exec : Sys.Exec pack h.state.sys t junk u)
    (prog : h.state.sys.prog t = kind.request cli :: rest) :
    Faithful (h.record ⟨u, h.state.raw⟩ (.thread (.exec t junk))) := by
  have records := fun client (mem : client ∈ u.srv.tcp_cli_head) =>
    faithful.records_exec exec prog mem
  obtain ⟨rfl, single, asked⟩ := faithful.own t kind cli (prog ▸ List.mem_cons_self)
  obtain rfl : rest = [] := (List.cons.inj (prog.symm.trans single)).2
  have plain : Plain (kind.request cli) := by cases kind <;> trivial
  obtain ⟨new, expands, rfl⟩ := expands_exec exec prog plain
  obtain rfl : new = [] := by cases kind <;> exact (Option.some.inj expands).symm
  have below : cli < h.state.sys.connections := by
    by_contra above
    rw [(faithful.fresh cli (Nat.le_of_not_lt above)).2] at asked
    cases asked
  have ended : (h.state.sys.apply pack junk (.client cli) (kind.request cli) [] []).prog
      (.client cli) = [] := Function.update_self _ _ _
  have stops : ∀ other : Kind, kind.enable = other.disable → ¬Asked other (h.handled cli) := by
    intro other stop
    cases kind <;> cases other <;> cases stop
  simp only [Hist.record]
  obtain ⟨running, _⟩ | ⟨msg, waiting, _, done⟩ := finish_eq
    { h with state := ⟨h.state.sys.apply pack junk (.client cli) (kind.request cli) [] [],
      h.state.raw⟩ } cli
  · rcases running with idle | busy
    · rw [show h.current cli = none from idle] at asked
      cases asked
    · exact absurd ended busy
  · rw [done]
    obtain rfl : kind.enable = msg := Option.some.inj (asked.symm.trans waiting)
    refine faithful.finished below rfl rfl (fun _ _ => rfl) stops fun client mem => ?_
    obtain ⟨known, flag⟩ := records client mem
    refine ⟨known, fun other => (flag other).trans ?_⟩
    by_cases own : client.cli = cli
    · have same : kind.request cli = other.request cli ↔ kind.enable = other.enable := by
        cases kind <;> cases other <;> simp [Kind.request, Kind.enable]
      have distinct : kind.enable ≠ other.disable := by
        cases kind <;> cases other <;> rintro ⟨⟩
      simp only [own, Function.update_self, asked_append, same, distinct, ne_eq,
        not_false_eq_true, true_and]
      exact or_comm
    · have elsewhere : kind.request cli ≠ other.request client.cli := by
        cases kind <;> cases other <;> simp [Kind.request, Ne.symm own]
      simp only [Function.update_of_ne own, elsewhere, or_false]

theorem exec (faithful : Faithful h) (exec : Sys.Exec pack h.state.sys t junk u) :
    Faithful (h.record ⟨u, h.state.raw⟩ (.thread (.exec t junk))) := by
  obtain ⟨i, new, rest, prog, next, yields⟩ := turn_of_exec exec
  by_cases req : ∃ (kind : Kind) (cli : Nat), i = kind.request cli
  · obtain ⟨kind, cli, rfl⟩ := req
    exact faithful.exec_request exec prog
  have due := faithful.due_exec exec prog next yields
  have none := faithful.not_request_exec prog yields
  have connections := connections_exec exec
  have flags : ∀ client ∈ u.srv.tcp_cli_head, client.cli < h.state.sys.connections ∧
      ∀ kind : Kind, kind.flag client = true ↔ Asked kind (h.handled client.cli) := by
    intro client mem
    obtain ⟨below, flag⟩ := faithful.records_exec exec prog mem
    refine ⟨below, fun kind => (flag kind).trans (or_iff_left ?_)⟩
    exact fun same => req ⟨kind, client.cli, same⟩
  have other : ∀ cli msg, t = .client cli → h.current cli = some msg → ∀ kind : Kind,
      msg ≠ kind.disable ∧ msg ≠ kind.enable := by
    rintro cli msg rfl waiting kind
    obtain ⟨_, each⟩ := faithful.current cli msg waiting
    refine ⟨(each kind).1, fun same => ?_⟩
    have single := (faithful.own _ kind cli ((each kind).2 same)).2.1
    rw [prog] at single
    exact req ⟨kind, cli, (List.cons.inj single).1⟩
  cases t with
  | writer =>
      exact faithful.turn next connections flags faithful.fresh (fun _ _ asked => asked) due
        (fun kind cli mem => absurd mem (none kind cli)) (fun _ _ => rfl) (by rintro cli msg ⟨⟩)
  | client cli =>
      have here : u.prog (.client cli) = new ++ rest := by rw [next, Function.update_self]
      simp only [Hist.record]
      obtain ⟨running, same⟩ | ⟨msg, waiting, ended, done⟩ := finish_eq
        { h with state := ⟨u, h.state.raw⟩ } cli
      · rw [same]
        refine faithful.turn next connections flags faithful.fresh (fun _ _ asked => asked) due
          (fun kind cli mem => absurd mem (none kind cli)) (fun _ _ => rfl) ?_
        rintro _ msg ⟨⟩ waiting
        have busy : new ++ rest ≠ [] := by
          rw [← here]
          refine running.resolve_left ?_
          rw [show h.current cli = some msg from waiting]
          exact Option.some_ne_none msg
        refine ⟨busy, fun kind => ?_⟩
        obtain ⟨disable, enable⟩ := other cli msg rfl waiting kind
        exact ⟨disable, fun same => absurd same enable⟩
      · rw [done]
        have below : cli < h.state.sys.connections := by
          by_contra above
          have idle := (faithful.fresh cli (Nat.le_of_not_lt above)).2
          rw [show h.current cli = some msg from waiting] at idle
          cases idle
        have stops : ∀ kind : Kind, msg = kind.disable → ¬Asked kind (h.handled cli) :=
          fun kind stop => absurd stop (other cli msg rfl waiting kind).1
        have empty : u.prog = Function.update h.state.sys.prog (.client cli) [] := by
          rw [next, ← here, show u.prog (.client cli) = [] from ended]
        refine faithful.finished below empty connections (fun _ _ => rfl) stops fun client mem => ?_
        obtain ⟨known, flag⟩ := flags client mem
        refine ⟨known, fun kind => (flag kind).trans ?_⟩
        exact (asked_update_iff (other cli msg rfl waiting kind).2 (stops kind) client.cli).symm

end Exec

theorem step {event : Event} {u : State} (faithful : Faithful h) (obeyed : Obeyed h event)
    (step : State.Step pack h.state event u) : Faithful (h.record u event) := by
  cases step with
  | accept spectrum histo req_frames_head =>
      obtain ⟨rfl, rfl⟩ := obeyed
      exact faithful.accept req_frames_head
  | client_read_thr cli => exact faithful.client_read_thr cli
  | thread started step =>
      have same := fun client (mem : client ∈ h.state.sys.srv.tcp_cli_head) =>
        And.intro (faithful.known client mem) (faithful.flags client mem)
      cases step with
      | connect => cases started
      | request cli now msg known idle => exact faithful.request known idle obeyed
      | hangup cli known idle =>
          refine faithful.turn rfl rfl same faithful.fresh (fun _ _ asked => asked) ?_ ?_
            (fun _ _ => rfl) ?_
          · simp [disconnect, Due]
          · intro kind other mem
            cases kind <;> simp [disconnect, Kind.request] at mem
          · rintro _ msg ⟨⟩ waiting
            exact absurd idle (faithful.current cli msg waiting).1
      | pass =>
          refine faithful.turn rfl rfl same faithful.fresh (fun _ _ asked => asked) ?_ ?_
            (fun _ _ => rfl) (by rintro cli msg ⟨⟩)
          · simp [socket_write_pass, Due]
          · intro kind other mem
            cases kind <;> simp [socket_write_pass, Kind.request] at mem
      | exec exec => exact faithful.exec exec
      | produce | exit | metadata =>
          exact ⟨faithful.known, faithful.fresh, faithful.flags, faithful.due, faithful.own,
            faithful.current⟩

end Faithful

theorem faithful {pack : Protobuf} {h : Hist} (reach : (recorder pack).Reachable Obeyed h) :
    Faithful h := by
  refine reach.invariant ?_ ?_
  · rintro _ ⟨srv, initial, rfl⟩
    exact .start srv initial
  · intro h event _ faithful obeyed step
    obtain ⟨u, taken, rfl⟩ := Option.map_eq_some_iff.mp step
    exact faithful.step obeyed (.of_step? taken)

/-- While memory is zero and nobody stops listening, the payloads follow the
requests: one is begun only for a client whose last request about it was to
start. -/
theorem payloads_follow_requests {pack : Protobuf} {h : Hist}
    (reach : (recorder pack).Reachable Obeyed h) {t : Tid} {cli : Nat} {msg : SrvMsg}
    {rest : List Instr} (sends : h.state.sys.prog t = .send cli msg :: rest) {kind : Kind}
    (carried : kind.Carried msg) : Asked kind (h.handled cli) := by
  have due : Due h.handled (.send cli msg) := (faithful reach).due t _ (sends ▸ List.mem_cons_self)
  exact due kind carried

/-- A frame's metadata without spectrum values. -/
def quietPacket : Metadata := ⟨⟨[], by decide⟩, ⟨List.replicate HISTOGRAM_RES 0, by simp⟩, 0, 0⟩

/-- The first spectrum of a client that has asked for it. -/
theorem payloads_follow_requests_enabled :
    ∃ h rest, (recorder .documented).Reachable Obeyed h ∧
      h.state.sys.prog .writer =
        .send 0 (.spectrum ⟨-1, 0, 0, 0⟩ quietPacket.spectrum) :: rest ∧
      Asked .spectrum (h.handled 0) := by
  obtain ⟨h, run, rest, sends⟩ : ∃ h, (recorder .documented).Run Obeyed (Hist.start idleServer)
      [.accept false false [], .client_read_thr 0, .thread (.request 0 0 .ENABLE_SPECTRUM),
        .thread (.exec (.client 0) Junk.zero), .thread (.metadata quietPacket), .thread .pass,
        .thread (.exec .writer Junk.zero), .thread (.exec .writer Junk.zero),
        .thread (.exec .writer Junk.zero), .thread (.exec .writer Junk.zero),
        .thread (.exec .writer Junk.zero)] h ∧
      ∃ rest, h.state.sys.prog .writer =
        .send 0 (.spectrum ⟨-1, 0, 0, 0⟩ quietPacket.spectrum) :: rest := by
    refine ⟨_, .cons ⟨rfl, rfl⟩ rfl (.cons trivial rfl (.cons ?_ rfl (.cons trivial rfl
      (.cons trivial rfl (.cons trivial rfl (.cons trivial rfl (.cons trivial rfl
      (.cons trivial rfl (.cons trivial rfl (.cons trivial rfl (.nil _))))))))))), _, rfl⟩
    intro kind stop
    cases kind <;> cases stop
  have reach : (recorder .documented).Reachable Obeyed h :=
    ⟨_, _, ⟨idleServer, by decide, rfl⟩, run⟩
  have spectrum : Kind.Carried .spectrum (.spectrum ⟨-1, 0, 0, 0⟩ quietPacket.spectrum) := trivial
  exact ⟨h, rest, reach, sends, payloads_follow_requests reach sends spectrum⟩

/-- A client that has asked for the spectrum and then to stop it is sent one. -/
theorem not_payloads_follow_requests_disabled :
    ¬∀ h : Hist, (recorder .documented).Reachable Machine.Any h → ∀ t cli msg rest,
      h.state.sys.prog t = .send cli msg :: rest → ∀ kind : Kind, kind.Carried msg →
        Asked kind (h.handled cli) := by
  intro follow
  obtain ⟨h, run, rest, sends, handled⟩ : ∃ h, (recorder .documented).run? (Hist.start idleServer)
      (List.flatten [[.accept false false [], .client_read_thr 0,
        .thread (.request 0 0 .ENABLE_SPECTRUM), .thread (.exec (.client 0) Junk.zero),
        .thread (.request 0 0 (.unknown 14)), .thread (.metadata quietPacket), .thread .pass],
        List.replicate 5 (.thread (.exec .writer Junk.zero))]) = some h ∧
      ∃ rest, h.state.sys.prog .writer =
          .send 0 (.spectrum ⟨-1, 0, 0, 0⟩ quietPacket.spectrum) :: rest ∧
        h.handled 0 = [.ENABLE_SPECTRUM, .unknown 14] := ⟨_, rfl, _, rfl, rfl⟩
  have asked := follow h ⟨_, _, ⟨idleServer, by decide, rfl⟩, .of_run? run⟩ _ _ _ _ sends .spectrum
    trivial
  rw [handled] at asked
  cases asked

end Kukuruku.Server.MetadataRequests
