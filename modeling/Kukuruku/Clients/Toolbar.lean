import Kukuruku.Clients.EngNum
import Kukuruku.Clients.Requests
import Kukuruku.Server.RadioConfig
import Kukuruku.Server.Subscriptions

/-!
# The boxes of the toolbar

The boxes for frequency, clock correction and gain show what the last `SRV_INFO` told, and
Enter sends what a box has.  `Desk` is a window together with the server and all its other
clients, who set the radio as well.
-/

namespace Kukuruku.Clients.Toolbar

open Kukuruku.Decimal Kukuruku.PythonNumerals
open Kukuruku.Server
open Kukuruku.Server.Messages
open Kukuruku.Server.ClientParser (Server Junk)
open Kukuruku.Server.Threads (Sys)
open Kukuruku.Server.Agreement (Connected)
open Kukuruku.Server.RadioConfig
open Kukuruku.Server.SdrIface (Command)
open Kukuruku.Clients.EngNum (engnum)
open Kukuruku.Clients.Requests (toInt? Call)

/-! ## The boxes -/

inductive Box where
  | freq
  | ppm
  | gain
deriving DecidableEq

/-- The globals behind the boxes, and the texts in them. -/
structure Boxes where
  frequency : Number
  ppm : Int
  samplerate : Int
  text : Box → List Char

/-- `"%i,%i,%i,%i"`. -/
def gainText (gain : Gain) : List Char :=
  List.intercalate [','] [decimal gain.autogain, decimal gain.global_gain, decimal gain.if_gain,
    decimal gain.bb_gain]

/-- The texts that `info_cb` sets. -/
def shown (msg : SRV_INFO) : Box → List Char
  | .freq => decimal msg.frequency
  | .ppm => decimal msg.ppm
  | .gain => gainText msg.gain

/-- Extract information from INFO message. -/
def info_cb (msg : SRV_INFO) : Boxes where
  frequency := .int msg.frequency
  ppm := msg.ppm
  samplerate := msg.samplerate
  text := shown msg

/-- What happens in the toolbar. -/
inductive Event where
  | type (box : Box) (text : List Char)
  | enter (box : Box)
  | move (up : Bool)

section Events

variable (py : Python) (str : Number → List Char) (tb : Boxes)

/-- Handle edit in the Frequency textbox.  The empty text has no last character, and zero
is not sent. -/
def on_freq_change : Boxes × Option CliMsg :=
  match (engnum py (.text (tb.text .freq))).bind fun x => x.bind toInt? with
  | some newf =>
      if newf = 0 then (tb, none)
      else
        match Requests.sent 0 (.set_frequency (.int newf)) with
        | some msg => ({ tb with frequency := .int newf }, some msg)
        | none => (tb, none)
  | none => (tb, none)

/-- Handle edit in the PPM textbox. -/
def on_ppm_change : Boxes × Option CliMsg :=
  let ppm := (py.int (tb.text .ppm)).getD tb.ppm
  ({ tb with ppm := ppm, text := Function.update tb.text .ppm (decimal ppm) },
    Requests.sent 0 (.set_ppm ppm))

/-- Handle edit in the Gain textbox. -/
def on_gain_change : Boxes × Option CliMsg :=
  let l := ((tb.text .gain).splitOn ',').map fun p => (py.int p).getD 0
  (tb, Requests.sent 0 (.set_gain l))

/-- Enter is pressed in a box. -/
def on_enter : Box → Boxes × Option CliMsg
  | .freq => on_freq_change py tb
  | .ppm => on_ppm_change py tb
  | .gain => on_gain_change py tb

/-- A number moved by a float. -/
def moved (x : Number) (delta : ℚ) : Number :=
  match x with
  | .int n => .float (.finite (n + delta))
  | .float (.finite q) => .float (.finite (q + delta))
  | .float other => .float other

/-- Frequency '>' and '<' button; an exception leaves the text. -/
def on_freq_move (up : Bool) : Boxes × Option CliMsg :=
  let delta : ℚ := tb.samplerate * (4 / 5)
  let frequency := moved tb.frequency (if up then delta else -delta)
  let tb := { tb with frequency := frequency }
  match Requests.sent 0 (.set_frequency frequency) with
  | some msg => ({ tb with text := Function.update tb.text .freq (str frequency) }, some msg)
  | none => (tb, none)

def handleEvent : Event → Boxes × Option CliMsg
  | .type box text => ({ tb with text := Function.update tb.text box text }, none)
  | .enter box => on_enter py tb box
  | .move up => on_freq_move str tb up

end Events

/-! ## A window and the server -/

/-- `read` messages of the client's log have been received, and `msgq` is on its way to the
server.  The window is there from the first `SRV_INFO` on; `touched` are the boxes whose
texts have changed since the last one. -/
structure Desk where
  server : Hist
  read : Nat
  msgq : List CliMsg
  toolbar : Option Boxes
  touched : Box → Bool

/-- `call` is a call of the library that does not come from the toolbar. -/
inductive Act where
  | server (act : Threads.Act)
  | call (xln : Nat) (call : Call)
  | receive
  | event (event : Event)

section Steps

variable (py : Python) (str : Number → List Char) (pack : Protobuf) (me : Nat)

/-- The requests of the client come out of its queue. -/
def Desk.take? (d : Desk) : Threads.Act → Option (List CliMsg)
  | .request cli _ msg =>
      if cli = me then if d.msgq.head? = some msg then some d.msgq.tail else none
      else some d.msgq
  | _ => some d.msgq

def Desk.hear (d : Desk) : SrvMsg → Desk
  | .info msg =>
      { d with read := d.read + 1, toolbar := some (info_cb msg), touched := fun _ => false }
  | _ => { d with read := d.read + 1 }

def Desk.step? (d : Desk) : Act → Option Desk
  | .server act => do
      let msgq ← d.take? me act
      let server ← d.server.step? pack act
      return { d with server := server, msgq := msgq }
  | .call xln call => some { d with msgq := d.msgq ++ (Requests.sent xln call).toList }
  | .receive => (d.server.sys.log me)[d.read]?.map d.hear
  | .event event =>
      d.toolbar.map fun tb =>
        let done := handleEvent py str tb event
        { d with
          msgq := d.msgq ++ done.2.toList
          toolbar := some done.1
          touched := fun box => d.touched box || decide (done.1.text box ≠ tb.text box) }

/-- What the radio can be asked to be, as it is. -/
def setting (info : SRV_INFO) : Box → Command
  | .freq => .tune info.frequency
  | .ppm => .ppm info.ppm
  | .gain => .gain info.gain

/-- The variables of a server that starts are values of their C types. -/
def desk : Machine Desk Act where
  Initial d :=
    (recorder pack).Initial d.server ∧ (∀ box, (setting d.server.sys.srv.info box).Fits) ∧
      d.read = 0 ∧ d.msgq = [] ∧ d.toolbar = none
  step? := Desk.step? py str pack me

end Steps

def Typed (d : Desk) : Act → Prop
  | .server act => RadioConfig.Typed d.server act
  | _ => True

instance (d : Desk) (act : Act) : Decidable (Typed d act) :=
  match act with
  | .server act => inferInstanceAs (Decidable (RadioConfig.Typed d.server act))
  | .call _ _ | .receive | .event _ => .isTrue trivial

/-! ## Numbers that are printed -/

section Printed

variable {py : Python}

/-- The interpreter reads numbers of twenty digits, and more. -/
def Reads (py : Python) : Prop := py.int_max_str_digits = 0 ∨ 20 ≤ py.int_max_str_digits

/-- `int` reads what is printed of a number of 64 bits. -/
theorem int_printed_of_int64 (reads : Reads py) {n : Int} (fits : SdrIface.Int64 n) :
    py.int (decimal n) = some n := by
  obtain ⟨low, high⟩ := fits
  have below : n.natAbs < 100000000000000000000 := by omega
  have most : (Nat.toDigits 10 n.natAbs).length ≤ 20 :=
    (Nat.length_toDigits_le_iff (by decide) (by decide)).mpr below
  exact int_printed (reads.imp_right most.trans)

theorem int_printed_of_int32 (reads : Reads py) {n : Int} (fits : SdrIface.Int32 n) :
    py.int (decimal n) = some n := by
  obtain ⟨low, high⟩ := fits
  exact int_printed_of_int64 reads ⟨by omega, by omega⟩

/-- `engnum` reads it as well: no digit is a suffix. -/
theorem engnum_decimal (reads : Reads py) {n : Int} (fits : SdrIface.Int64 n) :
    engnum py (.text (decimal n)) = some (some (.int n)) := by
  obtain ⟨s, c, shape⟩ : ∃ s c, decimal n = s ++ [c] :=
    ⟨_, _, (List.dropLast_append_getLast (decimal_ne_nil n)).symm⟩
  have letter : c ∉ EngNum.letters := by
    intro suffix
    have foreign : py.Foreign c := EngNum.letters_foreign suffix
    rcases minus_or_digit (shape ▸ List.mem_append_right s List.mem_cons_self :
      c ∈ decimal n) with rfl | digit
    · exact absurd (by decide) foreign.mark
    · have none := foreign.digit
      rw [Python.digit, if_pos digit] at none
      cases none
  rw [engnum, shape, EngNum.reads_plain letter, EngNum.value?_plain letter, ← shape,
    int_printed_of_int64 reads fits]
  rfl

theorem splitOn_gainText (gain : Gain) : (gainText gain).splitOn ',' =
    [decimal gain.autogain, decimal gain.global_gain, decimal gain.if_gain,
      decimal gain.bb_gain] := by
  refine List.splitOn_intercalate ',' ?_ (List.cons_ne_nil _ _)
  have plain (n : Int) : ',' ∉ decimal n := fun member =>
    (minus_or_digit member).elim (by decide) (by decide)
  intro text member
  simp only [List.mem_cons, List.not_mem_nil, or_false] at member
  rcases member with rfl | rfl | rfl | rfl <;> exact plain _

end Printed

/-! ## Enter in a box that shows the radio -/

/-- The request for what a box shows; a frequency of zero is not sent. -/
def again (info : SRV_INFO) : Box → Option CliMsg
  | .freq => if info.frequency = 0 then none else some (.RETUNE info.frequency)
  | .ppm => some (.SET_PPM info.ppm)
  | .gain => some (.SET_GAIN info.gain)

section Enter

variable {py : Python} {msg : SRV_INFO} {tb : Boxes}

/-- Enter in a box that shows `msg` asks for what it shows, and the texts stay. -/
theorem on_enter_shown (reads : Reads py) (fits : ∀ box, (setting msg box).Fits) {box : Box}
    (shows : tb.text box = shown msg box) :
    (on_enter py tb box).2 = again msg box ∧ (on_enter py tb box).1.text = tb.text := by
  have own := fits box
  cases box with
  | freq =>
      have read : (engnum py (.text (tb.text .freq))).bind (fun x => x.bind toInt?) =
          some msg.frequency := by
        rw [shows, shown, engnum_decimal reads own]
        rfl
      rw [on_enter, on_freq_change, read]
      by_cases zero : msg.frequency = 0
      · simp only [again, if_pos zero]
        exact ⟨trivial, trivial⟩
      · have sent : Requests.sent 0 (.set_frequency (.int msg.frequency)) =
            some (.RETUNE msg.frequency) := if_pos (decide_eq_true own)
        simp only [again, if_neg zero, sent]
        exact ⟨trivial, trivial⟩
  | ppm =>
      have read : (py.int (tb.text .ppm)).getD tb.ppm = msg.ppm := by
        rw [shows, shown, int_printed_of_int32 reads own]
        rfl
      have sent : Requests.sent 0 (.set_ppm msg.ppm) = some (.SET_PPM msg.ppm) :=
        if_pos (decide_eq_true own)
      simp only [on_enter, on_ppm_change, read, sent]
      refine ⟨rfl, ?_⟩
      rw [show decimal msg.ppm = tb.text .ppm from shows.symm, Function.update_eq_self]
  | gain =>
      obtain ⟨autogain, global, if_gain, bb⟩ := own
      have read : ((tb.text .gain).splitOn ',').map (fun p => (py.int p).getD 0) =
          [msg.gain.autogain, msg.gain.global_gain, msg.gain.if_gain, msg.gain.bb_gain] := by
        rw [shows, shown, splitOn_gainText]
        simp only [List.map_cons, List.map_nil, int_printed_of_int32 reads autogain,
          int_printed_of_int32 reads global, int_printed_of_int32 reads if_gain,
          int_printed_of_int32 reads bb, Option.getD_some]
      rw [on_enter, on_gain_change, read]
      exact ⟨if_pos (decide_eq_true ⟨autogain, global, if_gain, bb⟩), rfl⟩

/-- The server that handles the request stays as it is configured. -/
theorem info_handle_again {srv : Server} {box : Box} {request : CliMsg}
    (asks : request ∈ again srv.info box) (pack : Protobuf) (junk : Junk) (me : Nat) (now : Int) :
    (Subscriptions.handle pack junk srv me now request).info = srv.info := by
  cases box with
  | freq =>
      rw [again] at asks
      split at asks
      · cases asks
      · obtain rfl := Option.some.inj asks
        rfl
  | ppm | gain =>
      obtain rfl := Option.some.inj asks
      rfl

end Enter

/-! ## What an untouched box shows -/

section Runs

variable {py : Python} {str : Number → List Char} {pack : Protobuf} {me : Nat}

/-- The texts of the untouched boxes are those of the last `SRV_INFO` that was received, and
the configuration stays within the C types. -/
structure Inv (me : Nat) (d : Desk) : Prop where
  configured : Configured d.server
  fits : ∀ box, (setting d.server.sys.srv.info box).Fits
  arrived : d.read ≤ (d.server.sys.log me).length
  shows : ∀ tb, d.toolbar = some tb → ∀ box, d.touched box = false →
    ∃ msg, last info? ((d.server.sys.log me).take d.read) = some msg ∧
      tb.text box = shown msg box

/-- A step of the server adds to what it has sent. -/
theorem log_step {s u : Sys} {act : Threads.Act} (step : Sys.Step pack s act u) (cli : Nat) :
    s.log cli <+: u.log cli := by
  cases step with
  | exec exec =>
      cases exec with
      | @send other msg rest prog =>
          by_cases own : cli = other
          · subst own
            simp only [Sys.send, Function.update_self]
            exact List.prefix_append _ _
          · simp only [Sys.send, Function.update_of_ne own]
            exact List.prefix_rfl
      | _ => exact List.prefix_rfl
  | _ => exact List.prefix_rfl

/-- An instruction of a handler leaves the configuration in the C types. -/
theorem fits_step {h : Hist} {act : Threads.Act} {u : Sys} (configured : Configured h)
    (fits : ∀ box, (setting h.sys.srv.info box).Fits) (step : Sys.Step pack h.sys act u) :
    ∀ box, (setting u.srv.info box).Fits := by
  cases step with
  | @exec t junk u exec =>
      obtain ⟨i, new, rest, prog, _⟩ := Expansion.turn_of_exec exec
      have phase := configured.telling.phases t
      rw [prog] at phase
      cases command : command? i with
      | none =>
          rw [info_exec exec prog command]
          exact fits
      | some command =>
          have own := (phase.of_command ‹_›).2.1
          rw [Expansion.srv_exec exec prog]
          intro box
          cases i <;> cases ‹command? _ = some _› <;> cases box <;>
            first | exact own | exact fits .freq | exact fits .ppm | exact fits .gain
  | _ => exact fits

namespace Inv

variable {d next : Desk}

theorem server {act : Threads.Act} {server : Hist} {msgq : List CliMsg} (inv : Inv me d)
    (typed : RadioConfig.Typed d.server act) (step : d.server.step? pack act = some server) :
    Inv me { d with server := server, msgq := msgq } := by
  have configured := inv.configured.step typed step
  obtain ⟨u, taken, rfl⟩ := Option.map_eq_some_iff.mp step
  have taken := Sys.Step.of_step? taken
  obtain ⟨more, log⟩ := log_step taken me
  refine ⟨configured, fits_step inv.configured inv.fits taken, ?_, fun tb window box same => ?_⟩
  · rw [← log, List.length_append]
    exact Nat.le_add_right_of_le inv.arrived
  · rw [← log, List.take_append_of_le_length inv.arrived]
    exact inv.shows tb window box same

theorem receive {msg : SrvMsg} (inv : Inv me d)
    (found : (d.server.sys.log me)[d.read]? = some msg) : Inv me (d.hear msg) := by
  have inside : d.read < (d.server.sys.log me).length := (List.getElem?_eq_some_iff.mp found).1
  have heard : last info? ((d.server.sys.log me).take (d.read + 1)) =
      (info? msg).or (last info? ((d.server.sys.log me).take d.read)) := by
    rw [List.take_add_one, found]
    exact last_concat info? _ msg
  cases msg with
  | info msg =>
      refine ⟨inv.configured, inv.fits, inside, fun tb window box _ => ⟨msg, heard, ?_⟩⟩
      obtain rfl := Option.some.inj window
      rfl
  | _ =>
      refine ⟨inv.configured, inv.fits, inside, fun tb window box same => ?_⟩
      obtain ⟨msg, told, shows⟩ := inv.shows tb window box same
      exact ⟨msg, heard.trans told, shows⟩

theorem step {act : Act} (inv : Inv me d) (typed : Typed d act)
    (step : d.step? py str pack me act = some next) : Inv me next := by
  cases act with
  | server act =>
      obtain ⟨msgq, -, step⟩ := Option.bind_eq_some_iff.mp step
      obtain ⟨server, taken, step⟩ := Option.bind_eq_some_iff.mp step
      obtain rfl := Option.some.inj step
      exact inv.server typed taken
  | call xln call =>
      obtain rfl := Option.some.inj step
      exact ⟨inv.configured, inv.fits, inv.arrived, inv.shows⟩
  | receive =>
      obtain ⟨msg, found, rfl⟩ := Option.map_eq_some_iff.mp step
      exact inv.receive found
  | event event =>
      obtain ⟨tb, window, rfl⟩ := Option.map_eq_some_iff.mp step
      refine ⟨inv.configured, inv.fits, inv.arrived, fun shown found box untouched => ?_⟩
      obtain rfl := Option.some.inj found
      obtain ⟨before, same⟩ := Bool.or_eq_false_iff.mp untouched
      obtain ⟨msg, told, shows⟩ := inv.shows tb window box before
      exact ⟨msg, told, (not_not.mp (of_decide_eq_false same)).trans shows⟩

end Inv

/-- Once everything that the server has told has been received, Enter in a box that nobody
has touched asks for what the radio is, changes no text, and is handled without a change of
the configuration. -/
theorem enter_untouched (reads : Reads py) {d : Desk} {tb : Boxes} {box : Box}
    (reach : (desk py str pack me).Reachable Typed d) (idle : Idle d.server.sys)
    (connected : Connected d.server.sys.srv me)
    (received : d.read = (d.server.sys.log me).length) (window : d.toolbar = some tb)
    (untouched : d.touched box = false) :
    (on_enter py tb box).2 = again d.server.sys.srv.info box ∧
      (on_enter py tb box).1.text = tb.text ∧
      ∀ request ∈ (on_enter py tb box).2, ∀ junk now,
        (Subscriptions.handle pack junk d.server.sys.srv me now request).info =
          d.server.sys.srv.info := by
  have inv : Inv me d := by
    refine reach.invariant ?_ fun _ _ _ inv typed step => inv.step typed step
    rintro first ⟨⟨srv, fresh, empty, started⟩, fits, read, -, window⟩
    refine ⟨?_, fits, read ▸ Nat.zero_le _, fun tb found => ?_⟩
    · rw [started]
      exact .start srv fresh empty
    · rw [window] at found
      cases found
  obtain ⟨msg, told, shows⟩ := inv.shows tb window box untouched
  have present : msg = d.server.sys.srv.info := by
    have telling := inv.configured.telling
    rw [received, List.take_length] at told
    exact (telling.told me connected).resolve_right (not_pending_owes telling idle) msg told
  subst present
  obtain ⟨asks, texts⟩ := on_enter_shown reads inv.fits shows
  refine ⟨asks, texts, fun request member junk now => ?_⟩
  rw [asks] at member
  exact info_handle_again member pack junk me now

/-- A frequency is typed, sent and told back; Enter would ask for it once more. -/
theorem enter_untouched_tuned :
    ∃ d tb, (desk EngNum.ascii (fun _ => []) .documented 0).Reachable Typed d ∧
      d.toolbar = some tb ∧ d.touched .freq = false ∧
      tb.text .freq = "433000000".toList ∧
      (on_enter EngNum.ascii tb .freq).2 = some (.RETUNE 433000000) ∧
      ∀ request ∈ (on_enter EngNum.ascii tb .freq).2, ∀ junk now,
        (Subscriptions.handle .documented junk d.server.sys.srv 0 now request).info =
          d.server.sys.srv.info := by
  let turn (count : Nat) : List Act :=
    List.replicate count (.server (.exec (.client 0) Junk.zero))
  let acts : List Act := List.flatten
    [[.call 0 .connect, .server (.connect false false), .server (.request 0 0 .GET_INFO)],
      turn 6, [.receive, .event (.type .freq "433000000".toList), .event (.enter .freq),
        .server (.request 0 0 (.RETUNE 433000000))], turn 12, [.receive]]
  have run : ((desk EngNum.ascii (fun _ => []) .documented 0).runIf? Typed
      ⟨⟨Sys.start Threads.idleServer, []⟩, 0, [], none, fun _ => false⟩ acts).any (fun d =>
        decide (Idle d.server.sys ∧ Connected d.server.sys.srv 0 ∧
          d.read = (d.server.sys.log 0).length ∧ d.touched .freq = false ∧
          d.server.sys.srv.info.frequency = 433000000) && d.toolbar.any fun tb =>
            decide (tb.text .freq = "433000000".toList)) = true := by
    decide +kernel
  obtain ⟨d, run, state⟩ := (Option.any_eq_true _ _).mp run
  obtain ⟨settled, window⟩ := Bool.and_eq_true_iff.mp state
  obtain ⟨tb, window, text⟩ := (Option.any_eq_true _ _).mp window
  obtain ⟨idle, connected, received, untouched, frequency⟩ := of_decide_eq_true settled
  have reach : (desk EngNum.ascii (fun _ => []) .documented 0).Reachable Typed d := by
    refine ⟨_, _, ⟨⟨Threads.idleServer, by decide, rfl, rfl⟩, fun box => ?_, rfl, rfl, rfl⟩,
      .of_runIf? run⟩
    cases box <;> decide
  obtain ⟨asks, -, kept⟩ :=
    enter_untouched (Or.inr (by decide)) reach idle connected received window untouched
  rw [again, frequency] at asks
  exact ⟨d, tb, reach, window, untouched, of_decide_eq_true text, asks, kept⟩

end Runs

end Kukuruku.Clients.Toolbar
