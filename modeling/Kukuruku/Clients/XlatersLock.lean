import Kukuruku.Foundation.Doubles
import Kukuruku.Foundation.Lock
import Kukuruku.Clients.XlaterPanel

/-!
# The lock around the xlaters

Nine procedures of the client library and of the GUI take `xlaters_lock` and give it
back by hand.  The lock makes each of them one step between those of the others; what
other code does to the shared data happens between the steps.
-/

namespace Kukuruku.Clients.XlatersLock

open Kukuruku.Doubles (nearest roundEven)
open Kukuruku.Lock Proc
open Kukuruku.Server.Endian (signed)
open Kukuruku.Server.Messages (Float32Bits)
open Kukuruku.Clients.XlaterPanel

/-! ## Texts and numbers -/

/-- One of the suffixes of `engnum`.  `none` is the IndexError of an empty text. -/
def suffix (out : Outside) (letters : List Char) (factor : ℚ)
    (number : List Char × Option Number) : Option (List Char × Option Number) :=
  match number.1.getLast? with
  | none => none
  | some letter =>
      if letter ∈ letters then
        let s := number.1.dropLast
        some (s, (out.float s).map fun x => .float (x * factor))
      else some number

/-- Convert a text containing a number with a postfix. -/
def engnum (out : Outside) (s : List Char) : Option (Option Number) := do
  let kilo ← suffix out ['k', 'K'] 1000 (s, (out.int s).map .int)
  let mega ← suffix out ['m', 'M'] (1000 * 1000) kilo
  let giga ← suffix out ['g', 'G'] (1000 * 1000) mega
  return giga.2

/-- The editable columns of integers. -/
inductive Column where
  | offset
  | lowpass
  | freq

inductive Field where
  | filtertype
  | number (column : Column)

/-- A text that was understood, for a column of its type. -/
inductive NewCast where
  | filtertype (text : List Char)
  | number (column : Column) (n : Int)

/-- `safe_cast` to the type of the column.  `none` stands for the values that count as
false: `None`, zero and the empty text. -/
def safe_cast (out : Outside) (i : Option Number) : Field → Option NewCast
  | .filtertype => if out.str i = [] then none else some (.filtertype (out.str i))
  | .number column =>
      i.bind fun number => if number.toInt = 0 then none else some (.number column number.toInt)

/-! ## Events -/

structure SRV_RUNNING_XLATER where
  remoteid : Int
  id : Int
  rotate : ℚ
  decimation : Int

structure SRV_INFO where
  samplerate : Int
  frequency : Int
  fftw : Int
  maxtaps : Int

inductive ScrollDirection where
  | UP
  | DOWN
  | other

/-- Messages, which are `none` when they cannot be parsed, and events of the GUI.
`shown` is what drawing a spectrum leaves in `lastfft` and `fftframes`, `none` where it
raises an exception; `spawned` tells whether the program of a mode could be started, and
`told` whether `showerror`, which runs a loop of its own and names a constant that Gtk 3
does not have, comes back without another handler in between; `other` is what any code
without the lock does. -/
inductive Event where
  | srv_running_xlater (packet : Option SRV_RUNNING_XLATER)
  | srv_destroyed_xlater (packet : Option Int)
  | process_payload (d : List UInt8) (shown : Option (Option (List ℚ) × List (ℚ × Int)))
  | process_info (d : Option SRV_INFO)
  | destroy_xlater (xid : Int)
  | on_demod (widget : Nat) (control spawned told : Bool)
  | da_press (release : Bool) (button : Nat) (x y : ℚ)
  | da_scroll (direction : ScrollDirection) (x : ℚ)
  | xlater_edit (row : Nat) (new_value : List Char) (field : Field) (told : Bool)
  | other (change : Shared → Shared)

/-! ## The client library -/

section Library

variable (out : Outside)

/-- The settings that the squelch looks at. -/
def settings (s : Shared) : Squelch.Settings := ⟨s.callbacks, s.afcdecim⟩

/-- The entry of an xlater that the server announces, and what is left of the queue. -/
def announced (s : Shared) (msg : SRV_RUNNING_XLATER) : Option (Xlater × Shared) :=
  match s.xlaters.lookup msg.id, s.xlater_q.lookup msg.remoteid with
  | some xl, _ => some (xl, s)
  | none, some xl => do
      let s ← if s.auto_enable_xlater then s.enable_xlater msg.id s.preferred_sample_type
        else some s
      return (xl, { s with xlater_q := s.xlater_q.erase msg.remoteid })
  | none, none => some (⟨msg.rotate, msg.decimation, none, none, .new⟩, s)

def store (s : Shared) (msg : SRV_RUNNING_XLATER) (xl : Xlater) : Shared :=
  s.setXlater msg.id { xl with rotate := msg.rotate, decimation := msg.decimation }

def srv_running_xlater (packet : Option SRV_RUNNING_XLATER) : Proc Shared Unit := do
  let msg ← look fun _ => packet
  acquire
  let xl ← inside fun s => announced s msg
  act fun s => (store s msg xl).xlater_callback out
  release

def srv_destroyed_xlater (packet : Option Int) : Proc Shared Unit := do
  let id ← look fun _ => packet
  acquire
  act fun s => { s with xlaters := s.xlaters.erase id }.xlater_callback out
  release

/-- The squelch callback. -/
def sql_cb (s : Shared) (xl : Xlater) : Option Bool :=
  SquelchDecision.sql_cb ⟨s.fftw.toNat, s.sqltrim, s.sqldelta⟩ out.pi s.lastfft xl.rotate
    xl.decimation

/-- The samples of a living channel, once they are decoded: the squelch, and the frequency
control. -/
def receive (s : Shared) (wid : Int) (xl : Xlater) (d : List UInt8) : Option Shared := do
  let datacut ← Squelch.datacut? d
  let ret ← if xl.channel.sql && s.callbacks then sql_cb out s xl else some true
  let next := { xl.channel with raised := false }.squelch (settings s) datacut ret
  if next.raised ∨ xl.channel.AfcDue (settings s) (Squelch.Channel.frameno d) then none
  else return s.setXlater wid { xl with channel := next }

def process_payload (d : List UInt8) (shown : Option (Option (List ℚ) × List (ℚ × Int))) :
    Proc Shared Unit := do
  let wid ← look fun _ => if d.length < 16 then none else some (signed (d.take 4))
  if 0 ≤ wid then do
    acquire
    let known ← look fun s => some (s.xlaters.lookup wid)
    match known with
    | none => release
    | some xl => do
        let alive ← look fun _ => xl.thread
        if alive then do
          act fun s => receive out s wid xl d
          release
        else do
          act fun s => (s.q_msg (.DISABLE_XLATER wid)).xlater_callback out
          release
  else act fun s => if wid = -1 ∧ s.callbacks then
      shown.map fun spectrum => { s with lastfft := spectrum.1, fftframes := spectrum.2 }
    else some s

/-- What `info_cb` stores. -/
def info_cb (s : Shared) (msg : SRV_INFO) : Shared :=
  { s with
    samplerate := msg.samplerate
    frequency := msg.frequency
    maxtaps := msg.maxtaps
    fftw := msg.fftw }

def process_info (d : Option SRV_INFO) : Proc Shared Unit := do
  let msg ← look fun _ => d
  act fun s => some (info_cb s msg)
  let set ← look fun s => some s.callbacks
  if set then do
    acquire
    act fun s => s.xlater_cb out
    release
  else pure ()

def destroy_xlater (xid : Int) : Proc Shared Unit := do
  acquire
  act fun s => some (s.q_msg (.DESTROY_XLATER xid))
  release

end Library

/-! ## The GUI -/

section Gui

variable (out : Outside)

/-- A mode is chosen for a running xlater: whether its program can take the rate. -/
def chooseRunning (s : Shared) (wid : Int) (mode : Mode) : Option (Bool × Shared) := do
  let s ← s.enable_xlater wid s.preferformat
  let xl ← s.xlaters.lookup wid
  if xl.decimation = 0 ∨ mode.rate = 0 then none
  else
    let rate := roundEven (out.double ((s.samplerate : ℚ) / xl.decimation))
    if rate = 0 then none
    else return (decide (s.samplerate % rate = 0) || mode.resample, s)

/-- Spawn the program and pipe the output of an xlater to it. -/
def subscribe_xlater (s : Shared) (xid : Int) (spawned : Bool) : Option Shared := do
  let xl ← s.xlaters.lookup xid
  if spawned then
    return s.setXlater xid
      { xl with thread := some true, channel := { xl.channel with data := [] } }
  else none

/-- What a new xlater starts from. -/
structure Chosen where
  allowed : Bool
  offset : ℚ
  startframe : Int
  decimation : Int

/-- A mode is chosen where no xlater runs. -/
def chooseNew (s : Shared) (mode : Mode) (control : Bool) : Option Chosen := do
  let offset ← s.pixel2freq out s.wf_click_x
  let startframe ← if control then s.pixel2frame s.wf_click_y else some (-1)
  if mode.rate = 0 then none
  else
    let decimation := roundEven (out.double ((s.samplerate : ℚ) / mode.rate))
    if decimation = 0 then none
    else return ⟨decide (s.samplerate % mode.rate = 0) || mode.resample, offset, startframe,
      decimation⟩

/-- Create the xlater, and keep its filter for the list view. -/
def createNew (s : Shared) (mode : Mode) (chosen : Chosen) (spawned : Bool) : Option Shared :=
  if s.samplerate = 0 then none
  else do
    let rotate := s.rotation out chosen.offset
    let taps ← getfir out s.samplerate mode.filtertype mode.bw mode.transition s.maxtaps
    if spawned then
      let pending_xlater : Xlater :=
        ⟨rotate, chosen.decimation, some s.xln, some true, .new⟩
      return { s.q_msg (.CREATE_XLATER s.xln rotate chosen.decimation chosen.startframe taps) with
        xlater_q := s.xlater_q.set s.xln pending_xlater
        xln := s.xln + 1
        XlaterHelpers := s.XlaterHelpers.set s.xln ⟨mode.bw, mode.filtertype, mode.transition⟩ }
    else none

/-- Display alert message box. -/
def showerror (told : Bool) : Proc Shared Unit := look fun _ => if told then some () else none

/-- The item in context menu was selected. -/
def on_demod (widget : Nat) (control spawned told : Bool) : Proc Shared Unit := do
  let mode ← look fun s => some (s.modes.find? fun mode => decide (mode.button = widget))
  match mode with
  | none => pure ()
  | some mode => do
      acquire
      let wid ← look fun s => s.pixel2xlater out s.wf_click_x
      match wid with
      | some wid => do
          let allowed ← inside fun s => chooseRunning out s wid mode
          if allowed then do
            act fun s => subscribe_xlater s wid spawned
            release
          else do
            showerror told
            release
      | none => do
          let chosen ← look fun s => chooseNew out s mode control
          if chosen.allowed then do
            act fun s => createNew out s mode chosen spawned
            release
          else do
            showerror told
            release

/-- Do something with the row of the xlater at a position, if there is one. -/
def atXlater (s : Shared) (pixpos : ℚ) (change : Nat → Option Shared) : Option Shared := do
  match ← s.pixel2xlater out pixpos with
  | none => some s
  | some wid =>
      match s.find_wid wid with
      | none => some s
      | some row => change row

/-- Move the xlater under the last click. -/
def moveXlater (s : Shared) (x : ℚ) : Option Shared :=
  atXlater out s s.wf_click_x fun row => do
    let f ← s.pixel2freq out x
    let s ← s.setRow row fun old => do
      let offset ← out.gint f
      let freq ← out.gint (out.double (s.frequency + offset))
      return { old with offset := offset, freq := freq }
    s.commit_xlater out row

def click (s : Shared) (x y : ℚ) : Option Shared := some { s with wf_click_x := x, wf_click_y := y }

/-- Handle button press on display area. -/
def da_press (released : Bool) (button : Nat) (x y : ℚ) : Proc Shared Unit := do
  let beyond ← look fun s =>
    some (decide (x < s.borderleft) || decide ((s.borderleft : ℚ) + s.fftw < x))
  if beyond then pure ()
  else if released && decide (button = 1) then do
    acquire
    act fun s => moveXlater out s x
    release
    act fun s => click s x y
  else act fun s => click s x y

/-- The new width; for another direction the variable is unbound. -/
def newbw (lowpass : Int) : ScrollDirection → Option ℚ
  | .UP => some (out.double (out.double (6 / 5) * lowpass))
  | .DOWN => some (out.double (out.double (4 / 5) * lowpass))
  | .other => none

/-- Change the width of the xlater at a position. -/
def scrollXlater (s : Shared) (direction : ScrollDirection) (x : ℚ) : Option Shared :=
  atXlater out s x fun row => do
    let s ← s.setRow row fun old => do
      let newbw ← newbw out old.lowpass direction
      let lowpass ← out.gint (truncate newbw)
      return { old with lowpass := lowpass }
    s.commit_xlater out row

/-- Handle scroll event on display area. -/
def da_scroll (direction : ScrollDirection) (x : ℚ) : Proc Shared Unit := do
  acquire
  act fun s => scrollXlater out s direction x
  release

/-- The text of an edit, as a value of its column. -/
def newCast (s : Shared) (row : Nat) (new_value : List Char) (field : Field) :
    Option (Option NewCast) := do
  let i ← engnum out new_value
  let _ ← s.model[row]?
  return safe_cast out i field

/-- Store the value, keep offset and frequency consistent, and commit. -/
def editXlater (s : Shared) (row : Nat) (newcast : NewCast) : Option Shared := do
  let s ← s.setRow row fun old =>
    match newcast with
    | .filtertype text => some { old with filtertype := text }
    | .number .lowpass n => do
        let lowpass ← out.gint n
        return { old with lowpass := lowpass }
    | .number .offset n => do
        let freq ← out.gint (out.double (s.frequency + n))
        let offset ← out.gint n
        return { old with offset := offset, freq := freq }
    | .number .freq n => do
        let offset ← out.gint (out.double (n - s.frequency))
        let freq ← out.gint n
        return { old with offset := offset, freq := freq }
  s.commit_xlater out row

/-- Row in listview changed.  Of a value that was not understood the user is told, and
nothing else is done. -/
def xlater_edit (row : Nat) (new_value : List Char) (field : Field) (told : Bool) :
    Proc Shared Unit := do
  acquire
  let newcast ← look fun s => newCast out s row new_value field
  match newcast with
  | none => showerror told
  | some newcast => do
      act fun s => editXlater out s row newcast
      release

end Gui

/-! ## Runs -/

/-- One message or event. -/
def handle (out : Outside) : Event → Proc Shared Unit
  | .srv_running_xlater packet => srv_running_xlater out packet
  | .srv_destroyed_xlater packet => srv_destroyed_xlater out packet
  | .process_payload d shown => process_payload out d shown
  | .process_info d => process_info out d
  | .destroy_xlater xid => destroy_xlater xid
  | .on_demod widget control spawned told => on_demod out widget control spawned told
  | .da_press released button x y => da_press out released button x y
  | .da_scroll direction x => da_scroll out direction x
  | .xlater_edit row new_value field told => xlater_edit out row new_value field told
  | .other change => act fun s => some (change s)

/-- The state after messages and events. -/
def after (out : Outside) (s : Shared) (events : List Event) : Guarded Shared :=
  events.foldl (fun s event => (handle out event s).2) (.start s)

/-! ## What the handlers need -/

section Fit

variable (out : Outside) (s : Shared)

/-- The samples can be decoded; the squelch callback decides, and what is saved has a
truth value if it opens; and the frequency control does not look at the frame. -/
structure Receives (xl : Xlater) (d : List UInt8) : Prop where
  decoded : (Squelch.datacut? d).isSome
  decides : xl.channel.sql = true → s.callbacks = true → ∃ ret, sql_cb out s xl = some ret ∧
    (ret = true → ∀ saved ∈ xl.channel.sqlsave, (Squelch.truth saved.2).isSome)
  quiet : ¬ xl.channel.AfcDue (settings s) (Squelch.Channel.frameno d)

/-- The program can take the rate and be started, or it cannot take it and the message
box comes back. -/
def DemodFits (mode : Mode) (control spawned told : Bool) : Option Int → Prop
  | some wid => ∃ allowed next, chooseRunning out s wid mode = some (allowed, next) ∧
      if allowed then (subscribe_xlater next wid spawned).isSome else told
  | none => ∃ chosen, chooseNew out s mode control = some chosen ∧
      if chosen.allowed then (createNew out s mode chosen spawned).isSome else told

/-- Nothing that is called while the lock is held raises an exception, and a text that
the user has entered is understood. -/
def Fit : Event → Prop
  | .srv_running_xlater packet => ∀ msg ∈ packet, ∃ xl next, announced s msg = some (xl, next) ∧
      ((store next msg xl).xlater_callback out).isSome
  | .srv_destroyed_xlater packet => ∀ id ∈ packet,
      ({ s with xlaters := s.xlaters.erase id }.xlater_callback out).isSome
  | .process_payload d _ => 16 ≤ d.length → 0 ≤ signed (d.take 4) →
      ∀ xl ∈ s.xlaters.lookup (signed (d.take 4)), ∃ alive, xl.thread = some alive ∧
        if alive then Receives out s xl d
        else ((s.q_msg (.DISABLE_XLATER (signed (d.take 4)))).xlater_callback out).isSome
  | .process_info d => ∀ msg ∈ d, s.callbacks = true → ((info_cb s msg).xlater_cb out).isSome
  | .destroy_xlater _ => True
  | .on_demod widget control spawned told =>
      ∀ mode ∈ s.modes.find? fun mode => decide (mode.button = widget),
        ∃ wid, s.pixel2xlater out s.wf_click_x = some wid ∧
          DemodFits out s mode control spawned told wid
  | .da_press released button x _ =>
      s.borderleft ≤ x → x ≤ s.borderleft + s.fftw → released = true → button = 1 →
        (moveXlater out s x).isSome
  | .da_scroll direction x => (scrollXlater out s direction x).isSome
  | .xlater_edit row new_value field _ =>
      ∃ newcast, newCast out s row new_value field = some (some newcast) ∧
        (editXlater out s row newcast).isSome
  | .other _ => True

end Fit

/-! ## The handlers one by one -/

section Handlers

variable (out : Outside) (s : Shared)

theorem leaves_running (packet : Option SRV_RUNNING_XLATER) :
    Leaves s (handle out (.srv_running_xlater packet)) ↔
      Fit out s (.srv_running_xlater packet) := by
  simp only [handle, srv_running_xlater, leaves_look, leaves_acquire, releases_inside,
    releases_act_release, Fit, Option.mem_def]

theorem leaves_destroyed (packet : Option Int) :
    Leaves s (handle out (.srv_destroyed_xlater packet)) ↔
      Fit out s (.srv_destroyed_xlater packet) := by
  simp only [handle, srv_destroyed_xlater, leaves_look, leaves_acquire, releases_act_release,
    Fit, Option.mem_def]

theorem leaves_info (d : Option SRV_INFO) :
    Leaves s (handle out (.process_info d)) ↔ Fit out s (.process_info d) := by
  have same (msg : SRV_INFO) : (info_cb s msg).callbacks = s.callbacks := rfl
  simp only [handle, process_info, leaves_look, leaves_act_bind, Option.some.injEq, Fit,
    Option.mem_def, forall_eq']
  refine forall₂_congr fun msg _ => ?_
  rw [same]
  cases s.callbacks with
  | false => simp only [Bool.false_eq_true, if_false, leaves_pure, false_implies]
  | true => simp only [if_true, leaves_acquire, releases_act_release, true_implies]

theorem leaves_destroy (xid : Int) :
    Leaves s (handle out (.destroy_xlater xid)) ↔ Fit out s (.destroy_xlater xid) := by
  simp only [handle, destroy_xlater, leaves_acquire, releases_act_release, Option.isSome_some, Fit]

/-- The squelch raises an exception if it opens and what is saved has no truth value. -/
theorem raised_squelch (settings : Squelch.Settings) (channel : Squelch.Channel)
    (datacut : Payload.ChannelData) (ret : Bool) :
    ({ channel with raised := false }.squelch settings datacut ret).raised = true ↔
      (channel.sql && settings.sql_callback) = true ∧ ret = true ∧
        ∃ saved ∈ channel.sqlsave, Squelch.truth saved.2 = none := by
  unfold Squelch.Channel.squelch Squelch.Channel.status
  cases channel.sql && settings.sql_callback with
  | false => simp [Squelch.Channel.receive, Squelch.Channel.put]
  | true =>
      cases ret with
      | false => simp [Squelch.Channel.receive]
      | true =>
          unfold Squelch.Channel.receive Squelch.Channel.replay Squelch.Channel.put
          cases channel.sqlsave with
          | none => simp
          | some saved =>
              cases truthful : Squelch.truth saved.2 with
              | none => simp [truthful]
              | some value => cases value <;> simp [truthful]

theorem isSome_receive (wid : Int) (xl : Xlater) (d : List UInt8) :
    (receive out s wid xl d).isSome ↔ Receives out s xl d := by
  unfold receive
  cases decoded : Squelch.datacut? d with
  | none =>
      refine iff_of_false (fun found => nomatch found) fun fits => ?_
      exact absurd fits.decoded (by rw [decoded, Option.isSome_none]; exact Bool.false_ne_true)
  | some datacut =>
      have arrives : (Squelch.datacut? d).isSome := by rw [decoded, Option.isSome_some]
      have raised (ret : Bool) := raised_squelch (settings s) xl.channel datacut ret
      have callback : (settings s).sql_callback = s.callbacks := rfl
      simp only [Option.bind_eq_bind, Option.bind_some, raised, callback]
      by_cases enabled : (xl.channel.sql && s.callbacks) = true
      · have both := Bool.and_eq_true_iff.mp enabled
        rw [if_pos enabled]
        cases decides : sql_cb out s xl with
        | none =>
            refine iff_of_false (fun found => nomatch found) fun fits => ?_
            obtain ⟨ret, found, _⟩ := fits.decides both.1 both.2
            exact nomatch decides.symm.trans found
        | some ret =>
            rw [Option.bind_some]
            split_ifs with fails
            · refine iff_of_false (fun found => nomatch found) fun fits => ?_
              rcases fails with ⟨_, opens, saved, member, unclear⟩ | due
              · obtain ⟨ret', found, truthful⟩ := fits.decides both.1 both.2
                obtain rfl := Option.some.inj (decides.symm.trans found)
                have value := truthful opens saved member
                rw [unclear] at value
                cases value
              · exact fits.quiet due
            · obtain ⟨clear, quiet⟩ := not_or.mp fails
              refine iff_of_true rfl
                ⟨arrives, fun _ _ => ⟨ret, decides, fun opens saved member => ?_⟩, quiet⟩
              rw [Option.isSome_iff_ne_none]
              exact fun unclear => clear ⟨enabled, opens, saved, member, unclear⟩
      · rw [if_neg enabled]
        split_ifs with fails
        · refine iff_of_false (fun found => nomatch found) fun fits => ?_
          rcases fails with ⟨on, _⟩ | due
          · exact enabled on
          · exact fits.quiet due
        · exact iff_of_true rfl ⟨arrives, fun sql callbacks =>
            absurd (Bool.and_eq_true_iff.mpr ⟨sql, callbacks⟩) enabled,
            (not_or.mp fails).2⟩

theorem leaves_payload (d : List UInt8) (shown : Option (Option (List ℚ) × List (ℚ × Int))) :
    Leaves s (handle out (.process_payload d shown)) ↔ Fit out s (.process_payload d shown) := by
  simp only [handle, process_payload, leaves_look, Fit]
  rcases Nat.lt_or_ge d.length 16 with short | long
  · simp [short]
  · simp only [if_neg (Nat.not_lt.mpr long), Option.some.injEq, forall_eq', long, true_implies]
    rcases lt_or_ge (signed (d.take 4)) 0 with negative | nonneg
    · rw [if_neg (Int.not_le.mpr negative)]
      exact iff_of_true (leaves_act s _) fun nonneg => absurd negative (Int.not_lt.mpr nonneg)
    · rw [if_pos nonneg, leaves_acquire, releases_look]
      simp only [Option.some.injEq, exists_eq_left', nonneg, true_implies, Option.mem_def]
      cases s.xlaters.lookup (signed (d.take 4)) with
      | none => simp [releases_release]
      | some xl =>
          simp only [releases_look, Option.some.injEq, forall_eq']
          refine exists_congr fun alive => and_congr_right fun _ => ?_
          cases alive with
          | true => simp only [if_true, releases_act_release, isSome_receive]
          | false => simp [releases_act_release]

theorem releases_showerror (told : Bool) :
    Releases s (showerror told >>= fun _ => release) ↔ told = true := by
  rw [showerror, releases_look]
  cases told <;> simp [releases_release]

theorem leaves_demod (widget : Nat) (control spawned told : Bool) :
    Leaves s (handle out (.on_demod widget control spawned told)) ↔
      Fit out s (.on_demod widget control spawned told) := by
  simp only [handle, on_demod, leaves_look, Fit, Option.some.injEq, forall_eq', Option.mem_def]
  cases s.modes.find? fun mode => decide (mode.button = widget) with
  | none => simp [leaves_pure]
  | some mode =>
      simp only [leaves_acquire, releases_look, Option.some.injEq, forall_eq']
      refine exists_congr fun wid => and_congr_right fun _ => ?_
      cases wid with
      | some wid =>
          simp only [releases_inside, DemodFits]
          refine exists₂_congr fun allowed next => and_congr_right fun _ => ?_
          cases allowed with
          | true => simp only [if_true, releases_act_release]
          | false => simp only [Bool.false_eq_true, if_false, releases_showerror]
      | none =>
          simp only [releases_look, DemodFits]
          refine exists_congr fun chosen => and_congr_right fun _ => ?_
          cases chosen.allowed with
          | true => simp only [if_true, releases_act_release]
          | false => simp only [Bool.false_eq_true, if_false, releases_showerror]

theorem leaves_press (released : Bool) (button : Nat) (x y : ℚ) :
    Leaves s (handle out (.da_press released button x y)) ↔
      Fit out s (.da_press released button x y) := by
  simp only [handle, da_press, leaves_look, Fit, Option.some.injEq, forall_eq']
  by_cases beyond : x < s.borderleft ∨ (s.borderleft : ℚ) + s.fftw < x
  · have stops :
        (decide (x < s.borderleft) || decide ((s.borderleft : ℚ) + s.fftw < x)) = true := by
      simpa using beyond
    simp only [stops, if_true, leaves_pure, true_iff]
    intro low high
    exact absurd beyond (not_or.mpr ⟨not_lt.mpr low, not_lt.mpr high⟩)
  · have goes :
        (decide (x < s.borderleft) || decide ((s.borderleft : ℚ) + s.fftw < x)) = false := by
      simpa using beyond
    obtain ⟨low, high⟩ := not_or.mp beyond
    simp only [goes, not_lt.mp low, not_lt.mp high, true_implies]
    cases released with
    | false => simp [leaves_act]
    | true =>
        by_cases left : button = 1
        · simp only [left, Bool.false_eq_true, if_false, decide_true, Bool.and_self, if_true,
            leaves_acquire, releases_act, releases_release_bind, leaves_act, and_true,
            true_implies, Option.isSome_iff_exists]
        · simp [left, leaves_act]

theorem leaves_scroll (direction : ScrollDirection) (x : ℚ) :
    Leaves s (handle out (.da_scroll direction x)) ↔ Fit out s (.da_scroll direction x) := by
  simp only [handle, da_scroll, leaves_acquire, releases_act_release, Fit]

/-- A box that comes back leaves the lock as it was. -/
theorem not_releases_showerror (told : Bool) : ¬ Releases s (showerror told) := by
  cases told <;> exact fun free => nomatch free.released

theorem leaves_edit (row : Nat) (new_value : List Char) (field : Field) (told : Bool) :
    Leaves s (handle out (.xlater_edit row new_value field told)) ↔
      Fit out s (.xlater_edit row new_value field told) := by
  simp only [handle, xlater_edit, leaves_acquire, releases_look, Fit]
  constructor
  · rintro ⟨newcast, understood, releases⟩
    cases newcast with
    | none => exact absurd releases (not_releases_showerror s told)
    | some newcast => exact ⟨newcast, understood, (releases_act_release s _).mp releases⟩
  · rintro ⟨newcast, understood, fits⟩
    exact ⟨some newcast, understood, (releases_act_release s _).mpr fits⟩

theorem leaves_iff (event : Event) : Leaves s (handle out event) ↔ Fit out s event := by
  cases event with
  | srv_running_xlater packet => exact leaves_running out s packet
  | srv_destroyed_xlater packet => exact leaves_destroyed out s packet
  | process_payload d shown => exact leaves_payload out s d shown
  | process_info d => exact leaves_info out s d
  | destroy_xlater xid => exact leaves_destroy out s xid
  | on_demod widget control spawned told => exact leaves_demod out s widget control spawned told
  | da_press released button x y => exact leaves_press out s released button x y
  | da_scroll direction x => exact leaves_scroll out s direction x
  | xlater_edit row new_value field told => exact leaves_edit out s row new_value field told
  | other change => exact iff_of_true (leaves_act s _) trivial

end Handlers

/-! ## Runs -/

theorem after_concat (out : Outside) (s : Shared) (events : List Event) (event : Event) :
    after out s (events ++ [event]) = (handle out event (after out s events)).2 := by
  rw [after, after, List.foldl_concat]

/-- A step from a free lock leaves it free exactly if it has what it needs. -/
theorem free_step_iff (out : Outside) {s : Guarded Shared} (free : s.Free) (event : Event) :
    (handle out event s).2.Free ↔ Fit out s.shared event := by
  obtain ⟨held, again, shared⟩ := s
  obtain ⟨rfl, rfl⟩ := free
  exact leaves_iff out shared event

/-- In a run the lock is free after every message and event, and never asked for by its
holder, exactly if each of them has what it needs. -/
theorem free_after_iff (out : Outside) (s : Shared) (events : List Event) :
    (∀ before, before <+: events → (after out s before).Free) ↔
      ∀ before event, before ++ [event] <+: events →
        Fit out (after out s before).shared event := by
  constructor
  · intro free before event inside
    have first := free before ((List.prefix_append before [event]).trans inside)
    rw [← free_step_iff out first, ← after_concat]
    exact free _ inside
  · intro fit before inside
    induction before using List.reverseRecOn with
    | nil => exact ⟨rfl, rfl⟩
    | append_singleton before event ih =>
        rw [after_concat, free_step_iff out (ih ((List.prefix_append before [event]).trans inside))]
        exact fit before event inside

/-- The text of a filter type is taken for a number, and no number is the name of a
filter: its edits never give the lock back. -/
theorem not_fit_filtertype (out : Outside) (s : Shared) (row : Nat) (new_value : List Char)
    (told : Bool)
    (unknown : ∀ i, out.str i ≠ "hamming".toList ∧ out.str i ≠ "rcos".toList) :
    ¬ Fit out s (.xlater_edit row new_value .filtertype told) := by
  rintro ⟨newcast, understood, fits⟩
  obtain ⟨i, _, understood⟩ := Option.bind_eq_some_iff.mp understood
  obtain ⟨_, _, understood⟩ := Option.bind_eq_some_iff.mp understood
  obtain ⟨_, rfl⟩ : out.str i ≠ [] ∧ newcast = .filtertype (out.str i) := by
    have cast := Option.some.inj understood
    rw [safe_cast] at cast
    split at cast
    · cases cast
    · exact ⟨‹_›, (Option.some.inj cast).symm⟩
  obtain ⟨result, edited⟩ := Option.isSome_iff_exists.mp fits
  obtain ⟨stored, set, committed⟩ := Option.bind_eq_some_iff.mp edited
  obtain ⟨old, found, set⟩ := Option.bind_eq_some_iff.mp set
  obtain ⟨_, ⟨⟩, ⟨⟩⟩ := Option.bind_eq_some_iff.mp set
  have inside := (List.getElem?_eq_some_iff.mp found).1
  have never := Shared.commit_xlater_unknown out
    { s with model := s.model.set row { old with filtertype := out.str i } }
    (List.getElem?_set_self inside) (unknown i)
  exact nomatch never.symm.trans committed

/-- One xlater and its row.  Texts are no numbers, and GTK takes every number. -/
def outside : Outside where
  pi := 884279719003555 / 281474976710656
  double := nearest
  int _ := none
  float _ := none
  str _ := "None".toList
  gint x := some (truncate x)
  low_pass _ _ _ := some [1]
  root_raised_cosine _ _ _ := some [1]
  rounds := 1

def oneXlater : Shared where
  xlaters := [(0, ⟨0, 40, none, some true, .new⟩)]
  xlater_q := []
  xln := 0
  msgq := []
  auto_enable_xlater := true
  preferred_sample_type := .F32
  afcdecim := 5
  callbacks := true
  samplerate := 2048000
  frequency := 100000000
  maxtaps := 1000
  fftw := 1024
  borderleft := 80
  preferformat := .F32
  sqltrim := 3 / 10
  sqldelta := 10
  modes := []
  model := [⟨0, 0, "hamming".toList, 2560, 25600, false, false, 100000000⟩]
  XlaterHelpers := []
  lastfft := none
  fftframes := []
  wf_click_x := 0
  wf_click_y := 0

/-- A text that is no number is entered, and the next handler waits for its own thread;
and samples of an unknown type arrive. -/
theorem not_free_edit :
    ¬ (after outside oneXlater [.xlater_edit 0 ['x'] (.number .offset) true]).Free ∧
      (after outside oneXlater
        [.xlater_edit 0 ['x'] (.number .offset) true, .destroy_xlater 0]).again = true ∧
      ¬ (after outside oneXlater
        [.process_payload [0, 0, 0, 0, 0, 0, 0, 0, 1, 0, 0, 0, 7, 0, 0, 0] none]).Free := by
  have edited :
      (after outside oneXlater [.xlater_edit 0 ['x'] (.number .offset) true]).held = true := by
    decide +kernel
  have received : (after outside oneXlater
      [.process_payload [0, 0, 0, 0, 0, 0, 0, 0, 1, 0, 0, 0, 7, 0, 0, 0] none]).held = true := by
    decide +kernel
  refine ⟨fun free => ?_, by decide +kernel, fun free => ?_⟩
  · rw [free.released] at edited
    cases edited
  · rw [free.released] at received
    cases received

end Kukuruku.Clients.XlatersLock
