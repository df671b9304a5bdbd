import Mathlib.Data.Rat.Floor
import Kukuruku.Clients.LibClient
import Kukuruku.Clients.Squelch
import Kukuruku.Clients.SquelchDecision

/-!
# The list of xlaters in the GUI

What the GUI and the client library do with `xlaters`, each a partial function of
what they share: `none` is an exception.  Floats are the rationals that they stand
for, and what an operation on them gives is rounded.  The search for a filter and the
squelch's decision are followed exactly instead.
-/

namespace Kukuruku.Clients.XlaterPanel

open Kukuruku.Server.Messages (SampleType)
open Kukuruku.Clients.LibClient (SampleFormat)

/-! ## Outside the program -/

/-- A number of Python. -/
inductive Number where
  | int (n : Int)
  | float (x : ℚ)

/-- `int(i)`. -/
def Number.toInt : Number → Int
  | .int n => n
  | .float x => truncate x

/-- `math.pi`, the float that an exact result becomes, the conversions between numbers
and texts, what an integer column of GTK makes of a number, and the filter design of GNU
Radio.  `rounds` bounds how long the loop around the latter is followed. -/
structure Outside where
  pi : ℚ
  double : ℚ → ℚ
  int : List Char → Option Int
  float : List Char → Option ℚ
  str : Option Number → List Char
  gint : ℚ → Option Int
  low_pass : Int → ℚ → ℚ → Option (List ℚ)
  root_raised_cosine : Int → ℚ → ℚ → Option (List ℚ)
  rounds : Nat

/-! ## What is shared -/

/-- An entry of `xlaters`.  `thread` tells whether there is a feeder thread, and
whether it is alive. -/
structure Xlater where
  rotate : ℚ
  decimation : Int
  rid : Option Int
  thread : Option Bool
  channel : Squelch.Channel

/-- A dictionary, in the order of insertion. -/
abbrev Dict (β : Type) := List (Int × β)

def Dict.set {β : Type} (dict : Dict β) (key : Int) (value : β) : Dict β :=
  if (dict.lookup key).isSome then
    dict.map fun entry => if entry.1 = key then (key, value) else entry
  else dict ++ [(key, value)]

def Dict.erase {β : Type} (dict : Dict β) (key : Int) : Dict β :=
  dict.filter fun entry => decide (entry.1 ≠ key)

/-- A row of the list view. -/
structure Row where
  wid : Int
  offset : Int
  filtertype : List Char
  transition : Int
  lowpass : Int
  afc : Bool
  sql : Bool
  freq : Int

/-- An entry of `modes`, as far as a new xlater depends on it. -/
structure Mode where
  rate : Int
  bw : Int
  transition : Int
  filtertype : List Char
  button : Nat
  resample : Bool

structure XlaterHelper where
  lowpass : ℚ
  filtertype : List Char
  transition : ℚ

/-- A message to the server about an xlater. -/
inductive Msg where
  | CREATE_XLATER (remoteid : Int) (rotate : ℚ) (decimation startframe : Int) (taps : List ℚ)
  | MODIFY_XLATER (localid : Int) (rotate : ℚ) (newtaps : List ℚ)
  | ENABLE_XLATER (id : Int) (type : SampleType)
  | DISABLE_XLATER (id : Int)
  | DESTROY_XLATER (id : Int)

/-- The client and the globals of the GUI.  `callbacks` tells whether the GUI has set
its callbacks. -/
structure Shared where
  xlaters : Dict Xlater
  xlater_q : Dict Xlater
  xln : Int
  msgq : List Msg
  auto_enable_xlater : Bool
  preferred_sample_type : SampleFormat
  afcdecim : ℚ
  callbacks : Bool
  samplerate : Int
  frequency : ℚ
  maxtaps : Int
  fftw : Int
  borderleft : Int
  preferformat : SampleFormat
  sqltrim : ℚ
  sqldelta : ℚ
  modes : List Mode
  model : List Row
  XlaterHelpers : Dict XlaterHelper
  lastfft : Option (List ℚ)
  fftframes : List (ℚ × Int)
  wf_click_x : ℚ
  wf_click_y : ℚ

/-! ## Filters -/

/-- The loop of `getfir`: widen the transition band until the filter is short enough. -/
def lowPass (out : Outside) (samplerate : Int) (bw : ℚ) (maxtaps : Int) :
    Nat → ℚ → Option (List ℚ)
  | 0, _ => none
  | rounds + 1, transition => do
      let coefs ← out.low_pass samplerate bw transition
      if (coefs.length : Int) < maxtaps then return coefs
      else lowPass out samplerate bw maxtaps rounds ((transition + 1) * (6 / 5))

/-- Design a FIR lowpass.  For an unknown type the message about it names a variable
that does not exist. -/
def getfir (out : Outside) (samplerate : Int) (filtertype : List Char) (bw transition : ℚ)
    (maxtaps : Int) : Option (List ℚ) :=
  if filtertype = "hamming".toList then
    lowPass out samplerate bw maxtaps out.rounds transition
  else if filtertype = "rcos".toList then
    out.root_raised_cosine samplerate bw (if maxtaps < transition then maxtaps else transition)
  else none

theorem getfir_unknown (out : Outside) (samplerate : Int) {filtertype : List Char}
    (bw transition : ℚ) (maxtaps : Int)
    (unknown : filtertype ≠ "hamming".toList ∧ filtertype ≠ "rcos".toList) :
    getfir out samplerate filtertype bw transition maxtaps = none := by
  rw [getfir, if_neg unknown.1, if_neg unknown.2]

/-- Once the loop has ended, more rounds change nothing. -/
theorem lowPass_add (out : Outside) (samplerate : Int) (bw : ℚ) (maxtaps : Int) {rounds : Nat}
    {transition : ℚ} {coefs : List ℚ}
    (ended : lowPass out samplerate bw maxtaps rounds transition = some coefs) (more : Nat) :
    lowPass out samplerate bw maxtaps (rounds + more) transition = some coefs := by
  induction rounds generalizing transition with
  | zero => cases ended
  | succ rounds ih =>
      rw [Nat.add_right_comm]
      rw [lowPass] at ended ⊢
      obtain ⟨tried, designed, ended⟩ := Option.bind_eq_some_iff.mp ended
      rw [designed, Option.bind_eq_bind, Option.bind_some]
      split at ended
      · rename_i short
        rw [if_pos short]
        exact ended
      · rename_i long
        rw [if_neg long]
        exact ih ended

namespace Shared

variable (out : Outside) (s : Shared)

def q_msg (msg : Msg) : Shared := { s with msgq := s.msgq ++ [msg] }

def setXlater (wid : Int) (xl : Xlater) : Shared := { s with xlaters := s.xlaters.set wid xl }

/-! ## The list view -/

/-- Return row ID in model that has the xlated WID. -/
def find_wid (wid : Int) : Option Nat := s.model.findIdx? fun row => decide (row.wid = wid)

/-- Write to a row of the model. -/
def setRow (row : Nat) (change : Row → Option Row) : Option Shared := do
  let old ← s.model[row]?
  let new ← change old
  return { s with model := s.model.set row new }

/-- Create new xlater in model. -/
def make_panel (wid : Int) (offset bw : ℚ) (filtertype : List Char) (transition : ℚ)
    (sql afc : Bool) : Option Shared := do
  let wid ← out.gint wid
  let column1 ← out.gint (truncate offset)
  let column3 ← out.gint (truncate transition)
  let column4 ← out.gint (truncate bw)
  let column7 ← out.gint (truncate (out.double (s.frequency + offset)))
  return { s with
    model := s.model ++ [⟨wid, column1, filtertype, column3, column4, afc, sql, column7⟩] }

/-- Where an xlater lies, from the centre. -/
def place (xl : Xlater) : ℚ :=
  out.double (out.double (-xl.rotate * s.samplerate) / out.double (2 * out.pi))

/-- The panel of an xlater that has none. -/
def addXlater (wid : Int) (xl : Xlater) : Option Shared :=
  if xl.decimation = 0 then none
  else
    let lowpass := out.double (out.double ((s.samplerate : ℚ) / xl.decimation) / 2)
    let helper := (xl.rid.bind fun rid => s.XlaterHelpers.lookup rid).getD
      ⟨lowpass, "hamming".toList, out.double (out.double (1 / 10) * lowpass)⟩
    s.make_panel out wid (s.place out xl) helper.lowpass helper.filtertype helper.transition
      false false

/-- One round of the loop over the xlaters. -/
def showXlater (wid : Int) (xl : Xlater) : Option Shared :=
  match s.find_wid wid with
  | none => s.addXlater out wid xl
  | some row => s.setRow row fun old => do
      let offset ← out.gint (s.place out xl)
      let freq ← out.gint (out.double (s.frequency + offset))
      return { old with offset := offset, freq := freq }

/-- Write changes in libclient.xlaters to the GUI listview.  Rows whose xlater is gone
are deleted first. -/
def xlater_cb : Option Shared :=
  s.xlaters.foldlM (fun s entry => s.showXlater out entry.1 entry.2)
    { s with
      model := s.model.filter fun row =>
        (s.xlaters.lookup row.wid).isSome || decide (row.wid = -1) }

/-- Call the callback, where it is set. -/
def xlater_callback : Option Shared := if s.callbacks then s.xlater_cb out else some s

/-! ## Pixels -/

/-- X position in waterfall to corresponding frequency. -/
def pixel2freq (pixpos : ℚ) : Option ℚ :=
  if s.fftw = 0 then none
  else
    let part := out.double (out.double (pixpos - s.borderleft) / s.fftw)
    some (out.double (out.double (-1 / 2 * s.samplerate) + out.double (part * s.samplerate)))

/-- The loop of `pixel2xlater`. -/
def xlaterAt (f : ℚ) : Dict Xlater → Option (Option Int)
  | [] => some none
  | (key, xl) :: rest =>
      if xl.decimation = 0 then none
      else
        let bw := out.double ((s.samplerate : ℚ) / xl.decimation)
        if |out.double (s.place out xl - f)| < out.double (bw / 2) then some (some key)
        else xlaterAt f rest

/-- X position in waterfall to corresponding xlater wid, or None if there is none. -/
def pixel2xlater (pixpos : ℚ) : Option (Option Int) := do
  let f ← s.pixel2freq out pixpos
  s.xlaterAt out f s.xlaters

/-- Y position in waterfall to corresponding frame number. -/
def pixel2frame (pixpos : ℚ) : Option Int :=
  match s.fftframes.lookup pixpos with
  | none => (s.fftframes.map Prod.snd).min?
  | some frame => some frame

/-! ## Changing an xlater -/

/-- Modify xlater `xid`, set rotator and new taps. -/
def modify_xlater (xid : Int) (rotate : ℚ) (taps : List ℚ) : Option Shared := do
  let xl ← s.xlaters.lookup xid
  ((s.setXlater xid { xl with rotate := rotate }).q_msg
    (.MODIFY_XLATER xid rotate taps)).xlater_callback out

/-- The rotation that moves an offset to 0 Hz. -/
def rotation (offset : ℚ) : ℚ :=
  out.double (out.double (-out.double (offset / s.samplerate) * 2) * out.pi)

/-- Update xlater on change. -/
def commit_xlater (row : Nat) : Option Shared := do
  let old ← s.model[row]?
  if s.samplerate = 0 then none
  else
    let rotate := s.rotation out old.offset
    let taps ← getfir out s.samplerate old.filtertype old.lowpass old.transition s.maxtaps
    s.modify_xlater out old.wid rotate taps

/-- A row of an unknown filter type cannot be committed. -/
theorem commit_xlater_unknown {row : Nat} {old : Row} (found : s.model[row]? = some old)
    (unknown : old.filtertype ≠ "hamming".toList ∧ old.filtertype ≠ "rcos".toList) :
    s.commit_xlater out row = none := by
  rw [commit_xlater, found, Option.bind_eq_bind, Option.bind_some, getfir_unknown _ _ _ _ _ unknown]
  split <;> rfl

def enable_xlater (idx : Int) (sampleformat : SampleFormat) : Option Shared :=
  sampleformat.type?.map fun type => s.q_msg (.ENABLE_XLATER idx type)

end Shared

end Kukuruku.Clients.XlaterPanel
