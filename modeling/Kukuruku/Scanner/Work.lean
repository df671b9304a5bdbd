import Kukuruku.Foundation.Machine
import Kukuruku.Scanner.Activity
import Kukuruku.Scanner.Blacklist
import Kukuruku.Scanner.ChannelAssignment
import Kukuruku.Scanner.GainControl
import Kukuruku.Scanner.Power
import Kukuruku.Scanner.Schedule

/-!
# The scanner at work

`work` takes turns between scheduled frames and frames picked by a hash; `scan`
looks for peaks, and `do_record` records them, buffer by buffer, from the pipe that
the radio fills.  A label carries the readings of the clock of one round.
-/

namespace Kukuruku.Scanner.Work

open Kukuruku.PythonTwo
open Kukuruku.Scanner.FindPeaks
open Kukuruku.Scanner.IntervalList (PyError)
open Kukuruku.Scanner.Blacklist
open Kukuruku.Scanner.ChannelAssignment
open Kukuruku.Scanner.Activity
open Kukuruku.Scanner.GainControl
open Kukuruku.Scanner.Power
open Kukuruku.Scanner.Schedule

variable {C : Type*} {K : Type} [Field K] [LinearOrder K] [FloorRing K]

/-! ## Data -/

structure Frame (K : Type) where
  freq : Number K
  floor : K
  stickactivity : Bool
  stick : K
  silencegap : K
  sql : K
  gain : Int
  channels : List (Channel K)

structure CronFrame (K : Type) extends Frame K where
  cron : List Char

/-- The configuration, as far as `KukurukuScanner` reads it. -/
structure Settings (K : Type) where
  timing : Timing
  windows : Windows
  bufsize : Nat
  minw : Number K
  maxw : Number K
  filtermargin : K
  messgain : Int
  defaultgain : Int
  limits : Limits
  nonce : List Char
  blacklist : List (K × K)
  archivelist : List (K × K)

/-- What the scanner asks of the world: the pipe, the transform, the number that four
bytes stand for, the digest and the local time. -/
structure World (C : Type*) (K : Type) where
  pipe : Nat → UInt8
  fft : Transform C K
  float32 : List UInt8 → K
  sha256 : List Char → Nat
  fromtimestamp : K → Date

/-- The frame at work. -/
inductive Which where
  | scan (idx : Nat)
  | cron (idx : Nat)
deriving DecidableEq

/-- The readings of the clock in a round of `work`. -/
structure WorkClock (K : Type) where
  crontest : Nat → K
  ctime : K
  delta : K
  lastact : K
  stop : K

/-- The readings in a round of the loop of `do_record`: for the peaks that are active
and at its end. -/
structure RecordClock (K : Type) where
  active : Nat → K
  check : K

/-- The variables of `do_record`.  The last five fields are history: where the first
byte stands in the pipe and the gain of the frame at that time, the readings of the
clock in the round that has begun the recording, the buffers that every channel was fed,
and the readings in the round of each buffer. -/
structure Recording (K : Type) where
  which : Which
  peaks : List (Peak K)
  stoptime : K
  lastact : K
  buf : Option (List UInt8)
  start : Nat
  gain : Int
  began : WorkClock K
  bufs : List (List UInt8)
  clocks : List (RecordClock K)

inductive Command (K : Type) where
  | tune (freq : Number K)
  | set_gain (pos : Int) (val : Int)

/-- `log` and `done` are history, latest first: the commands to the radio, with the
number of bytes read before them, and the recordings that have ended. -/
structure KukurukuScanner (K : Type) where
  scanframes : List (Frame K)
  cronframes : List (CronFrame K)
  position : Nat
  recording : Option (Recording K)
  log : List (Nat × Command K)
  done : List (Recording K)

inductive Act (K : Type) where
  | work (clock : WorkClock K)
  | record (clock : RecordClock K)

namespace Settings

variable (conf : Settings K)

def peaks : FindPeaks.Conf K where
  rate := conf.timing.rate
  fftw := conf.windows.fftw
  minw := conf.minw
  maxw := conf.maxw
  filtermargin := conf.filtermargin

end Settings

/-- A spectrum and a threshold with which comparisons come out as in the code: what is
no number is neither below nor above anything. -/
def compared (fftw : Nat) (sql : K) :
    Spectrum K → List K × K
  | .numbers acc => (acc, sql)
  | .nan => (List.replicate fftw 0, 0)

/-! ## The radio and its pipe -/

namespace KukurukuScanner

variable (s : KukurukuScanner K)

def tune (freq : Number K) : KukurukuScanner K :=
  { s with log := (s.position, .tune freq) :: s.log }

/-- The gain numbers are those of `top_block`; another one is an exception. -/
def set_gain (pos val : Int) : Option (KukurukuScanner K) :=
  if 0 ≤ pos ∧ pos ≤ 3 then some { s with log := (s.position, .set_gain pos val) :: s.log }
  else none

/-- The bytes of the pipe from a place on. -/
def slice (pipe : Nat → UInt8) (start length : Nat) : List UInt8 :=
  (List.range length).map fun k => pipe (start + k)

/-- `pipefile.read`, which waits for all bytes. -/
def read (pipe : Nat → UInt8) (nbytes : Nat) : List UInt8 × KukurukuScanner K :=
  (slice pipe s.position nbytes, { s with position := s.position + nbytes })

def frame? : Which → Option (Frame K)
  | .scan idx => s.scanframes[idx]?
  | .cron idx => (s.cronframes[idx]?).map CronFrame.toFrame

/-- The objects are shared, so the new gain stays with the frame. -/
def putGain (which : Which) (gain : Int) : KukurukuScanner K :=
  match which with
  | .scan idx => { s with
      scanframes := s.scanframes.modify idx fun frame => { frame with gain := gain } }
  | .cron idx => { s with
      cronframes := s.cronframes.modify idx fun frame => { frame with gain := gain } }

/-- Read self.conf.bufsize samples to flush buffers in osmosdr. -/
def sdrflush (pipe : Nat → UInt8) (bufsize : Nat) : KukurukuScanner K :=
  (s.read pipe (bufsize * COMPLEX64)).2

/-- `do_record` up to its loop, which is not entered without peaks; the files of the
peaks are opened and closed with it. -/
def do_record (which : Which) (peaks : List (Peak K)) (buf : Option (List UInt8))
    (start : Nat) (frame : Frame K) (clock : WorkClock K) : KukurukuScanner K :=
  if peaks = [] then s
  else
    let r : Recording K :=
      { which := which
        peaks := peaks
        stoptime := clock.stop + frame.stick
        lastact := clock.lastact
        buf := buf
        start := start
        gain := frame.gain
        began := clock
        bufs := []
        clocks := [] }
    { s with recording := some r }

/-- Record selected channels from a scheduled scan. -/
def record_long (w : World C K) (conf : Settings K) (idx : Nat) (cronframe : Frame K)
    (clock : WorkClock K) : KukurukuScanner K :=
  let s := (s.tune cronframe.freq).sdrflush w.pipe conf.bufsize
  let peaks := cronframe.channels.map fun channel =>
    ⟨channel.freq - cronframe.freq, channel.bw, channel.pipe, true⟩
  s.do_record (.cron idx) peaks none s.position cronframe clock

end KukurukuScanner

/-! ## Decisions -/

/-- The numbers of a buffer, real and imaginary parts alike. -/
def floats (w : World C K) (buf : List UInt8) : Option (List K) :=
  if buf.length % 4 = 0 then
    some ((List.range (buf.length / 4)).map fun k => w.float32 ((buf.drop (4 * k)).take 4))
  else none

/-- The peaks of a buffer that are to be recorded. -/
def detect (w : World C K) (conf : Settings K) (scanframe : Frame K) (sbuf : List UInt8) :
    Option (List (Peak K)) := do
  let spectrum ← compute_spectrum w.fft conf.windows sbuf
  let (acc, sql) := compared conf.windows.fftw scanframe.sql spectrum
  let floor ← percentile conf.peaks acc scanframe.floor
  let peaks ← find_peaks conf.peaks acc (floor + sql)
  (filter_blacklist conf.blacklist conf.archivelist scanframe.freq peaks).toOption

/-- `check_activity` for the peaks one after the other: the readings of the clock for
those that are active, latest first. -/
def activity (w : World C K) (conf : Settings K) (frame : Frame K) (buf : List UInt8)
    (clock : Nat → K) (peaks : List (Peak K)) : Option (List K) := do
  let spectrum ← compute_spectrum w.fft conf.windows buf
  let (acc, sql) := compared conf.windows.fftw frame.sql spectrum
  let active ← peaks.mapM fun peak => (check_activity conf.peaks acc peak frame.floor sql).result
  return (active.zipIdx.filterMap fun entry =>
    if entry.1 then some (clock entry.2) else none).reverse

/-- The gain after the first window of a buffer. -/
def adapted (w : World C K) (conf : Settings K) (gain : Int) (buf : List UInt8) : Option Int :=
  (floats w (buf.take (COMPLEX64 * conf.windows.fftw))).map fun numbers =>
    update_and_set_gain conf.limits gain (compute_histogram numbers)

/-! ## The rounds -/

namespace KukurukuScanner

variable (w : World C K) (conf : Settings K) (s : KukurukuScanner K)

/-- Find peaks in spectrum, record if specified in allow/blacklist. -/
def scan (idx : Nat) (scanframe : Frame K) (clock : WorkClock K) :
    Option (KukurukuScanner K) := do
  let s ← (s.tune scanframe.freq).set_gain conf.messgain scanframe.gain
  let s := s.sdrflush w.pipe conf.bufsize
  let start := s.position
  let (sbuf, s) := s.read w.pipe (nbytes conf.timing clock.delta).toNat
  let peaks ← detect w conf scanframe sbuf
  if peaks = [] then
    let gain ← adapted w conf scanframe.gain sbuf
    (s.putGain (.scan idx) gain).set_gain conf.messgain gain
  else
    -- determine whether we stumbled upon any specified channel which has PIPE set
    let peaks := (matchPeaks scanframe.freq scanframe.channels peaks).map Matched.peak
    return s.do_record (.scan idx) peaks (some sbuf) start scanframe clock

/-- One round of `work`, up to the loop of `do_record`. -/
def work (clock : WorkClock K) : Option (KukurukuScanner K) :=
  let dates := (List.range s.cronframes.length).map fun k => w.fromtimestamp (clock.crontest k)
  match find_cronjob (s.cronframes.map CronFrame.cron) dates with
  | some k => (s.frame? (.cron k)).map fun cronframe => s.record_long w conf k cronframe clock
  | none =>
      if s.scanframes = [] then some s
      else
        let idx := pick conf.timing w.sha256 conf.nonce s.scanframes.length clock.ctime
        (s.frame? (.scan idx)).bind fun scanframe => s.scan w conf idx scanframe clock

/-- The buffer of a round, which is read unless the scan has left one, and what was
heard in it. -/
def nextBuffer (r : Recording K) (frame : Frame K) (clock : RecordClock K) :
    Option (List UInt8 × List K × KukurukuScanner K) :=
  match r.buf with
  | some buf => some (buf, [], s)
  | none =>
      let (buf, s) := s.read w.pipe (conf.bufsize * COMPLEX64)
      if frame.stickactivity then
        (activity w conf frame buf clock.active r.peaks).map fun heard => (buf, heard, s)
      else some (buf, [], s)

/-- We have either reached end specified by "stick" or there is no activity for at
least "silencegap" seconds. -/
def Stops (r : Recording K) (frame : Frame K) (check : K) : Prop :=
  frame.stickactivity = false ∧ r.stoptime < check ∨
    frame.stickactivity = true ∧ r.lastact + frame.silencegap < check

instance (r : Recording K) (frame : Frame K) (check : K) : Decidable (Stops r frame check) :=
  inferInstanceAs (Decidable (_ ∨ _))

/-- Every channel is fed a buffer. -/
def fed (r : Recording K) (buf : List UInt8) (heard : List K) (clock : RecordClock K) :
    Recording K :=
  { r with
    lastact := heard.headD r.lastact
    buf := none
    bufs := r.bufs ++ [buf]
    clocks := r.clocks ++ [clock] }

/-- One round of the loop of `do_record`. -/
def record (r : Recording K) (frame : Frame K) (clock : RecordClock K) :
    Option (KukurukuScanner K) := do
  let (buf, heard, s) ← s.nextBuffer w conf r frame clock
  let r := fed r buf heard clock
  if Stops r frame clock.check then
    return { s with recording := none, done := r :: s.done }
  else
    let gain ← adapted w conf frame.gain buf
    let s ← (s.putGain r.which gain).set_gain conf.messgain gain
    return { s with recording := some r }

def step? (s : KukurukuScanner K) : Act K → Option (KukurukuScanner K)
  | .work clock => if s.recording.isNone then s.work w conf clock else none
  | .record clock => s.recording.bind fun r =>
      (s.frame? r.which).bind fun frame => s.record w conf r frame clock

end KukurukuScanner

/-- `ConfReader` gives every frame the same gain, and nothing has been read. -/
structure Starts (conf : Settings K) (s : KukurukuScanner K) : Prop where
  scanframes : ∀ frame ∈ s.scanframes, frame.gain = conf.defaultgain
  cronframes : ∀ frame ∈ s.cronframes, frame.gain = conf.defaultgain
  position : s.position = 0
  recording : s.recording = none
  log : s.log = []
  done : s.done = []

def machine (w : World C K) (conf : Settings K) : Machine (KukurukuScanner K) (Act K) where
  Initial := Starts conf
  step? := KukurukuScanner.step? w conf

end Kukuruku.Scanner.Work
