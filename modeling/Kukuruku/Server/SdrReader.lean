import Kukuruku.Foundation.Machine
import Kukuruku.Foundation.Ring
import Kukuruku.Server.Constants

/-!
# The SDR reader and the recording requests

`sdr_read_thr` records frames to disk and refills `sdr_inbuf`; the handlers of
`RECORD_START` and `RECORD_STOP` change the recording cursor meanwhile.  Every
section that holds `datamutex` is one step, and so is every frame written to
disk outside it.  The fields below `pc` are history: they are only appended to
and no branch reads them.
-/

namespace Kukuruku.Server.SdrReader

/-- One packet of `sdr_inbuf`; the spectrum and the histogram are left out. -/
structure SdrPacket (D : Type*) where
  frequency : Int
  timestamp : Int
  frameno : Int
  data : D
deriving DecidableEq

/-- The parts of the name `rec-<time>-<samplerate>`. -/
structure RecPath where
  time : Int
  samplerate : Int
deriving DecidableEq

/-- What one turn of the writing loop appends: the data to the `.cfile` and the
line of the frame to the `.txt` file. -/
structure Block (D : Type*) where
  path : Option RecPath
  data : Option D
  time : Option Int
  freq : Option Int
deriving DecidableEq

def Block.of {D : Type*} (path : Option RecPath) (slot : Option (SdrPacket D)) : Block D :=
  ⟨path, slot.map SdrPacket.data, slot.map SdrPacket.timestamp, slot.map SdrPacket.frequency⟩

/-! ## The recording globals and their handlers -/

structure RecControl where
  rec_cptr : Int
  rec_stop : Int
  recpath : Option RecPath
deriving DecidableEq

namespace RecControl

def initial : RecControl := ⟨INT32_MIN, 0, none⟩

/-- The reader's test for something to record. -/
def Active (control : RecControl) : Prop :=
  control.rec_cptr ≠ INT32_MIN ∧ control.rec_cptr ≤ control.rec_stop

instance (control : RecControl) : Decidable control.Active :=
  inferInstanceAs (Decidable (_ ∧ _))

/-- The cursor that `RECORD_START` sets. -/
def startCursor (startframe sdr_cptr : Int) : Int :=
  let requested := if startframe = -1 then sdr_cptr else startframe
  let inHistory :=
    if requested < sdr_cptr - BUFSIZE then sdr_cptr - BUFSIZE else requested
  if inHistory < 0 then 0 else inHistory

/-- The handler of `RECORD_START`, at time `now`. -/
def start (startframe stopframe sdr_cptr now samplerate : Int) : RecControl :=
  ⟨startCursor startframe sdr_cptr, stopframe, some ⟨now, samplerate⟩⟩

/-- The handler of `RECORD_STOP`. -/
def stop (control : RecControl) : RecControl := { control with rec_cptr := INT32_MIN }

end RecControl

/-! ## The reader's thread -/

/-- Where `sdr_read_thr` is, with its locals. -/
inductive Pc where
  | top
  | write (i : Nat) (cptr : Int) (path : Option RecPath)
  | relock (cptr : Int)
  | overflow
  | fill (base : Int)
  | commit
deriving DecidableEq

/-- Between the snapshot of the cursor and its write-back. -/
def Pc.InBatch : Pc → Prop
  | .write _ _ _ | .relock _ => True
  | _ => False

instance : (pc : Pc) → Decidable pc.InBatch
  | .write _ _ _ | .relock _ => .isTrue trivial
  | .top | .overflow | .fill _ | .commit => .isFalse id

/-- Slots that are given up for the frame being read. -/
def Pc.refilling : Pc → Int
  | .fill _ => 1
  | _ => 0

/-- Frames that are complete in the ring but not yet counted by `sdr_cptr`. -/
def Pc.uncounted : Pc → Int
  | .commit => 1
  | _ => 0

theorem Pc.refilling_range (pc : Pc) : 0 ≤ pc.refilling ∧ pc.refilling ≤ 1 := by
  cases pc <;> simp [refilling]

theorem Pc.uncounted_range (pc : Pc) : 0 ≤ pc.uncounted ∧ pc.uncounted ≤ 1 := by
  cases pc <;> simp [uncounted]

/-- The last record command and whether a batch has obeyed it yet. -/
inductive Command where
  | stopped
  | started (cptr : Int)
  | running
deriving DecidableEq

structure Sdr (D : Type*) where
  sdr_cptr : Int
  send_cptr : Int
  record : RecControl
  frequency : Int
  samplerate : Int
  sdr_inbuf : Ring.Cells (SdrPacket D)
  pc : Pc
  disk : List (Block D)
  frames : List (SdrPacket D)
  command : Command
  batches : List (Command × Int)

inductive Act (D : Type*) where
  | top
  | write
  | relock
  | wake
  | fill (data : D) (timestamp : Int)
  | commit
  | RECORD_START (startframe stopframe now : Int)
  | RECORD_STOP
  | RETUNE (frequency : Int)
  | send (cursor : Int)

namespace Sdr

variable {D : Type*}

def start (frequency samplerate : Int) : Sdr D where
  sdr_cptr := -1
  send_cptr := -1
  record := .initial
  frequency := frequency
  samplerate := samplerate
  sdr_inbuf := fun _ => none
  pc := .top
  disk := []
  frames := []
  command := .stopped
  batches := []

/-- The overflow guard; a frame that is admitted takes the next slot. -/
def claimSlot (s : Sdr D) : Sdr D :=
  if s.send_cptr < s.sdr_cptr + 1 - BUFSIZE then { s with pc := .overflow }
  else
    { s with
      sdr_inbuf := Function.update s.sdr_inbuf ((s.sdr_cptr + 1).tmod BUFSIZE) none
      pc := .fill ((s.sdr_cptr + 1).tmod BUFSIZE) }

@[simp] theorem claimSlot_sdr_cptr (s : Sdr D) : s.claimSlot.sdr_cptr = s.sdr_cptr := by
  unfold claimSlot
  split <;> rfl

@[simp] theorem claimSlot_record (s : Sdr D) : s.claimSlot.record = s.record := by
  unfold claimSlot
  split <;> rfl

@[simp] theorem claimSlot_disk (s : Sdr D) : s.claimSlot.disk = s.disk := by
  unfold claimSlot
  split <;> rfl

@[simp] theorem claimSlot_frames (s : Sdr D) : s.claimSlot.frames = s.frames := by
  unfold claimSlot
  split <;> rfl

@[simp] theorem claimSlot_command (s : Sdr D) : s.claimSlot.command = s.command := by
  unfold claimSlot
  split <;> rfl

@[simp] theorem claimSlot_batches (s : Sdr D) : s.claimSlot.batches = s.batches := by
  unfold claimSlot
  split <;> rfl

theorem claimSlot_pc (s : Sdr D) :
    s.claimSlot.pc = .overflow ∨ ∃ base, s.claimSlot.pc = .fill base := by
  unfold claimSlot
  split
  · exact Or.inl rfl
  · exact Or.inr ⟨_, rfl⟩

theorem claimSlot_not_inBatch (s : Sdr D) : ¬ s.claimSlot.pc.InBatch := by
  rcases s.claimSlot_pc with pc | ⟨base, pc⟩
  · rw [pc]
    exact id
  · rw [pc]
    exact id

/-- The head of the loop: the cursor is read, and without a recording it is
written back at once. -/
def top (s : Sdr D) : Sdr D :=
  if s.record.Active then
    { s with
      pc := .write 0 s.record.rec_cptr s.record.recpath
      command := .running
      batches := s.batches ++ [(s.command, s.record.rec_cptr)] }
  else s.claimSlot

/-- One turn of the writing loop. -/
def write (s : Sdr D) (i : Nat) (cptr : Int) (path : Option RecPath) : Sdr D :=
  { s with
    disk := s.disk ++ [Block.of path (s.sdr_inbuf (cptr.tmod BUFSIZE))]
    pc :=
      if cptr + 1 > s.sdr_cptr ∨ i + 1 = WRITE_FRAMES_SYNC then .relock (cptr + 1)
      else .write (i + 1) (cptr + 1) path }

/-- After the batch: lock again and write the cursor back. -/
def relock (s : Sdr D) (cptr : Int) : Sdr D :=
  claimSlot { s with record := { s.record with rec_cptr := cptr } }

@[simp] theorem relock_sdr_cptr (s : Sdr D) (cptr : Int) :
    (s.relock cptr).sdr_cptr = s.sdr_cptr := claimSlot_sdr_cptr _

@[simp] theorem relock_frames (s : Sdr D) (cptr : Int) :
    (s.relock cptr).frames = s.frames := claimSlot_frames _

/-- The packet that is read while `sdr_cptr` still names the frame before. -/
def packet (s : Sdr D) (data : D) (timestamp : Int) : SdrPacket D :=
  ⟨s.frequency, timestamp, s.sdr_cptr, data⟩

def fill (s : Sdr D) (base : Int) (data : D) (timestamp : Int) : Sdr D :=
  { s with
    sdr_inbuf := Function.update s.sdr_inbuf base (some (s.packet data timestamp))
    pc := .commit
    frames := s.frames ++ [s.packet data timestamp] }

def commit (s : Sdr D) : Sdr D := { s with sdr_cptr := s.sdr_cptr + 1, pc := .top }

def RECORD_START (s : Sdr D) (startframe stopframe now : Int) : Sdr D :=
  { s with
    record := .start startframe stopframe s.sdr_cptr now s.samplerate
    command := .started (RecControl.startCursor startframe s.sdr_cptr) }

def RECORD_STOP (s : Sdr D) : Sdr D :=
  { s with record := s.record.stop, command := .stopped }

/-- The steps; the last frame number stays below the int32 overflow. -/
def step? (s : Sdr D) : Act D → Option (Sdr D)
  | .top => match s.pc with
    | .top => some s.top
    | _ => none
  | .write => match s.pc with
    | .write i cptr path => some (s.write i cptr path)
    | _ => none
  | .relock => match s.pc with
    | .relock cptr => some (s.relock cptr)
    | _ => none
  | .wake => match s.pc with
    | .overflow => some { s with pc := .top }
    | _ => none
  | .fill data timestamp => match s.pc with
    | .fill base => some (s.fill base data timestamp)
    | _ => none
  | .commit => match s.pc with
    | .commit => if s.sdr_cptr + 1 < INT32_MAX then some s.commit else none
    | _ => none
  | .RECORD_START startframe stopframe now => some (s.RECORD_START startframe stopframe now)
  | .RECORD_STOP => some s.RECORD_STOP
  | .RETUNE frequency => some { s with frequency := frequency }
  | .send cursor =>
      if s.send_cptr ≤ cursor ∧ cursor ≤ s.sdr_cptr then some { s with send_cptr := cursor }
      else none

/-- What each step does, with the place of the thread it is taken at. -/
inductive Step : Sdr D → Act D → Sdr D → Prop where
  | top {s : Sdr D} (pc : s.pc = .top) : Step s .top s.top
  | write {s : Sdr D} {i : Nat} {cptr : Int} {path : Option RecPath}
      (pc : s.pc = .write i cptr path) : Step s .write (s.write i cptr path)
  | relock {s : Sdr D} {cptr : Int} (pc : s.pc = .relock cptr) :
      Step s .relock (s.relock cptr)
  | wake {s : Sdr D} (pc : s.pc = .overflow) : Step s .wake { s with pc := .top }
  | fill {s : Sdr D} {base : Int} (data : D) (timestamp : Int) (pc : s.pc = .fill base) :
      Step s (.fill data timestamp) (s.fill base data timestamp)
  | commit {s : Sdr D} (pc : s.pc = .commit) : Step s .commit s.commit
  | RECORD_START {s : Sdr D} (startframe stopframe now : Int) :
      Step s (.RECORD_START startframe stopframe now)
        (s.RECORD_START startframe stopframe now)
  | RECORD_STOP {s : Sdr D} : Step s .RECORD_STOP s.RECORD_STOP
  | RETUNE {s : Sdr D} (frequency : Int) :
      Step s (.RETUNE frequency) { s with frequency := frequency }
  | send {s : Sdr D} (cursor : Int) (forward : s.send_cptr ≤ cursor)
      (read : cursor ≤ s.sdr_cptr) : Step s (.send cursor) { s with send_cptr := cursor }

theorem Step.of_step? {s t : Sdr D} {act : Act D} (step : s.step? act = some t) :
    Step s act t := by
  cases act with
  | RECORD_START startframe stopframe now =>
      obtain rfl := Option.some.inj step
      exact .RECORD_START startframe stopframe now
  | RECORD_STOP =>
      obtain rfl := Option.some.inj step
      exact .RECORD_STOP
  | RETUNE frequency =>
      obtain rfl := Option.some.inj step
      exact .RETUNE frequency
  | send cursor =>
      rw [step?] at step
      split at step
      · rename_i bounds
        obtain rfl := Option.some.inj step
        exact .send cursor bounds.1 bounds.2
      · cases step
  | commit =>
      rw [step?] at step
      split at step
      · rename_i pc
        split at step
        · obtain rfl := Option.some.inj step
          exact .commit pc
        · cases step
      · cases step
  | _ =>
      rw [step?] at step
      split at step
      · rename_i pc
        obtain rfl := Option.some.inj step
        constructor
        exact pc
      · cases step

end Sdr

/-- The SDR thread with the requests of the clients and the metadata cursor of
`socket_write_thr` as its environment. -/
def sdr_read_thr (D : Type*) : Machine (Sdr D) (Act D) where
  Initial s := ∃ frequency samplerate, s = Sdr.start frequency samplerate
  step? := Sdr.step?

/-! ## What the ring holds -/

namespace Sdr

variable {D : Type*}

/-- The oldest frame that the ring still has. -/
def oldest (s : Sdr D) : Nat := (s.frames.length + s.pc.refilling - BUFSIZE).toNat

/-- The slot of frame `j` holds the packet with that frame's number. -/
def Present (s : Sdr D) (j : Nat) : Prop :=
  ∃ packet, s.sdr_inbuf ((j : Int).tmod BUFSIZE) = some packet ∧ packet.frameno = j - 1

/-- The ring against the frames read so far. -/
structure Ringed (s : Sdr D) : Prop where
  count : s.sdr_cptr + 1 + s.pc.uncounted = s.frames.length
  held : Ring.Holds BUFSIZE 0 s.sdr_inbuf s.frames s.oldest
  within : Ring.Within BUFSIZE 0 s.sdr_inbuf s.frames s.oldest
  slot : ∀ base, s.pc = .fill base →
    base = (0 + (s.frames.length : Int)).tmod BUFSIZE ∧ s.sdr_inbuf base = none
  numbered : ∀ (j : Nat) (packet : SdrPacket D), s.frames[j]? = some packet →
    packet.frameno = (j : Int) - 1

namespace Ringed

variable {s t : Sdr D}

theorem start (frequency samplerate : Int) :
    Ringed (Sdr.start frequency samplerate : Sdr D) where
  count := rfl
  held := .nil
  within := .empty
  slot := by
    intro base filling
    cases filling
  numbered := by
    intro j packet found
    cases found

/-- A step that leaves ring, log and cursor alone and is not about a refill. -/
theorem frame (ringed : s.Ringed) (cptr : t.sdr_cptr = s.sdr_cptr)
    (inbuf : t.sdr_inbuf = s.sdr_inbuf) (frames : t.frames = s.frames)
    (refilling : t.pc.refilling = s.pc.refilling)
    (uncounted : t.pc.uncounted = s.pc.uncounted)
    (filling : ∀ base, t.pc = .fill base → s.pc = .fill base) : t.Ringed := by
  have low : t.oldest = s.oldest := by rw [oldest, frames, refilling, oldest]
  refine ⟨?_, ?_, ?_, ?_, ?_⟩
  · rw [cptr, uncounted, frames, ringed.count]
  · rw [inbuf, frames, low]
    exact ringed.held
  · rw [inbuf, frames, low]
    exact ringed.within
  · intro base refill
    rw [inbuf, frames]
    exact ringed.slot base (filling base refill)
  · rw [frames]
    exact ringed.numbered

/-- Giving up the slot of the next frame moves the oldest frame on. -/
theorem claimSlot (ringed : s.Ringed) (uncounted : s.pc.uncounted = 0)
    (refilling : s.pc.refilling = 0) : s.claimSlot.Ringed := by
  have count := ringed.count
  have size := BUFSIZE_eq
  unfold Sdr.claimSlot
  split
  · refine ringed.frame rfl rfl rfl ?_ ?_ ?_
    · exact refilling.symm
    · exact uncounted.symm
    · rintro base ⟨⟩
  · have next : s.sdr_cptr + 1 = 0 + (s.frames.length : Int) := by omega
    have before : s.oldest = (s.frames.length - BUFSIZE).toNat := by
      rw [oldest, refilling, Int.add_zero]
    rw [next]
    refine ⟨?_, ?_, ?_, ?_, ringed.numbered⟩
    · simp only [Pc.uncounted]
      omega
    · refine (ringed.held.weaken ?_).clear (Int.le_refl 0) ?_
      · rw [before]
        simp only [oldest, Pc.refilling]
        omega
      · simp only [oldest, Pc.refilling]
        omega
    · by_cases full : BUFSIZE ≤ s.frames.length
      · have later := ringed.within.clear_full (Int.le_refl 0) (by decide) (by omega)
        have low : s.oldest + 1 = (s.frames.length + 1 - BUFSIZE).toNat := by omega
        rwa [low] at later
      · have later := ringed.within.clear ((0 + (s.frames.length : Int)).tmod BUFSIZE)
        have low : s.oldest = (s.frames.length + 1 - BUFSIZE).toNat := by omega
        rwa [low] at later
    · rintro base ⟨⟩
      exact ⟨rfl, Function.update_self _ _ _⟩

theorem fill (ringed : s.Ringed) {base : Int} (filling : s.pc = .fill base) (data : D)
    (timestamp : Int) : (s.fill base data timestamp).Ringed := by
  have count := ringed.count
  have size := BUFSIZE_eq
  have low : s.oldest = (s.frames.length + 1 - BUFSIZE).toNat := by
    rw [oldest, filling, Pc.refilling]
  have later : (s.fill base data timestamp).oldest = s.oldest := by
    rw [low]
    simp [oldest, Sdr.fill, Pc.refilling]
  have counted : s.pc.uncounted = 0 := by
    rw [filling]
    rfl
  obtain ⟨place, _⟩ := ringed.slot base filling
  refine ⟨?_, ?_, ?_, ?_, ?_⟩
  · simp only [Sdr.fill, Pc.uncounted, List.length_append, List.length_singleton]
    omega
  · rw [later]
    simp only [Sdr.fill, place]
    exact ringed.held.store (Int.le_refl 0) (by omega) _
  · rw [later]
    simp only [Sdr.fill, place]
    exact ringed.within.store (by omega) _
  · rintro _ ⟨⟩
  · intro j packet found
    simp only [Sdr.fill] at found
    by_cases last : j = s.frames.length
    · subst last
      rw [List.getElem?_concat_length] at found
      obtain rfl := Option.some.inj found
      simp only [Sdr.packet]
      omega
    · obtain ⟨inside, _⟩ := List.getElem?_eq_some_iff.mp found
      rw [List.length_append, List.length_singleton] at inside
      rw [List.getElem?_append_left (by omega)] at found
      exact ringed.numbered j packet found

theorem commit (ringed : s.Ringed) (complete : s.pc = .commit) : s.commit.Ringed := by
  have count := ringed.count
  rw [complete, Pc.uncounted] at count
  have same : s.commit.oldest = s.oldest := by
    simp only [oldest, complete, Sdr.commit, Pc.refilling]
  refine ⟨?_, ?_, ?_, ?_, ringed.numbered⟩
  · simp only [Sdr.commit, Pc.uncounted]
    omega
  · rw [same]
    exact ringed.held
  · rw [same]
    exact ringed.within
  · rintro base ⟨⟩

/-- Every step keeps the ring in order, with or without record commands. -/
theorem step (ringed : s.Ringed) {act : Act D} (step : Step s act t) : t.Ringed := by
  cases step with
  | top pc =>
      unfold Sdr.top
      split
      · exact ringed.frame rfl rfl rfl (by rw [pc]; rfl) (by rw [pc]; rfl) (by rintro _ ⟨⟩)
      · exact ringed.claimSlot (by rw [pc]; rfl) (by rw [pc]; rfl)
  | write pc =>
      refine ringed.frame rfl rfl rfl ?_ ?_ ?_ <;> rw [pc, Sdr.write] <;> split
      · rfl
      · rfl
      · rfl
      · rfl
      · rintro _ ⟨⟩
      · rintro _ ⟨⟩
  | relock pc =>
      refine claimSlot (ringed.frame rfl rfl rfl rfl rfl fun _ filling => filling) ?_ ?_
      · rw [pc]
        rfl
      · rw [pc]
        rfl
  | wake pc =>
      exact ringed.frame rfl rfl rfl (by rw [pc]; rfl) (by rw [pc]; rfl) (by rintro _ ⟨⟩)
  | fill data timestamp pc => exact ringed.fill pc data timestamp
  | commit pc => exact ringed.commit pc
  | RECORD_START | RECORD_STOP | RETUNE | send =>
      exact ringed.frame rfl rfl rfl rfl rfl fun _ filling => filling

/-- `oldest` is the oldest frame that is present, once anything was read. -/
theorem isLeast_oldest (ringed : s.Ringed) (nonempty : s.oldest < s.frames.length) :
    IsLeast {j | s.Present j} s.oldest := by
  have size := BUFSIZE_eq
  constructor
  · have held := ringed.held s.oldest (Nat.le_refl _) nonempty
    rw [List.getElem?_eq_getElem nonempty, Int.zero_add] at held
    exact ⟨_, held, ringed.numbered _ _ (List.getElem?_eq_getElem nonempty)⟩
  · rintro j ⟨packet, found, frameno⟩
    obtain ⟨k, after, inLog, _⟩ := ringed.within _ _ found
    have number := ringed.numbered k packet inLog
    omega

end Ringed

/-- Reachable states, whatever the requests were, have the ring in order. -/
theorem ringed_of_reachable {ok : Sdr D → Act D → Prop} {s : Sdr D}
    (reach : (sdr_read_thr D).Reachable ok s) : s.Ringed := by
  refine reach.invariant ?_ ?_
  · rintro s ⟨frequency, samplerate, rfl⟩
    exact .start frequency samplerate
  · intro s act t ringed _ step
    exact ringed.step (.of_step? step)

end Sdr

end Kukuruku.Server.SdrReader
