import Kukuruku.Server.FrameSupply

/-!
# Spectra and histograms of the frames

The second half of a pass of `socket_write_thr`, against the SDR thread that
refills `sdr_inbuf`.  The writer takes both cursors under `datamutex`, reads the
slots between them without it, and commits its cursor at the end; the overflow
guard of the SDR thread looks at the committed one.  `handled` is history.
-/

namespace Kukuruku.Server.MetadataLoop

open Kukuruku.Server.SdrReader (Sdr SdrPacket)
open Kukuruku.Server.FrameSupply

/-- What the SDR thread stores of a frame: the samples it has read and what
`calc_spectrum` and `calc_histogram` make of them. -/
structure Measured (D S H : Type*) where
  data : D
  spectrum : S
  histo : H

/-- The two functions of `metadata.c`. -/
structure Metadata (D S H : Type*) where
  calc_spectrum : D → S
  calc_histogram : D → H

variable {D S H : Type*}

def Metadata.measure (gauge : Metadata D S H) (data : D) : Measured D S H :=
  ⟨data, gauge.calc_spectrum data, gauge.calc_histogram data⟩

/-- Where the writer is, with its locals. -/
inductive Pc where
  | idle
  | loop (sdr_cptr send_cptr : Int)
deriving DecidableEq

structure State (D S H : Type*) where
  sdr : Sdr (Measured D S H)
  pc : Pc
  handled : List Int

inductive Act (D : Type*) where
  | sdr (act : SdrReader.Act D)
  | snapshot
  | next
  | commit

/-- The SDR thread reads samples and computes the rest; the metadata cursor is
the writer's alone. -/
def sdrAct (gauge : Metadata D S H) : SdrReader.Act D → Option (SdrReader.Act (Measured D S H))
  | .top => some .top
  | .write => some .write
  | .relock => some .relock
  | .wake => some .wake
  | .fill data timestamp => some (.fill (gauge.measure data) timestamp)
  | .commit => some .commit
  | .RECORD_START startframe stopframe now => some (.RECORD_START startframe stopframe now)
  | .RECORD_STOP => some .RECORD_STOP
  | .RETUNE frequency => some (.RETUNE frequency)
  | .send _ => none

namespace State

def start (frequency samplerate : Int) : State D S H :=
  ⟨.start frequency samplerate, .idle, []⟩

/-- `snapshot` and `commit` are the sections under `datamutex`; `next` ends the
turn that has handled frame `send_cptr + 1`. -/
def step? (gauge : Metadata D S H) (s : State D S H) : Act D → Option (State D S H)
  | .sdr act =>
      (sdrAct gauge act).bind fun act =>
        (s.sdr.step? act).map fun sdr => { s with sdr := sdr }
  | .snapshot =>
      match s.pc with
      | .idle => some { s with pc := .loop s.sdr.sdr_cptr s.sdr.send_cptr }
      | .loop _ _ => none
  | .next =>
      match s.pc with
      | .loop sdr_cptr send_cptr =>
          if sdr_cptr > send_cptr then
            some { s with
              pc := .loop sdr_cptr (send_cptr + 1)
              handled := s.handled ++ [send_cptr + 1] }
          else none
      | .idle => none
  | .commit =>
      match s.pc with
      | .loop sdr_cptr send_cptr =>
          if sdr_cptr > send_cptr then none
          else some { s with sdr := { s.sdr with send_cptr := send_cptr }, pc := .idle }
      | .idle => none

/-- The frame whose metadata the writer is sending. -/
def handling? (s : State D S H) : Option Int :=
  match s.pc with
  | .loop sdr_cptr send_cptr => if sdr_cptr > send_cptr then some (send_cptr + 1) else none
  | .idle => none

end State

/-- Both threads and the requests that the SDR thread sees. -/
def metadata (gauge : Metadata D S H) : Machine (State D S H) (Act D) where
  Initial s := ∃ frequency samplerate, s = .start frequency samplerate
  step? := State.step? gauge

/-- The slot of frame `n` is not being refilled and holds that frame, with the
metadata of its own samples. -/
def HoldsFrame (gauge : Metadata D S H) (s : State D S H) (n : Int) : Prop :=
  (∀ base, s.sdr.pc = .fill base → base ≠ n.tmod BUFSIZE) ∧
  ∃ (j : Nat) (packet : SdrPacket (Measured D S H)), n = j ∧ s.sdr.frames[j]? = some packet ∧
    s.sdr.sdr_inbuf (n.tmod BUFSIZE) = some packet ∧
    packet.data = gauge.measure packet.data.data

/-! ## Steps -/

inductive Step (gauge : Metadata D S H) : State D S H → State D S H → Prop where
  | sdr {s : State D S H} {act : SdrReader.Act (Measured D S H)} {sdr : Sdr (Measured D S H)}
      (step : Sdr.Step s.sdr act sdr) (cursor : sdr.send_cptr = s.sdr.send_cptr)
      (measured : ∀ data timestamp, act = .fill data timestamp → data = gauge.measure data.data) :
      Step gauge s { s with sdr := sdr }
  | snapshot {s : State D S H} (pc : s.pc = .idle) :
      Step gauge s { s with pc := .loop s.sdr.sdr_cptr s.sdr.send_cptr }
  | next {s : State D S H} {sdr_cptr send_cptr : Int} (pc : s.pc = .loop sdr_cptr send_cptr)
      (more : send_cptr < sdr_cptr) :
      Step gauge s { s with
        pc := .loop sdr_cptr (send_cptr + 1)
        handled := s.handled ++ [send_cptr + 1] }
  | commit {s : State D S H} {sdr_cptr send_cptr : Int} (pc : s.pc = .loop sdr_cptr send_cptr)
      (done : sdr_cptr ≤ send_cptr) :
      Step gauge s { s with sdr := { s.sdr with send_cptr := send_cptr }, pc := .idle }

/-- The reader's own steps leave the metadata cursor alone. -/
theorem send_cptr_step {sdr next : Sdr (Measured D S H)} {act : SdrReader.Act (Measured D S H)}
    (step : Sdr.Step sdr act next) :
    next.send_cptr = sdr.send_cptr ∨ ∃ cursor, act = .send cursor := by
  cases step with
  | top =>
      left
      unfold Sdr.top
      split
      · rfl
      · unfold Sdr.claimSlot
        split <;> rfl
  | relock =>
      left
      unfold Sdr.relock Sdr.claimSlot
      split <;> rfl
  | send cursor => exact Or.inr ⟨cursor, rfl⟩
  | _ => exact Or.inl rfl

theorem Step.of_step? {gauge : Metadata D S H} {s t : State D S H} {act : Act D}
    (step : s.step? gauge act = some t) : Step gauge s t := by
  cases act with
  | sdr act =>
      obtain ⟨taken, lifted, step⟩ := Option.bind_eq_some_iff.mp step
      obtain ⟨sdr, moved, rfl⟩ := Option.map_eq_some_iff.mp step
      have step := Sdr.Step.of_step? moved
      refine .sdr step ?_ ?_
      · rcases send_cptr_step step with same | ⟨cursor, rfl⟩
        · exact same
        · cases act <;> cases lifted
      · rintro data timestamp rfl
        cases act <;> cases lifted
        rfl
  | snapshot =>
      rw [State.step?] at step
      split at step
      · next pc =>
        obtain rfl := Option.some.inj step
        exact .snapshot pc
      · cases step
  | next =>
      rw [State.step?] at step
      split at step
      · next pc =>
        split at step
        · next more =>
          obtain rfl := Option.some.inj step
          exact .next pc more
        · cases step
      · cases step
  | commit =>
      rw [State.step?] at step
      split at step
      · next pc =>
        split at step
        · cases step
        · next done =>
          obtain rfl := Option.some.inj step
          exact .commit pc (Int.not_lt.mp done)
      · cases step

/-! ## The invariant -/

/-- The locals of the writer between the committed cursor and the reader's. -/
def Pc.Between (send_cptr sdr_cptr : Int) (handled : Nat) : Pc → Prop
  | .idle => (handled : Int) = send_cptr + 1
  | .loop last cursor =>
      send_cptr ≤ cursor ∧ cursor ≤ last ∧ last ≤ sdr_cptr ∧ (handled : Int) = cursor + 1

structure Inv (gauge : Metadata D S H) (s : State D S H) : Prop where
  ringed : s.sdr.Ringed
  measured : ∀ packet ∈ s.sdr.frames, packet.data = gauge.measure packet.data.data
  begun : -1 ≤ s.sdr.send_cptr
  behind : s.sdr.send_cptr ≤ s.sdr.sdr_cptr
  kept : (s.sdr.oldest : Int) ≤ s.sdr.send_cptr + 1
  between : s.pc.Between s.sdr.send_cptr s.sdr.sdr_cptr s.handled.length
  handled : s.handled = (List.range s.handled.length).map Int.ofNat

theorem Inv.start {gauge : Metadata D S H} (frequency samplerate : Int) :
    Inv gauge (.start frequency samplerate) where
  ringed := .start frequency samplerate
  measured := by
    rintro packet ⟨⟩
  begun := Int.le_refl _
  behind := Int.le_refl _
  kept := Int.le_refl _
  between := rfl
  handled := rfl

theorem mem_frames_step {sdr next : Sdr (Measured D S H)} {act : SdrReader.Act (Measured D S H)}
    (step : Sdr.Step sdr act next) {packet : SdrPacket (Measured D S H)}
    (mem : packet ∈ next.frames) :
    packet ∈ sdr.frames ∨ ∃ timestamp, act = .fill packet.data timestamp := by
  cases step with
  | top =>
      left
      unfold Sdr.top at mem
      split at mem
      · exact mem
      · rwa [Sdr.claimSlot_frames] at mem
  | relock =>
      rw [Sdr.relock_frames] at mem
      exact Or.inl mem
  | fill data timestamp pc =>
      rcases List.mem_append.mp mem with before | new
      · exact Or.inl before
      · obtain rfl := List.mem_singleton.mp new
        exact Or.inr ⟨timestamp, rfl⟩
  | _ => exact Or.inl mem

/-- A slot is claimed only behind the overflow guard. -/
theorem guard_of_claims {sdr : Sdr (Measured D S H)} {act : SdrReader.Act (Measured D S H)}
    (claims : Claims sdr act) : sdr.sdr_cptr + 1 - BUFSIZE ≤ sdr.send_cptr := by
  cases act with
  | top => exact Int.not_lt.mp claims.2
  | relock => exact Int.not_lt.mp claims
  | _ => exact claims.elim

theorem Inv.step {gauge : Metadata D S H} {s t : State D S H} (inv : Inv gauge s)
    (step : Step gauge s t) : Inv gauge t := by
  have begun := inv.begun
  have behind := inv.behind
  have kept := inv.kept
  have between := inv.between
  cases step with
  | sdr step cursor measured =>
      have forward := sdr_cptr_step step
      refine ⟨inv.ringed.step step, ?_, ?_, ?_, ?_, ?_, inv.handled⟩
      · intro packet mem
        rcases mem_frames_step step mem with before | ⟨timestamp, rfl⟩
        · exact inv.measured packet before
        · exact measured _ timestamp rfl
      · simp only
        omega
      · simp only
        omega
      · simp only
        rw [cursor]
        rcases oldest_step inv.ringed step with same | ⟨claims, moved⟩
        · rw [same]
          exact kept
        · have guard := guard_of_claims claims
          omega
      · simp only
        rw [cursor]
        cases pc : s.pc with
        | idle =>
            rw [pc] at between
            exact between
        | loop last handled =>
            rw [pc] at between
            obtain ⟨low, middle, high, counted⟩ := between
            exact ⟨low, middle, by omega, counted⟩
  | snapshot pc =>
      rw [pc] at between
      exact ⟨inv.ringed, inv.measured, begun, behind, kept,
        ⟨Int.le_refl _, behind, Int.le_refl _, between⟩, inv.handled⟩
  | @next last cursor pc more =>
      rw [pc] at between
      obtain ⟨low, middle, high, counted⟩ := between
      refine ⟨inv.ringed, inv.measured, begun, behind, kept, ⟨?_, more, high, ?_⟩, ?_⟩
      · exact Int.le_add_one low
      · rw [List.length_append, List.length_singleton]
        push_cast
        omega
      · have place : Int.ofNat s.handled.length = _ := counted
        rw [List.length_append, List.length_singleton, List.range_succ, List.map_append,
          List.map_singleton, ← inv.handled, place]
  | @commit last cursor pc done =>
      rw [pc] at between
      obtain ⟨low, middle, high, counted⟩ := between
      have ringed : Sdr.Ringed { s.sdr with send_cptr := cursor } :=
        inv.ringed.frame rfl rfl rfl rfl rfl fun _ filling => filling
      refine ⟨ringed, inv.measured, ?_, ?_, ?_, counted, inv.handled⟩
      · simp only
        omega
      · simp only
        omega
      · exact Int.le_trans kept (by simp only; omega)

theorem inv_of_reachable {gauge : Metadata D S H} {ok : State D S H → Act D → Prop}
    {s : State D S H} (reach : (metadata gauge).Reachable ok s) : Inv gauge s := by
  refine reach.invariant ?_ ?_
  · rintro s ⟨frequency, samplerate, rfl⟩
    exact .start frequency samplerate
  · intro s act t inv _ step
    exact inv.step (.of_step? step)

/-- The slot of the frame that is handled has not been claimed again. -/
theorem Inv.holdsFrame {gauge : Metadata D S H} {s : State D S H} (inv : Inv gauge s) {n : Int}
    (handling : s.handling? = some n) :
    HoldsFrame gauge s n ∧ n = s.handled.length := by
  have begun := inv.begun
  have kept := inv.kept
  have between := inv.between
  have count := inv.ringed.count
  have counted := s.sdr.pc.uncounted_range
  rw [State.handling?] at handling
  split at handling
  · next last cursor pc =>
    split at handling
    · next more =>
      obtain rfl := Option.some.inj handling
      rw [pc] at between
      obtain ⟨low, middle, high, handled⟩ := between
      obtain ⟨j, number⟩ := Int.eq_ofNat_of_zero_le (show 0 ≤ cursor + 1 by omega)
      have inside : j < s.sdr.frames.length := by omega
      have held := inv.ringed.held j (by omega) inside
      rw [List.getElem?_eq_getElem inside, Int.zero_add, ← number] at held
      refine ⟨⟨?_, j, _, number, List.getElem?_eq_getElem inside, held,
        inv.measured _ (List.getElem_mem inside)⟩, handled.symm⟩
      -- a slot that is being refilled is empty
      rintro base filling rfl
      have empty := (inv.ringed.slot _ filling).2
      rw [held] at empty
      cases empty
    · cases handling
  · cases handling

/-- In every reachable state the writer reads the frame it handles, the frames
before it were handled once each and in order, and the reader is at most one
round of the ring ahead. -/
theorem metadata_once_in_order (gauge : Metadata D S H) {s : State D S H}
    (reach : (metadata gauge).Reachable Machine.Any s) :
    (∀ n, s.handling? = some n → HoldsFrame gauge s n ∧ n = s.handled.length) ∧
      s.handled = (List.range s.handled.length).map Int.ofNat ∧
      s.sdr.sdr_cptr - s.sdr.send_cptr ≤ BUFSIZE := by
  have inv := inv_of_reachable reach
  refine ⟨fun n => inv.holdsFrame, inv.handled, ?_⟩
  have begun := inv.begun
  have kept := inv.kept
  have count := inv.ringed.count
  have counted := s.sdr.pc.uncounted_range
  have claimed := s.sdr.pc.refilling_range
  rw [Sdr.oldest] at kept
  omega

/-- The first frame while its spectrum and histogram are sent and the reader is
busy with the second. -/
theorem metadata_once_in_order_first :
    ∃ s, (metadata (⟨(· + 1), (· + 2)⟩ : Metadata Nat Nat Nat)).run? (.start 0 0)
        [.sdr .top, .sdr (.fill 3 70), .sdr .commit, .snapshot, .sdr .top] = some s ∧
      s.handling? = some 0 ∧ HoldsFrame ⟨(· + 1), (· + 2)⟩ s 0 := by
  obtain ⟨s, run, handling⟩ : ∃ s,
      (metadata (⟨(· + 1), (· + 2)⟩ : Metadata Nat Nat Nat)).run? (.start 0 0)
        [.sdr .top, .sdr (.fill 3 70), .sdr .commit, .snapshot, .sdr .top] = some s ∧
      s.handling? = some 0 := ⟨_, rfl, rfl⟩
  have reach := metadata_once_in_order _ ⟨_, _, ⟨0, 0, rfl⟩, .of_run? run⟩
  exact ⟨s, run, handling, (reach.1 0 handling).1⟩

end Kukuruku.Server.MetadataLoop
