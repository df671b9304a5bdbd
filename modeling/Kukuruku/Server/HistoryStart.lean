import Kukuruku.Server.WorkerThread

/-!
# The first frame of a new worker

`CREATE_XLATER` names the frame that a worker should start with.
`create_xlate_worker` turns it into `last_written`, with a clamp for requests
that reach back too far, and the thread begins with the frame after it.  The
oldest frame that the ring still has is the one whose slot `sdr_read_thr` fills
next.
-/

namespace Kukuruku.Server.HistoryStart

open Kukuruku.Server.SdrReader (Sdr SdrPacket sdr_read_thr)
open Kukuruku.Server.WorkerThread

variable {D S : Type*}

/-- The local `mypos` of the thread at its start. -/
def firstFrame (history sdr_cptr : Int) : Int := Worker.startCursor history sdr_cptr + 1

theorem begin_create (history sdr_cptr : Int) :
    (Worker.create history sdr_cptr : Worker D S).begin.pc =
      .wait (firstFrame history sdr_cptr) := rfl

/-- The first frame is a frame number that fits its type, and unless it is still to
come, the ring has it, in a slot that is not about to be filled. -/
structure StartValid (s : Sdr D) (history : Int) : Prop where
  fits : INT32_MIN ≤ firstFrame history s.sdr_cptr ∧ firstFrame history s.sdr_cptr ≤ INT32_MAX
  nonneg : 0 ≤ firstFrame history s.sdr_cptr
  held : firstFrame history s.sdr_cptr ≤ s.sdr_cptr →
    ∃ packet, s.frames[(firstFrame history s.sdr_cptr).toNat]? = some packet ∧
      s.sdr_inbuf ((firstFrame history s.sdr_cptr).tmod BUFSIZE) = some packet
  apart : firstFrame history s.sdr_cptr ≤ s.sdr_cptr →
    (firstFrame history s.sdr_cptr).tmod BUFSIZE ≠ (s.sdr_cptr + 1).tmod BUFSIZE

/-- A request for the current frame, or for a frame that is not negative and less
than a ring's length back; either is below the last number. -/
def InReach (sdr_cptr history : Int) : Prop :=
  (history = -1 ∧ sdr_cptr < INT32_MAX) ∨
    (0 ≤ history ∧ sdr_cptr - BUFSIZE < history ∧ history < INT32_MAX)

/-! ## The cursor -/

section Cursor

variable {history sdr_cptr : Int}

theorem firstFrame_current : firstFrame (-1) sdr_cptr = sdr_cptr + 1 := rfl

theorem firstFrame_requested (given : history ≠ -1) (reach : sdr_cptr - BUFSIZE ≤ history) :
    firstFrame history sdr_cptr = history + 1 := by
  rw [firstFrame, Worker.startCursor, if_neg given, if_neg (Int.not_lt.mpr reach)]

theorem firstFrame_clamped (given : history ≠ -1) (far : history < sdr_cptr - BUFSIZE) :
    firstFrame history sdr_cptr = sdr_cptr - BUFSIZE + 1 := by
  rw [firstFrame, Worker.startCursor, if_neg given, if_pos far]

/-- The clamp leads to the frame one ring before the next, in the same slot. -/
theorem clamped_slot (old : BUFSIZE ≤ sdr_cptr + 1) :
    (sdr_cptr - BUFSIZE + 1).tmod BUFSIZE = (sdr_cptr + 1).tmod BUFSIZE := by
  have next : (sdr_cptr - BUFSIZE + 1 + BUFSIZE).tmod BUFSIZE =
      (sdr_cptr - BUFSIZE + 1).tmod BUFSIZE :=
    Ring.tmod_add_self (by omega) (by decide)
  rw [← next]
  congr 1
  omega

end Cursor

/-! ## The ring -/

/-- Frames less than a ring's length before the next one are there, whatever the
reader is about. -/
theorem held_of_near {s : Sdr D} (ringed : s.Ringed) {frame : Int} (nonneg : 0 ≤ frame)
    (read : frame ≤ s.sdr_cptr) (near : s.sdr_cptr + 1 - BUFSIZE < frame) :
    ∃ packet, s.frames[frame.toNat]? = some packet ∧
      s.sdr_inbuf (frame.tmod BUFSIZE) = some packet := by
  obtain ⟨j, rfl⟩ := Int.eq_ofNat_of_zero_le nonneg
  have count := ringed.count
  have refilling := s.pc.refilling_range
  have uncounted := s.pc.uncounted_range
  have apart : s.pc.refilling + s.pc.uncounted ≤ 1 := by
    cases s.pc <;> simp [SdrReader.Pc.refilling, SdrReader.Pc.uncounted]
  have inLog : j < s.frames.length := by omega
  have young : s.oldest ≤ j := by
    rw [Sdr.oldest]
    omega
  have cell := ringed.held j young inLog
  rw [List.getElem?_eq_getElem inLog, Int.zero_add] at cell
  exact ⟨s.frames[j], List.getElem?_eq_getElem inLog, cell⟩

/-! ## The condition -/

section Condition

variable {s : Sdr D} {history : Int}

theorem startValid_of_inReach (ringed : s.Ringed) (started : -1 ≤ s.sdr_cptr)
    (reach : InReach s.sdr_cptr history) : StartValid s history := by
  have limits := INT32_range
  have size := BUFSIZE_eq
  rcases reach with ⟨rfl, below⟩ | ⟨nonneg, near, below⟩
  · have next : firstFrame (-1) s.sdr_cptr = s.sdr_cptr + 1 := firstFrame_current
    refine ⟨?_, ?_, ?_, ?_⟩ <;> rw [next]
    · omega
    · omega
    · intro read
      omega
    · intro read
      omega
  · have next : firstFrame history s.sdr_cptr = history + 1 :=
      firstFrame_requested (by omega) (by omega)
    refine ⟨?_, ?_, ?_, ?_⟩ <;> rw [next]
    · omega
    · omega
    · intro read
      exact held_of_near ringed (by omega) read (by omega)
    · intro read
      exact Ring.tmod_ne (by omega) (by omega) (by omega)

theorem inReach_of_startValid (fits : history ≤ INT32_MAX)
    (valid : StartValid s history) : InReach s.sdr_cptr history := by
  have limits := INT32_range
  have size := BUFSIZE_eq
  obtain ⟨⟨-, high⟩, nonneg, -, apart⟩ := valid
  by_cases current : history = -1
  · subst current
    rw [firstFrame_current] at high
    exact Or.inl ⟨rfl, by omega⟩
  · refine Or.inr ?_
    rcases Int.lt_or_le history (s.sdr_cptr - BUFSIZE) with far | near
    -- the request is clamped
    · rw [firstFrame_clamped current far] at apart nonneg
      exact absurd (clamped_slot (by omega)) (apart (by omega))
    · rw [firstFrame_requested current near] at high apart nonneg
      refine ⟨by omega, ?_, by omega⟩
      rcases Int.lt_or_eq_of_le near with inside | edge
      · exact inside
      · rw [← edge] at apart nonneg
        exact absurd (clamped_slot (by omega)) (apart (by omega))

/-- The first frame is valid exactly for the requests in reach. -/
theorem startValid_iff (ringed : s.Ringed) (started : -1 ≤ s.sdr_cptr)
    (fits : INT32_MIN ≤ history ∧ history ≤ INT32_MAX) :
    StartValid s history ↔
      (history = -1 ∧ s.sdr_cptr < INT32_MAX) ∨
        (0 ≤ history ∧ s.sdr_cptr - BUFSIZE < history ∧ history < INT32_MAX) :=
  ⟨inReach_of_startValid fits.2, startValid_of_inReach ringed started⟩

end Condition

/-! ## Two hundred frames -/

/-- The reader takes frame after frame, and the metadata keep up. -/
def frameActs (n : Nat) : List (SdrReader.Act Unit) :=
  (List.range n).flatMap fun i => [.top, .fill () 0, .commit, .send i]

theorem reach_two_hundred : ∃ s : Sdr Unit,
    (sdr_read_thr Unit).Reachable Machine.Any s ∧ s.sdr_cptr = 200 := by
  have run : ((sdr_read_thr Unit).run? (Sdr.start 0 1) (frameActs 201)).any
      (fun s => decide (s.sdr_cptr = 200)) = true := by decide +kernel
  obtain ⟨s, reached, cptr⟩ := (Option.any_eq_true _ _).mp run
  exact ⟨s, ⟨Sdr.start 0 1, frameActs 201, ⟨0, 1, rfl⟩, .of_run? reached⟩,
    of_decide_eq_true cptr⟩

/-- Frame 101 is still there. -/
theorem startValid_inside : ∃ s : Sdr Unit,
    (sdr_read_thr Unit).Reachable Machine.Any s ∧ s.sdr_cptr = 200 ∧ StartValid s 100 := by
  obtain ⟨s, reach, cptr⟩ := reach_two_hundred
  have near : s.sdr_cptr - BUFSIZE < 100 := cptr ▸ by decide
  exact ⟨s, reach, cptr, (startValid_iff (Sdr.ringed_of_reachable reach) (by omega)
    (by decide)).mpr (Or.inr ⟨by decide, near, by decide⟩)⟩

/-- A worker that should start with frame zero starts with frame 73, in the slot that
the reader fills with frame 201; before the first frame, a request for frame -5
starts at a negative one. -/
theorem startValid_fails :
    (∃ s : Sdr Unit, (sdr_read_thr Unit).Reachable Machine.Any s ∧ s.sdr_cptr = 200 ∧
      firstFrame 0 s.sdr_cptr = 73 ∧ ¬ StartValid s 0) ∧
    ¬ StartValid (Sdr.start 0 1 : Sdr Unit) (-5) := by
  constructor
  · obtain ⟨s, reach, cptr⟩ := reach_two_hundred
    have clamped : firstFrame 0 s.sdr_cptr = 73 := by
      rw [cptr]
      rfl
    refine ⟨s, reach, cptr, clamped, fun valid => ?_⟩
    have apart := valid.apart (by omega)
    rw [clamped, cptr] at apart
    exact apart rfl
  · intro valid
    exact absurd valid.nonneg (by decide)

end Kukuruku.Server.HistoryStart
