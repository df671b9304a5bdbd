import Mathlib
import Kukuruku.Clients.LibClient
import Kukuruku.Server.Recording

/-!
# What a client asks to be recorded

`client.record` takes the number of frames, and puts it where the server expects
the last frame.  `requested` are the frames that the reader's test admits from
the cursor on.
-/

namespace Kukuruku.Clients.RecordRequest

open Kukuruku.Server (BUFSIZE BUFSIZE_eq INT32_MIN INT32_MAX INT32_range)
open Kukuruku.Server.Messages (CliMsg)
open Kukuruku.Server.SdrReader
open Kukuruku.Server.Recording

variable {D : Type*}

/-- A number that an `int32` field can hold; another one is a ValueError. -/
def InField (value : Int) : Prop := INT32_MIN ≤ value ∧ value ≤ INT32_MAX

instance (value : Int) : Decidable (InField value) := inferInstanceAs (Decidable (_ ∧ _))

/-- Trigger recording of the whole spectrum on the remote server. -/
def record (startframe duration : Int) : Option CliMsg :=
  if InField startframe ∧ InField duration then some (.RECORD_START startframe duration) else none

/-- The handler in the server, at time `now`. -/
def handle (s : Sdr D) (now : Int) : CliMsg → Option (Sdr D)
  | .RECORD_START startframe stopframe => some (s.RECORD_START startframe stopframe now)
  | _ => none

/-- The frames from the cursor on at which the reader still finds something to record. -/
def requested (control : RecControl) : Set Int :=
  { n | control.rec_cptr ≤ n ∧ { control with rec_cptr := n }.Active }

/-- `duration` frames from `startframe` on, where -1 is the current one. -/
def wanted (startframe duration sdr_cptr : Int) : Set Int :=
  let first := if startframe = -1 then sdr_cptr else startframe
  Set.Ico first (first + duration)

/-- The message is built, and its handler requests exactly the wanted frames. -/
def Means (s : Sdr D) (startframe duration now : Int) : Prop :=
  ∃ msg t, record startframe duration = some msg ∧ handle s now msg = some t ∧
    requested t.record = wanted startframe duration s.sdr_cptr

/-! ## The requested frames -/

/-- The reader starts a batch at its cursor exactly when this frame is requested. -/
theorem active_iff_requested (control : RecControl) :
    control.Active ↔ control.rec_cptr ∈ requested control :=
  ⟨fun active => ⟨Int.le_refl _, active⟩, And.right⟩

theorem startCursor_nonneg (startframe sdr_cptr : Int) :
    0 ≤ RecControl.startCursor startframe sdr_cptr := by
  have clamped (cursor : Int) : 0 ≤ if cursor < 0 then 0 else cursor := by split <;> omega
  exact clamped _

/-- From the cursor up to and with `stopframe`. -/
theorem requested_start (startframe stopframe sdr_cptr now samplerate : Int) :
    requested (.start startframe stopframe sdr_cptr now samplerate) =
      Set.Icc (RecControl.startCursor startframe sdr_cptr) stopframe := by
  ext n
  have nonneg := startCursor_nonneg startframe sdr_cptr
  have range := INT32_range
  simp only [requested, RecControl.Active, RecControl.start, Set.mem_ofPred_eq, Set.mem_Icc]
  omega

/-- Where a recording starts that names a frame, or the current one. -/
theorem startCursor_named {startframe : Int} (named : 0 ≤ startframe) (sdr_cptr : Int) :
    RecControl.startCursor startframe sdr_cptr =
      if startframe < sdr_cptr - BUFSIZE then sdr_cptr - BUFSIZE else startframe := by
  simp only [RecControl.startCursor]
  rw [if_neg (show startframe ≠ -1 by omega)]
  split
  · exact if_neg (by omega)
  · exact if_neg (by omega)

theorem startCursor_current (sdr_cptr : Int) :
    RecControl.startCursor (-1) sdr_cptr = if sdr_cptr < 0 then 0 else sdr_cptr := by
  have size := BUFSIZE_eq
  simp only [RecControl.startCursor, if_true]
  rw [if_neg (show ¬ sdr_cptr < sdr_cptr - BUFSIZE by omega)]

/-- What the reader has recorded since a request was requested. -/
theorem recorded_requested {s t : Sdr D} {startframe stopframe now : Int} {count : Nat}
    (ringed : s.Ringed) (takes : Takes s startframe)
    (recorded : Recorded s t startframe stopframe now count) {i : Nat} (inside : i < count) :
    (firstFrame s startframe + i : Int) ∈
      requested (s.RECORD_START startframe stopframe now).record := by
  have cursor := startCursor_eq ringed takes
  obtain ⟨-, none | ⟨-, last⟩⟩ := recorded
  · omega
  · simp only [Sdr.RECORD_START, requested_start, Set.mem_Icc]
    omega

/-! ## When the request means what it says -/

/-- An interval given by its last element, against one given by its length. -/
theorem Icc_eq_Ico_iff (first last start : Int) {length : Int} (some : 1 ≤ length) :
    Set.Icc first last = Set.Ico start (start + length) ↔
      first = start ∧ last = start + length - 1 := by
  constructor
  · intro same
    have starts : start ∈ Set.Icc first last := by
      rw [same]
      exact ⟨Int.le_refl _, by omega⟩
    have ends : start + length - 1 ∈ Set.Icc first last := by
      rw [same]
      exact ⟨by omega, by omega⟩
    have lowest : first ∈ Set.Ico start (start + length) := by
      rw [← same]
      exact ⟨Int.le_refl _, starts.1.trans starts.2⟩
    have highest : last ∈ Set.Ico start (start + length) := by
      rw [← same]
      exact ⟨ends.1.trans ends.2, Int.le_refl _⟩
    exact ⟨Int.le_antisymm starts.1 lowest.1, by have := ends.2; have := highest.2; omega⟩
  · rintro ⟨rfl, rfl⟩
    ext n
    simp only [Set.mem_Icc, Set.mem_Ico]
    omega

theorem means_iff_bounds {s : Sdr D} {startframe duration now : Int} (some : 1 ≤ duration) :
    Means s startframe duration now ↔ InField startframe ∧ InField duration ∧
      RecControl.startCursor startframe s.sdr_cptr =
        (if startframe = -1 then s.sdr_cptr else startframe) ∧
      (if startframe = -1 then s.sdr_cptr else startframe) = 1 := by
  have interval := Icc_eq_Ico_iff (RecControl.startCursor startframe s.sdr_cptr) duration
    (if startframe = -1 then s.sdr_cptr else startframe) some
  constructor
  · rintro ⟨msg, t, built, handled, same⟩
    rw [record] at built
    split_ifs at built with fields
    obtain rfl := Option.some.inj built
    obtain rfl := Option.some.inj handled
    rw [Sdr.RECORD_START, requested_start, wanted] at same
    obtain ⟨first, last⟩ := interval.mp same
    exact ⟨fields.1, fields.2, first, by omega⟩
  · rintro ⟨start, field, first, one⟩
    refine ⟨_, _, if_pos ⟨start, field⟩, rfl, ?_⟩
    rw [Sdr.RECORD_START, requested_start, wanted]
    exact interval.mpr ⟨first, by omega⟩

/-- The request means what it says only from frame 1 on: by its number while the ring
has it, or as the current frame. -/
theorem means_iff (s : Sdr D) {startframe duration : Int} (now : Int) (named : -1 ≤ startframe)
    (some : 1 ≤ duration) : Means s startframe duration now ↔ duration ≤ INT32_MAX ∧
      (startframe = 1 ∧ s.sdr_cptr ≤ BUFSIZE + 1 ∨ startframe = -1 ∧ s.sdr_cptr = 1) := by
  have range := INT32_range
  have size := BUFSIZE_eq
  rw [means_iff_bounds some, InField, InField]
  by_cases current : startframe = -1
  · subst current
    rw [startCursor_current, if_pos rfl]
    split <;> omega
  · rw [startCursor_named (show 0 ≤ startframe by omega), if_neg current]
    split <;> omega

/-- Ten frames from frame 1 on, while frame 100 is the current one. -/
theorem means_iff_first :
    Means { (Sdr.start 0 0 : Sdr Nat) with sdr_cptr := 100 } 1 10 0 :=
  (means_iff _ 0 (by decide) (by decide)).mpr ⟨by decide, Or.inl ⟨rfl, by decide⟩⟩

/-- Ten frames from the current frame 100 on: nothing is requested. -/
theorem not_means_current :
    ¬ Means { (Sdr.start 0 0 : Sdr Nat) with sdr_cptr := 100 } (-1) 10 0 := by
  rintro ⟨msg, t, built, handled, same⟩
  obtain rfl := Option.some.inj built
  obtain rfl := Option.some.inj handled
  have first : (100 : Int) ∈ wanted (-1) 10 100 := ⟨Int.le_refl _, by decide⟩
  exact absurd (same.symm.subset first).2.2 (by decide)

end Kukuruku.Clients.RecordRequest
