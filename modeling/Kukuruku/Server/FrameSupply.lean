import Kukuruku.Server.Pipeline

/-!
# The frames that workers copy

The overflow guard of the SDR thread looks at the metadata cursor alone, so it
may refill the slot of a frame that a slow worker still needs.  When every slot
is claimed only after the workers in their loops have copied its frame, each of
them copies the frame it thinks it copies.
-/

namespace Kukuruku.Server.FrameSupply

open Kukuruku.Server.SdrReader (Sdr SdrPacket)
open Kukuruku.Server.WorkerThread
open Kukuruku.Server.Pipeline

variable {D S : Type*}

/-- The step gives up the slot of the next frame. -/
def Claims (sdr : Sdr D) : SdrReader.Act D → Prop
  | .top => ¬ sdr.record.Active ∧ ¬ sdr.send_cptr < sdr.sdr_cptr + 1 - BUFSIZE
  | .relock => ¬ sdr.send_cptr < sdr.sdr_cptr + 1 - BUFSIZE
  | _ => False

/-- Workers start at the current frame. -/
def Current (_ : Pipe D S) : Act D S → Prop
  | .create history => history = -1
  | _ => True

instance (s : Pipe D S) : (act : Act D S) → Decidable (Current s act)
  | .create history => inferInstanceAs (Decidable (history = -1))
  | .sdr _ | .worker _ _ | .enable | .destroy _ | .lock | .visit _ | .sendFrame | .sendCommit
  | .snapshot | .publish => .isTrue trivial

/-- Moreover the reader claims a slot only when no worker in its loop still
needs the frame in it. -/
def Spares (s : Pipe D S) : Act D S → Prop
  | .create history => history = -1
  | .sdr act => Claims s.sdr act → ∀ w worker mypos, s.heap w = some worker →
      worker.pc.needs worker.last_written = some mypos →
      s.sdr.sdr_cptr + 1 - BUFSIZE < mypos
  | _ => True

/-- While a worker copies frame `mypos`, the slot holds this frame, complete. -/
def CopiesItsFrame (s : Pipe D S) : Prop :=
  ∀ w worker mypos, s.heap w = some worker → worker.pc = .copy mypos →
    ∃ (j : Nat) (packet : SdrPacket D), mypos = j ∧ s.sdr.frames[j]? = some packet ∧
      s.sdr.sdr_inbuf (mypos.tmod BUFSIZE) = some packet

/-! ## The SDR thread's steps -/

section Reader

variable {sdr next : Sdr D} {act : SdrReader.Act D}

theorem oldest_claimSlot (ringed : sdr.Ringed) (idle : sdr.pc.refilling = 0)
    (counted : sdr.pc.uncounted = 0) : sdr.claimSlot.oldest = sdr.oldest ∨
      ¬ sdr.send_cptr < sdr.sdr_cptr + 1 - BUFSIZE ∧
        sdr.claimSlot.oldest = (sdr.sdr_cptr + 2 - BUFSIZE).toNat := by
  have count := ringed.count
  unfold Sdr.claimSlot
  split
  · left
    rw [Sdr.oldest, Sdr.oldest, idle]
    rfl
  · rename_i guard
    refine Or.inr ⟨guard, ?_⟩
    simp only [Sdr.oldest, SdrReader.Pc.refilling]
    omega

/-- The oldest frame moves on only where a slot is claimed. -/
theorem oldest_step (ringed : sdr.Ringed) (step : Sdr.Step sdr act next) :
    next.oldest = sdr.oldest ∨
      Claims sdr act ∧ next.oldest = (sdr.sdr_cptr + 2 - BUFSIZE).toNat := by
  cases step with
  | top pc =>
      unfold Sdr.top
      split
      · left
        rw [Sdr.oldest, Sdr.oldest, pc]
        rfl
      · rename_i inactive
        have claimed := oldest_claimSlot ringed (by rw [pc]; rfl) (by rw [pc]; rfl)
        exact claimed.imp_right fun both => ⟨⟨inactive, both.1⟩, both.2⟩
  | write pc =>
      left
      rw [Sdr.oldest, Sdr.oldest, pc]
      simp only [Sdr.write]
      split <;> rfl
  | relock pc =>
      rename_i cptr
      have ringed' : Sdr.Ringed { sdr with record := { sdr.record with rec_cptr := cptr } } :=
        ringed.frame rfl rfl rfl rfl rfl fun _ filling => filling
      exact oldest_claimSlot ringed' (by rw [pc]; rfl) (by rw [pc]; rfl)
  | wake pc | commit pc =>
      left
      rw [Sdr.oldest, Sdr.oldest, pc]
      rfl
  | fill data timestamp pc =>
      left
      rw [Sdr.oldest, Sdr.oldest, pc]
      simp [Sdr.fill, SdrReader.Pc.refilling]
  | RECORD_START | RECORD_STOP | RETUNE | send => exact Or.inl rfl

theorem frames_step (step : Sdr.Step sdr act next) : sdr.frames <+: next.frames := by
  cases step with
  | top =>
      unfold Sdr.top
      split
      · exact List.prefix_rfl
      · exact ⟨[], by rw [List.append_nil, Sdr.claimSlot_frames]⟩
  | relock => exact ⟨[], by rw [List.append_nil, Sdr.relock_frames]⟩
  | fill => exact List.prefix_append _ _
  | _ => exact List.prefix_rfl

theorem sdr_cptr_step (step : Sdr.Step sdr act next) : sdr.sdr_cptr ≤ next.sdr_cptr := by
  cases step with
  | top =>
      unfold Sdr.top
      split
      · exact Int.le_refl _
      · exact Int.le_of_eq sdr.claimSlot_sdr_cptr.symm
  | relock => exact Int.le_of_eq (Sdr.relock_sdr_cptr sdr _).symm
  | commit =>
      simp only [Sdr.commit]
      omega
  | _ => exact Int.le_refl _

end Reader

/-! ## The workers -/

/-- No worker in its loop has been overtaken by the reader. -/
structure Supplied (s : Pipe D S) : Prop where
  ringed : s.sdr.Ringed
  begun : -1 ≤ s.sdr.sdr_cptr
  ahead : ∀ w worker mypos, s.heap w = some worker →
    worker.pc.needs worker.last_written = some mypos → s.sdr.oldest ≤ mypos
  read : ∀ w worker mypos, s.heap w = some worker → worker.pc = .copy mypos →
    mypos < s.sdr.sdr_cptr

namespace Supplied

variable {s t : Pipe D S}

/-- What a worker that changes by itself still owes to the invariant. -/
theorem change (supplied : Supplied s) {w : Nat} {slot : Option (Worker D S)}
    (sdr : t.sdr = s.sdr) (heap : t.heap = Function.update s.heap w slot)
    (ahead : ∀ worker mypos, slot = some worker →
      worker.pc.needs worker.last_written = some mypos → s.sdr.oldest ≤ mypos)
    (read : ∀ worker mypos, slot = some worker → worker.pc = .copy mypos →
      mypos < s.sdr.sdr_cptr) : Supplied t := by
  constructor
  · rw [sdr]
    exact supplied.ringed
  · rw [sdr]
    exact supplied.begun
  · intro v worker mypos found needs
    rw [heap] at found
    rw [sdr]
    by_cases same : v = w
    · subst same
      rw [Function.update_self] at found
      exact ahead worker mypos found needs
    · rw [Function.update_of_ne same] at found
      exact supplied.ahead v worker mypos found needs
  · intro v worker mypos found pc
    rw [heap] at found
    rw [sdr]
    by_cases same : v = w
    · subst same
      rw [Function.update_self] at found
      exact read worker mypos found pc
    · rw [Function.update_of_ne same] at found
      exact supplied.read v worker mypos found pc

/-- Another thread's write to a worker does not move its thread. -/
theorem touch (supplied : Supplied s) {w : Nat} {ctx next : Worker D S}
    (sdr : t.sdr = s.sdr) (heap : t.heap = Function.update s.heap w (some next))
    (found : s.heap w = some ctx) (pc : next.pc = ctx.pc)
    (last_written : next.last_written = ctx.last_written) : Supplied t := by
  refine supplied.change sdr heap ?_ ?_
  · rintro _ mypos ⟨⟩ needs
    rw [pc, last_written] at needs
    exact supplied.ahead w ctx mypos found needs
  · rintro _ mypos ⟨⟩ copying
    exact supplied.read w ctx mypos found (pc ▸ copying)

/-- The writer's steps that change no worker. -/
theorem walk (supplied : Supplied s) (sdr : t.sdr = s.sdr) (heap : t.heap = s.heap) :
    Supplied t := by
  constructor
  · rw [sdr]
    exact supplied.ringed
  · rw [sdr]
    exact supplied.begun
  · rw [sdr, heap]
    exact supplied.ahead
  · rw [sdr, heap]
    exact supplied.read

theorem sdr (supplied : Supplied s) {act : SdrReader.Act D} {sdr : Sdr D}
    (spares : Spares s (.sdr act)) (step : Sdr.Step s.sdr act sdr) :
    Supplied { s with sdr := sdr } := by
  refine ⟨supplied.ringed.step step, Int.le_trans supplied.begun (sdr_cptr_step step), ?_, ?_⟩
  · intro w worker mypos found needs
    have ahead := supplied.ahead w worker mypos found needs
    rcases oldest_step supplied.ringed step with same | ⟨claims, moved⟩
    · simp only [same]
      exact ahead
    · have spared := spares claims w worker mypos found needs
      simp only [moved]
      omega
  · intro w worker mypos found pc
    exact Int.lt_of_lt_of_le (supplied.read w worker mypos found pc) (sdr_cptr_step step)

theorem worker (supplied : Supplied s) {w : Nat} {ctx next : Worker D S} {move : Move S}
    (found : s.heap w = some ctx)
    (moves : ctx.Moves s.sdr.sdr_cptr s.sdr.sdr_inbuf move next) :
    Supplied (s.set w (some next)) := by
  have ahead := supplied.ahead w ctx
  refine supplied.change rfl rfl ?_ ?_
  · rintro _ mypos ⟨⟩ needs
    cases moves with
    | begin pc | check pc | store packet pc =>
        obtain rfl := Option.some.inj needs
        exact ahead _ found (by rw [pc]; rfl)
    | copy pc =>
        obtain rfl := Option.some.inj needs
        have before := ahead _ found (by rw [pc]; rfl)
        omega
    | commit pc =>
        unfold Worker.commit at needs
        split at needs
        · obtain rfl := Option.some.inj needs
          exact ahead _ found (by rw [pc]; rfl)
        · cases needs
    | free pc => cases needs
  · rintro _ mypos ⟨⟩ copying
    cases moves with
    | check pc read room =>
        injection copying with same
        omega
    | commit pc =>
        unfold Worker.commit at copying
        split at copying <;> cases copying
    | begin pc | copy pc | store packet pc | free pc => cases copying

theorem create (supplied : Supplied s) : Supplied (s.create (-1)) := by
  have count := supplied.ringed.count
  have begun := supplied.begun
  have size := BUFSIZE_eq
  have refilling := s.sdr.pc.refilling_range
  have uncounted := s.sdr.pc.uncounted_range
  have low : s.sdr.oldest = (s.sdr.frames.length + s.sdr.pc.refilling - BUFSIZE).toNat := rfl
  refine supplied.change rfl rfl ?_ ?_
  · rintro _ mypos ⟨⟩ needs
    obtain rfl := Option.some.inj needs
    simp only [Worker.create, Worker.startCursor, if_pos]
    omega
  · rintro _ mypos ⟨⟩ ⟨⟩

theorem step (supplied : Supplied s) {act : Act D S} (spares : Spares s act)
    (step : Pipe.Step s act t) : Supplied t := by
  cases step with
  | sdr step => exact supplied.sdr spares step
  | worker found moves => exact supplied.worker found moves
  | create history unlocked =>
      obtain rfl : history = -1 := spares
      exact supplied.create
  | enable creating found => exact supplied.touch rfl rfl found rfl rfl
  | destroy unlocked found => exact supplied.touch rfl rfl found rfl rfl
  | sendFrame writer more found => exact supplied.touch rfl rfl found rfl rfl
  | sendCommit writer found => exact supplied.touch rfl rfl found rfl rfl
  | join writer found gone =>
      refine supplied.change rfl rfl ?_ ?_
      · rintro _ _ ⟨⟩
      · rintro _ _ ⟨⟩
  | lock | last | send | skip | snapshot => exact supplied.walk rfl rfl
  | publish writer =>
      exact ⟨supplied.ringed.frame rfl rfl rfl rfl rfl fun _ filling => filling,
        supplied.begun, supplied.ahead, supplied.read⟩

theorem copiesItsFrame (supplied : Supplied s) : CopiesItsFrame s := by
  intro w worker mypos found pc
  have ahead := supplied.ahead w worker mypos found (by rw [pc]; rfl)
  have read := supplied.read w worker mypos found pc
  have count := supplied.ringed.count
  have uncounted := s.sdr.pc.uncounted_range
  have inside : mypos.toNat < s.sdr.frames.length := by omega
  have index : ((mypos.toNat : Nat) : Int) = mypos := by omega
  have held := supplied.ringed.held mypos.toNat (by omega) inside
  rw [Int.zero_add, index, List.getElem?_eq_getElem inside] at held
  exact ⟨mypos.toNat, _, index.symm, List.getElem?_eq_getElem inside, held⟩

end Supplied

theorem Supplied.start (frequency samplerate : Int) :
    Supplied (Pipe.start frequency samplerate : Pipe D S) := by
  refine ⟨.start frequency samplerate, Int.le_refl _, ?_, ?_⟩
  · rintro w worker mypos ⟨⟩
  · rintro w worker mypos ⟨⟩

/-- In every run in which workers start at the current frame and the reader
spares the frames that workers still need, each worker copies its own frame. -/
theorem copies_of_spared {s : Pipe D S} (reach : (pipeline D S).Reachable Spares s) :
    CopiesItsFrame s := by
  have supplied : Supplied s := by
    refine reach.invariant ?_ ?_
    · rintro s ⟨frequency, samplerate, rfl⟩
      exact .start frequency samplerate
    · intro s act t supplied spares step
      exact supplied.step spares (.of_step? step)
  exact supplied.copiesItsFrame

/-! ## Runs of the first frames -/

/-- Every slot is claimed for the first time. -/
def Early (s : Pipe D S) (act : Act D S) : Prop :=
  Current s act ∧ s.sdr.sdr_cptr + 1 < BUFSIZE

instance (s : Pipe D S) (act : Act D S) : Decidable (Early s act) :=
  inferInstanceAs (Decidable (_ ∧ _))

theorem Supplied.spares_of_early {s : Pipe D S} (supplied : Supplied s) {act : Act D S}
    (early : Early s act) : Spares s act := by
  obtain ⟨current, first⟩ := early
  cases act with
  | create history => exact current
  | sdr act =>
      intro _ w worker mypos found needs
      have ahead := supplied.ahead w worker mypos found needs
      omega
  | _ => trivial

/-- Before the ring is full the reader spares every frame. -/
theorem run_spares_of_early {s t : Pipe D S} {acts : List (Act D S)} (supplied : Supplied s)
    (run : (pipeline D S).Run Early s acts t) : (pipeline D S).Run Spares s acts t := by
  induction run with
  | nil => exact .nil _
  | cons early step _ ih =>
      have spares := supplied.spares_of_early early
      exact .cons spares step (ih (supplied.step spares (.of_step? step)))

/-- The reader's turn for one frame, without a recording. -/
def readFrame (data : D) : List (Act D S) :=
  [.sdr .top, .sdr (.fill data 0), .sdr .commit]

/-- A worker is created, two frames are read, and it copies the first one. -/
theorem copies_of_spared_first :
    ∃ s : Pipe Nat Nat, (pipeline Nat Nat).Reachable Spares s ∧ CopiesItsFrame s ∧
      (s.heap 0).map Worker.pc = some (.copy 0) ∧
      (s.sdr.sdr_inbuf 0).map SdrPacket.data = some 3 := by
  let start : List (Act Nat Nat) := [.create (-1), .enable, .worker 0 .begin]
  let check : List (Act Nat Nat) := [.worker 0 .check]
  have run : ((pipeline Nat Nat).runIf? Early (Pipe.start 0 0)
      (start ++ readFrame 3 ++ readFrame 4 ++ check)).any (fun s =>
      decide ((s.heap 0).map Worker.pc = some (.copy 0) ∧
        (s.sdr.sdr_inbuf 0).map SdrPacket.data = some 3)) = true := by
    decide +kernel
  obtain ⟨s, run, state⟩ := (Option.any_eq_true _ _).mp run
  obtain ⟨pc, data⟩ := of_decide_eq_true state
  have spared := run_spares_of_early (.start 0 0) (.of_runIf? run)
  have reach : (pipeline Nat Nat).Reachable Spares s := ⟨_, _, ⟨0, 0, rfl⟩, spared⟩
  exact ⟨s, reach, copies_of_spared reach, pc, data⟩

/-- A worker is slow to copy frame 0; meanwhile the reader, held back by the
metadata cursor alone, gives up the slot for frame 128. -/
theorem not_copies_slow_worker :
    ¬ ∀ s : Pipe Nat Nat, (pipeline Nat Nat).Reachable Current s → CopiesItsFrame s := by
  intro copies
  let start : List (Act Nat Nat) := [.create (-1), .enable, .worker 0 .begin]
  let check : List (Act Nat Nat) := [.worker 0 .check]
  let pass : List (Act Nat Nat) :=
    [.lock, .visit false, .sendCommit, .visit false, .snapshot, .publish, .sdr .top]
  have run : ((pipeline Nat Nat).runIf? Current (Pipe.start 0 0)
      (start ++ readFrame 3 ++ readFrame 3 ++ check ++
        (List.replicate 126 (readFrame 3)).flatten ++ pass)).any
      (fun s => (s.heap 0).any (fun worker => worker.pc = .copy 0) &&
        (s.sdr.sdr_inbuf 0).isNone) = true := by decide +kernel
  obtain ⟨s, found, state⟩ := (Option.any_eq_true _ _).mp run
  obtain ⟨copying, empty⟩ := Bool.and_eq_true_iff.mp state
  obtain ⟨worker, heap, pc⟩ := (Option.any_eq_true _ _).mp copying
  obtain ⟨j, packet, _, _, slot⟩ :=
    copies s ⟨_, _, ⟨0, 0, rfl⟩, .of_runIf? found⟩ 0 worker 0 heap (of_decide_eq_true pc)
  have same : s.sdr.sdr_inbuf 0 = some packet := slot
  rw [same] at empty
  cases empty

end Kukuruku.Server.FrameSupply
