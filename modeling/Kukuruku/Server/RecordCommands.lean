import Kukuruku.Server.SdrReader

/-!
# Record commands against the writing batches

A batch starts with a snapshot of `rec_cptr` and ends with writing its own
cursor back.  A request handled in between is overwritten; requests handled at
any other place are obeyed by every later batch.
-/

namespace Kukuruku.Server.RecordCommands

open Kukuruku.Server.SdrReader

variable {D : Type*}

/-- What a batch owes to the last record command: none starts after a stop, and
the first one after a start begins at the requested cursor. -/
def Obeys : Command × Int → Prop
  | (.stopped, _) => False
  | (.started cptr, first) => first = cptr
  | (.running, _) => True

/-- Record requests are handled outside the batches. -/
def OutsideBatch (s : Sdr D) : Act D → Prop
  | .RECORD_START _ _ _ | .RECORD_STOP => ¬ s.pc.InBatch
  | _ => True

instance (s : Sdr D) : (act : Act D) → Decidable (OutsideBatch s act)
  | .RECORD_START _ _ _ | .RECORD_STOP => inferInstanceAs (Decidable (¬ s.pc.InBatch))
  | .top | .write | .relock | .wake | .fill _ _ | .commit | .RETUNE _ | .send _ =>
      .isTrue trivial

/-- The recording globals still say what the last command said. -/
structure Commanded (s : Sdr D) : Prop where
  obeyed : ∀ batch ∈ s.batches, Obeys batch
  stopped : s.command = .stopped → s.record.rec_cptr = INT32_MIN
  started : ∀ cptr, s.command = .started cptr → s.record.rec_cptr = cptr
  running : s.pc.InBatch → s.command = .running

namespace Commanded

variable {s t : Sdr D}

theorem start (frequency samplerate : Int) :
    Commanded (Sdr.start frequency samplerate : Sdr D) := by
  refine ⟨?_, fun _ => rfl, ?_, False.elim⟩
  · rintro batch ⟨⟩
  · rintro cptr ⟨⟩

/-- Steps that touch neither the commands nor the recording globals. -/
theorem frame (commanded : Commanded s) (batches : t.batches = s.batches)
    (command : t.command = s.command) (record : t.record = s.record)
    (inBatch : t.pc.InBatch → s.pc.InBatch) : Commanded t := by
  refine ⟨?_, ?_, ?_, ?_⟩
  · rw [batches]
    exact commanded.obeyed
  · rw [command, record]
    exact commanded.stopped
  · rw [command, record]
    exact commanded.started
  · rw [command]
    exact fun pc => commanded.running (inBatch pc)

/-- The batch that starts next obeys the last command. -/
theorem next_obeys (commanded : Commanded s) (active : s.record.Active) :
    Obeys (s.command, s.record.rec_cptr) := by
  cases command : s.command with
  | stopped => exact active.1 (commanded.stopped command)
  | started cptr => exact commanded.started cptr command
  | running => trivial

theorem top (commanded : Commanded s) : Commanded s.top := by
  unfold Sdr.top
  split
  · rename_i active
    refine ⟨?_, ?_, ?_, fun _ => rfl⟩
    · intro batch mem
      rcases List.mem_append.mp mem with before | last
      · exact commanded.obeyed batch before
      · obtain rfl := List.mem_singleton.mp last
        exact commanded.next_obeys active
    · rintro ⟨⟩
    · rintro cptr ⟨⟩
  · exact commanded.frame s.claimSlot_batches s.claimSlot_command s.claimSlot_record
      fun pc => absurd pc s.claimSlot_not_inBatch

/-- The write-back happens while a batch runs, so no command waits for it. -/
theorem relock (commanded : Commanded s) {cptr : Int} (pc : s.pc = .relock cptr) :
    Commanded (s.relock cptr) := by
  have running : s.command = .running := commanded.running (by rw [pc]; trivial)
  have same : (s.relock cptr).command = .running := by
    rw [Sdr.relock, Sdr.claimSlot_command, running]
  refine ⟨?_, ?_, ?_, fun _ => same⟩
  · rw [Sdr.relock, Sdr.claimSlot_batches]
    exact commanded.obeyed
  · rw [same]
    rintro ⟨⟩
  · rw [same]
    rintro cptr ⟨⟩

theorem step (commanded : Commanded s) {act : Act D} (outside : OutsideBatch s act)
    (step : Sdr.Step s act t) : Commanded t := by
  cases step with
  | top pc => exact commanded.top
  | write pc => exact commanded.frame rfl rfl rfl fun _ => by rw [pc]; trivial
  | relock pc => exact commanded.relock pc
  | wake pc => exact commanded.frame rfl rfl rfl False.elim
  | fill data timestamp pc => exact commanded.frame rfl rfl rfl False.elim
  | commit pc => exact commanded.frame rfl rfl rfl False.elim
  | RECORD_START startframe stopframe now =>
      refine ⟨commanded.obeyed, ?_, ?_, fun pc => absurd pc outside⟩
      · rintro ⟨⟩
      · rintro cptr ⟨⟩
        rfl
  | RECORD_STOP =>
      refine ⟨commanded.obeyed, fun _ => rfl, ?_, fun pc => absurd pc outside⟩
      rintro cptr ⟨⟩
  | RETUNE frequency => exact commanded.frame rfl rfl rfl id
  | send cursor forward read => exact commanded.frame rfl rfl rfl id

end Commanded

/-- In every run whose record requests are handled outside the batches, every
batch obeys the last record command before it. -/
theorem batches_obey {s : Sdr D} (reach : (sdr_read_thr D).Reachable OutsideBatch s) :
    ∀ batch ∈ s.batches, Obeys batch := by
  have commanded : Commanded s := by
    refine reach.invariant ?_ ?_
    · rintro s ⟨frequency, samplerate, rfl⟩
      exact .start frequency samplerate
    · intro s act t commanded outside step
      exact commanded.step outside (.of_step? step)
  exact commanded.obeyed

/-- One frame is read, recorded on request, and the recording is stopped while
the next frame is awaited. -/
theorem batches_obey_stop_between :
    ∃ s : Sdr Nat, (sdr_read_thr Nat).Reachable OutsideBatch s ∧
      s.batches = [(.started 0, 0)] ∧ ∀ batch ∈ s.batches, Obeys batch := by
  obtain ⟨s, found, batches⟩ : ∃ s, (sdr_read_thr Nat).runIf? OutsideBatch (Sdr.start 0 0)
      [.top, .fill 7 0, .commit, .RECORD_START 0 5 1, .top, .write, .relock, .fill 8 0,
        .RECORD_STOP, .commit, .top] = some s ∧ s.batches = [(.started 0, 0)] :=
    ⟨_, rfl, rfl⟩
  have reach : (sdr_read_thr Nat).Reachable OutsideBatch s :=
    ⟨_, _, ⟨0, 0, rfl⟩, .of_runIf? found⟩
  exact ⟨s, reach, batches, batches_obey reach⟩

/-- A stop that is handled while a frame is written to disk is overwritten: the
next batch starts all the same. -/
theorem not_batches_obey_stop_inside :
    ¬ ∀ s : Sdr Nat, (sdr_read_thr Nat).Reachable Machine.Any s →
      ∀ batch ∈ s.batches, Obeys batch := by
  intro obeyed
  obtain ⟨s, found, batches⟩ : ∃ s, (sdr_read_thr Nat).run? (Sdr.start 0 0)
      [.top, .fill 7 0, .commit, .RECORD_START 0 5 1, .top, .RECORD_STOP, .write, .relock,
        .fill 8 0, .commit, .top] = some s ∧ s.batches = [(.started 0, 0), (.stopped, 1)] :=
    ⟨_, rfl, rfl⟩
  refine obeyed s ⟨_, _, ⟨0, 0, rfl⟩, .of_run? found⟩ (.stopped, 1) ?_
  rw [batches]
  exact List.mem_cons_of_mem _ List.mem_cons_self

end Kukuruku.Server.RecordCommands
