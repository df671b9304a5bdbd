import Kukuruku.Server.Pipeline

/-!
# The end of `create_xlate_worker`

`create_xlate_worker` starts the thread, then sets `enabled`, then inserts the
worker in `worker_head`.  The thread asks for `enabled` at the end of its first
frame; with a start frame in the history that frame is there at once.
-/

namespace Kukuruku.Server.WorkerLife

open Kukuruku.Server.WorkerThread Kukuruku.Server.Pipeline

variable {D S : Type*}

/-- `flagged`: the worker that is being created has been enabled. -/
structure Life (D S : Type*) where
  pipe : Pipe D S
  flagged : Bool

inductive Act (D S : Type*) where
  | pipe (act : Pipeline.Act D S)
  | setEnabled
  | insert

namespace Life

def start (frequency samplerate : Int) : Life D S := ⟨.start frequency samplerate, false⟩

/-- `w->enabled = true`. -/
def setEnabled (s : Life D S) (w : Nat) (worker : Worker D S) : Life D S :=
  ⟨s.pipe.set w (some worker.enable), true⟩

/-- `SLIST_INSERT_HEAD` and `widx++`; then the handler unlocks `llmutex`. -/
def insert (s : Life D S) (w : Nat) : Life D S where
  pipe := { s.pipe with
    worker_head := w :: s.pipe.worker_head
    widx := s.pipe.widx + 1
    creating := none }
  flagged := false

/-- The steps of the pipeline, with `enable` in its two parts. -/
def step? (s : Life D S) : Act D S → Option (Life D S)
  | .pipe .enable => none
  | .pipe act => (s.pipe.step? act).map fun pipe => { s with pipe := pipe }
  | .setEnabled =>
      if s.flagged then none
      else s.pipe.creating.bind fun w =>
        (s.pipe.heap w).map fun worker => s.setEnabled w worker
  | .insert => if s.flagged then s.pipe.creating.map s.insert else none

end Life

def creation (D S : Type*) : Machine (Life D S) (Act D S) where
  Initial s := ∃ frequency samplerate, s = .start frequency samplerate
  step? := Life.step?

/-- Every enabled worker of the list has a thread in its loop. -/
def Alive (s : Life D S) : Prop :=
  ∀ w ∈ s.pipe.worker_head, ∀ worker, s.pipe.heap w = some worker → worker.enabled = true →
    worker.pc ≠ .leave ∧ worker.pc ≠ .gone

/-- A new thread does not reach its test of `enabled` before the flag is set. -/
def FlagFirst (s : Life D S) : Act D S → Prop
  | .pipe (.worker w .commit) => s.pipe.creating = some w → s.flagged = true
  | _ => True

instance (s : Life D S) : (act : Act D S) → Decidable (FlagFirst s act)
  | .pipe (.worker w .commit) =>
      inferInstanceAs (Decidable (s.pipe.creating = some w → s.flagged = true))
  | .pipe (.worker _ .begin) | .pipe (.worker _ .check) | .pipe (.worker _ .copy)
  | .pipe (.worker _ (.store _)) | .pipe (.worker _ .free) | .pipe (.sdr _) | .pipe (.create _)
  | .pipe .enable | .pipe (.destroy _) | .pipe .lock | .pipe (.visit _) | .pipe .sendFrame
  | .pipe .sendCommit | .pipe .snapshot | .pipe .publish | .setEnabled | .insert =>
      .isTrue trivial

/-! ## Steps -/

/-- What each step does. -/
inductive Life.Step : Life D S → Act D S → Life D S → Prop where
  | pipe {s : Life D S} {act : Pipeline.Act D S} {pipe : Pipe D S}
      (other : act ≠ .enable) (step : Pipe.Step s.pipe act pipe) :
      Step s (.pipe act) { s with pipe := pipe }
  | setEnabled {s : Life D S} {w : Nat} {worker : Worker D S} (early : s.flagged = false)
      (creating : s.pipe.creating = some w) (found : s.pipe.heap w = some worker) :
      Step s .setEnabled (s.setEnabled w worker)
  | insert {s : Life D S} {w : Nat} (flagged : s.flagged = true)
      (creating : s.pipe.creating = some w) : Step s .insert (s.insert w)

theorem Life.Step.of_step? {s t : Life D S} {act : Act D S} (step : s.step? act = some t) :
    Step s act t := by
  cases act with
  | pipe act =>
      by_cases enable : act = .enable
      · subst enable
        cases step
      · have taken : (s.pipe.step? act).map (fun pipe => { s with pipe := pipe }) = some t := by
          cases act with
          | enable => exact absurd rfl enable
          | _ => exact step
        obtain ⟨pipe, moved, rfl⟩ := Option.map_eq_some_iff.mp taken
        exact .pipe enable (.of_step? moved)
  | setEnabled =>
      rw [Life.step?] at step
      split at step
      · cases step
      · rename_i early
        obtain ⟨w, creating, step⟩ := Option.bind_eq_some_iff.mp step
        obtain ⟨worker, found, rfl⟩ := Option.map_eq_some_iff.mp step
        exact .setEnabled (Bool.eq_false_iff.mpr early) creating found
  | insert =>
      rw [Life.step?] at step
      split at step
      · rename_i flagged
        obtain ⟨w, creating, rfl⟩ := Option.map_eq_some_iff.mp step
        exact .insert flagged creating
      · cases step

/-- The two parts together are the pipeline's `enable`. -/
theorem enable_of_parts {s t u : Life D S} (flag : s.step? .setEnabled = some t)
    (list : t.step? .insert = some u) : s.pipe.step? .enable = some u.pipe := by
  cases Life.Step.of_step? flag with
  | @setEnabled w worker early creating found =>
      cases Life.Step.of_step? list with
      | @insert v flagged same =>
          obtain rfl : w = v := Option.some.inj (creating.symm.trans same)
          simp only [Pipe.step?, creating, Option.bind_some, found, Option.map_some]
          rfl

/-! ## The invariant -/

/-- The flag of the worker is set, or its creator is about to set it. -/
def Kept (s : Life D S) (w : Nat) (worker : Worker D S) : Prop :=
  worker.enabled = true ∨ s.pipe.creating = some w ∧ s.flagged = false

/-- Such a worker's thread is in its loop. -/
def Inv (s : Life D S) : Prop :=
  ∀ w worker, s.pipe.heap w = some worker → Kept s w worker →
    worker.pc ≠ .leave ∧ worker.pc ≠ .gone

theorem Inv.alive {s : Life D S} (inv : Inv s) : Alive s :=
  fun w _ worker found enabled => inv w worker found (.inl enabled)

/-- Steps that leave the creator alone and no thread further than it was. -/
theorem Inv.frame {s t : Life D S} (inv : Inv s)
    (creator : t.pipe.creating = s.pipe.creating ∧ t.flagged = s.flagged)
    (heap : ∀ w next, t.pipe.heap w = some next → ∃ worker, s.pipe.heap w = some worker ∧
      (next.enabled = true → worker.enabled = true) ∧ next.pc = worker.pc) : Inv t := by
  intro w next found kept
  obtain ⟨worker, before, enabled, pc⟩ := heap w next found
  rw [Kept, creator.1, creator.2] at kept
  rw [pc]
  exact inv w worker before (kept.imp_left enabled)

/-- One changed worker. -/
theorem Inv.set {s t : Life D S} {v : Nat} {next : Worker D S} (inv : Inv s)
    (heap : t.pipe.heap = Function.update s.pipe.heap v (some next))
    (here : Kept t v next → next.pc ≠ .leave ∧ next.pc ≠ .gone)
    (others : ∀ w worker, w ≠ v → Kept t w worker → Kept s w worker) : Inv t := by
  intro w worker found kept
  rw [heap] at found
  by_cases same : w = v
  · subst same
    rw [Function.update_self] at found
    obtain rfl := Option.some.inj found
    exact here kept
  · rw [Function.update_of_ne same] at found
    exact inv w worker found (others w worker same kept)

/-- A thread whose flag is set, or about to be, stays in its loop. -/
theorem stays_of_moves {s : Life D S} {w : Nat} {worker next : Worker D S} {move : Move S}
    (inv : Inv s) (flagFirst : FlagFirst s (.pipe (.worker w move)))
    (found : s.pipe.heap w = some worker)
    (moves : worker.Moves s.pipe.sdr.sdr_cptr s.pipe.sdr.sdr_inbuf move next)
    (kept : Kept s w next) : next.pc ≠ .leave ∧ next.pc ≠ .gone := by
  cases moves with
  | commit pc =>
      have enabled : worker.enabled = true := by
        rcases kept with enabled | ⟨creating, early⟩
        · unfold Worker.commit at enabled
          split at enabled
          · assumption
          · exact enabled
        · have late := flagFirst creating
          rw [early] at late
          cases late
      rw [Worker.commit, if_pos enabled]
      exact ⟨WorkerPc.noConfusion, WorkerPc.noConfusion⟩
  | free pc => exact absurd pc (inv w worker found kept).1
  | _ => exact ⟨WorkerPc.noConfusion, WorkerPc.noConfusion⟩

theorem Inv.pipe {s : Life D S} {act : Pipeline.Act D S} {pipe : Pipe D S} (inv : Inv s)
    (other : act ≠ .enable) (flagFirst : FlagFirst s (.pipe act))
    (step : Pipe.Step s.pipe act pipe) : Inv { s with pipe := pipe } := by
  cases step with
  | worker found moves =>
      refine inv.set rfl (fun kept => ?_) fun w worker _ kept => kept
      exact stays_of_moves (s := s) inv flagFirst found moves kept
  | create history unlocked =>
      refine inv.set rfl (fun _ => ⟨WorkerPc.noConfusion, WorkerPc.noConfusion⟩) ?_
      rintro w worker other (enabled | ⟨creating, _⟩)
      · exact .inl enabled
      · exact absurd (Option.some.inj creating).symm other
  | enable => exact absurd rfl other
  | destroy unlocked found =>
      refine inv.set rfl ?_ fun w worker _ kept => kept
      rintro (enabled | ⟨creating, _⟩)
      · cases enabled
      · cases (unlocked.1.symm.trans creating : none = some _)
  | @join esrch w rest worker writer found gone =>
      refine inv.frame ⟨rfl, rfl⟩ fun v next after => ?_
      by_cases same : v = w
      · subst same
        cases (Function.update_self ..).symm.trans after
      · exact ⟨next, (Function.update_of_ne same ..).symm.trans after, id, rfl⟩
  | @sendFrame w rest last_written send_cptr worker writer more found =>
      exact inv.set rfl (inv w worker found) fun v other _ kept => kept
  | @sendCommit w rest last_written send_cptr worker writer found =>
      exact inv.set rfl (inv w worker found) fun v other _ kept => kept
  | sdr | lock | last | send | skip | snapshot | publish =>
      exact inv.frame ⟨rfl, rfl⟩ fun w next found => ⟨next, found, id, rfl⟩

theorem Inv.step {s t : Life D S} {act : Act D S} (inv : Inv s) (flagFirst : FlagFirst s act)
    (step : Life.Step s act t) : Inv t := by
  cases step with
  | pipe other step => exact inv.pipe other flagFirst step
  | @setEnabled w worker early creating found =>
      refine inv.set rfl (fun _ => inv w worker found (.inr ⟨creating, early⟩)) ?_
      rintro v other _ (enabled | ⟨_, late⟩)
      · exact .inl enabled
      · cases late
  | @insert w flagged creating =>
      intro v worker found kept
      rcases kept with enabled | ⟨absent, _⟩
      · exact inv v worker found (.inl enabled)
      · cases absent

/-- If no new thread reaches its test of `enabled` before its creator has set the
flag, every enabled worker of the list is alive. -/
theorem alive_of_flagFirst {s : Life D S} (reach : (creation D S).Reachable FlagFirst s) :
    Alive s := by
  have inv : Inv s := by
    refine reach.invariant ?_ ?_
    · rintro s ⟨frequency, samplerate, rfl⟩ w worker found
      cases found
    · intro s act t inv flagFirst step
      exact inv.step flagFirst (.of_step? step)
  exact inv.alive

/-! ## Two runs -/

/-- The reader reads one frame. -/
def readFrame (data : D) : List (Act D S) :=
  [.pipe (.sdr .top), .pipe (.sdr (.fill data 0)), .pipe (.sdr .commit)]

/-- The new thread's first frame, up to its test of `enabled`. -/
def firstFrame (w : Nat) (packet : WorkerPacket S) : List (Act D S) :=
  [.pipe (.worker w .begin), .pipe (.worker w .check), .pipe (.worker w .copy),
    .pipe (.worker w (.store packet))]

/-- A worker that replays frame 1 is enabled just in time. -/
theorem alive_of_flagFirst_replay :
    ∃ s : Life Nat Nat, (creation Nat Nat).Reachable FlagFirst s ∧ Alive s ∧
      (s.pipe.heap 0).map (fun worker => (worker.enabled, worker.pc)) = some (true, .wait 2) := by
  let frames : List (Act Nat Nat) := readFrame 3 ++ readFrame 4 ++ readFrame 5
  let create : List (Act Nat Nat) := [.pipe (.create 0)] ++ firstFrame 0 ⟨8, 6⟩
  let finish : List (Act Nat Nat) := [.setEnabled, .pipe (.worker 0 .commit), .insert]
  have run : ((creation Nat Nat).runIf? FlagFirst (.start 0 0) (frames ++ create ++ finish)).any
      (fun s => decide ((s.pipe.heap 0).map (fun worker => (worker.enabled, worker.pc)) =
        some (true, .wait 2))) = true := by
    decide +kernel
  obtain ⟨s, run, state⟩ := (Option.any_eq_true _ _).mp run
  have reach : (creation Nat Nat).Reachable FlagFirst s := ⟨_, _, ⟨0, 0, rfl⟩, .of_runIf? run⟩
  exact ⟨s, reach, alive_of_flagFirst reach, of_decide_eq_true state⟩

/-- The thread replays its first frame before `enabled` is set: it leaves the loop
and is then enabled and listed. -/
theorem not_alive_late_flag :
    ¬∀ s : Life Nat Nat, (creation Nat Nat).Reachable Machine.Any s → Alive s := by
  intro alive
  let frames : List (Act Nat Nat) := readFrame 3 ++ readFrame 4 ++ readFrame 5
  let create : List (Act Nat Nat) := [.pipe (.create 0)] ++ firstFrame 0 ⟨8, 6⟩
  let finish : List (Act Nat Nat) := [.pipe (.worker 0 .commit), .setEnabled, .insert]
  have run : ((creation Nat Nat).run? (.start 0 0) (frames ++ create ++ finish)).any
      (fun s => decide (0 ∈ s.pipe.worker_head) && (s.pipe.heap 0).any fun worker =>
        decide (worker.enabled = true ∧ worker.pc = .leave)) = true := by
    decide +kernel
  obtain ⟨s, run, state⟩ := (Option.any_eq_true _ _).mp run
  obtain ⟨listed, state⟩ := Bool.and_eq_true_iff.mp state
  obtain ⟨worker, found, state⟩ := (Option.any_eq_true _ _).mp state
  obtain ⟨enabled, left⟩ := of_decide_eq_true state
  have reach : (creation Nat Nat).Reachable Machine.Any s := ⟨_, _, ⟨0, 0, rfl⟩, .of_run? run⟩
  exact (alive s reach 0 (of_decide_eq_true listed) worker found enabled).1 left

end Kukuruku.Server.WorkerLife
