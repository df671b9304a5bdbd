import Kukuruku.Server.FrameSupply

/-!
# The end of a destroyed worker

`DESTROY_XLATER` clears `enabled` and the thread of the worker leaves its loop at
the end of its next frame.  Until then it waits as before: for a frame, which the
SDR thread reads, and for a free slot, which only the socket writer makes, and
only for enabled workers.  A frame whose index lies before the ring cannot be copied.
-/

namespace Kukuruku.Server.WorkerExit

open Kukuruku.Server.SdrReader (Sdr)
open Kukuruku.Server.WorkerThread
open Kukuruku.Server.Pipeline

variable {D S : Type*} {s t : Pipe D S} {w : Nat}

/-- The steps of the SDR thread, the workers and the socket writer, and the end of
a creation that holds `llmutex`. -/
def Continues (_ : Pipe D S) : Act D S → Prop
  | .sdr (.RECORD_START _ _ _) | .sdr .RECORD_STOP | .sdr (.RETUNE _) | .sdr (.send _) => False
  | .create _ | .destroy _ => False
  | _ => True

def Left (s : Pipe D S) (w : Nat) : Prop :=
  ∃ worker, s.heap w = some worker ∧ (worker.pc = .leave ∨ worker.pc = .gone)

/-- Some continuation ends the thread's loop. -/
def CanExit (s : Pipe D S) (w : Nat) : Prop :=
  ∃ t, (pipeline D S).Leads Continues s t ∧ Left t w

/-- The thread does not wait for a slot, it does not wait for a frame beyond the last
value of the 32-bit counter, and the frame has an index in the ring. -/
def Passable (worker : Worker D S) : Prop :=
  match worker.pc with
  | .start => worker.last_written + 2 < INT32_MAX ∧ 0 ≤ (worker.last_written + 1).tmod BUFSIZE
  | .wait mypos =>
      mypos - BUFSIZE < worker.send_cptr ∧ mypos + 1 < INT32_MAX ∧ 0 ≤ mypos.tmod BUFSIZE
  | .copy mypos => 0 ≤ mypos.tmod BUFSIZE
  | _ => True

/-- `DESTROY_XLATER` finds its worker passable. -/
def Timely (s : Pipe D S) : Act D S → Prop
  | .destroy id => ∀ worker, s.heap id = some worker → Passable worker
  | _ => True

/-! ## The invariant -/

/-- The workers that the socket writer has still to look at. -/
def walks : WriterPc → List Nat
  | .visit rest => rest
  | .send w rest _ _ => w :: rest
  | .idle | .metadata | .publish _ => []

/-- Some thread is about to look at worker `w`. -/
def Due (s : Pipe D S) (w : Nat) : Prop :=
  w ∈ s.worker_head ∨ w ∈ walks s.writer ∨ s.creating = some w

theorem Due.of_later (due : Due t w) (listed : t.worker_head ⊆ s.worker_head)
    (walked : ∀ v ∈ walks t.writer, v ∈ s.worker_head ∨ v ∈ walks s.writer)
    (creating : t.creating = s.creating) : Due s w := by
  rcases due with member | member | created
  · exact .inl (listed member)
  · exact (walked w member).imp_right .inl
  · exact .inr (.inr (creating ▸ created))

/-- Only an enabled worker is served, a thread that has not begun has a free slot,
and ids are not used twice. -/
structure Sound (s : Pipe D S) (w : Nat) (worker : Worker D S) : Prop where
  served : ∀ rest last_written cptr, s.writer = .send w rest last_written cptr →
    worker.enabled = true ∧ worker.send_cptr ≤ cptr
  fresh : worker.pc = .start → worker.last_written ≤ worker.send_cptr
  index : s.creating = some w ∨ w < s.widx

structure Inv (s : Pipe D S) : Prop where
  counter : s.sdr.sdr_cptr < INT32_MAX
  sound : ∀ w worker, s.heap w = some worker → Sound s w worker
  present : ∀ w, Due s w → ∃ worker, s.heap w = some worker
  exclusive : ∀ w, s.creating = some w → w = s.widx ∧ s.writer = .idle

theorem Inv.start (frequency samplerate : Int) :
    Inv (Pipe.start frequency samplerate : Pipe D S) where
  counter := by
    have last : (-1 : Int) < INT32_MAX := by decide
    exact last
  sound := by rintro w worker ⟨⟩
  present := by rintro w (listed | walked | ⟨⟩) <;> contradiction
  exclusive := by rintro w ⟨⟩

/-- The counter stays below the overflow. -/
theorem sdr_cptr_lt {sdr next : Sdr D} {act : SdrReader.Act D} (step : sdr.step? act = some next)
    (low : sdr.sdr_cptr < INT32_MAX) : next.sdr_cptr < INT32_MAX := by
  cases Sdr.Step.of_step? step with
  | commit pc =>
      rw [Sdr.step?, pc] at step
      simp only at step
      split at step
      · rename_i below
        exact below
      · cases step
  | top =>
      unfold Sdr.top
      split
      · exact low
      · rw [Sdr.claimSlot_sdr_cptr]
        exact low
  | relock =>
      rw [Sdr.relock_sdr_cptr]
      exact low
  | _ => exact low

theorem counter_step {act : Act D S} (step : s.step? act = some t)
    (low : s.sdr.sdr_cptr < INT32_MAX) : t.sdr.sdr_cptr < INT32_MAX := by
  cases Pipe.Step.of_step? step with
  | sdr =>
      simp only [Pipe.step?, Pipe.sdrStep?] at step
      split at step
      · cases step
      · obtain ⟨sdr, moved, same⟩ := Option.map_eq_some_iff.mp step
        rw [← same]
        exact sdr_cptr_lt moved low
  | _ => exact low

/-- Nothing but the place of the writer or the reader changes. -/
theorem Inv.walk (inv : Inv s) (counter : t.sdr.sdr_cptr < INT32_MAX) (heap : t.heap = s.heap)
    (worker_head : t.worker_head = s.worker_head) (widx : t.widx = s.widx)
    (creating : t.creating = s.creating)
    (served : ∀ w worker rest last_written cptr, s.heap w = some worker →
      t.writer = .send w rest last_written cptr →
      worker.enabled = true ∧ worker.send_cptr ≤ cptr)
    (walked : ∀ v ∈ walks t.writer, v ∈ s.worker_head ∨ v ∈ walks s.writer)
    (idle : s.creating ≠ none → t.writer = .idle) : Inv t where
  counter := counter
  sound := by
    intro w worker found
    rw [heap] at found
    obtain ⟨_, fresh, index⟩ := inv.sound w worker found
    exact ⟨fun rest last_written cptr => served w worker rest last_written cptr found, fresh,
      by rw [creating, widx]; exact index⟩
  present := by
    intro w due
    rw [heap]
    exact inv.present w (due.of_later (worker_head ▸ List.Subset.refl _) walked creating)
  exclusive := by
    intro w created
    rw [creating] at created
    exact ⟨widx ▸ (inv.exclusive w created).1,
      idle (by rw [created]; exact Option.some_ne_none w)⟩

/-- Worker `v` changes. -/
theorem Inv.set (inv : Inv s) {v : Nat} {next : Worker D S}
    (counter : t.sdr.sdr_cptr < INT32_MAX) (heap : t.heap = Function.update s.heap v (some next))
    (here : Sound t v next)
    (others : ∀ w worker, w ≠ v → Sound s w worker → Sound t w worker)
    (due : ∀ w, w ≠ v → Due t w → Due s w)
    (exclusive : ∀ w, t.creating = some w → w = t.widx ∧ t.writer = .idle) : Inv t where
  counter := counter
  sound := by
    intro w worker found
    rw [heap] at found
    by_cases same : w = v
    · subst same
      rw [Function.update_self] at found
      obtain rfl := Option.some.inj found
      exact here
    · rw [Function.update_of_ne same] at found
      exact others w worker same (inv.sound w worker found)
  present := by
    intro w waiting
    rw [heap]
    by_cases same : w = v
    · subst same
      exact ⟨next, Function.update_self ..⟩
    · rw [Function.update_of_ne same]
      exact inv.present w (due w same waiting)
  exclusive := exclusive

/-- The worker's own steps. -/
theorem Sound.move {worker next : Worker D S} {sdr_cptr : Int}
    {sdr_inbuf : Ring.Cells (SdrReader.SdrPacket D)} {move : Move S} (sound : Sound s w worker)
    (moves : worker.Moves sdr_cptr sdr_inbuf move next) : Sound (s.set w (some next)) w next := by
  cases moves with
  | commit pc =>
      unfold Worker.commit
      split
      · exact ⟨sound.served, WorkerPc.noConfusion, sound.index⟩
      · exact ⟨sound.served, WorkerPc.noConfusion, sound.index⟩
  | _ => exact ⟨sound.served, WorkerPc.noConfusion, sound.index⟩

/-- While the writer is in a pass no worker is being created. -/
theorem Inv.not_creating (inv : Inv s) (busy : s.writer ≠ .idle) : s.creating = none := by
  cases creating : s.creating with
  | none => rfl
  | some w => exact absurd (inv.exclusive w creating).2 busy

theorem Inv.create (inv : Inv s) (unlocked : s.Unlocked) (history : Int) :
    Inv (s.create history) := by
  refine inv.set inv.counter rfl ⟨?_, fun _ => Int.le_refl _, .inl rfl⟩ ?_ ?_ ?_
  · intro rest last_written cptr writer
    cases unlocked.2.symm.trans writer
  · intro w worker other sound
    refine ⟨sound.served, sound.fresh, .inr ?_⟩
    rcases sound.index with creating | below
    · cases unlocked.1.symm.trans creating
    · exact below
  · rintro w other (listed | walked | created)
    · exact .inl listed
    · exact .inr (.inl walked)
    · exact absurd (Option.some.inj created).symm other
  · rintro w ⟨⟩
    exact ⟨rfl, unlocked.2⟩

theorem Inv.enable (inv : Inv s) {v : Nat} {worker : Worker D S} (creating : s.creating = some v)
    (found : s.heap v = some worker) : Inv (s.enable v worker) := by
  obtain ⟨same, idle⟩ := inv.exclusive v creating
  refine inv.set inv.counter rfl ⟨?_, (inv.sound v worker found).fresh, .inr ?_⟩ ?_ ?_ ?_
  · intro rest last_written cptr writer
    cases idle.symm.trans writer
  · rw [same]
    exact Nat.lt_succ_self _
  · intro w other ne sound
    refine ⟨sound.served, sound.fresh, .inr ?_⟩
    rcases sound.index with created | below
    · exact absurd (Option.some.inj (creating.symm.trans created)).symm ne
    · exact Nat.lt_succ_of_lt below
  · rintro w other (listed | walked | created)
    · rcases List.mem_cons.mp listed with rfl | before
      · exact absurd rfl other
      · exact .inl before
    · exact .inr (.inl walked)
    · cases (created : none = some w)
  · intro w created
    cases (created : none = some w)

/-- The writer has joined a thread; the worker is freed. -/
theorem Inv.join (inv : Inv s) {v : Nat} {rest : List Nat}
    (writer : s.writer = .visit (v :: rest)) :
    Inv { s.set v none with
      worker_head := s.worker_head.filter (· ≠ v)
      writer := .idle } where
  counter := inv.counter
  sound := by
    intro w worker found
    by_cases same : w = v
    · subst same
      cases (Function.update_self ..).symm.trans found
    · obtain ⟨_, fresh, index⟩ :=
        inv.sound w worker ((Function.update_of_ne same ..).symm.trans found)
      exact ⟨by rintro _ _ _ ⟨⟩, fresh, index⟩
  present := by
    rintro w (listed | walked | created)
    · obtain ⟨before, other⟩ := List.mem_filter.mp listed
      obtain ⟨worker, found⟩ := inv.present w (.inl before)
      exact ⟨worker, (Function.update_of_ne (of_decide_eq_true other) ..).trans found⟩
    · exact absurd walked List.not_mem_nil
    · cases (inv.not_creating (by rw [writer]; exact WriterPc.noConfusion)).symm.trans created
  exclusive := fun w created => ⟨(inv.exclusive w created).1, rfl⟩

/-- The writer goes on with the worker that it serves. -/
theorem Inv.serve (inv : Inv s) {v : Nat} {rest : List Nat} {last_written cptr : Int}
    {worker : Worker D S} (writer : s.writer = .send v rest last_written cptr)
    (found : s.heap v = some worker) (next : Worker D S) (pc : next.pc = worker.pc)
    (last : next.last_written = worker.last_written) (enabled : next.enabled = worker.enabled)
    {place : WriterPc} (place_eq : place = .send v rest last_written (cptr + 1) ∧
      next.send_cptr = worker.send_cptr ∨ place = .visit rest ∧ next.send_cptr = cptr) :
    Inv { s.set v (some next) with writer := place } := by
  obtain ⟨served, fresh, index⟩ := inv.sound v worker found
  obtain ⟨live, behind⟩ := served _ _ _ writer
  have forward : worker.send_cptr ≤ next.send_cptr := by
    rcases place_eq with ⟨_, same⟩ | ⟨_, same⟩ <;> omega
  have idle := inv.not_creating (by rw [writer]; exact WriterPc.noConfusion)
  refine inv.set inv.counter rfl ⟨?_, ?_, index⟩ ?_ ?_ ?_
  · intro after read cursor writer'
    refine ⟨enabled.trans live, ?_⟩
    rcases place_eq with ⟨rfl, same⟩ | ⟨rfl, _⟩
    · obtain ⟨_, _, _, rfl⟩ := WriterPc.send.inj writer'
      omega
    · cases writer'
  · intro start
    rw [last]
    exact Int.le_trans (fresh (pc ▸ start)) forward
  · intro w other ne sound
    refine ⟨?_, sound.fresh, sound.index⟩
    intro after read cursor writer'
    rcases place_eq with ⟨rfl, _⟩ | ⟨rfl, _⟩
    · exact absurd (WriterPc.send.inj writer').1.symm ne
    · cases writer'
  · intro w ne due
    refine due.of_later (List.Subset.refl _) (fun x member => .inr ?_) rfl
    rw [writer]
    rcases place_eq with ⟨rfl, _⟩ | ⟨rfl, _⟩
    · exact member
    · exact List.mem_cons_of_mem _ member
  · intro w created
    cases idle.symm.trans created

theorem Inv.step (inv : Inv s) {act : Act D S} (step : s.step? act = some t) : Inv t := by
  have counter := counter_step step inv.counter
  have busy {place : WriterPc} (writer : s.writer = place) (other : place ≠ .idle) :
      s.creating ≠ none → t.writer = .idle :=
    fun created => absurd (inv.not_creating (by rw [writer]; exact other)) created
  cases Pipe.Step.of_step? step with
  | sdr =>
      exact inv.walk counter rfl rfl rfl rfl
        (fun w worker _ _ _ found => (inv.sound w worker found).served _ _ _)
        (fun _ => .inr) fun created => (Option.ne_none_iff_exists'.mp created).elim
          fun w creating => (inv.exclusive w creating).2
  | @worker v worker next move found moves =>
      exact inv.set counter rfl ((inv.sound v worker found).move moves)
        (fun w other _ sound => ⟨sound.served, sound.fresh, sound.index⟩) (fun w _ => id)
        inv.exclusive
  | create history unlocked => exact inv.create unlocked history
  | enable creating found => exact inv.enable creating found
  | @destroy v worker unlocked found =>
      obtain ⟨_, fresh, index⟩ := inv.sound v worker found
      refine inv.set counter rfl ⟨?_, fresh, index⟩
        (fun w other _ sound => ⟨sound.served, sound.fresh, sound.index⟩) (fun w _ => id)
        inv.exclusive
      intro rest last_written cptr writer
      cases unlocked.2.symm.trans writer
  | lock unlocked =>
      exact inv.walk counter rfl rfl rfl rfl (by rintro _ _ _ _ _ _ ⟨⟩) (fun _ => .inl)
        fun created => absurd unlocked.1 created
  | last writer =>
      exact inv.walk counter rfl rfl rfl rfl (by rintro _ _ _ _ _ _ ⟨⟩)
        (fun _ member => absurd member List.not_mem_nil) (busy writer WriterPc.noConfusion)
  | @send esrch v rest worker writer found enabled =>
      refine inv.walk counter rfl rfl rfl rfl ?_ (fun _ member => ?_)
        (busy writer WriterPc.noConfusion)
      · rintro w other _ _ _ same ⟨⟩
        obtain rfl := Option.some.inj (found.symm.trans same)
        exact ⟨enabled, Int.le_refl _⟩
      · rw [writer]
        exact .inr member
  | skip writer =>
      refine inv.walk counter rfl rfl rfl rfl (by rintro _ _ _ _ _ _ ⟨⟩) (fun _ member => ?_)
        (busy writer WriterPc.noConfusion)
      rw [writer]
      exact .inr (List.mem_cons_of_mem _ member)
  | join writer found gone => exact inv.join writer
  | @sendFrame v rest last_written cptr worker writer more found =>
      exact inv.serve writer found (worker.sendFrame cptr) rfl rfl rfl (.inl ⟨rfl, rfl⟩)
  | @sendCommit v rest last_written cptr worker writer found =>
      exact inv.serve writer found (worker.sendCommit cptr) rfl rfl rfl (.inr ⟨rfl, rfl⟩)
  | snapshot writer =>
      exact inv.walk counter rfl rfl rfl rfl (by rintro _ _ _ _ _ _ ⟨⟩)
        (fun _ member => absurd member List.not_mem_nil) (busy writer WriterPc.noConfusion)
  | publish writer =>
      exact inv.walk counter rfl rfl rfl rfl (by rintro _ _ _ _ _ _ ⟨⟩)
        (fun _ member => absurd member List.not_mem_nil) fun _ => rfl

theorem inv_of_reachable {ok : Pipe D S → Act D S → Prop}
    (reach : (pipeline D S).Reachable ok s) : Inv s := by
  refine reach.invariant ?_ ?_
  · rintro s ⟨frequency, samplerate, rfl⟩
    exact .start frequency samplerate
  · exact fun s act t inv _ step => inv.step step

/-! ## Passable workers -/

theorem enabled_move {worker next : Worker D S} {sdr_cptr : Int}
    {sdr_inbuf : Ring.Cells (SdrReader.SdrPacket D)} {move : Move S}
    (moves : worker.Moves sdr_cptr sdr_inbuf move next) : next.enabled = worker.enabled := by
  cases moves with
  | commit =>
      unfold Worker.commit
      split <;> rfl
  | _ => rfl

/-- The steps of a disabled worker neither open nor close its way out. -/
theorem passable_move {worker next : Worker D S} {sdr_cptr : Int}
    {sdr_inbuf : Ring.Cells (SdrReader.SdrPacket D)} {move : Move S}
    (moves : worker.Moves sdr_cptr sdr_inbuf move next) (low : sdr_cptr < INT32_MAX)
    (fresh : worker.pc = .start → worker.last_written ≤ worker.send_cptr)
    (disabled : worker.enabled = false) : Passable next ↔ Passable worker := by
  cases moves with
  | begin pc =>
      have behind := fresh pc
      have size := BUFSIZE_eq
      simp only [Passable, Worker.begin, pc]
      constructor
      · exact fun ⟨room, low, index⟩ => ⟨by omega, index⟩
      · exact fun ⟨low, index⟩ => ⟨by omega, by omega, index⟩
  | check pc read room =>
      simp only [Passable, Worker.enter, pc]
      constructor
      · exact fun index => ⟨room, by omega, index⟩
      · exact fun waiting => waiting.2.2
  | copy pc index => simp only [Passable, Worker.copy, pc, index]
  | store packet pc => simp only [Passable, Worker.store, pc]
  | commit pc =>
      rw [Worker.commit, if_neg (by rw [disabled]; exact Bool.false_ne_true)]
      simp only [Passable, pc]
  | free pc => simp only [Passable, Worker.free, pc]

/-- Every disabled worker whose creation is over is passable. -/
def AllPassable (s : Pipe D S) : Prop :=
  ∀ w worker, s.heap w = some worker → worker.enabled = false → s.creating ≠ some w →
    Passable worker

theorem AllPassable.set (all : AllPassable s) {v : Nat} {next : Worker D S}
    (heap : t.heap = Function.update s.heap v (some next))
    (here : next.enabled = false → t.creating ≠ some v → Passable next)
    (creating : ∀ w, w ≠ v → t.creating ≠ some w → s.creating ≠ some w) : AllPassable t := by
  intro w worker found disabled settled
  rw [heap] at found
  by_cases same : w = v
  · subst same
    rw [Function.update_self] at found
    obtain rfl := Option.some.inj found
    exact here disabled settled
  · rw [Function.update_of_ne same] at found
    exact all w worker found disabled (creating w same settled)

theorem AllPassable.step (all : AllPassable s) (inv : Inv s) {act : Act D S}
    (timely : Timely s act) (step : Pipe.Step s act t) : AllPassable t := by
  cases step with
  | @worker v worker next move found moves =>
      refine all.set rfl (fun disabled settled => ?_) fun _ _ => id
      have before : worker.enabled = false := (enabled_move moves).symm.trans disabled
      exact (passable_move moves inv.counter (inv.sound v worker found).fresh before).mpr
        (all v worker found before settled)
  | create history unlocked =>
      refine all.set rfl (fun _ settled => absurd rfl settled) fun w _ _ created => ?_
      cases unlocked.1.symm.trans created
  | enable creating found =>
      refine all.set rfl (fun disabled => ?_) fun w other _ created => ?_
      · cases disabled
      · exact other (Option.some.inj (creating.symm.trans created)).symm
  | @destroy v worker unlocked found =>
      exact all.set rfl (fun _ _ => timely worker found) fun _ _ => id
  | @join esrch v rest worker writer found gone =>
      intro w other after
      by_cases same : w = v
      · subst same
        cases (Function.update_self ..).symm.trans after
      · exact all w other ((Function.update_of_ne same ..).symm.trans after)
  | @sendFrame v rest last_written cptr worker writer more found =>
      refine all.set rfl (fun disabled => ?_) fun _ _ => id
      cases ((inv.sound v worker found).served _ _ _ writer).1.symm.trans disabled
  | @sendCommit v rest last_written cptr worker writer found =>
      refine all.set rfl (fun disabled => ?_) fun _ _ => id
      cases ((inv.sound v worker found).served _ _ _ writer).1.symm.trans disabled
  | sdr | lock | last | send | skip | snapshot | publish => exact all

theorem AllPassable.run {acts : List (Act D S)} (all : AllPassable s) (inv : Inv s)
    (run : (pipeline D S).Run Timely s acts t) : AllPassable t := by
  induction run with
  | nil => exact all
  | cons timely step _ ih => exact ih (all.step inv timely (.of_step? step)) (inv.step step)

/-! ## Stuck workers -/

/-- A destroyed worker that is not passable. -/
structure Stuck (s : Pipe D S) (w : Nat) : Prop where
  inv : Inv s
  settled : s.creating ≠ some w
  doomed : ∃ worker, s.heap w = some worker ∧ worker.enabled = false ∧ ¬ Passable worker

theorem Stuck.not_left (stuck : Stuck s w) : ¬ Left s w := by
  obtain ⟨worker, found, _, blocked⟩ := stuck.doomed
  rintro ⟨other, same, pc⟩
  obtain rfl := Option.some.inj (found.symm.trans same)
  refine blocked ?_
  rcases pc with pc | pc
  · simp only [Passable, pc]
  · simp only [Passable, pc]

/-- Another worker changes. -/
theorem Stuck.other (stuck : Stuck s w) (inv : Inv t) {v : Nat} {slot : Option (Worker D S)}
    (heap : t.heap = Function.update s.heap v slot) (other : w ≠ v)
    (settled : t.creating ≠ some w) : Stuck t w := by
  refine ⟨inv, settled, ?_⟩
  rw [heap, Function.update_of_ne other]
  exact stuck.doomed

/-- No step of any thread frees a stuck worker. -/
theorem Stuck.step (stuck : Stuck s w) {act : Act D S} (step : s.step? act = some t) :
    Stuck t w := by
  have inv := stuck.inv.step step
  have settled := stuck.settled
  obtain ⟨worker, found, disabled, blocked⟩ := stuck.doomed
  have sound := stuck.inv.sound w worker found
  cases Pipe.Step.of_step? step with
  | @worker v moved next move before moves =>
      by_cases same : w = v
      · subst same
        obtain rfl := Option.some.inj (found.symm.trans before)
        have still := (enabled_move moves).trans disabled
        refine ⟨inv, settled, next, Function.update_self .., still, ?_⟩
        rw [passable_move moves stuck.inv.counter sound.fresh disabled]
        exact blocked
      · exact stuck.other inv rfl same settled
  | create history unlocked =>
      have below := sound.index.resolve_left settled
      refine stuck.other inv rfl (Nat.ne_of_lt below) fun created => ?_
      exact Nat.ne_of_lt below (Option.some.inj created).symm
  | enable creating before =>
      refine stuck.other inv rfl (fun same => ?_) fun created => ?_
      · exact settled (same ▸ creating)
      · cases (created : none = some w)
  | @destroy v other unlocked before =>
      by_cases same : w = v
      · subst same
        obtain rfl := Option.some.inj (found.symm.trans before)
        exact ⟨inv, settled, worker.disable, Function.update_self .., rfl, blocked⟩
      · exact stuck.other inv rfl same settled
  | @join esrch v rest other writer before gone =>
      refine stuck.other inv rfl (fun same => ?_) settled
      subst same
      exact stuck.not_left ⟨other, before, .inr gone⟩
  | @sendFrame v rest last_written cptr other writer more before =>
      refine stuck.other inv rfl (fun same => ?_) settled
      subst same
      cases (sound.served _ _ _ writer).1.symm.trans disabled
  | @sendCommit v rest last_written cptr other writer before =>
      refine stuck.other inv rfl (fun same => ?_) settled
      subst same
      cases (sound.served _ _ _ writer).1.symm.trans disabled
  | sdr | lock | last | send | skip | snapshot | publish =>
      exact ⟨inv, settled, worker, found, disabled, blocked⟩

theorem Stuck.run {ok : Pipe D S → Act D S → Prop} {acts : List (Act D S)} (stuck : Stuck s w)
    (run : (pipeline D S).Run ok s acts t) : Stuck t w := by
  induction run with
  | nil => exact stuck
  | cons _ step _ ih => exact ih (stuck.step step)

theorem Stuck.not_canExit (stuck : Stuck s w) : ¬ CanExit s w := by
  rintro ⟨t, ⟨acts, run⟩, left⟩
  exact (stuck.run run).not_left left

/-! ## The continuation -/

/-- A disabled worker, and `llmutex` not held by a creation. -/
structure Waits (worker : Worker D S) (w : Nat) (s : Pipe D S) : Prop where
  inv : Inv s
  unlocked : s.creating = none
  found : s.heap w = some worker
  disabled : worker.enabled = false

section Continuation

variable {worker : Worker D S}

/-- A step that leaves the worker alone. -/
theorem Waits.step (waits : Waits worker w s) {act : Act D S} (step : s.step? act = some t)
    (own : Continues s act) (creating : t.creating = s.creating) (heap : t.heap w = s.heap w) :
    (pipeline D S).Leads Continues s t ∧ Waits worker w t := by
  have taken : (pipeline D S).step? s act = some t := step
  exact ⟨.step taken own,
    ⟨waits.inv.step step, creating.trans waits.unlocked, heap.trans waits.found, waits.disabled⟩⟩

/-! ### The SDR thread reads a frame -/

/-- A step of the SDR thread itself. -/
theorem Waits.reader (waits : Waits worker w s) {act : SdrReader.Act D} {sdr : Sdr D}
    (step : s.sdr.step? act = some sdr) (own : Continues s (.sdr act : Act D S)) :
    (pipeline D S).Leads Continues s { s with sdr := sdr } ∧
      Waits worker w { s with sdr := sdr } := by
  have taken : s.step? (.sdr act) = some { s with sdr := sdr } := by
    cases act with
    | send => exact own.elim
    | _ => simp only [Pipe.step?, Pipe.sdrStep?, step, Option.map_some]
  exact waits.step taken own rfl rfl

/-- Some continuation reads one more frame. -/
def Reads (worker : Worker D S) (w : Nat) (s : Pipe D S) : Prop :=
  ∃ t, (pipeline D S).Leads Continues s t ∧ Waits worker w t ∧
    t.sdr.sdr_cptr = s.sdr.sdr_cptr + 1

theorem Reads.later (leads : (pipeline D S).Leads Continues s t)
    (same : t.sdr.sdr_cptr = s.sdr.sdr_cptr) (reads : Reads worker w t) : Reads worker w s := by
  obtain ⟨u, after, waits, read⟩ := reads
  exact ⟨u, leads.trans after, waits, by rw [read, same]⟩

theorem reads_of_commit (waits : Waits worker w s) (low : s.sdr.sdr_cptr + 1 < INT32_MAX)
    (pc : s.sdr.pc = .commit) : Reads worker w s := by
  have step : s.sdr.step? .commit = some s.sdr.commit := by
    simp only [Sdr.step?, pc, if_pos low]
  obtain ⟨leads, after⟩ := waits.reader step trivial
  exact ⟨_, leads, after, rfl⟩

theorem reads_of_fill [Inhabited D] (waits : Waits worker w s)
    (low : s.sdr.sdr_cptr + 1 < INT32_MAX) {base : Int} (pc : s.sdr.pc = .fill base) :
    Reads worker w s := by
  have step : s.sdr.step? (.fill default 0) = some (s.sdr.fill base default 0) := by
    simp only [Sdr.step?, pc]
  obtain ⟨leads, after⟩ := waits.reader step trivial
  exact (reads_of_commit after low rfl).later leads rfl

/-- The slot of the next frame may be refilled. -/
def Free (sdr : Sdr D) : Prop := sdr.sdr_cptr + 1 - BUFSIZE ≤ sdr.send_cptr

theorem claimSlot_of_free {sdr : Sdr D} (free : Free sdr) :
    sdr.claimSlot.pc = .fill ((sdr.sdr_cptr + 1).tmod BUFSIZE) := by
  rw [Sdr.claimSlot, if_neg (Int.not_lt.mpr free)]

theorem reads_of_relock [Inhabited D] (waits : Waits worker w s)
    (low : s.sdr.sdr_cptr + 1 < INT32_MAX) (free : Free s.sdr) {cptr : Int}
    (pc : s.sdr.pc = .relock cptr) : Reads worker w s := by
  have step : s.sdr.step? .relock = some (s.sdr.relock cptr) := by
    simp only [Sdr.step?, pc]
  obtain ⟨leads, after⟩ := waits.reader step trivial
  have same : (s.sdr.relock cptr).sdr_cptr = s.sdr.sdr_cptr := Sdr.relock_sdr_cptr ..
  exact (reads_of_fill after (same ▸ low) (claimSlot_of_free free)).later leads same

/-- What is left of a batch of the recording, at most. -/
def batchLeft (sdr : Sdr D) : Nat :=
  match sdr.pc with
  | .write _ cptr _ => (sdr.sdr_cptr - cptr).toNat + 1
  | _ => 0

/-- The recording loop ends at the frame that is being read. -/
theorem reads_of_write [Inhabited D] (waits : Waits worker w s)
    (low : s.sdr.sdr_cptr + 1 < INT32_MAX) (free : Free s.sdr) {i : Nat} {cptr : Int}
    {path : Option SdrReader.RecPath} (pc : s.sdr.pc = .write i cptr path) :
    Reads worker w s := by
  let Kind (u : Pipe D S) : Prop := Waits worker w u ∧ u.sdr.sdr_cptr = s.sdr.sdr_cptr ∧
    u.sdr.send_cptr = s.sdr.send_cptr ∧
    ((∃ i cptr path, u.sdr.pc = .write i cptr path) ∨ ∃ cptr, u.sdr.pc = .relock cptr)
  have progress : ∀ u, Kind u → ¬ (∃ cptr, u.sdr.pc = .relock cptr) →
      ∃ v, (pipeline D S).Leads Continues u v ∧ Kind v ∧ batchLeft v.sdr < batchLeft u.sdr := by
    rintro u ⟨waits, read, sent, ⟨i, cptr, path, pc⟩ | done⟩ more
    · have step : u.sdr.step? .write = some (u.sdr.write i cptr path) := by
        simp only [Sdr.step?, pc]
      obtain ⟨leads, after⟩ := waits.reader step trivial
      by_cases last : cptr + 1 > u.sdr.sdr_cptr ∨ i + 1 = WRITE_FRAMES_SYNC
      · have relock : (u.sdr.write i cptr path).pc = .relock (cptr + 1) := if_pos last
        refine ⟨_, leads, ⟨after, read, sent, .inr ⟨_, relock⟩⟩, ?_⟩
        simp only [batchLeft, relock, pc]
        exact Nat.succ_pos _
      · have next : (u.sdr.write i cptr path).pc = .write (i + 1) (cptr + 1) path := if_neg last
        refine ⟨_, leads, ⟨after, read, sent, .inl ⟨_, _, _, next⟩⟩, ?_⟩
        have same : (u.sdr.write i cptr path).sdr_cptr = u.sdr.sdr_cptr := rfl
        simp only [batchLeft, next, pc, same]
        omega
    · exact absurd done more
  have start : Kind s := ⟨waits, rfl, rfl, .inl ⟨i, cptr, path, pc⟩⟩
  obtain ⟨t, leads, ⟨after, read, sent, _⟩, cptr, pc⟩ :=
    Machine.leads_of_measure (fun u : Pipe D S => batchLeft u.sdr) progress start
  have room : Free t.sdr := by
    rw [Free, read, sent]
    exact free
  exact (reads_of_relock after (read ▸ low) room pc).later leads read

theorem reads_of_top [Inhabited D] (waits : Waits worker w s)
    (low : s.sdr.sdr_cptr + 1 < INT32_MAX) (free : Free s.sdr) (pc : s.sdr.pc = .top) :
    Reads worker w s := by
  have step : s.sdr.step? .top = some s.sdr.top := by
    simp only [Sdr.step?, pc]
  obtain ⟨leads, after⟩ := waits.reader step trivial
  by_cases active : s.sdr.record.Active
  · have top : s.sdr.top = { s.sdr with
        pc := .write 0 s.sdr.record.rec_cptr s.sdr.record.recpath
        command := .running
        batches := s.sdr.batches ++ [(s.sdr.command, s.sdr.record.rec_cptr)] } := if_pos active
    rw [top] at leads after
    exact (reads_of_write after low free rfl).later leads rfl
  · have top : s.sdr.top = s.sdr.claimSlot := if_neg active
    rw [top] at leads after
    have same : s.sdr.claimSlot.sdr_cptr = s.sdr.sdr_cptr := Sdr.claimSlot_sdr_cptr _
    exact (reads_of_fill after (same ▸ low) (claimSlot_of_free free)).later leads same

/-- With a free slot the SDR thread reads the next frame, wherever it is. -/
theorem reads_of_free [Inhabited D] (waits : Waits worker w s)
    (low : s.sdr.sdr_cptr + 1 < INT32_MAX) (free : Free s.sdr) : Reads worker w s := by
  cases pc : s.sdr.pc with
  | top => exact reads_of_top waits low free pc
  | write i cptr path => exact reads_of_write waits low free pc
  | relock cptr => exact reads_of_relock waits low free pc
  | overflow =>
      have step : s.sdr.step? .wake = some { s.sdr with pc := .top } := by
        simp only [Sdr.step?, pc]
      obtain ⟨leads, after⟩ := waits.reader step trivial
      exact (reads_of_top after low free rfl).later leads rfl
  | fill base => exact reads_of_fill waits low pc
  | commit => exact reads_of_commit waits low pc

/-! ### The socket writer finishes a pass -/

/-- Some continuation gets the writer to `place`; the SDR thread does nothing. -/
def Writes (worker : Worker D S) (w : Nat) (s : Pipe D S) (place : WriterPc) : Prop :=
  ∃ t, (pipeline D S).Leads Continues s t ∧ Waits worker w t ∧ t.writer = place ∧ t.sdr = s.sdr

theorem Writes.later {place : WriterPc} (leads : (pipeline D S).Leads Continues s t)
    (same : t.sdr = s.sdr) (writes : Writes worker w t place) : Writes worker w s place := by
  obtain ⟨u, after, waits, writer, sdr⟩ := writes
  exact ⟨u, leads.trans after, waits, writer, sdr.trans same⟩

/-- The worker that is served is enabled, so it is another one. -/
theorem Waits.ne_served (waits : Waits worker w s) {v : Nat} {rest : List Nat}
    {last_written cptr : Int} (writer : s.writer = .send v rest last_written cptr) : w ≠ v := by
  rintro rfl
  have served := (waits.inv.sound w worker waits.found).served _ _ _ writer
  cases served.1.symm.trans waits.disabled

/-- What is left of the frames of one worker. -/
def framesLeft : WriterPc → Nat
  | .send _ _ last_written cptr => (last_written - cptr).toNat
  | _ => 0

theorem writes_of_send (waits : Waits worker w s) {v : Nat} {rest : List Nat}
    {last_written cptr : Int} (writer : s.writer = .send v rest last_written cptr) :
    Writes worker w s (.visit rest) := by
  let Kind (u : Pipe D S) : Prop := Waits worker w u ∧ u.sdr = s.sdr ∧
    ∃ cptr, u.writer = .send v rest last_written cptr
  have served (u : Pipe D S) (kind : Kind u) : ∃ other, u.heap v = some other := by
    obtain ⟨waits, _, cptr, writer⟩ := kind
    exact waits.inv.present v (.inr (.inl (by rw [writer]; exact List.mem_cons_self)))
  have progress : ∀ u, Kind u → ¬ framesLeft u.writer = 0 →
      ∃ x, (pipeline D S).Leads Continues u x ∧ Kind x ∧
        framesLeft x.writer < framesLeft u.writer := by
    intro u kind more
    obtain ⟨other, found⟩ := served u kind
    obtain ⟨waits, same, cptr, writer⟩ := kind
    have more : cptr < last_written := by
      rw [writer, framesLeft] at more
      omega
    have step : u.step? .sendFrame = some { u.set v (some (other.sendFrame cptr)) with
        writer := .send v rest last_written (cptr + 1) } := by
      simp only [Pipe.step?, writer, if_pos more, found, Option.map_some]
    obtain ⟨leads, after⟩ :=
      waits.step step trivial rfl (Function.update_of_ne (waits.ne_served writer) ..)
    refine ⟨_, leads, ⟨after, same, _, rfl⟩, ?_⟩
    rw [writer]
    simp only [framesLeft]
    omega
  have start : Kind s := ⟨waits, rfl, cptr, writer⟩
  obtain ⟨t, leads, kind, done⟩ :=
    Machine.leads_of_measure (fun u : Pipe D S => framesLeft u.writer) progress start
  obtain ⟨other, found⟩ := served t kind
  obtain ⟨waits, same, cptr, writer⟩ := kind
  have done : ¬ cptr < last_written := by
    rw [writer, framesLeft] at done
    omega
  have step : t.step? .sendCommit =
      some { t.set v (some (other.sendCommit cptr)) with writer := .visit rest } := by
    simp only [Pipe.step?, writer, if_neg done, found, Option.map_some]
  obtain ⟨last, after⟩ :=
    waits.step step trivial rfl (Function.update_of_ne (waits.ne_served writer) ..)
  exact ⟨_, leads.trans last, after, rfl, same⟩

/-- The writer walks through the workers that are left. -/
theorem writes_of_visit (waits : Waits worker w s) {rest : List Nat}
    (writer : s.writer = .visit rest) : Writes worker w s .metadata := by
  induction rest generalizing s with
  | nil =>
      have step : s.step? (.visit false) = some { s with writer := .metadata } := by
        simp only [Pipe.step?, writer]
      obtain ⟨leads, after⟩ := waits.step step trivial rfl rfl
      exact ⟨_, leads, after, rfl, rfl⟩
  | cons v rest ih =>
      obtain ⟨other, found⟩ :=
        waits.inv.present v (.inr (.inl (by rw [writer]; exact List.mem_cons_self)))
      cases enabled : other.enabled with
      | true =>
          have step : s.step? (.visit false) =
              some { s with writer := .send v rest other.last_written other.send_cptr } := by
            simp only [Pipe.step?, writer, found, Option.bind_some, Pipe.visit?, if_pos enabled]
          obtain ⟨snapshot, after⟩ := waits.step step trivial rfl rfl
          obtain ⟨t, leads, served, writer, same⟩ := writes_of_send after rfl
          exact (ih served writer).later (snapshot.trans leads) same
      | false =>
          have step : s.step? (.visit false) = some { s with writer := .visit rest } := by
            simp only [Pipe.step?, writer, found, Option.bind_some, Pipe.visit?, enabled,
              Bool.false_eq_true, if_false]
          obtain ⟨leads, after⟩ := waits.step step trivial rfl rfl
          exact (ih after rfl).later leads rfl

/-- Some continuation ends a pass of the writer; the SDR thread does nothing, and its
cursor is what the writer publishes. -/
def CatchesUp (worker : Worker D S) (w : Nat) (s : Pipe D S) : Prop :=
  ∃ t, (pipeline D S).Leads Continues s t ∧ Waits worker w t ∧
    t.sdr.sdr_cptr = s.sdr.sdr_cptr ∧ s.sdr.sdr_cptr ≤ t.sdr.send_cptr

theorem CatchesUp.later (leads : (pipeline D S).Leads Continues s t)
    (same : t.sdr.sdr_cptr = s.sdr.sdr_cptr) (catches : CatchesUp worker w t) :
    CatchesUp worker w s := by
  obtain ⟨u, after, waits, read, sent⟩ := catches
  rw [same] at read sent
  exact ⟨u, leads.trans after, waits, read, sent⟩

theorem catchesUp_of_metadata (waits : Waits worker w s) (writer : s.writer = .metadata) :
    CatchesUp worker w s := by
  have snapshot : s.step? .snapshot = some { s with writer := .publish s.sdr.sdr_cptr } := by
    simp only [Pipe.step?, writer]
  obtain ⟨read, between⟩ := waits.step snapshot trivial rfl rfl
  have publish : ({ s with writer := .publish s.sdr.sdr_cptr } : Pipe D S).step? .publish =
      some { s with
        sdr := { s.sdr with send_cptr := max s.sdr.send_cptr s.sdr.sdr_cptr }
        writer := .idle } := rfl
  obtain ⟨write, after⟩ := between.step publish trivial rfl rfl
  exact ⟨_, read.trans write, after, rfl, Int.le_max_right ..⟩

theorem catchesUp_of_visit (waits : Waits worker w s) {rest : List Nat}
    (writer : s.writer = .visit rest) : CatchesUp worker w s := by
  obtain ⟨t, leads, after, writer, same⟩ := writes_of_visit waits writer
  exact (catchesUp_of_metadata after writer).later leads (congrArg Sdr.sdr_cptr same)

theorem catchesUp_of_idle (waits : Waits worker w s) (writer : s.writer = .idle) :
    CatchesUp worker w s := by
  have step : s.step? .lock = some { s with writer := .visit s.worker_head } :=
    if_pos ⟨waits.unlocked, writer⟩
  obtain ⟨leads, after⟩ := waits.step step trivial rfl rfl
  exact (catchesUp_of_visit after rfl).later leads rfl

/-- The rest of a pass and, where it took its snapshot too early, another one. -/
theorem catchUp (waits : Waits worker w s) : CatchesUp worker w s := by
  cases writer : s.writer with
  | idle => exact catchesUp_of_idle waits writer
  | visit rest => exact catchesUp_of_visit waits writer
  | send v rest last_written cptr =>
      obtain ⟨t, leads, after, writer, same⟩ := writes_of_send waits writer
      exact (catchesUp_of_visit after writer).later leads (congrArg Sdr.sdr_cptr same)
  | metadata => exact catchesUp_of_metadata waits writer
  | publish sdr_cptr =>
      have step : s.step? .publish = some { s with
          sdr := { s.sdr with send_cptr := max s.sdr.send_cptr sdr_cptr }
          writer := .idle } := by
        simp only [Pipe.step?, writer]
      obtain ⟨leads, after⟩ := waits.step step trivial rfl rfl
      exact (catchesUp_of_idle after rfl).later leads rfl

/-! ### The thread leaves its loop -/

theorem CanExit.later (leads : (pipeline D S).Leads Continues s t) (exit : CanExit t w) :
    CanExit s w := by
  obtain ⟨u, after, left⟩ := exit
  exact ⟨u, leads.trans after, left⟩

theorem Waits.move (waits : Waits worker w s) {move : Move S} {next : Worker D S}
    (step : worker.move? s.sdr.sdr_cptr s.sdr.sdr_inbuf move = some next) :
    (pipeline D S).Leads Continues s (s.set w (some next)) ∧
      Waits next w (s.set w (some next)) := by
  have taken : s.step? (.worker w move) = some (s.set w (some next)) := by
    simp only [Pipe.step?, waits.found, Option.bind_some, step, Option.map_some]
  have admitted : (pipeline D S).step? s (.worker w move) = some (s.set w (some next)) := taken
  exact ⟨.step admitted trivial, ⟨waits.inv.step taken, waits.unlocked, Function.update_self ..,
    (enabled_move (.of_move? step)).trans waits.disabled⟩⟩

theorem exits_of_commit (waits : Waits worker w s) {mypos : Int} (pc : worker.pc = .commit mypos) :
    CanExit s w := by
  have step : worker.move? s.sdr.sdr_cptr s.sdr.sdr_inbuf .commit =
      some { worker with pc := .leave } := by
    simp only [Worker.move?, pc, Worker.commit, waits.disabled, Bool.false_eq_true, if_false]
  obtain ⟨leads, after⟩ := waits.move step
  exact ⟨_, leads, _, after.found, .inl rfl⟩

theorem exits_of_fill [Inhabited S] (waits : Waits worker w s) {mypos : Int}
    (pc : worker.pc = .fill mypos) : CanExit s w := by
  have step : worker.move? s.sdr.sdr_cptr s.sdr.sdr_inbuf (.store ⟨0, default⟩) =
      some (worker.store mypos ⟨0, default⟩) := by
    simp only [Worker.move?, pc]
  obtain ⟨leads, after⟩ := waits.move step
  exact (exits_of_commit after rfl).later leads

theorem exits_of_copy [Inhabited S] (waits : Waits worker w s) {mypos : Int}
    (pc : worker.pc = .copy mypos) (index : 0 ≤ mypos.tmod BUFSIZE) : CanExit s w := by
  have step : worker.move? s.sdr.sdr_cptr s.sdr.sdr_inbuf .copy =
      some (worker.copy mypos s.sdr.sdr_inbuf) := by
    simp only [Worker.move?, pc, if_pos index]
  obtain ⟨leads, after⟩ := waits.move step
  exact (exits_of_fill after rfl).later leads

/-- The reader gets to any frame below the last one of the counter: each frame
costs a pass of the writer. -/
theorem reads_upTo [Inhabited D] (waits : Waits worker w s) {mypos : Int}
    (low : mypos + 1 < INT32_MAX) :
    ∃ t, (pipeline D S).Leads Continues s t ∧ Waits worker w t ∧ mypos < t.sdr.sdr_cptr := by
  refine Machine.leads_of_measure (fun u : Pipe D S => (mypos + 1 - u.sdr.sdr_cptr).toNat) ?_ waits
  intro u waits behind
  obtain ⟨t, leads, after, read, sent⟩ := catchUp waits
  have size := BUFSIZE_eq
  have free : Free t.sdr := by
    rw [Free]
    omega
  obtain ⟨v, later, arrived, one⟩ := reads_of_free after (by omega) free
  exact ⟨v, leads.trans later, arrived, by omega⟩

theorem exits_of_wait [Inhabited D] [Inhabited S] (waits : Waits worker w s) {mypos : Int}
    (pc : worker.pc = .wait mypos) (passable : Passable worker) : CanExit s w := by
  rw [Passable, pc] at passable
  obtain ⟨room, low, index⟩ := passable
  obtain ⟨t, leads, after, read⟩ := reads_upTo waits low
  have step : worker.move? t.sdr.sdr_cptr t.sdr.sdr_inbuf .check = some (worker.enter mypos) := by
    simp only [Worker.move?, pc]
    rw [if_neg (by omega)]
  obtain ⟨entered, copying⟩ := after.move step
  exact (exits_of_copy copying rfl index).later (leads.trans entered)

theorem exits_of_start [Inhabited D] [Inhabited S] (waits : Waits worker w s)
    (pc : worker.pc = .start) (passable : Passable worker) : CanExit s w := by
  have step : worker.move? s.sdr.sdr_cptr s.sdr.sdr_inbuf .begin = some worker.begin := by
    simp only [Worker.move?, pc]
  obtain ⟨leads, after⟩ := waits.move step
  have same := passable_move (.of_move? step) waits.inv.counter
    (waits.inv.sound w worker waits.found).fresh waits.disabled
  exact (exits_of_wait after rfl (same.mpr passable)).later leads

theorem exits_of_passable [Inhabited D] [Inhabited S] (waits : Waits worker w s)
    (passable : Passable worker) : CanExit s w := by
  cases pc : worker.pc with
  | start => exact exits_of_start waits pc passable
  | wait mypos => exact exits_of_wait waits pc passable
  | copy mypos =>
      rw [Passable, pc] at passable
      exact exits_of_copy waits pc passable
  | fill mypos => exact exits_of_fill waits pc
  | commit mypos => exact exits_of_commit waits pc
  | leave => exact ⟨s, .refl s, worker, waits.found, .inl pc⟩
  | gone => exact ⟨s, .refl s, worker, waits.found, .inr pc⟩

/-- A destroyed worker can exit exactly if it is passable, in every state that the
threads can reach. -/
theorem canExit_iff [Inhabited D] [Inhabited S] (inv : Inv s) (found : s.heap w = some worker)
    (disabled : worker.enabled = false) (settled : s.creating ≠ some w) :
    CanExit s w ↔ Passable worker := by
  constructor
  · intro exit
    by_contra blocked
    exact Stuck.not_canExit ⟨inv, settled, worker, found, disabled, blocked⟩ exit
  · intro passable
    cases creating : s.creating with
    | none => exact exits_of_passable ⟨inv, creating, found, disabled⟩ passable
    | some v =>
        -- the handler that creates another worker unlocks `llmutex` first
        obtain ⟨other, before⟩ := inv.present v (.inr (.inr creating))
        have ne : w ≠ v := fun same => settled (same ▸ creating)
        have taken : s.step? .enable = some (s.enable v other) := by
          simp only [Pipe.step?, creating, Option.bind_some, before, Option.map_some]
        have admitted : (pipeline D S).step? s .enable = some (s.enable v other) := taken
        have waits : Waits worker w (s.enable v other) :=
          ⟨inv.step taken, rfl, (Function.update_of_ne ne ..).trans found, disabled⟩
        exact (exits_of_passable waits passable).later (.step admitted trivial)

end Continuation

/-- If every `DESTROY_XLATER` finds its worker passable, a destroyed worker can
always exit. -/
theorem canExit_of_timely [Inhabited D] [Inhabited S]
    (reach : (pipeline D S).Reachable Timely s) {worker : Worker D S}
    (found : s.heap w = some worker) (disabled : worker.enabled = false)
    (settled : s.creating ≠ some w) : CanExit s w := by
  have inv := inv_of_reachable reach
  obtain ⟨first, acts, ⟨frequency, samplerate, rfl⟩, run⟩ := reach
  have none : AllPassable (Pipe.start frequency samplerate : Pipe D S) := by
    rintro w worker ⟨⟩
  have all := none.run (.start frequency samplerate) run
  exact (canExit_iff inv found disabled settled).mpr (all w worker found disabled settled)

/-! ## Two runs -/

/-- A worker is destroyed before its first frame. -/
theorem canExit_of_timely_first :
    ∃ s : Pipe Nat Nat, (pipeline Nat Nat).Reachable Timely s ∧
      (s.heap 0).map (fun worker => (worker.enabled, worker.pc)) = some (false, .wait 0) ∧
      CanExit s 0 := by
  obtain ⟨s, run, worker, found, state, settled⟩ : ∃ s : Pipe Nat Nat,
      (pipeline Nat Nat).Run Timely (.start 0 0)
        [.create (-1), .enable, .worker 0 .begin, .destroy 0] s ∧
      ∃ worker, s.heap 0 = some worker ∧ (worker.enabled, worker.pc) = (false, .wait 0) ∧
        s.creating ≠ some 0 := by
    refine ⟨_, .cons trivial rfl <| .cons trivial rfl <| .cons trivial rfl <| .cons ?_ rfl <|
      .nil _, _, rfl, rfl, ?_⟩
    · rintro worker ⟨⟩
      have room : (0 : Int) - BUFSIZE < -1 ∧ (0 : Int) + 1 < INT32_MAX ∧
          0 ≤ (0 : Int).tmod BUFSIZE := by decide
      exact room
    · rintro ⟨⟩
  have reach : (pipeline Nat Nat).Reachable Timely s := ⟨_, _, ⟨0, 0, rfl⟩, run⟩
  refine ⟨s, reach, ?_, canExit_of_timely reach found (Prod.mk.inj state).1 settled⟩
  rw [found, Option.map_some, state]

/-- The worker has filled its ring and is destroyed before the socket writer has
served it once. -/
theorem not_canExit_full_ring :
    ¬∀ (s : Pipe Nat Nat) (w : Nat) (worker : Worker Nat Nat),
      (pipeline Nat Nat).Reachable Machine.Any s → s.heap w = some worker →
      worker.enabled = false → s.creating ≠ some w → CanExit s w := by
  intro exits
  let start : List (Act Nat Nat) := [.create (-1), .enable, .worker 0 .begin]
  let frames : List (Act Nat Nat) := (List.replicate 128 (FrameSupply.readFrame 3)).flatten
  let packets : List (Act Nat Nat) := (List.replicate 127
    [.worker 0 .check, .worker 0 .copy, .worker 0 (.store ⟨8, 5⟩), .worker 0 .commit]).flatten
  have run : ((pipeline Nat Nat).run? (.start 0 0) (start ++ frames ++ packets ++ [.destroy 0])).any
      (fun s => decide (s.creating = none) && (s.heap 0).any fun worker =>
        decide (worker.enabled = false ∧ worker.pc = .wait 127 ∧ worker.send_cptr = -1)) =
      true := by
    decide +kernel
  obtain ⟨s, run, state⟩ := (Option.any_eq_true _ _).mp run
  obtain ⟨none, state⟩ := Bool.and_eq_true_iff.mp state
  obtain ⟨worker, found, state⟩ := (Option.any_eq_true _ _).mp state
  obtain ⟨disabled, pc, cursor⟩ := of_decide_eq_true state
  have settled : s.creating ≠ some 0 := by
    rw [of_decide_eq_true none]
    exact (Option.some_ne_none 0).symm
  have reach : (pipeline Nat Nat).Reachable Machine.Any s := ⟨_, _, ⟨0, 0, rfl⟩, .of_run? run⟩
  have passable := (canExit_iff (inv_of_reachable reach) found disabled settled).mp
    (exits s 0 worker reach found disabled settled)
  rw [Passable, pc, cursor] at passable
  have full : ¬ (127 : Int) - BUFSIZE < -1 := by decide
  exact full passable.1

end Kukuruku.Server.WorkerExit
