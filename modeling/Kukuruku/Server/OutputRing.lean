import Kukuruku.Server.Pipeline

/-!
# The output ring of a worker

The packets between `send_cptr` and `last_written` stay in `outbuf` as the
worker stored them, whatever the other threads do: the worker's wait keeps the
slot it fills away from them, and the socket writer frees nothing.  The writer's
own cursors, while it sends frames of the worker, lie between the shared ones.
-/

namespace Kukuruku.Server.OutputRing

open Kukuruku.Server.WorkerThread
open Kukuruku.Server.Pipeline

variable {D S : Type*}

/-- The writer's snapshot of `last_written` and its local cursor, while it sends
frames of worker `w`. -/
def sending (writer : WriterPc) (w : Nat) : Option (Int × Int) :=
  match writer with
  | .send sender _ last_written cptr => if sender = w then some (last_written, cptr) else none
  | _ => none

/-- The last frame of the worker that the writer has processed. -/
def processed (worker : Worker D S) : Option (Int × Int) → Int
  | some (_, cptr) => cptr
  | none => worker.send_cptr

/-- What the place of the worker's thread says about its cursors. -/
def Place (worker : Worker D S) : Prop :=
  match worker.pc with
  | .start => worker.last_written = worker.origin ∧ worker.stored = []
  | .wait mypos => mypos = worker.last_written + 1 ∧
      mypos = worker.origin + 1 + worker.stored.length
  | .copy mypos | .fill mypos => mypos = worker.last_written + 1 ∧
      mypos = worker.origin + 1 + worker.stored.length ∧ mypos < worker.send_cptr + BUFSIZE
  | .commit mypos => mypos = worker.last_written + 1 ∧
      mypos = worker.origin + worker.stored.length ∧ mypos < worker.send_cptr + BUFSIZE
  | .leave | .gone => worker.last_written ≤ worker.origin + worker.stored.length ∧
      (worker.enabled = false ∨ worker.last_written = worker.origin)

/-- The slot that the thread is writing, from the copy of the frame to the
commit of its packet. -/
def Fills (worker : Worker D S) (mypos : Int) : Prop :=
  worker.pc = .copy mypos ∨ worker.pc = .fill mypos ∨ worker.pc = .commit mypos

/-- The ring invariant of one worker, given the writer's view of it. -/
structure InOrder (worker : Worker D S) (view : Option (Int × Int)) : Prop where
  begun : worker.origin ≤ worker.send_cptr
  sent_le : worker.send_cptr ≤ worker.last_written
  viewed : ∀ last_written cptr, view = some (last_written, cptr) → worker.send_cptr ≤ cptr ∧
    cptr ≤ last_written ∧ last_written ≤ worker.last_written ∧ worker.enabled = true
  numbered : ∀ (j : Nat) (entry : Int × WorkerPacket S), worker.stored[j]? = some entry →
    entry.1 = worker.origin + 1 + j
  place : Place worker
  held : worker.pc ≠ .gone → Ring.Holds BUFSIZE (worker.origin + 1) worker.outbuf
    (worker.stored.map Prod.snd) (worker.send_cptr - worker.origin).toNat
  sent : worker.sent = (worker.stored.take (processed worker view - worker.origin).toNat).map
    fun entry => (entry.1, some entry.2)

namespace InOrder

variable {worker next : Worker D S} {view : Option (Int × Int)}

/-- All frames up to `last_written` have been stored. -/
theorem complete (inOrder : InOrder worker view) :
    worker.last_written ≤ worker.origin + worker.stored.length := by
  have place := inOrder.place
  unfold Place at place
  split at place
  · obtain ⟨same, _⟩ := place
    omega
  all_goals omega

theorem processed_range (inOrder : InOrder worker view) :
    worker.send_cptr ≤ processed worker view ∧
      processed worker view ≤ worker.last_written := by
  have sent_le := inOrder.sent_le
  cases cursors : view with
  | none => exact ⟨Int.le_refl _, sent_le⟩
  | some pair =>
      obtain ⟨sent, local_le, snapshot, _⟩ := inOrder.viewed pair.1 pair.2 cursors
      exact ⟨sent, Int.le_trans local_le snapshot⟩

theorem create (history sdr_cptr : Int) :
    InOrder (Worker.create history sdr_cptr : Worker D S) none where
  begun := Int.le_refl _
  sent_le := Int.le_refl _
  viewed := by rintro _ _ ⟨⟩
  numbered := by rintro j entry ⟨⟩
  place := ⟨rfl, rfl⟩
  held := fun _ => .nil
  sent := by simp [Worker.create]

/-- The frame whose slot is being written is less than a buffer ahead. -/
theorem filled (inOrder : InOrder worker view) {mypos : Int} (fills : Fills worker mypos) :
    worker.last_written < mypos ∧ mypos < worker.send_cptr + BUFSIZE := by
  have place := inOrder.place
  unfold Place at place
  rcases fills with pc | pc | pc <;> simp only [pc] at place <;> omega

/-- A frame that is ready or being sent is in its slot as it was stored, and
the ring has not been freed. -/
theorem ready (inOrder : InOrder worker view) (id : Int) (after : worker.send_cptr < id)
    (upTo : id ≤ worker.last_written) (alive : worker.pc ≠ .gone) :
    ∃ packet, worker.stored[(id - worker.origin - 1).toNat]? = some (id, packet) ∧
      worker.outbuf (id.tmod BUFSIZE) = some packet := by
  have begun := inOrder.begun
  have complete := inOrder.complete
  have inside : (id - worker.origin - 1).toNat < worker.stored.length := by omega
  have held := inOrder.held alive (id - worker.origin - 1).toNat (by omega)
    (by rw [List.length_map]; exact inside)
  have place : worker.origin + 1 + (id - worker.origin - 1).toNat = id := by omega
  rw [place, List.getElem?_map, List.getElem?_eq_getElem inside] at held
  have number := inOrder.numbered _ _ (List.getElem?_eq_getElem inside)
  rw [place] at number
  refine ⟨worker.stored[(id - worker.origin - 1).toNat].2, ?_, held⟩
  rw [List.getElem?_eq_getElem inside]
  exact congrArg some (Prod.ext number rfl)

/-- While the writer has a frame to send, the worker's thread is in its loop. -/
theorem alive (inOrder : InOrder worker view) {last_written cptr : Int}
    (viewed : view = some (last_written, cptr)) (more : cptr < last_written) :
    worker.pc ≠ .gone := by
  intro gone
  obtain ⟨sent, _, snapshot, enabled⟩ := inOrder.viewed _ _ viewed
  have begun := inOrder.begun
  have place := inOrder.place
  simp only [Place, gone, enabled] at place
  rcases place.2 with disabled | unused
  · cases disabled
  · omega

/-! ### The steps of the worker's thread -/

/-- Steps of the thread that touch neither the ring nor the cursors. -/
theorem relocate (inOrder : InOrder worker view) {pc : WorkerPc}
    (place : Place { worker with pc := pc }) (live : worker.pc ≠ .gone) :
    InOrder { worker with pc := pc } view where
  begun := inOrder.begun
  sent_le := inOrder.sent_le
  viewed := inOrder.viewed
  numbered := inOrder.numbered
  place := place
  held := fun _ => inOrder.held live
  sent := inOrder.sent

/-- Writing the slot of the next frame leaves the frames not yet sent alone. -/
theorem copy (inOrder : InOrder worker view) (first : 0 ≤ worker.origin + 1) {mypos : Int}
    (pc : worker.pc = .copy mypos) (sdr_inbuf : Ring.Cells (SdrReader.SdrPacket D)) :
    InOrder (worker.copy mypos sdr_inbuf) view := by
  have place := inOrder.place
  simp only [Place, pc] at place
  obtain ⟨next, last, room⟩ := place
  have begun := inOrder.begun
  refine ⟨begun, inOrder.sent_le, inOrder.viewed, inOrder.numbered, ⟨next, last, room⟩, ?_,
    inOrder.sent⟩
  intro _
  have cleared := (inOrder.held (by rw [pc]; nofun)).clear first
    (by rw [List.length_map]; omega)
  rwa [List.length_map, ← last] at cleared

theorem store (inOrder : InOrder worker view) (first : 0 ≤ worker.origin + 1) {mypos : Int}
    (pc : worker.pc = .fill mypos) (packet : WorkerPacket S) :
    InOrder (worker.store mypos packet) view := by
  have place := inOrder.place
  simp only [Place, pc] at place
  obtain ⟨next, last, room⟩ := place
  have begun := inOrder.begun
  have range := inOrder.processed_range
  refine ⟨begun, inOrder.sent_le, inOrder.viewed, ?_, ⟨next, ?_, room⟩, ?_, ?_⟩
  · intro j entry found
    simp only [Worker.store] at found ⊢
    by_cases final : j = worker.stored.length
    · subst final
      rw [List.getElem?_concat_length] at found
      obtain rfl := Option.some.inj found
      exact last
    · obtain ⟨inside, _⟩ := List.getElem?_eq_some_iff.mp found
      rw [List.length_append, List.length_singleton] at inside
      rw [List.getElem?_append_left (by omega)] at found
      exact inOrder.numbered j entry found
  · simp only [Worker.store, List.length_append, List.length_singleton]
    omega
  · intro _
    have stored := (inOrder.held (by rw [pc]; nofun)).store first
      (by rw [List.length_map]; omega) packet
    rw [List.length_map, ← last] at stored
    simpa only [Worker.store, List.map_append, List.map_cons, List.map_nil] using stored
  · have same : processed (worker.store mypos packet) view = processed worker view := by
      cases view <;> rfl
    rw [same]
    simp only [Worker.store]
    rw [List.take_append_of_le_length (by omega)]
    exact inOrder.sent

theorem commit (inOrder : InOrder worker view) {mypos : Int}
    (pc : worker.pc = .commit mypos) : InOrder (worker.commit mypos) view := by
  have place := inOrder.place
  simp only [Place, pc] at place
  obtain ⟨next, last, room⟩ := place
  have sent_le := inOrder.sent_le
  unfold Worker.commit
  split
  · refine ⟨inOrder.begun, ?_, ?_, inOrder.numbered, ⟨rfl, ?_⟩, fun _ =>
      inOrder.held (by rw [pc]; nofun), inOrder.sent⟩
    · simp only
      omega
    · intro last_written cptr viewed
      obtain ⟨sent, local_le, snapshot, enabled⟩ := inOrder.viewed _ _ viewed
      exact ⟨sent, local_le, by simp only; omega, enabled⟩
    · simp only
      omega
  · rename_i disabled
    refine inOrder.relocate ⟨?_, Or.inl ?_⟩ (by rw [pc]; nofun)
    · simp only
      omega
    · exact Bool.eq_false_iff.mpr disabled

theorem free (inOrder : InOrder worker view) (pc : worker.pc = .leave) :
    InOrder worker.free view := by
  have place := inOrder.place
  simp only [Place, pc] at place
  exact ⟨inOrder.begun, inOrder.sent_le, inOrder.viewed, inOrder.numbered, place,
    fun live => absurd rfl live, inOrder.sent⟩

theorem move (inOrder : InOrder worker view) (first : 0 ≤ worker.origin + 1)
    {sdr_cptr : Int} {sdr_inbuf : Ring.Cells (SdrReader.SdrPacket D)} {step : Move S}
    (moves : Worker.Moves sdr_cptr sdr_inbuf worker step next) : InOrder next view := by
  have place := inOrder.place
  cases moves with
  | begin pc =>
      simp only [Place, pc] at place
      obtain ⟨same, none⟩ := place
      refine inOrder.relocate ⟨rfl, ?_⟩ (by rw [pc]; nofun)
      rw [none, same]
      simp
  | check pc read room =>
      simp only [Place, pc] at place
      refine inOrder.relocate ⟨place.1, place.2, ?_⟩ (by rw [pc]; nofun)
      simp only
      omega
  | copy pc => exact inOrder.copy first pc sdr_inbuf
  | store packet pc => exact inOrder.store first pc packet
  | commit pc => exact inOrder.commit pc
  | free pc => exact inOrder.free pc

/-! ### The steps of the other threads -/

/-- Only a worker that has committed nothing yet is ever enabled. -/
theorem enable (inOrder : InOrder worker view) (unused : worker.last_written = worker.origin) :
    InOrder worker.enable view := by
  refine ⟨inOrder.begun, inOrder.sent_le, ?_, inOrder.numbered, ?_, inOrder.held, inOrder.sent⟩
  · intro last_written cptr viewed
    obtain ⟨sent, local_le, snapshot, _⟩ := inOrder.viewed _ _ viewed
    exact ⟨sent, local_le, snapshot, rfl⟩
  · have place := inOrder.place
    unfold Place Worker.enable at *
    cases pc : worker.pc with
    | leave | gone =>
        simp only [pc] at place ⊢
        exact ⟨place.1, Or.inr unused⟩
    | start | wait | copy | fill | commit =>
        simp only [pc] at place ⊢
        exact place

theorem disable (inOrder : InOrder worker none) : InOrder worker.disable none := by
  refine ⟨inOrder.begun, inOrder.sent_le, ?_, inOrder.numbered, ?_, inOrder.held, inOrder.sent⟩
  · rintro _ _ ⟨⟩
  · have place := inOrder.place
    unfold Place Worker.disable at *
    cases pc : worker.pc with
    | leave | gone =>
        simp only [pc] at place ⊢
        exact ⟨place.1, Or.inl trivial⟩
    | start | wait | copy | fill | commit =>
        simp only [pc] at place ⊢
        exact place

/-- The writer takes its snapshot. -/
theorem snapshot (inOrder : InOrder worker none) (enabled : worker.enabled = true) :
    InOrder worker (some (worker.last_written, worker.send_cptr)) := by
  refine ⟨inOrder.begun, inOrder.sent_le, ?_, inOrder.numbered, inOrder.place, inOrder.held,
    inOrder.sent⟩
  rintro last_written cptr ⟨⟩
  exact ⟨Int.le_refl _, inOrder.sent_le, Int.le_refl _, enabled⟩

/-- The writer processes one frame: it reads what was stored for it. -/
theorem sendFrame {last_written cptr : Int}
    (inOrder : InOrder worker (some (last_written, cptr))) (more : cptr < last_written) :
    InOrder (worker.sendFrame cptr) (some (last_written, cptr + 1)) := by
  obtain ⟨sent, local_le, snapshot, enabled⟩ := inOrder.viewed _ _ rfl
  have begun := inOrder.begun
  obtain ⟨packet, stored, read⟩ :=
    inOrder.ready (cptr + 1) (by omega) (by omega) (inOrder.alive rfl more)
  refine ⟨begun, inOrder.sent_le, ?_, inOrder.numbered, inOrder.place, inOrder.held, ?_⟩
  · rintro _ _ ⟨⟩
    exact ⟨by simp only [Worker.sendFrame]; omega, by omega, snapshot, enabled⟩
  · have index : (cptr + 1 - worker.origin - 1).toNat = (cptr - worker.origin).toNat := by omega
    have later : (cptr + 1 - worker.origin).toNat = (cptr - worker.origin).toNat + 1 := by omega
    have before := inOrder.sent
    rw [index] at stored
    simp only [Worker.sendFrame, processed] at before ⊢
    rw [later, List.take_add_one, stored, List.map_append, ← before, read]
    rfl

/-- The writer publishes its cursor after the last frame of the snapshot. -/
theorem sendCommit {last_written cptr : Int}
    (inOrder : InOrder worker (some (last_written, cptr))) :
    InOrder (worker.sendCommit cptr) none := by
  obtain ⟨sent, local_le, snapshot, enabled⟩ := inOrder.viewed _ _ rfl
  have begun := inOrder.begun
  refine ⟨Int.le_trans begun sent, Int.le_trans local_le snapshot, ?_, inOrder.numbered, ?_, ?_,
    inOrder.sent⟩
  · rintro _ _ ⟨⟩
  · have place := inOrder.place
    unfold Place Worker.sendCommit at *
    cases pc : worker.pc with
    | start | wait | leave | gone =>
        simp only [pc] at place ⊢
        exact place
    | copy | fill | commit =>
        simp only [pc] at place ⊢
        omega
  · intro live
    refine (inOrder.held live).weaken ?_
    simp only [Worker.sendCommit]
    omega

end InOrder

/-! ## All workers in the pipeline -/

/-- The thread may run already, but nothing has been committed. -/
def Unused (worker : Worker D S) : Prop :=
  worker.enabled = false ∧ worker.last_written = worker.origin

/-- The ring invariant of every worker whose first frame is not negative. -/
structure RingsInOrder (s : Pipe D S) : Prop where
  workers : ∀ w worker, s.heap w = some worker → 0 ≤ worker.origin + 1 →
    InOrder worker (sending s.writer w)
  creating : ∀ w worker, s.creating = some w → s.heap w = some worker → Unused worker

namespace RingsInOrder

variable {s t : Pipe D S}

/-- A step that changes at most worker `w`, and the writer's view of it alone. -/
theorem change (rings : RingsInOrder s) {w : Nat} {slot : Option (Worker D S)}
    (heap : t.heap = Function.update s.heap w slot)
    (own : ∀ worker, slot = some worker → 0 ≤ worker.origin + 1 →
      InOrder worker (sending t.writer w))
    (others : ∀ v, v ≠ w → sending t.writer v = sending s.writer v)
    (unused : ∀ worker, slot = some worker → t.creating = some w → Unused worker)
    (creating : ∀ v, v ≠ w → t.creating = some v → s.creating = some v) : RingsInOrder t := by
  constructor
  · intro v worker found first
    rw [heap] at found
    by_cases same : v = w
    · subst same
      rw [Function.update_self] at found
      exact own worker found first
    · rw [Function.update_of_ne same] at found
      rw [others v same]
      exact rings.workers v worker found first
  · intro v worker created found
    rw [heap] at found
    by_cases same : v = w
    · subst same
      rw [Function.update_self] at found
      exact unused worker found created
    · rw [Function.update_of_ne same] at found
      exact rings.creating v worker (creating v same created) found

/-- The writer walks on without sending anything before or after. -/
theorem walk (rings : RingsInOrder s) {writer : WriterPc}
    (view : ∀ w, sending writer w = sending s.writer w) :
    RingsInOrder { s with writer := writer } :=
  ⟨fun w worker found first => (view w).symm ▸ rings.workers w worker found first,
    rings.creating⟩

theorem sending_self (w : Nat) (rest : List Nat) (last_written cptr : Int) :
    sending (.send w rest last_written cptr) w = some (last_written, cptr) := by
  simp [sending]

theorem sending_ne {v w : Nat} (ne : v ≠ w) (rest : List Nat) (last_written cptr : Int) :
    sending (.send w rest last_written cptr) v = none := by
  simp [sending, Ne.symm ne]

theorem origin_move {worker next : Worker D S} {sdr_cptr : Int}
    {sdr_inbuf : Ring.Cells (SdrReader.SdrPacket D)} {move : Move S}
    (moves : worker.Moves sdr_cptr sdr_inbuf move next) : next.origin = worker.origin := by
  cases moves with
  | commit =>
      unfold Worker.commit
      split <;> rfl
  | _ => rfl

/-- A worker that is not enabled commits nothing. -/
theorem unused_move {worker next : Worker D S} {sdr_cptr : Int}
    {sdr_inbuf : Ring.Cells (SdrReader.SdrPacket D)} {move : Move S}
    (moves : worker.Moves sdr_cptr sdr_inbuf move next) (unused : Unused worker) :
    Unused next := by
  cases moves with
  | commit =>
      rw [Worker.commit, if_neg (by rw [unused.1]; nofun)]
      exact unused
  | _ => exact unused

theorem step (rings : RingsInOrder s) {act : Act D S} (step : Pipe.Step s act t) :
    RingsInOrder t := by
  cases step with
  | sdr => exact ⟨rings.workers, rings.creating⟩
  | worker found moves =>
      rename_i w ctx next move
      refine rings.change rfl ?_ (fun _ _ => rfl) ?_ (fun _ _ => id)
      · rintro _ ⟨⟩ first
        rw [origin_move moves] at first
        exact (rings.workers w ctx found first).move first moves
      · rintro _ ⟨⟩ creating
        exact unused_move moves (rings.creating w ctx creating found)
  | create history unlocked =>
      refine rings.change rfl ?_ (fun _ _ => rfl) ?_ ?_
      · rintro _ ⟨⟩ _
        have idle : s.writer = .idle := unlocked.2
        simp only [Pipe.create, Pipe.set, idle]
        exact .create history s.sdr.sdr_cptr
      · rintro _ ⟨⟩ _
        exact ⟨rfl, rfl⟩
      · rintro v other ⟨⟩
        exact absurd rfl other
  | enable creating found =>
      rename_i w ctx
      refine rings.change rfl ?_ (fun _ _ => rfl) ?_ ?_
      · rintro _ ⟨⟩ first
        exact (rings.workers w ctx found first).enable (rings.creating w ctx creating found).2
      · rintro _ ⟨⟩ ⟨⟩
      · rintro v _ ⟨⟩
  | destroy unlocked found =>
      rename_i w ctx
      refine rings.change rfl ?_ (fun _ _ => rfl) ?_ (fun _ _ => id)
      · rintro _ ⟨⟩ first
        have own := rings.workers w ctx found first
        have idle : s.writer = .idle := unlocked.2
        simp only [Pipe.set, idle] at own ⊢
        exact own.disable
      · rintro _ ⟨⟩ creating
        exact absurd (unlocked.1.symm.trans creating) nofun
  | lock unlocked => exact rings.walk (by rw [unlocked.2]; exact fun _ => rfl)
  | last writer => exact rings.walk (by rw [writer]; exact fun _ => rfl)
  | send writer found enabled =>
      rename_i w rest ctx
      refine ⟨?_, rings.creating⟩
      intro v worker other first
      have own := rings.workers v worker other first
      rw [writer] at own
      by_cases same : v = w
      · subst same
        obtain rfl := Option.some.inj (found.symm.trans other)
        simp only [sending_self]
        exact own.snapshot enabled
      · simp only [sending_ne same]
        exact own
  | skip writer => exact rings.walk (by rw [writer]; exact fun _ => rfl)
  | join writer found gone =>
      rename_i w rest ctx
      refine rings.change (w := w) rfl ?_ ?_ ?_ (fun _ _ => id)
      · rintro _ ⟨⟩
      · rw [writer]
        exact fun _ _ => rfl
      · rintro _ ⟨⟩
  | sendFrame writer more found =>
      rename_i w rest last_written send_cptr ctx
      refine rings.change rfl ?_ ?_ ?_ (fun _ _ => id)
      · rintro _ ⟨⟩ first
        have own := rings.workers w ctx found first
        rw [writer, sending_self] at own
        simp only [sending_self]
        exact own.sendFrame more
      · intro v other
        rw [writer]
        simp only [sending_ne other]
      · rintro _ ⟨⟩ creating
        exact rings.creating w ctx creating found
  | sendCommit writer found =>
      rename_i w rest last_written send_cptr ctx
      refine rings.change rfl ?_ ?_ ?_ (fun _ _ => id)
      · rintro _ ⟨⟩ first
        have own := rings.workers w ctx found first
        rw [writer, sending_self] at own
        exact own.sendCommit
      · intro v other
        rw [writer, sending_ne other]
        rfl
      · rintro _ ⟨⟩ creating
        exact rings.creating w ctx creating found
  | snapshot writer => exact rings.walk (by rw [writer]; exact fun _ => rfl)
  | publish writer =>
      refine ⟨?_, rings.creating⟩
      intro w worker found first
      have own := rings.workers w worker found first
      rw [writer] at own
      exact own

end RingsInOrder

theorem ringsInOrder {s : Pipe D S} (reach : (pipeline D S).Reachable Machine.Any s) :
    RingsInOrder s := by
  refine reach.invariant ?_ ?_
  · rintro s ⟨frequency, samplerate, rfl⟩
    constructor
    · rintro w worker ⟨⟩
    · rintro w worker ⟨⟩
  · intro s act t rings _ step
    exact rings.step (.of_step? step)

/-- The output ring of every worker whose first frame is not negative, under
every interleaving: the cursors are ordered; the slot being written belongs to
no frame that is ready but not sent; the frames processed by the socket writer
are the consecutive ones from the first on, each once, and what it read of each
is what the worker stored for it; no frame counts as sent before that; and while
it processes a frame, the frame's packet is in its slot and the ring has not been
freed. -/
theorem outbuf_safe {s : Pipe D S} (reach : (pipeline D S).Reachable Machine.Any s) {w : Nat}
    {worker : Worker D S} (found : s.heap w = some worker) (first : 0 ≤ worker.origin + 1) :
    worker.send_cptr ≤ worker.last_written ∧
    (∀ mypos id, Fills worker mypos → worker.send_cptr < id → id ≤ worker.last_written →
      mypos.tmod BUFSIZE ≠ id.tmod BUFSIZE) ∧
    (∀ (j : Nat) entry, worker.sent[j]? = some entry → entry.1 = worker.origin + 1 + j ∧
      ∃ packet, worker.stored[j]? = some (entry.1, packet) ∧ entry.2 = some packet) ∧
    worker.send_cptr ≤ worker.origin + worker.sent.length ∧
    (∀ last_written cptr rest, s.writer = .send w rest last_written cptr → cptr < last_written →
      worker.pc ≠ .gone ∧ worker.sent.length = cptr - worker.origin ∧
      ∃ packet, worker.stored[worker.sent.length]? = some (cptr + 1, packet) ∧
        worker.outbuf ((cptr + 1).tmod BUFSIZE) = some packet) := by
  have inOrder := (ringsInOrder reach).workers w worker found first
  have begun := inOrder.begun
  have range := inOrder.processed_range
  have complete := inOrder.complete
  have length : worker.sent.length =
      (processed worker (sending s.writer w) - worker.origin).toNat := by
    rw [inOrder.sent, List.length_map, List.length_take]
    omega
  refine ⟨inOrder.sent_le, ?_, ?_, by omega, ?_⟩
  · intro mypos id fills after upTo
    obtain ⟨next, room⟩ := inOrder.filled fills
    exact (Ring.tmod_ne (by omega) (by omega) (by omega)).symm
  · intro j entry read
    rw [inOrder.sent, List.getElem?_map] at read
    obtain ⟨stored, inTake, rfl⟩ := Option.map_eq_some_iff.mp read
    rw [List.getElem?_take] at inTake
    split at inTake
    · exact ⟨inOrder.numbered j stored inTake, stored.2, inTake, rfl⟩
    · cases inTake
  · intro last_written cptr rest writer more
    have view : sending s.writer w = some (last_written, cptr) := by
      rw [writer, RingsInOrder.sending_self]
    obtain ⟨sent, _, snapshot, _⟩ := inOrder.viewed _ _ view
    have alive := inOrder.alive view more
    obtain ⟨packet, stored, slot⟩ := inOrder.ready (cptr + 1) (by omega) (by omega) alive
    rw [view] at length
    simp only [processed] at length
    have index : (cptr + 1 - worker.origin - 1).toNat = worker.sent.length := by omega
    rw [index] at stored
    exact ⟨alive, by omega, packet, stored, slot⟩

/-- One frame passes from the SDR through a worker to the sockets. -/
theorem outbuf_safe_one_frame :
    ∃ (s : Pipe Nat Nat) (worker : Worker Nat Nat),
      (pipeline Nat Nat).Reachable Machine.Any s ∧ s.heap 0 = some worker ∧
      worker.sent = [(0, some ⟨8, 5⟩)] ∧ worker.send_cptr ≤ worker.last_written ∧
      worker.send_cptr ≤ worker.origin + worker.sent.length := by
  obtain ⟨s, worker, run, found, sent, first⟩ : ∃ (s : Pipe Nat Nat) (worker : Worker Nat Nat),
      (pipeline Nat Nat).run? (Pipe.start 0 0)
        [.create (-1), .enable, .worker 0 .begin, .sdr .top, .sdr (.fill 3 0), .sdr .commit,
          .sdr .top, .sdr (.fill 4 0), .sdr .commit, .worker 0 .check, .worker 0 .copy,
          .worker 0 (.store ⟨8, 5⟩), .worker 0 .commit, .lock, .visit false, .sendFrame,
          .sendCommit] = some s ∧
        s.heap 0 = some worker ∧ worker.sent = [(0, some ⟨8, 5⟩)] ∧ 0 ≤ worker.origin + 1 :=
    ⟨_, _, rfl, rfl, rfl, by decide⟩
  have reach : (pipeline Nat Nat).Reachable Machine.Any s :=
    ⟨_, _, ⟨0, 0, rfl⟩, .of_run? run⟩
  obtain ⟨ordered, _, _, counted, _⟩ := outbuf_safe reach found first
  exact ⟨s, worker, reach, found, sent, ordered, counted⟩

end Kukuruku.Server.OutputRing
