import Kukuruku.Server.SdrReader

/-!
# The frames of one recording

After a `RECORD_START` the blocks on disk are the requested frames in order, as
long as every batch starts at a frame that has been read and is not the stop
frame with a later one behind it.  The next frame to record is followed from
place to place of the reader's loop.
-/

namespace Kukuruku.Server.Recording

open Kukuruku.Server.SdrReader

variable {D : Type*}

/-- The frame a request asks for: the current one, the oldest one that is
present instead of an older one, or the one it names. -/
def firstFrame (s : Sdr D) (startframe : Int) : Nat :=
  if startframe = -1 then s.sdr_cptr.toNat else max startframe.toNat s.oldest

/-- The blocks of `count` consecutive frames. -/
def frameBlocks (path : Option RecPath) (frames : List (SdrPacket D)) (first count : Nat) :
    List (Block D) :=
  (List.range count).map fun i => Block.of path frames[first + i]?

/-- Since the request was handled in `s`, exactly `count` frames were recorded:
consecutive ones, each read from the SDR, none beyond the stop frame. -/
def Recorded (s t : Sdr D) (startframe stopframe now : Int) (count : Nat) : Prop :=
  t.disk = s.disk ++
      frameBlocks (some ⟨now, s.samplerate⟩) t.frames (firstFrame s startframe) count ∧
    (count = 0 ∨ firstFrame s startframe + count ≤ t.frames.length ∧
      (firstFrame s startframe + count : Int) ≤ stopframe + 1)

/-- Turns of the reader's loop. -/
def turns (acts : List (Act D)) : Nat :=
  acts.countP fun act => match act with
    | .top => true
    | _ => false

/-- No later record message. -/
def NoRecord (_ : Sdr D) : Act D → Prop
  | .RECORD_START _ _ _ | .RECORD_STOP => False
  | _ => True

instance (s : Sdr D) : (act : Act D) → Decidable (NoRecord s act)
  | .RECORD_START _ _ _ | .RECORD_STOP => .isFalse id
  | .top | .write | .relock | .wake | .fill _ _ | .commit | .RETUNE _ | .send _ =>
      .isTrue trivial

/-- Moreover a batch starts only at a frame that has been read, and a batch that
starts at the stop frame finds no later frame. -/
def Punctual (s : Sdr D) : Act D → Prop
  | .RECORD_START _ _ _ | .RECORD_STOP => False
  | .top => s.record.Active → s.record.rec_cptr ≤ s.sdr_cptr ∧
      (s.record.rec_cptr = s.record.rec_stop → s.sdr_cptr = s.record.rec_cptr)
  | _ => True

instance (s : Sdr D) : (act : Act D) → Decidable (Punctual s act)
  | .RECORD_START _ _ _ | .RECORD_STOP => .isFalse id
  | .top => inferInstanceAs (Decidable (_ → _ ∧ (_ → _)))
  | .write | .relock | .wake | .fill _ _ | .commit | .RETUNE _ | .send _ => .isTrue trivial

/-- The request is handled outside the batches, and asks for no frame that has
left the ring. -/
def Takes (s : Sdr D) (startframe : Int) : Prop :=
  ¬ s.pc.InBatch ∧ (startframe = -1 ∨ s.oldest = 0 ∨ s.oldest ≤ startframe)

/-! ## Where the next frame to record is kept -/

/-- Frame `next` is the next one to record; it is in the ring unless the
recording is over. -/
def AtFrame (s : Sdr D) (path : Option RecPath) (stop : Int) (next : Nat) : Prop :=
  match s.pc with
  | .write i cptr stored => stored = path ∧ cptr = next ∧ s.oldest ≤ next ∧ cptr ≤ s.sdr_cptr ∧
      cptr ≤ stop ∧ i < WRITE_FRAMES_SYNC ∧ (i = 0 → cptr = stop → s.sdr_cptr = cptr)
  | .relock cptr => cptr = next ∧ s.oldest < next
  | _ => s.record.rec_cptr = next ∧ (s.oldest ≤ next ∨ stop < next)

/-- The run since the request, with `count` frames recorded in `done` turns. -/
structure Progress (old : List (Block D)) (path : Option RecPath) (stop : Int)
    (first count done : Nat) (s : Sdr D) : Prop where
  ringed : s.Ringed
  stop_eq : s.record.rec_stop = stop
  path_eq : s.record.recpath = path
  disk : s.disk = old ++ frameBlocks path s.frames first count
  bound : count = 0 ∨ first + count ≤ s.frames.length ∧ (first + count : Int) ≤ stop + 1
  next : AtFrame s path stop (first + count)
  turned : done ≤ count ∨ stop < first + count ∨
    done ≤ count + 1 ∧ ∃ cptr stored, s.pc = .write 0 cptr stored

theorem frameBlocks_append (path : Option RecPath) (frames : List (SdrPacket D))
    (packet : SdrPacket D) {first count : Nat}
    (bound : count = 0 ∨ first + count ≤ frames.length) :
    frameBlocks path (frames ++ [packet]) first count =
      frameBlocks path frames first count := by
  refine List.map_congr_left fun i mem => ?_
  have inside := List.mem_range.mp mem
  rw [List.getElem?_append_left (by omega)]

theorem frameBlocks_succ (path : Option RecPath) (frames : List (SdrPacket D))
    (first count : Nat) : frameBlocks path frames first (count + 1) =
      frameBlocks path frames first count ++ [Block.of path frames[first + count]?] := by
  rw [frameBlocks, List.range_succ, List.map_append]
  rfl

theorem atFrame_iff {s : Sdr D} {path : Option RecPath} {stop : Int} {next : Nat}
    (outside : ¬ s.pc.InBatch) : AtFrame s path stop next ↔
      s.record.rec_cptr = next ∧ (s.oldest ≤ next ∨ stop < next) := by
  unfold AtFrame
  cases pc : s.pc with
  | write | relock => exact absurd (by rw [pc]; trivial) outside
  | top | overflow | fill | commit => exact Iff.rfl

/-- The handler's clamps agree with the requested first frame. -/
theorem startCursor_eq {s : Sdr D} (ringed : s.Ringed) {startframe : Int}
    (takes : Takes s startframe) :
    RecControl.startCursor startframe s.sdr_cptr = firstFrame s startframe := by
  obtain ⟨_, present⟩ := takes
  have count := ringed.count
  have size := BUFSIZE_eq
  have refilling := s.pc.refilling_range
  have uncounted := s.pc.uncounted_range
  have low : s.oldest = (s.frames.length + s.pc.refilling - BUFSIZE).toNat := rfl
  simp only [RecControl.startCursor, firstFrame]
  by_cases current : startframe = -1
  · simp only [current, if_pos]
    split <;> split <;> omega
  · simp only [current, if_false]
    split <;> split <;> omega

theorem oldest_le_firstFrame {s : Sdr D} (ringed : s.Ringed) (startframe : Int) :
    s.oldest ≤ firstFrame s startframe := by
  have count := ringed.count
  have size := BUFSIZE_eq
  have refilling := s.pc.refilling_range
  have uncounted := s.pc.uncounted_range
  have low : s.oldest = (s.frames.length + s.pc.refilling - BUFSIZE).toNat := rfl
  unfold firstFrame
  split <;> omega

namespace Progress

variable {s t : Sdr D} {old : List (Block D)} {path : Option RecPath} {stop : Int}
  {first count done : Nat}

theorem start (ringed : s.Ringed) {startframe : Int} (takes : Takes s startframe)
    (stopframe now : Int) :
    Progress s.disk (some ⟨now, s.samplerate⟩) stopframe (firstFrame s startframe) 0 0
      (s.RECORD_START startframe stopframe now) where
  ringed := ringed.step (.RECORD_START startframe stopframe now)
  stop_eq := rfl
  path_eq := rfl
  disk := (List.append_nil _).symm
  bound := Or.inl rfl
  next := (atFrame_iff (s := s.RECORD_START startframe stopframe now) takes.1).mpr
    ⟨startCursor_eq ringed takes, Or.inl (oldest_le_firstFrame ringed startframe)⟩
  turned := Or.inl (Nat.le_refl 0)

/-- Outside the batches the progress is about the globals alone. -/
theorem outside (progress : Progress old path stop first count done s)
    (pc : ¬ s.pc.InBatch) : s.record.rec_cptr = (first + count : Nat) ∧
      (s.oldest ≤ first + count ∨ stop < (first + count : Nat)) ∧
      (done ≤ count ∨ stop < first + count) := by
  obtain ⟨cursor, inRing⟩ := (atFrame_iff pc).mp progress.next
  refine ⟨cursor, inRing, ?_⟩
  rcases progress.turned with enough | ended | ⟨_, cptr, stored, writing⟩
  · exact Or.inl enough
  · exact Or.inr ended
  · exact absurd (by rw [writing]; trivial) pc

/-- Steps between the batches that record nothing. -/
theorem idle (progress : Progress old path stop first count done s) (ringed : t.Ringed)
    (before : ¬ s.pc.InBatch) (after : ¬ t.pc.InBatch) (record : t.record = s.record)
    (disk : t.disk = s.disk) (frames : t.frames = s.frames) (oldest : t.oldest = s.oldest) :
    Progress old path stop first count done t := by
  obtain ⟨cursor, inRing, turned⟩ := progress.outside before
  refine ⟨ringed, ?_, ?_, ?_, ?_, ?_, ?_⟩
  · rw [record, progress.stop_eq]
  · rw [record, progress.path_eq]
  · rw [disk, frames, progress.disk]
  · rw [frames]
    exact progress.bound
  · rw [atFrame_iff after, record, oldest]
    exact ⟨cursor, inRing⟩
  · exact turned.imp_right Or.inl

/-- Claiming the next slot costs at most the frame before the next one. -/
theorem claimSlot (ringed : s.Ringed) (idle : s.pc.refilling = 0 ∧ s.pc.uncounted = 0)
    (stop_eq : s.record.rec_stop = stop) (path_eq : s.record.recpath = path)
    (disk : s.disk = old ++ frameBlocks path s.frames first count)
    (bound : count = 0 ∨ first + count ≤ s.frames.length ∧ (first + count : Int) ≤ stop + 1)
    (cursor : s.record.rec_cptr = (first + count : Nat))
    (inRing : s.oldest < first + count ∨ stop < (first + count : Nat))
    (turned : done ≤ count ∨ stop < first + count) :
    Progress old path stop first count done s.claimSlot := by
  have low : s.oldest = (s.frames.length + s.pc.refilling - BUFSIZE).toNat := rfl
  refine ⟨ringed.claimSlot idle.2 idle.1, ?_, ?_, ?_, ?_, ?_, turned.imp_right Or.inl⟩
  · rw [Sdr.claimSlot_record, stop_eq]
  · rw [Sdr.claimSlot_record, path_eq]
  · rw [Sdr.claimSlot_disk, Sdr.claimSlot_frames, disk]
  · rw [Sdr.claimSlot_frames]
    exact bound
  · rw [atFrame_iff s.claimSlot_not_inBatch, Sdr.claimSlot_record]
    refine ⟨cursor, ?_⟩
    rw [Sdr.oldest, Sdr.claimSlot_frames]
    have range := s.claimSlot.pc.refilling_range
    omega

/-- A turn starts: a batch at the next frame, or nothing left to record. -/
theorem top (progress : Progress old path stop first count done s) (pc : s.pc = .top)
    (punctual : Punctual s (.top : Act D)) :
    Progress old path stop first count (done + 1) s.top := by
  have idle : s.pc.refilling = 0 ∧ s.pc.uncounted = 0 := by
    rw [pc]
    exact ⟨rfl, rfl⟩
  obtain ⟨cursor, inRing, turned⟩ := progress.outside (by rw [pc]; exact id)
  have stop_eq := progress.stop_eq
  by_cases active : s.record.Active
  · obtain ⟨read, last⟩ := punctual active
    have ringed := progress.ringed.step (.top pc)
    have toBatch : s.top =
        { s with
          pc := .write 0 s.record.rec_cptr s.record.recpath
          command := .running
          batches := s.batches ++ [(s.command, s.record.rec_cptr)] } := by
      rw [Sdr.top, if_pos active]
    obtain ⟨_, upTo⟩ := active
    rw [toBatch] at ringed ⊢
    refine ⟨ringed, stop_eq, progress.path_eq, progress.disk, progress.bound, ?_, ?_⟩
    · have low : s.oldest = (s.frames.length + 0 - BUFSIZE).toNat := by
        rw [Sdr.oldest, idle.1]
      refine ⟨progress.path_eq, cursor, ?_, read, by omega, by decide,
        fun _ final => last (by omega)⟩
      simp only [Sdr.oldest, Pc.refilling]
      omega
    · refine Or.inr (Or.inr ⟨?_, _, _, rfl⟩)
      omega
  · have ended : stop < (first + count : Nat) := by
      have sentinel : s.record.rec_cptr ≠ INT32_MIN := by
        rw [cursor]
        simp only [INT32_MIN]
        omega
      have beyond : ¬ s.record.rec_cptr ≤ s.record.rec_stop := fun upTo => active ⟨sentinel, upTo⟩
      omega
    rw [Sdr.top, if_neg active]
    exact claimSlot progress.ringed idle stop_eq progress.path_eq progress.disk progress.bound
      cursor (Or.inr ended) (Or.inr (by omega))

/-- One turn of the writing loop records the next frame. -/
theorem write (progress : Progress old path stop first count done s) {i : Nat} {cptr : Int}
    {stored : Option RecPath} (pc : s.pc = .write i cptr stored) :
    Progress old path stop first (count + 1) done (s.write i cptr stored) := by
  have next := progress.next
  simp only [AtFrame, pc] at next
  obtain ⟨rfl, rfl, inRing, read, upTo, turn, final⟩ := next
  have batch : WRITE_FRAMES_SYNC = 2 := rfl
  have total := progress.ringed.count
  have uncounted : s.pc.uncounted = 0 := by
    rw [pc]
    rfl
  have held := progress.ringed.held (first + count) inRing (by omega)
  rw [Int.zero_add] at held
  refine ⟨progress.ringed.step (.write pc), progress.stop_eq, progress.path_eq, ?_, ?_, ?_, ?_⟩
  · simp only [Sdr.write]
    rw [held, progress.disk, frameBlocks_succ, List.append_assoc]
  · refine Or.inr ⟨?_, by omega⟩
    simp only [Sdr.write]
    omega
  · have same : s.oldest = (s.frames.length + 0 - BUFSIZE).toNat := by
      rw [Sdr.oldest, pc]
      rfl
    by_cases final : (first + count : Nat) + 1 > s.sdr_cptr ∨ i + 1 = WRITE_FRAMES_SYNC
    · have exit : (s.write i (first + count : Nat) stored).pc =
          .relock ((first + count : Nat) + 1) := if_pos final
      simp only [AtFrame, exit, Sdr.oldest, Pc.refilling]
      simp only [Sdr.write]
      omega
    · have again : (s.write i (first + count : Nat) stored).pc =
          .write (i + 1) ((first + count : Nat) + 1) stored := if_neg final
      simp only [AtFrame, again, Sdr.oldest, Pc.refilling]
      simp only [Sdr.write]
      refine ⟨trivial, ?_⟩
      omega
  · have turned := progress.turned
    omega

/-- The batch ends: its cursor is the next frame, also for the globals. -/
theorem relock (progress : Progress old path stop first count done s) {cptr : Int}
    (pc : s.pc = .relock cptr) :
    Progress old path stop first count done (s.relock cptr) := by
  have next := progress.next
  simp only [AtFrame, pc] at next
  obtain ⟨rfl, inRing⟩ := next
  have same : s.pc.refilling = 0 ∧ s.pc.uncounted = 0 := by
    rw [pc]
    exact ⟨rfl, rfl⟩
  have ringed : Sdr.Ringed { s with
      record := { s.record with rec_cptr := (first + count : Nat) } } :=
    progress.ringed.frame rfl rfl rfl rfl rfl fun _ filling => filling
  refine claimSlot ringed same progress.stop_eq progress.path_eq progress.disk progress.bound rfl
    (Or.inl inRing) ?_
  rcases progress.turned with enough | ended | ⟨_, _, _, writing⟩
  · exact Or.inl enough
  · exact Or.inr ended
  · rw [pc] at writing
    cases writing

/-- A new frame leaves the recorded ones as they are. -/
theorem fill (progress : Progress old path stop first count done s) {base : Int}
    (pc : s.pc = .fill base) (data : D) (timestamp : Int) :
    Progress old path stop first count done (s.fill base data timestamp) := by
  obtain ⟨cursor, inRing, turned⟩ := progress.outside (by rw [pc]; exact id)
  have read : count = 0 ∨ first + count ≤ s.frames.length := progress.bound.imp_right And.left
  refine ⟨progress.ringed.step (.fill data timestamp pc), progress.stop_eq, progress.path_eq,
    ?_, ?_, ⟨cursor, ?_⟩, turned.imp_right Or.inl⟩
  · simp only [Sdr.fill]
    rw [frameBlocks_append path s.frames _ read, progress.disk]
  · refine progress.bound.imp_right fun both => ⟨?_, both.2⟩
    have inside := both.1
    simp only [Sdr.fill, List.length_append]
    omega
  · have low : s.oldest = (s.frames.length + 1 - BUFSIZE).toNat := by
      rw [Sdr.oldest, pc]
      rfl
    simp only [Sdr.oldest, Sdr.fill, Pc.refilling, List.length_append, List.length_singleton]
    omega

theorem step (progress : Progress old path stop first count done s) {act : Act D}
    (punctual : Punctual s act) (step : Sdr.Step s act t) :
    ∃ later, Progress old path stop first later (done + turns [act]) t := by
  have ringed := progress.ringed.step step
  cases step with
  | top pc => exact ⟨count, progress.top pc punctual⟩
  | write pc => exact ⟨count + 1, progress.write pc⟩
  | relock pc => exact ⟨count, progress.relock pc⟩
  | fill data timestamp pc => exact ⟨count, progress.fill pc data timestamp⟩
  | wake pc =>
      refine ⟨count, progress.idle ringed ?_ id rfl rfl rfl ?_⟩
      · rw [pc]
        exact id
      · rw [Sdr.oldest, Sdr.oldest, pc]
        rfl
  | commit pc =>
      refine ⟨count, progress.idle ringed ?_ id rfl rfl rfl ?_⟩
      · rw [pc]
        exact id
      · rw [Sdr.oldest, Sdr.oldest, pc]
        rfl
  | RECORD_START | RECORD_STOP => exact punctual.elim
  | RETUNE | send =>
      exact ⟨count, ringed, progress.stop_eq, progress.path_eq, progress.disk, progress.bound,
        progress.next, progress.turned⟩

theorem run {acts : List (Act D)} (progress : Progress old path stop first count done s)
    (run : (sdr_read_thr D).Run Punctual s acts t) :
    ∃ later, Progress old path stop first later (done + turns acts) t := by
  induction run generalizing count done with
  | nil => exact ⟨count, progress⟩
  | @cons _ _ _ act rest punctual step _ ih =>
      obtain ⟨middle, next⟩ := progress.step punctual (.of_step? step)
      obtain ⟨later, final⟩ := ih next
      have total : done + turns [act] + turns rest = done + turns (act :: rest) := by
        simp only [turns, List.countP_cons, List.countP_nil]
        omega
      exact ⟨later, total ▸ final⟩

end Progress

/-- A request that the handler takes as asked records exactly the frames it
names in every punctual run, and every turn of the loop but the running one
records another of them until the stop frame is on disk. -/
theorem records_requested {s r t : Sdr D} {startframe stopframe now : Int}
    {acts : List (Act D)} (reach : (sdr_read_thr D).Reachable Machine.Any s)
    (takes : Takes s startframe)
    (handled : (sdr_read_thr D).step? s (.RECORD_START startframe stopframe now) = some r)
    (run : (sdr_read_thr D).Run Punctual r acts t) :
    ∃ count, Recorded s t startframe stopframe now count ∧
      (turns acts ≤ count + 1 ∨ stopframe < firstFrame s startframe + count) := by
  obtain rfl := Option.some.inj handled
  have started := Progress.start (Sdr.ringed_of_reachable reach) takes stopframe now
  obtain ⟨count, progress⟩ := started.run run
  refine ⟨count, ⟨progress.disk, progress.bound⟩, ?_⟩
  have turned := progress.turned
  omega

/-- The current frame is recorded, and nothing after it. -/
theorem records_requested_current :
    ∃ s t : Sdr Nat, (sdr_read_thr Nat).Reachable Machine.Any s ∧
      t.disk = [⟨some ⟨1, 0⟩, some 7, some 3, some 0⟩] ∧
      ∃ count, Recorded s t (-1) 0 1 count ∧
        (2 ≤ count + 1 ∨ (0 : Int) < firstFrame s (-1) + count) := by
  obtain ⟨s, before, takes⟩ : ∃ s : Sdr Nat, (sdr_read_thr Nat).run? (Sdr.start 0 0)
      [.top, .fill 7 3, .commit] = some s ∧ Takes s (-1) := ⟨_, rfl, id, Or.inl rfl⟩
  have reach : (sdr_read_thr Nat).Reachable Machine.Any s := ⟨_, _, ⟨0, 0, rfl⟩, .of_run? before⟩
  obtain ⟨t, after, disk⟩ : ∃ t, (sdr_read_thr Nat).runIf? Punctual (s.RECORD_START (-1) 0 1)
      [.top, .write, .relock, .fill 8 4, .commit, .top] = some t ∧
        t.disk = [⟨some ⟨1, 0⟩, some 7, some 3, some 0⟩] := by
    obtain rfl := Option.some.inj before
    exact ⟨_, rfl, rfl⟩
  exact ⟨s, t, reach, disk, records_requested reach takes rfl (.of_runIf? after)⟩

/-- With two frames read, a request for the first one alone records both: a
batch does not stop at the stop frame. -/
theorem not_recorded_beyond_stop :
    ¬ ∀ (s r t : Sdr Nat) (startframe stopframe now : Int) (acts : List (Act Nat)),
      (sdr_read_thr Nat).Reachable Machine.Any s →
      (sdr_read_thr Nat).step? s (.RECORD_START startframe stopframe now) = some r →
      (sdr_read_thr Nat).Run NoRecord r acts t →
      ∃ count, Recorded s t startframe stopframe now count := by
  intro recorded
  obtain ⟨s, before, first, old⟩ : ∃ s : Sdr Nat, (sdr_read_thr Nat).run? (Sdr.start 0 0)
      [.top, .fill 7 3, .commit, .top, .fill 8 4, .commit] = some s ∧
        firstFrame s 0 = 0 ∧ s.disk = [] := ⟨_, rfl, rfl, rfl⟩
  have reach : (sdr_read_thr Nat).Reachable Machine.Any s := ⟨_, _, ⟨0, 0, rfl⟩, .of_run? before⟩
  obtain ⟨t, after, two⟩ : ∃ t, (sdr_read_thr Nat).runIf? NoRecord (s.RECORD_START 0 0 5)
      [.top, .write, .write] = some t ∧ t.disk.length = 2 := by
    obtain rfl := Option.some.inj before
    exact ⟨_, rfl, rfl⟩
  obtain ⟨count, disk, bound⟩ := recorded s _ t 0 0 5 _ reach rfl (.of_runIf? after)
  have length : t.disk.length = count := by
    rw [disk, old, List.nil_append, frameBlocks, List.length_map, List.length_range]
  omega

end Kukuruku.Server.Recording
