import Kukuruku.Clients.Payload
import Kukuruku.Foundation.Machine

/-!
# The squelch of a channel

`process_payload` keeps the last frame that came in while the squelch was closed,
and puts it on the channel's queue before the first frame that finds it open.
`set_squelch` and `set_afc` switch between any two frames.  The frames are those
of one xlater with a living thread.  Numbers of frames are history, and so is
`received`.
-/

namespace Kukuruku.Clients.Squelch

open Kukuruku.Server.Endian (signed)
open Kukuruku.Clients.Payload (ChannelData Outcome process_payload)

/-- How a frame finds the squelch. -/
inductive Status where
  | off
  | opened
  | closed
deriving DecidableEq

/-- The truth value of what is saved, in the condition of an `if`: an array of more
than one sample has none. -/
def truth : ChannelData → Option Bool
  | .raw bytes => some (decide (bytes ≠ []))
  | .scaled [] => some false
  | .scaled [value] => some (decide (value ≠ 0))
  | .scaled (_ :: _ :: _) => none

/-- One entry of `xlaters`; `raised` is set when an exception has ended the thread
that receives, with the lock held. -/
structure Channel where
  sql : Bool
  afc : Bool
  sqlsave : Option (Nat × ChannelData)
  data : List (Nat × ChannelData)
  raised : Bool
  received : List (Status × ChannelData)
deriving DecidableEq

/-- `ret` is what the squelch callback would return for the frame. -/
inductive Act where
  | set_squelch (val : Bool)
  | set_afc (val : Bool)
  | payload (d : List UInt8) (ret : Bool)
deriving DecidableEq

/-- The client's settings: whether it has a squelch callback, and `afcdecim`. -/
structure Settings where
  sql_callback : Bool
  afcdecim : ℚ

namespace Channel

def new : Channel := ⟨false, false, none, [], false, []⟩

/-- The frame number in a payload. -/
def frameno (d : List UInt8) : Int := signed ((d.drop 8).take 4)

/-- The frame is one of those that the frequency control looks at.  The slice
`acc[:fftlen/2]` of its evaluation is no slice of integers, and the remainder by zero
no number, so that each of these is an exception. -/
def AfcDue (settings : Settings) (channel : Channel) (frameno : Int) : Prop :=
  channel.afc = true ∧ ((frameno : ℚ) / settings.afcdecim).den = 1

instance (settings : Settings) (channel : Channel) (frameno : Int) :
    Decidable (channel.AfcDue settings frameno) := inferInstanceAs (Decidable (_ ∧ _))

/-- How the next frame finds the squelch. -/
def status (settings : Settings) (channel : Channel) (ret : Bool) : Status :=
  if channel.sql && settings.sql_callback then if ret then .opened else .closed else .off

/-- Note a frame. -/
def receive (channel : Channel) (status : Status) (datacut : ChannelData) : Channel :=
  { channel with received := channel.received ++ [(status, datacut)] }

/-- Put a frame on the queue. -/
def put (channel : Channel) (entry : Nat × ChannelData) : Channel :=
  { channel with data := channel.data ++ [entry] }

/-- Open: first the saved frame, then this one. -/
def replay (channel : Channel) (datacut : ChannelData) : Channel :=
  let entry := (channel.received.length, datacut)
  match channel.sqlsave with
  | none => channel.put entry
  | some (k, saved) =>
      match truth saved with
      | none => { channel with raised := true }
      | some true => { (channel.put (k, saved)).put entry with sqlsave := none }
      | some false => channel.put entry

/-- The frame against the squelch. -/
def squelch (settings : Settings) (channel : Channel) (datacut : ChannelData) (ret : Bool) :
    Channel :=
  match channel.status settings ret with
  | .off => (channel.put (channel.received.length, datacut)).receive .off datacut
  | .opened => (channel.replay datacut).receive .opened datacut
  | .closed =>
      { channel with sqlsave := some (channel.received.length, datacut) }.receive .closed datacut

def step? (settings : Settings) (channel : Channel) : Act → Option Channel
  | .set_squelch val => some { channel with sql := val }
  | .set_afc val => some { channel with afc := val }
  | .payload d ret =>
      if channel.raised then none
      else
        match process_payload (fun _ => true) d with
        | none => some { channel with raised := true }
        | some (.channel _ _ datacut) =>
            let next := channel.squelch settings datacut ret
            some (if channel.AfcDue settings (frameno d) then { next with raised := true }
              else next)
        | some _ => none

end Channel

def channel (settings : Settings) : Machine Channel Act where
  Initial s := s = .new
  step? := Channel.step? settings

/-! ## The queue as it should be -/

/-- The frames that belong on the queue, in the order of their arrival: all but
those that were received with the squelch closed and are not followed by one that
finds it open. -/
def expected (k : Nat) : List (Status × ChannelData) → List (Nat × ChannelData)
  | [] => []
  | (status, datacut) :: rest =>
      if status ≠ .closed ∨ (rest.head?.map Prod.fst) = some .opened then
        (k, datacut) :: expected (k + 1) rest
      else expected (k + 1) rest

/-- No exception, and the queue has got what belongs on it, in order and each frame
once: all frames that were received off or open, and of the others those right
before one that was received open. -/
structure Replays (s : Channel) : Prop where
  quiet : s.raised = false
  ordered : s.data.Pairwise fun earlier later => earlier.1 < later.1
  belongs : ∀ n datacut, (n, datacut) ∈ s.data ↔
    ∃ status, s.received[n]? = some (status, datacut) ∧
      (status ≠ .closed ∨ s.received[n + 1]?.map Prod.fst = some .opened)

/-- The samples in a payload, if it is a channel's. -/
def datacut? (d : List UInt8) : Option ChannelData :=
  match process_payload (fun _ => true) d with
  | some (.channel _ _ datacut) => some datacut
  | _ => none

/-- The frame is a channel's; the frequency control does not look at it; and if it
finds the squelch open while a frame is saved, that frame is the one just before it
and counts as true, or is an older one and counts as false. -/
def Fit (settings : Settings) (s : Channel) : Act → Prop
  | .payload d ret =>
      (datacut? d).isSome ∧ ¬ s.AfcDue settings (Channel.frameno d) ∧
      (s.status settings ret = .opened → ∀ saved ∈ s.sqlsave,
        truth saved.2 = some (decide (saved.1 + 1 = s.received.length)))
  | _ => True

instance (settings : Settings) (s : Channel) (act : Act) : Decidable (Fit settings s act) := by
  cases act <;> unfold Fit <;> infer_instance

theorem decoded_of_datacut? {d : List UInt8} (found : (datacut? d).isSome) :
    ∃ wid stype datacut, process_payload (fun _ => true) d = some (.channel wid stype datacut) := by
  unfold datacut? at found
  split at found
  · rename_i wid stype datacut decoded
    exact ⟨wid, stype, datacut, decoded⟩
  · cases found

section Expected

variable (k : Nat) (received : List (Status × ChannelData)) (datacut : ChannelData)

/-- The frame and its successor decide. -/
theorem expected_cons (status : Status) (rest : List (Status × ChannelData)) :
    expected k ((status, datacut) :: rest) =
      (if status ≠ .closed ∨ (rest.head?.map Prod.fst) = some .opened then [(k, datacut)]
        else []) ++ expected (k + 1) rest := by
  rw [expected]
  split <;> rfl

end Expected

theorem le_of_mem_expected {k : Nat} {received : List (Status × ChannelData)}
    {entry : Nat × ChannelData} (member : entry ∈ expected k received) : k ≤ entry.1 := by
  induction received generalizing k with
  | nil => exact absurd member List.not_mem_nil
  | cons first rest ih =>
      rw [expected_cons] at member
      rcases List.mem_append.mp member with here | later
      · split at here
        · rw [List.mem_singleton.mp here]
        · cases here
      · exact Nat.le_of_succ_le (ih later)

/-- A frame is on the queue if it was received off or open, or if the next one was
received open. -/
theorem mem_expected {k n : Nat} {datacut : ChannelData}
    {received : List (Status × ChannelData)} :
    (k + n, datacut) ∈ expected k received ↔
      ∃ status, received[n]? = some (status, datacut) ∧
        (status ≠ .closed ∨ received[n + 1]?.map Prod.fst = some .opened) := by
  induction received generalizing k n with
  | nil => simp [expected]
  | cons first rest ih =>
      obtain ⟨status, cut⟩ := first
      rw [expected_cons, List.mem_append]
      cases n with
      | zero =>
          constructor
          · rintro (here | later)
            · split at here
              · rename_i kept
                obtain rfl := congrArg Prod.snd (List.mem_singleton.mp here)
                exact ⟨status, rfl, by rwa [List.head?_eq_getElem?] at kept⟩
              · cases here
            · exact absurd (le_of_mem_expected later) (Nat.not_succ_le_self k)
          · rintro ⟨_, ⟨⟩, kept⟩
            rw [List.getElem?_cons_succ, ← List.head?_eq_getElem?] at kept
            rw [if_pos kept]
            exact Or.inl (List.mem_singleton_self _)
      | succ n =>
          have place : k + (n + 1) = k + 1 + n := by omega
          rw [place, ih]
          refine or_iff_right fun here => ?_
          split at here
          · have same := congrArg Prod.fst (List.mem_singleton.mp here)
            dsimp only at same
            omega
          · cases here

/-- The frames are on the queue in the order of their arrival, each once. -/
theorem expected_ordered (k : Nat) (received : List (Status × ChannelData)) :
    (expected k received).Pairwise fun earlier later => earlier.1 < later.1 := by
  induction received generalizing k with
  | nil => exact .nil
  | cons first rest ih =>
      rw [expected_cons]
      split
      · exact .cons (fun entry member => le_of_mem_expected member) (ih (k + 1))
      · exact ih (k + 1)

section Expected

variable (k : Nat) (received : List (Status × ChannelData)) (datacut : ChannelData)

/-- What a frame adds, unless it opens the squelch after a closed one. -/
theorem expected_concat (status : Status)
    (other : status = .opened → ∀ before saved, received ≠ before ++ [(.closed, saved)]) :
    expected k (received ++ [(status, datacut)]) =
      expected k received ++
        if status = .closed then [] else [(k + received.length, datacut)] := by
  induction received generalizing k with
  | nil => cases status <;> simp [expected]
  | cons first rest ih =>
      obtain ⟨before, saved⟩ := first
      have later : status = .opened → ∀ before saved, rest ≠ before ++ [(.closed, saved)] :=
        fun opens before saved same => other opens (_ :: before) saved (congrArg _ same)
      have successor : before ≠ .closed ∨
            ((rest ++ [(status, datacut)]).head?.map Prod.fst) = some .opened ↔
          before ≠ .closed ∨ (rest.head?.map Prod.fst) = some .opened := by
        cases rest with
        | cons next rest => rfl
        | nil =>
            have apart : status = .opened → before ≠ .closed := fun opens closed =>
              other opens [] saved (by rw [closed]; rfl)
            simp only [List.nil_append, List.head?_cons, Option.map_some, Option.some.injEq,
              List.head?_nil, Option.map_none, reduceCtorEq, or_false]
            exact ⟨fun either => either.elim id apart, Or.inl⟩
      rw [List.cons_append, expected_cons, expected_cons, ih (k + 1) later, List.append_assoc]
      simp only [successor, List.length_cons]
      rw [Nat.add_assoc, Nat.add_comm 1]

/-- What the frame that opens the squelch adds, with the closed one before it. -/
theorem expected_replay (saved : ChannelData) :
    expected k (received ++ [(.closed, saved)] ++ [(.opened, datacut)]) =
      expected k (received ++ [(.closed, saved)]) ++
        [(k + received.length, saved), (k + received.length + 1, datacut)] := by
  induction received generalizing k with
  | nil => simp [expected]
  | cons first rest ih =>
      obtain ⟨status, before⟩ := first
      have successor : ((rest ++ [(Status.closed, saved)] ++
            [(Status.opened, datacut)]).head?.map Prod.fst) =
          ((rest ++ [(Status.closed, saved)]).head?.map Prod.fst) := by
        cases rest <;> rfl
      have longer : (status, before) :: rest ++ [(.closed, saved)] ++ [(.opened, datacut)] =
        (status, before) :: (rest ++ [(.closed, saved)] ++ [(.opened, datacut)]) := rfl
      have shorter : (status, before) :: rest ++ [(.closed, saved)] =
        (status, before) :: (rest ++ [(.closed, saved)]) := rfl
      rw [longer, shorter, expected_cons, expected_cons, successor, ih (k + 1), List.append_assoc,
        List.length_cons, Nat.add_assoc k 1, Nat.add_comm 1]

end Expected

/-! ## The invariant -/

/-- While the last frame was received closed, and only then, what is saved is that
frame; what is saved otherwise is older. -/
structure Inv (s : Channel) : Prop where
  quiet : s.raised = false
  queue : s.data = expected 0 s.received
  saved : ∀ before datacut, s.received = before ++ [(.closed, datacut)] →
    s.sqlsave = some (before.length, datacut)
  latest : ∀ saved ∈ s.sqlsave, saved.1 + 1 = s.received.length →
    ∃ before, s.received = before ++ [(.closed, saved.2)]
  older : ∀ saved ∈ s.sqlsave, saved.1 < s.received.length

namespace Inv

variable {s : Channel}

theorem new : Inv .new where
  quiet := rfl
  queue := rfl
  saved := by
    intro before datacut last
    exact absurd last (by simp [Channel.new])
  latest := by
    rintro saved ⟨⟩
  older := by
    rintro saved ⟨⟩

/-- The last of the frames. -/
theorem last_eq {received before : List (Status × ChannelData)} {first last : Status × ChannelData}
    (same : received ++ [first] = before ++ [last]) : received = before ∧ first = last := by
  obtain ⟨front, back⟩ := List.append_inj' same rfl
  exact ⟨front, List.singleton_inj.mp back⟩

/-- A frame that was not received closed is the last one: what is saved is older. -/
theorem passed (inv : Inv s) {t : Channel} {status : Status} {datacut : ChannelData}
    (passes : status ≠ .closed) (quiet : t.raised = false) (queue : t.data = expected 0 t.received)
    (received : t.received = s.received ++ [(status, datacut)])
    (sqlsave : t.sqlsave = s.sqlsave ∨ t.sqlsave = none) : Inv t := by
  have kept : ∀ saved ∈ t.sqlsave, saved ∈ s.sqlsave := by
    intro saved member
    rcases sqlsave with same | none
    · exact same ▸ member
    · rw [none] at member
      cases member
  have length : t.received.length = s.received.length + 1 := by
    rw [received, List.length_append, List.length_singleton]
  refine ⟨quiet, queue, fun before other last => ?_, fun saved member next => ?_,
    fun saved member => ?_⟩
  · rw [received] at last
    obtain ⟨-, same⟩ := last_eq last
    exact absurd (congrArg Prod.fst same) passes
  · have before := inv.older saved (kept saved member)
    omega
  · have before := inv.older saved (kept saved member)
    omega

/-- The squelch is off. -/
theorem off (inv : Inv s) (datacut : ChannelData) :
    Inv ((s.put (s.received.length, datacut)).receive .off datacut) := by
  refine inv.passed (by decide) inv.quiet ?_ rfl (Or.inl rfl)
  have adds := expected_concat 0 s.received datacut .off (by rintro ⟨⟩)
  rw [Nat.zero_add, if_neg (by decide), ← inv.queue] at adds
  exact adds.symm

/-- The squelch is closed. -/
theorem closed (inv : Inv s) (datacut : ChannelData) :
    Inv ({ s with sqlsave := some (s.received.length, datacut) }.receive .closed datacut) := by
  refine ⟨inv.quiet, ?_, fun before other last => ?_, ?_, ?_⟩
  · have adds := expected_concat 0 s.received datacut .closed (by rintro ⟨⟩)
    rw [if_pos rfl, List.append_nil, ← inv.queue] at adds
    exact adds.symm
  · obtain ⟨rfl, same⟩ := last_eq last
    obtain rfl := congrArg Prod.snd same
    rfl
  · rintro saved ⟨⟩ _
    exact ⟨s.received, rfl⟩
  · rintro saved ⟨⟩
    rw [Channel.receive, List.length_append]
    exact Nat.lt_succ_self _

/-- The squelch is open, and nothing is to be replayed. -/
theorem opened (inv : Inv s) (datacut : ChannelData)
    (other : ∀ before saved, s.received ≠ before ++ [(.closed, saved)]) :
    Inv ((s.put (s.received.length, datacut)).receive .opened datacut) := by
  refine inv.passed (by decide) inv.quiet ?_ rfl (Or.inl rfl)
  have adds := expected_concat 0 s.received datacut .opened fun _ => other
  rw [Nat.zero_add, if_neg (by decide), ← inv.queue] at adds
  exact adds.symm

/-- The squelch is open, and the frame before found it closed. -/
theorem replayed (inv : Inv s) (datacut : ChannelData) {before : List (Status × ChannelData)}
    {saved : ChannelData} (last : s.received = before ++ [(.closed, saved)]) :
    Inv ({ (s.put (before.length, saved)).put (s.received.length, datacut) with
      sqlsave := none }.receive .opened datacut) := by
  refine inv.passed (by decide) inv.quiet ?_ rfl (Or.inr rfl)
  have adds := expected_replay 0 before datacut saved
  rw [← last, ← inv.queue, Nat.zero_add] at adds
  have length : s.received.length = before.length + 1 := by
    rw [last, List.length_append, List.length_singleton]
  simp only [Channel.put, Channel.receive, length, adds, List.append_assoc]
  rfl

/-- A frame that is open to what is saved. -/
theorem replay (inv : Inv s) (datacut : ChannelData)
    (fit : ∀ saved ∈ s.sqlsave,
      truth saved.2 = some (decide (saved.1 + 1 = s.received.length))) :
    Inv ((s.replay datacut).receive .opened datacut) := by
  cases save : s.sqlsave with
  | none =>
      have other : ∀ before saved, s.received ≠ before ++ [(.closed, saved)] := by
        intro before saved last
        rw [inv.saved before saved last] at save
        cases save
      rw [Channel.replay, save]
      exact inv.opened datacut other
  | some entry =>
      obtain ⟨k, saved⟩ := entry
      have value := fit (k, saved) save
      by_cases next : k + 1 = s.received.length
      · obtain ⟨before, last⟩ := inv.latest (k, saved) save next
        have place : k = before.length := by
          rw [last, List.length_append, List.length_singleton] at next
          omega
        rw [decide_eq_true next] at value
        simp only [Channel.replay, save, value]
        rw [place]
        exact inv.replayed datacut last
      · have other : ∀ before saved, s.received ≠ before ++ [(.closed, saved)] := by
          intro before latest last
          have same := save.symm.trans (inv.saved before latest last)
          obtain rfl := congrArg Prod.fst (Option.some.inj same)
          rw [last, List.length_append, List.length_singleton] at next
          exact next rfl
        rw [decide_eq_false next] at value
        simp only [Channel.replay, save, value]
        exact inv.opened datacut other

/-- A switch changes nothing of this. -/
theorem switch (inv : Inv s) {t : Channel} (sqlsave : t.sqlsave = s.sqlsave)
    (data : t.data = s.data) (raised : t.raised = s.raised) (received : t.received = s.received) :
    Inv t := by
  obtain ⟨quiet, queue, saved, latest, older⟩ := inv
  refine ⟨?_, ?_, ?_, ?_, ?_⟩
  · rw [raised, quiet]
  · rw [data, received, queue]
  · rw [received, sqlsave]
    exact saved
  · rw [received, sqlsave]
    exact latest
  · rw [received, sqlsave]
    exact older

theorem step {settings : Settings} {t : Channel} {act : Act} (inv : Inv s)
    (fit : Fit settings s act) (step : s.step? settings act = some t) : Inv t := by
  cases act with
  | set_squelch | set_afc =>
      obtain rfl := Option.some.inj step
      exact inv.switch rfl rfl rfl rfl
  | payload d ret =>
      obtain ⟨found, early, open_fit⟩ := fit
      obtain ⟨wid, stype, datacut, decoded⟩ := decoded_of_datacut? found
      simp only [Channel.step?, decoded, inv.quiet, Bool.false_eq_true, if_false, if_neg early,
        Option.some.injEq] at step
      subst step
      unfold Channel.squelch
      split
      · exact inv.off datacut
      · rename_i opens
        exact inv.replay datacut (open_fit opens)
      · exact inv.closed datacut

end Inv

/-- In all runs of frames and switches that fit, no exception is raised and the queue
gets what belongs on it. -/
theorem replays_of_fit {settings : Settings} {s : Channel}
    (reach : (channel settings).Reachable (Fit settings) s) : Replays s := by
  have inv : Inv s := by
    refine reach.invariant ?_ ?_
    · rintro s rfl
      exact .new
    · intro s act t inv fit step
      exact inv.step fit step
  refine ⟨inv.quiet, ?_, fun n datacut => ?_⟩ <;> rw [inv.queue]
  · exact expected_ordered 0 s.received
  · rw [← mem_expected (k := 0), Nat.zero_add]

/-! ## Three frames -/

def settings : Settings := ⟨true, 5⟩

/-- A payload for worker 0 with frame number 1. -/
def frame (stype : UInt8) (body : List UInt8) : List UInt8 :=
  [0, 0, 0, 0, 0, 0, 0, 0, 1, 0, 0, 0, stype, 0, 0, 0] ++ body

/-- The squelch opens with the third frame; the second one is replayed. -/
theorem replays_second : ∃ s, (channel settings).Reachable (Fit settings) s ∧
    s.data = [(1, .raw [2]), (2, .raw [3])] ∧ Replays s := by
  have run : ((channel settings).runIf? (Fit settings) .new
      [.set_squelch true, .payload (frame 1 [1]) false, .payload (frame 1 [2]) false,
        .payload (frame 1 [3]) true]).any
      (fun s => decide (s.data = [(1, .raw [2]), (2, .raw [3])])) = true := by decide +kernel
  obtain ⟨s, reached, data⟩ := (Option.any_eq_true _ _).mp run
  have reach : (channel settings).Reachable (Fit settings) s := ⟨_, _, rfl, .of_runIf? reached⟩
  exact ⟨s, reach, of_decide_eq_true data, replays_of_fit reach⟩

/-- The first frame finds the squelch closed, the second one comes in while it is
switched off, and the third one replays the first; and the same in sixteen bits
raises an exception as soon as the squelch opens. -/
theorem not_replays_stale :
    (∃ s, (channel settings).Reachable Machine.Any s ∧
      s.data = [(1, .raw [2]), (0, .raw [1]), (2, .raw [3])] ∧ ¬ Replays s) ∧
    ∃ s, (channel settings).Reachable Machine.Any s ∧ s.raised = true ∧ ¬ Replays s := by
  constructor
  · have run : ((channel settings).run? .new
        [.set_squelch true, .payload (frame 1 [1]) false, .set_squelch false,
          .payload (frame 1 [2]) false, .set_squelch true, .payload (frame 1 [3]) true]).any
        (fun s => decide (s.data = [(1, .raw [2]), (0, .raw [1]), (2, .raw [3])])) = true := by
      decide +kernel
    obtain ⟨s, reached, data⟩ := (Option.any_eq_true _ _).mp run
    have data := of_decide_eq_true data
    refine ⟨s, ⟨_, _, rfl, .of_run? reached⟩, data, fun replays => ?_⟩
    have ordered := replays.ordered
    rw [data] at ordered
    exact absurd ordered (by decide)
  · have run : ((channel settings).run? .new
        [.set_squelch true, .payload (frame 2 [1, 0, 1, 0]) false,
          .payload (frame 2 [1, 0, 1, 0]) true]).any (fun s => s.raised) = true := by
      decide +kernel
    obtain ⟨s, reached, raised⟩ := (Option.any_eq_true _ _).mp run
    refine ⟨s, ⟨_, _, rfl, .of_run? reached⟩, raised, fun replays => ?_⟩
    rw [replays.quiet] at raised
    cases raised

end Kukuruku.Clients.Squelch
