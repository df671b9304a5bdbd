import Kukuruku.Clients.LibClient
import Kukuruku.Clients.Squelch

/-!
# The programs that channels are piped to

Every program has a queue and a thread, `feeder_thr`, that writes what is on the
queue to its standard input.  `create_xlater` and `subscribe_xlater` start programs,
`process_payload` puts frames on the queue of the program that an xlater has at the
time, and `srv_destroyed_xlater` puts the end on it.  Xlaters are objects; the two
dictionaries refer to them.  `put`, `fed` and `destroyed` are history.
-/

namespace Kukuruku.Clients.Programs

open Kukuruku.Server.Messages
open Kukuruku.Clients.LibClient (SampleFormat)
open Kukuruku.Clients.Payload (ChannelData Outcome)
open Kukuruku.Clients.Squelch (Channel Settings truth)

/-! ## Data -/

/-- A frame of a channel with its number. -/
abbrev Entry := Nat × ChannelData

/-- Where `feeder_thr` is: in its loop, past its `break`, or gone. -/
inductive Thread where
  | looping
  | leaving
  | ended
deriving DecidableEq

/-- A queue, its thread and its process; `none` on the queue is the end. -/
structure Program where
  que : List (Option Entry)
  thread : Thread
  stdin : List Entry
  closed : Bool
  put : List (Option Entry)
deriving DecidableEq

def Program.new : Program := ⟨[], .looping, [], false, []⟩

/-- `data` and `thread` of the source are those of one program. -/
structure Xlater where
  channel : Channel
  data : Option Nat
  fed : List Nat
  destroyed : Bool

def Xlater.new : Xlater := ⟨.new, none, [], false⟩

/-- The xlater objects, the programs and how many there are of them. -/
structure Store where
  objects : Nat → Xlater
  allocated : Nat
  programs : Nat → Program
  spawned : Nat

/-- `raised` is set when an exception has ended the thread that receives. -/
structure Client extends Store where
  lib : LibClient.Client
  xlaters : Int → Option Nat
  xlater_q : Int → Option Nat
  raised : Bool

inductive Act where
  | set_auto_enable_xlater (val : Bool) (st : SampleFormat)
  | create_xlater (rotate : Float32Bits) (decimation : Int) (taps : List Float32Bits)
      (history : Int)
  | modify_xlater (xid : Int) (rotate : Float32Bits) (taps : List Float32Bits)
  | subscribe_xlater (xid : Int)
  | set_squelch (xid : Int) (val : Bool)
  | set_afc (xid : Int) (val : Bool)
  | q_msg (msg : CliMsg)
  | running (msg : SRV_RUNNING_XLATER)
  | destroyed (id : Int)
  | payload (d : List UInt8) (ret : Bool)
  | feed (p : Nat) (written : Bool)
  | exit (p : Nat)

namespace Program

def puts (g : Program) (items : List (Option Entry)) : Program :=
  { g with que := g.que ++ items, put := g.put ++ items }

/-- A round of the loop of `feeder_thr`; a write to a process that has gone raises. -/
def feeder_thr (g : Program) (written : Bool) : Option Program :=
  match g.thread, g.que with
  | .looping, none :: que => some { g with que := que, thread := .leaving, closed := true }
  | .looping, some frame :: que =>
      if written then some { g with que := que, stdin := g.stdin ++ [frame] }
      else some { g with que := que, thread := .leaving }
  | _, _ => none

def exit (g : Program) : Option Program :=
  if g.thread = .leaving then some { g with thread := .ended } else none

end Program

namespace Store

variable (s : Store)

def init : Store := ⟨fun _ => .new, 0, fun _ => .new, 0⟩

def putXlater (i : Nat) (xl : Xlater) : Store :=
  { s with objects := Function.update s.objects i xl }

def putProgram (p : Nat) (g : Program) : Store :=
  { s with programs := Function.update s.programs p g }

def spawn_mode : Store := { s.putProgram s.spawned .new with spawned := s.spawned + 1 }

/-- `self.Xlater()`. -/
def alloc : Store := { s.putXlater s.allocated .new with allocated := s.allocated + 1 }

/-- Give an xlater a new program. -/
def attach (i : Nat) : Store :=
  s.spawn_mode.putXlater i
    { s.objects i with data := some s.spawned, fed := (s.objects i).fed ++ [s.spawned] }

/-- Push the end to the feeder thread. -/
def finish (i : Nat) : Store :=
  let store := s.putXlater i { s.objects i with destroyed := true }
  match (s.objects i).data with
  | none => store
  | some p => store.putProgram p ((s.programs p).puts [none])

end Store

namespace Client

variable (s : Client)

def init : Client where
  toStore := .init
  lib := .init
  xlaters := fun _ => none
  xlater_q := fun _ => none
  raised := false

/-! ## Steps -/

def create_xlater (rotate : Float32Bits) (decimation : Int) (taps : List Float32Bits)
    (history : Int) : Client :=
  { s with
    toStore := s.alloc.attach s.allocated
    lib := s.lib.create_xlater rotate decimation taps history
    xlater_q := Function.update s.xlater_q s.lib.xln (some s.allocated) }

/-- The program has been started when an unknown `xid` raises. -/
def subscribe_xlater (xid : Int) : Client :=
  match s.xlaters xid with
  | none => { s with toStore := s.spawn_mode }
  | some i => { s with toStore := s.attach i }

/-- `set_squelch` and `set_afc`; an unknown `xid` raises. -/
def setChannel (settings : Settings) (xid : Int) (act : Squelch.Act) : Option Client := do
  let i ← s.xlaters xid
  let channel ← (s.objects i).channel.step? settings act
  return { s with toStore := s.putXlater i { s.objects i with channel := channel } }

/-- The three cases are those of the library. -/
def srv_running_xlater (msg : SRV_RUNNING_XLATER) : Client :=
  match s.lib.srv_running_xlater msg with
  | none => { s with raised := true }
  | some lib =>
      match s.xlaters msg.id, s.xlater_q msg.remoteid with
      | some _, _ => { s with lib := lib }
      | none, some i =>
          { s with
            lib := lib
            xlaters := Function.update s.xlaters msg.id (some i)
            xlater_q := Function.update s.xlater_q msg.remoteid none }
      | none, none =>
          { s with
            toStore := s.alloc
            lib := lib
            xlaters := Function.update s.xlaters msg.id (some s.allocated) }

def srv_destroyed_xlater (id : Int) : Client :=
  { s with
    toStore := (s.xlaters id).elim s.toStore s.finish
    lib := s.lib.srv_destroyed_xlater id
    xlaters := Function.update s.xlaters id none }

/-- The object of an xlater and its program, if this has a thread that is alive. -/
def alive? (wid : Int) : Option (Nat × Nat) := do
  let i ← s.xlaters wid
  let p ← (s.objects i).data
  if (s.programs p).thread = .ended then none else some (i, p)

/-- What becomes of a channel's frame once the thread is found alive. -/
def receive (settings : Settings) (i p : Nat) (d : List UInt8) (ret : Bool) : Option Client :=
  ((s.objects i).channel.step? settings (.payload d ret)).map fun channel =>
    let puts := channel.data.drop (s.objects i).channel.data.length
    { s with
      toStore := (s.putXlater i { s.objects i with channel := channel }).putProgram p
        ((s.programs p).puts (puts.map some))
      raised := channel.raised }

/-- Frames for a thread that has ended are refused, and the server is asked to send
no more; an xlater without a program has no thread to ask. -/
def process_payload (settings : Settings) (d : List UInt8) (ret : Bool) : Option Client :=
  match Payload.process_payload (fun wid => (s.alive? wid).isSome) d with
  | none => some { s with raised := true }
  | some (.channel wid _ _) =>
      (s.alive? wid).bind fun place => s.receive settings place.1 place.2 d ret
  | some (.dropped wid) =>
      match s.xlaters wid with
      | none => some s
      | some i =>
          if (s.objects i).data = none then some { s with raised := true }
          else some { s with lib := s.lib.q_msg (.DISABLE_XLATER wid) }
  | some _ => some s

/-- A thread makes a step with its program. -/
def thread (p : Nat) (act : Program → Option Program) : Option Client :=
  if p < s.spawned then
    (act (s.programs p)).map fun g => { s with toStore := s.putProgram p g }
  else none

def step? (settings : Settings) : Act → Option Client
  | .set_auto_enable_xlater val st => some { s with lib := s.lib.set_auto_enable_xlater val st }
  | .create_xlater rotate decimation taps history =>
      some (s.create_xlater rotate decimation taps history)
  | .modify_xlater xid rotate taps =>
      (s.lib.modify_xlater xid rotate taps).map fun lib => { s with lib := lib }
  | .subscribe_xlater xid => some (s.subscribe_xlater xid)
  | .set_squelch xid val => s.setChannel settings xid (.set_squelch val)
  | .set_afc xid val => s.setChannel settings xid (.set_afc val)
  | .q_msg msg => some { s with lib := s.lib.q_msg msg }
  | .running msg => if s.raised then none else some (s.srv_running_xlater msg)
  | .destroyed id => if s.raised then none else some (s.srv_destroyed_xlater id)
  | .payload d ret => if s.raised then none else s.process_payload settings d ret
  | .feed p written => s.thread p fun g => g.feeder_thr written
  | .exit p => s.thread p Program.exit

end Client

def machine (settings : Settings) : Machine Client Act where
  Initial s := s = .init
  step? s act := s.step? settings act

/-! ## What holds of programs and xlaters -/

/-- All that an xlater has put on queues, with the end. -/
def Xlater.frames (xl : Xlater) : List (Option Entry) :=
  xl.channel.data.map some ++ if xl.destroyed ∧ xl.data.isSome then [none] else []

/-- What has been put for a program has been written, or is on the queue; past the
loop one item, which is the end or was lost, has been taken besides. -/
structure Program.Kept (g : Program) : Prop where
  looping : g.thread = .looping → g.closed = false ∧ g.put = g.stdin.map some ++ g.que
  closed : g.closed = true → g.put = g.stdin.map some ++ none :: g.que
  broken : g.thread ≠ .looping → g.closed = false →
    ∃ lost, g.put = g.stdin.map some ++ some lost :: g.que
  final : none ∈ g.put → ∃ frames : List Entry, g.put = frames.map some ++ [none]

structure Stored (settings : Settings) (s : Store) : Prop where
  programs : ∀ p, (s.programs p).Kept
  fresh : (∀ i, s.allocated ≤ i → s.objects i = .new) ∧ ∀ p, s.spawned ≤ p → s.programs p = .new
  owned : ∀ i, ∀ p ∈ (s.objects i).fed, p < s.spawned
  apart : ∀ i j, i ≠ j → ∀ p ∈ (s.objects i).fed, p ∉ (s.objects j).fed
  nodup : ∀ i, (s.objects i).fed.Nodup
  last : ∀ i, (s.objects i).data = (s.objects i).fed.getLast?
  frames : ∀ i, ((s.objects i).fed.flatMap fun p => (s.programs p).put) = (s.objects i).frames
  ended : ∀ i, ∀ p ∈ (s.objects i).fed, none ∈ (s.programs p).put →
    (s.objects i).destroyed = true ∧ (s.objects i).data = some p
  channel : ∀ i, (Squelch.channel settings).Reachable Machine.Any (s.objects i).channel

/-- The dictionaries refer to objects, to each of them in one place, and have the keys
that the library gives them. -/
structure Referred (s : Client) : Prop where
  xlaters : ∀ wid i, s.xlaters wid = some i →
    i < s.allocated ∧ (s.objects i).destroyed = false
  xlater_q : ∀ rid i, s.xlater_q rid = some i →
    i < s.allocated ∧ (s.objects i).destroyed = false
  once : ∀ wid wid' i, s.xlaters wid = some i → s.xlaters wid' = some i → wid = wid'
  pending : ∀ rid rid' i, s.xlater_q rid = some i → s.xlater_q rid' = some i → rid = rid'
  moved : ∀ wid rid i, s.xlaters wid = some i → s.xlater_q rid ≠ some i
  keys : ∀ wid, (s.xlaters wid).isSome = (s.lib.xlaters wid).isSome
  queued : ∀ rid, (s.xlater_q rid).isSome = (s.lib.xlater_q rid).isSome

/-! ## One program -/

/-- Without the end there are frames only. -/
theorem exists_frames {items : List (Option Entry)} (going : none ∉ items) :
    ∃ frames : List Entry, items = frames.map some := by
  induction items with
  | nil => exact ⟨[], rfl⟩
  | cons item items ih =>
      obtain ⟨frames, rfl⟩ := ih fun member => going (List.mem_cons_of_mem item member)
      cases item with
      | none => exact absurd List.mem_cons_self going
      | some frame => exact ⟨frame :: frames, rfl⟩

namespace Program.Kept

variable {g next : Program} {items : List (Option Entry)}

theorem new : Program.new.Kept where
  looping := fun _ => ⟨rfl, rfl⟩
  closed := fun closed => nomatch closed
  broken := fun left => absurd rfl left
  final := fun member => nomatch member

/-- Frames, or the end, come for a program that has not been told of its end. -/
theorem puts (kept : g.Kept) (going : none ∉ g.put)
    (shape : (∃ frames : List Entry, items = frames.map some) ∨ items = [none]) :
    (g.puts items).Kept where
  looping := fun loops => by
    obtain ⟨closed, put⟩ := kept.looping loops
    exact ⟨closed, by simp [Program.puts, put]⟩
  closed := fun closed => by simp [Program.puts, kept.closed closed]
  broken := fun left closed => by
    obtain ⟨lost, put⟩ := kept.broken left closed
    exact ⟨lost, by simp [Program.puts, put]⟩
  final := fun member => by
    rcases shape with ⟨frames, rfl⟩ | rfl
    · refine absurd member ?_
      simp [Program.puts, going]
    · obtain ⟨frames, same⟩ := exists_frames going
      exact ⟨frames, by rw [Program.puts, same]⟩

theorem feeder_thr (kept : g.Kept) {written : Bool} (step : g.feeder_thr written = some next) :
    next.Kept ∧ next.put = g.put := by
  rw [Program.feeder_thr] at step
  split at step
  · rename_i que loops queued
    obtain rfl := Option.some.inj step
    obtain ⟨_, put⟩ := kept.looping loops
    refine ⟨⟨(nomatch ·), fun _ => ?_, fun _ => (nomatch ·), kept.final⟩, rfl⟩
    rw [put, queued]
  · rename_i frame que loops queued
    obtain ⟨closed, put⟩ := kept.looping loops
    split_ifs at step
    · obtain rfl := Option.some.inj step
      refine ⟨⟨fun _ => ⟨closed, ?_⟩, fun finished => ?_, fun left => absurd loops left,
        kept.final⟩, rfl⟩
      · simp [put, queued]
      · exact absurd (closed.symm.trans finished) Bool.false_ne_true
    · obtain rfl := Option.some.inj step
      refine ⟨⟨(nomatch ·), fun finished => ?_, fun _ _ => ⟨frame, ?_⟩, kept.final⟩, rfl⟩
      · exact absurd (closed.symm.trans finished) Bool.false_ne_true
      · rw [put, queued]
  · cases step

theorem exit (kept : g.Kept) (step : g.exit = some next) : next.Kept ∧ next.put = g.put := by
  rw [Program.exit] at step
  split_ifs at step with leaves
  obtain rfl := Option.some.inj step
  have left : g.thread ≠ .looping := by
    rw [leaves]
    intro same
    cases same
  exact ⟨⟨(nomatch ·), kept.closed, fun _ => kept.broken left, kept.final⟩, rfl⟩

end Program.Kept

/-! ## Objects and programs -/

namespace Store

variable (s : Store) (i p : Nat) (xl : Xlater) (g : Program)

@[simp] theorem programs_putProgram :
    (s.putProgram p g).programs = Function.update s.programs p g := rfl

@[simp] theorem objects_putProgram : (s.putProgram p g).objects = s.objects := rfl

@[simp] theorem objects_putXlater :
    (s.putXlater i xl).objects = Function.update s.objects i xl := rfl

@[simp] theorem programs_putXlater : (s.putXlater i xl).programs = s.programs := rfl

variable {s i xl}

/-- An xlater object is changed, but not in this respect. -/
theorem field_putXlater {α : Type*} (field : Xlater → α)
    (same : field xl = field (s.objects i)) (j : Nat) :
    field ((s.putXlater i xl).objects j) = field (s.objects j) := by
  rw [objects_putXlater]
  by_cases here : j = i
  · rw [here, Function.update_self, same]
  · rw [Function.update_of_ne here]

end Store

/-- The queue of a channel only grows. -/
theorem prefix_of_step {settings : Settings} {channel next : Channel} {act : Squelch.Act}
    (step : channel.step? settings act = some next) : channel.data <+: next.data := by
  cases act with
  | set_squelch | set_afc =>
      obtain rfl := Option.some.inj step
      exact List.prefix_refl _
  | payload d ret =>
      have replayed (datacut : ChannelData) : channel.data <+: (channel.replay datacut).data := by
        rw [Channel.replay]
        split
        · exact List.prefix_append _ _
        · rename_i k saved _
          cases truth saved with
          | none => exact List.prefix_refl _
          | some value =>
              cases value with
              | false => exact List.prefix_append _ _
              | true => exact (List.prefix_append _ _).trans (List.prefix_append _ _)
      have squelched (datacut : ChannelData) :
          channel.data <+: (channel.squelch settings datacut ret).data := by
        rw [Channel.squelch]
        split
        · exact List.prefix_append _ _
        · exact replayed datacut
        · exact List.prefix_refl _
      rw [Channel.step?] at step
      split at step
      · cases step
      · split at step
        · obtain rfl := Option.some.inj step
          exact List.prefix_refl _
        · rename_i datacut _
          obtain rfl := Option.some.inj step
          split_ifs
          · exact squelched datacut
          · exact squelched datacut
        · cases step

namespace Stored

variable {settings : Settings} {s : Store} {i p : Nat}

theorem init (settings : Settings) : Stored settings .init where
  programs := fun _ => .new
  fresh := ⟨fun _ _ => rfl, fun _ _ => rfl⟩
  owned := fun _ _ member => nomatch member
  apart := fun _ _ _ _ member => nomatch member
  nodup := fun _ => .nil
  last := fun _ => rfl
  frames := fun _ => rfl
  ended := fun _ _ member => nomatch member
  channel := fun _ => ⟨.new, [], rfl, .nil _⟩

/-- A program is replaced by one for which the same has been put. -/
theorem putProgram (stored : Stored settings s) (below : p < s.spawned) {g : Program}
    (kept : g.Kept) (same : g.put = (s.programs p).put) : Stored settings (s.putProgram p g) := by
  have put (q : Nat) : ((s.putProgram p g).programs q).put = (s.programs q).put := by
    rw [Store.programs_putProgram]
    by_cases here : q = p
    · rw [here, Function.update_self, same]
    · rw [Function.update_of_ne here]
  refine ⟨fun q => ?_, ⟨stored.fresh.1, fun q above => ?_⟩, stored.owned, stored.apart,
    stored.nodup, stored.last, fun i => ?_, fun i q member => ?_, stored.channel⟩
  · rw [Store.programs_putProgram]
    by_cases here : q = p
    · rw [here, Function.update_self]
      exact kept
    · rw [Function.update_of_ne here]
      exact stored.programs q
  · have other : q ≠ p := fun same => absurd (same ▸ above) (Nat.not_le.mpr below)
    rw [Store.programs_putProgram, Function.update_of_ne other]
    exact stored.fresh.2 q above
  · simp only [put]
    exact stored.frames i
  · rw [put]
    exact stored.ended i q member

theorem alloc (stored : Stored settings s) : Stored settings s.alloc := by
  have same : Function.update s.objects s.allocated .new = s.objects :=
    Function.update_eq_self_iff.mpr (stored.fresh.1 _ (Nat.le_refl _)).symm
  have shape : s.alloc = { s with allocated := s.allocated + 1 } := by
    rw [Store.alloc, Store.putXlater, same]
  rw [shape]
  exact ⟨stored.programs, ⟨fun i above => stored.fresh.1 i (by exact Nat.le_of_succ_le above),
    stored.fresh.2⟩, stored.owned, stored.apart, stored.nodup, stored.last, stored.frames,
    stored.ended, stored.channel⟩

theorem spawn_mode (stored : Stored settings s) : Stored settings s.spawn_mode := by
  have same : Function.update s.programs s.spawned .new = s.programs :=
    Function.update_eq_self_iff.mpr (stored.fresh.2 _ (Nat.le_refl _)).symm
  have shape : s.spawn_mode = { s with spawned := s.spawned + 1 } := by
    rw [Store.spawn_mode, Store.putProgram, same]
  rw [shape]
  exact ⟨stored.programs, ⟨stored.fresh.1,
    fun p above => stored.fresh.2 p (by exact Nat.le_of_succ_le above)⟩,
    fun i p member => Nat.lt_succ_of_lt (stored.owned i p member), stored.apart, stored.nodup,
    stored.last, stored.frames, stored.ended, stored.channel⟩

/-- What has been put for the last program of a list that has it once. -/
theorem flatMap_last {fed : List Nat} {f : Nat → List (Option Entry)} (nodup : fed.Nodup)
    (last : fed.getLast? = some p) (items : List (Option Entry)) :
    fed.flatMap (Function.update f p (f p ++ items)) = fed.flatMap f ++ items := by
  obtain ⟨front, rfl⟩ := List.getLast?_eq_some_iff.mp last
  have apart : p ∉ front := fun member =>
    (List.nodup_append.mp nodup).2.2 p member p List.mem_cons_self rfl
  have same : front.flatMap (Function.update f p (f p ++ items)) = front.flatMap f :=
    List.flatMap_congr fun q member =>
      Function.update_of_ne (ne_of_mem_of_not_mem member apart) _ _
  rw [List.flatMap_append, List.flatMap_append, same, List.flatMap_singleton,
    List.flatMap_singleton, Function.update_self, List.append_assoc]

/-- The object of an xlater is changed, and so is what has been put for its program. -/
theorem deliver (stored : Stored settings s) (xl : Xlater) (below : i < s.allocated)
    (has : (s.objects i).data = some p) (going : (s.objects i).destroyed = false)
    (data : xl.data = some p) (fed : xl.fed = (s.objects i).fed)
    (channel : (Squelch.channel settings).Reachable Machine.Any xl.channel)
    {items : List (Option Entry)} (adds : xl.frames = (s.objects i).frames ++ items)
    (shape : (∃ frames : List Entry, items = frames.map some) ∨
      items = [none] ∧ xl.destroyed = true) :
    Stored settings ((s.putXlater i xl).putProgram p ((s.programs p).puts items)) := by
  have last : (s.objects i).fed.getLast? = some p := (stored.last i).symm.trans has
  have member : p ∈ (s.objects i).fed := List.mem_of_getLast? last
  have spawned : p < s.spawned := stored.owned i p member
  have unended : none ∉ (s.programs p).put := fun inside => by
    have destroyed := (stored.ended i p member inside).1
    rw [going] at destroyed
    cases destroyed
  have alone {j q : Nat} (inside : q ∈ (s.objects j).fed) (other : j ≠ i) : q ≠ p := fun same =>
    stored.apart j i other q inside (same ▸ member)
  have feds (j : Nat) : (Function.update s.objects i xl j).fed = (s.objects j).fed :=
    Store.field_putXlater Xlater.fed fed j
  have puts : (fun q => (Function.update s.programs p ((s.programs p).puts items) q).put) =
      Function.update (fun q => (s.programs q).put) p ((s.programs p).put ++ items) := by
    funext q
    by_cases here : q = p
    · rw [here, Function.update_self, Function.update_self]
      rfl
    · rw [Function.update_of_ne here, Function.update_of_ne here]
  refine ⟨fun q => ?_, ⟨fun j above => ?_, fun q above => ?_⟩, fun j q inside => ?_,
    fun j k other q inside => ?_, fun j => ?_, fun j => ?_, fun j => ?_, fun j q inside ends => ?_,
    fun j => ?_⟩ <;>
    simp only [Store.programs_putProgram, Store.objects_putProgram, Store.objects_putXlater,
      Store.programs_putXlater, feds] at *
  · by_cases here : q = p
    · rw [here, Function.update_self]
      exact (stored.programs p).puts unended (shape.imp_right And.left)
    · rw [Function.update_of_ne here]
      exact stored.programs q
  · have other : j ≠ i := fun same => absurd (same ▸ above) (Nat.not_le.mpr below)
    rw [Function.update_of_ne other]
    exact stored.fresh.1 j above
  · have other : q ≠ p := fun same => absurd (same ▸ above) (Nat.not_le.mpr spawned)
    rw [Function.update_of_ne other]
    exact stored.fresh.2 q above
  · exact stored.owned j q inside
  · exact stored.apart j k other q inside
  · exact stored.nodup j
  · by_cases here : j = i
    · rw [here, Function.update_self, data, last]
    · rw [Function.update_of_ne here]
      exact stored.last j
  · rw [puts]
    by_cases here : j = i
    · rw [here, Function.update_self, adds, flatMap_last (stored.nodup i) last, stored.frames]
    · rw [Function.update_of_ne here, ← stored.frames j]
      exact List.flatMap_congr fun q inside => Function.update_of_ne (alone inside here) _ _
  · by_cases same : q = p
    · obtain rfl : j = i := by_contra fun other => alone inside other same
      rw [same, Function.update_self] at ends
      rw [Function.update_self, data, same]
      refine ⟨?_, rfl⟩
      rcases shape with ⟨frames, rfl⟩ | ⟨_, destroyed⟩
      · exact absurd ends (by simp [Program.puts, unended])
      · exact destroyed
    · rw [Function.update_of_ne same] at ends
      obtain ⟨destroyed, held⟩ := stored.ended j q inside ends
      have other : j ≠ i := by
        rintro rfl
        rw [going] at destroyed
        cases destroyed
      rw [Function.update_of_ne other]
      exact ⟨destroyed, held⟩
  · by_cases here : j = i
    · rw [here, Function.update_self]
      exact channel
    · rw [Function.update_of_ne here]
      exact stored.channel j

/-- The object of an xlater is changed, and nothing is put. -/
theorem putXlater (stored : Stored settings s) (below : i < s.allocated) {xl : Xlater}
    (data : xl.data = (s.objects i).data) (fed : xl.fed = (s.objects i).fed)
    (channel : (Squelch.channel settings).Reachable Machine.Any xl.channel)
    (same : xl.frames = (s.objects i).frames)
    (kept : (s.objects i).destroyed = true → xl.destroyed = true) :
    Stored settings (s.putXlater i xl) := by
  have feds (j : Nat) : (Function.update s.objects i xl j).fed = (s.objects j).fed :=
    Store.field_putXlater Xlater.fed fed j
  refine ⟨stored.programs, ⟨fun j above => ?_, stored.fresh.2⟩, fun j q inside => ?_,
    fun j k other q inside => ?_, fun j => ?_, fun j => ?_, fun j => ?_, fun j q inside ends => ?_,
    fun j => ?_⟩ <;>
    simp only [Store.objects_putXlater, Store.programs_putXlater, feds] at *
  · have other : j ≠ i := fun same => absurd (same ▸ above) (Nat.not_le.mpr below)
    rw [Function.update_of_ne other]
    exact stored.fresh.1 j above
  · exact stored.owned j q inside
  · exact stored.apart j k other q inside
  · exact stored.nodup j
  · by_cases here : j = i
    · rw [here, Function.update_self, data, stored.last]
    · rw [Function.update_of_ne here]
      exact stored.last j
  · by_cases here : j = i
    · rw [here, Function.update_self, same, stored.frames]
    · rw [Function.update_of_ne here]
      exact stored.frames j
  · obtain ⟨destroyed, held⟩ := stored.ended j q inside ends
    by_cases here : j = i
    · subst here
      rw [Function.update_self, data]
      exact ⟨kept destroyed, held⟩
    · rw [Function.update_of_ne here]
      exact ⟨destroyed, held⟩
  · by_cases here : j = i
    · rw [here, Function.update_self]
      exact channel
    · rw [Function.update_of_ne here]
      exact stored.channel j

/-- An xlater that goes on gets a new program. -/
theorem attach (stored : Stored settings s) (below : i < s.allocated)
    (going : (s.objects i).destroyed = false) : Stored settings (s.attach i) := by
  have spawned := stored.spawn_mode
  have new : s.programs s.spawned = .new := stored.fresh.2 _ (Nat.le_refl _)
  have programs : s.spawn_mode.programs = s.programs := Function.update_eq_self_iff.mpr new.symm
  have later (j : Nat) : s.spawned ∉ (s.objects j).fed := fun inside =>
    absurd (stored.owned j _ inside) (Nat.lt_irrefl _)
  have fed {j q : Nat} {xl : Xlater} (more : xl.fed = (s.objects i).fed ++ [s.spawned])
      (inside : q ∈ (Function.update s.objects i xl j).fed) :
      q ∈ (s.objects j).fed ∨ j = i ∧ q = s.spawned := by
    by_cases here : j = i
    · rw [here, Function.update_self, more] at inside
      rcases List.mem_append.mp inside with old | last
      · exact .inl (here ▸ old)
      · exact .inr ⟨here, List.mem_singleton.mp last⟩
    · rw [Function.update_of_ne here] at inside
      exact .inl inside
  refine ⟨spawned.programs, ⟨fun j above => ?_, spawned.fresh.2⟩, fun j q inside => ?_,
    fun j k other q inside inside' => ?_, fun j => ?_, fun j => ?_, fun j => ?_,
    fun j q inside ends => ?_, fun j => ?_⟩ <;>
    simp only [Store.attach, Store.objects_putXlater, Store.programs_putXlater, programs] at *
  · have other : j ≠ i := fun same => absurd (same ▸ above) (Nat.not_le.mpr below)
    rw [Function.update_of_ne other]
    exact stored.fresh.1 j above
  · rcases fed rfl inside with old | ⟨_, rfl⟩
    · exact Nat.lt_succ_of_lt (stored.owned j q old)
    · exact Nat.lt_succ_self _
  · rcases fed rfl inside with old | ⟨rfl, rfl⟩
    · rcases fed rfl inside' with old' | ⟨rfl, rfl⟩
      · exact stored.apart j k other q old old'
      · exact later j old
    · rcases fed rfl inside' with old' | ⟨rfl, _⟩
      · exact later k old'
      · exact other rfl
  · by_cases here : j = i
    · rw [here, Function.update_self]
      exact List.nodup_append.mpr ⟨stored.nodup i, List.pairwise_singleton _ _,
        fun q inside r last => fun same => later i (by
          rw [← List.mem_singleton.mp last, ← same]
          exact inside)⟩
    · rw [Function.update_of_ne here]
      exact stored.nodup j
  · by_cases here : j = i
    · rw [here, Function.update_self, List.getLast?_concat]
    · rw [Function.update_of_ne here]
      exact stored.last j
  · by_cases here : j = i
    · rw [here, Function.update_self, List.flatMap_append, stored.frames i, List.flatMap_singleton,
        new]
      simp [Xlater.frames, Program.new, going]
    · rw [Function.update_of_ne here]
      exact stored.frames j
  · rcases fed rfl inside with old | ⟨rfl, rfl⟩
    · obtain ⟨destroyed, held⟩ := stored.ended j q old ends
      have other : j ≠ i := by
        rintro rfl
        rw [going] at destroyed
        cases destroyed
      rw [Function.update_of_ne other]
      exact ⟨destroyed, held⟩
    · rw [new] at ends
      cases ends
  · by_cases here : j = i
    · rw [here, Function.update_self]
      exact stored.channel i
    · rw [Function.update_of_ne here]
      exact stored.channel j

/-- Give the channel of an xlater its next state. -/
theorem setChannel (stored : Stored settings s) (below : i < s.allocated) {act : Squelch.Act}
    {channel : Channel} (step : (s.objects i).channel.step? settings act = some channel)
    (same : channel.data = (s.objects i).channel.data) :
    Stored settings (s.putXlater i { s.objects i with channel := channel }) := by
  refine stored.putXlater below rfl rfl ((stored.channel i).step trivial step) ?_ fun kept => kept
  rw [Xlater.frames, same]
  rfl

/-- What a frame makes its channel put is put for the program. -/
theorem receive (stored : Stored settings s) (below : i < s.allocated)
    (has : (s.objects i).data = some p) (going : (s.objects i).destroyed = false)
    {act : Squelch.Act} {channel : Channel}
    (step : (s.objects i).channel.step? settings act = some channel) :
    Stored settings ((s.putXlater i { s.objects i with channel := channel }).putProgram p
      ((s.programs p).puts
        ((channel.data.drop (s.objects i).channel.data.length).map some))) := by
  obtain ⟨added, more⟩ := prefix_of_step step
  refine stored.deliver { s.objects i with channel := channel } below has going has rfl
    ((stored.channel i).step trivial step) ?_ (.inl ⟨_, rfl⟩)
  simp [Xlater.frames, going, ← more]

theorem finish (stored : Stored settings s) (below : i < s.allocated)
    (going : (s.objects i).destroyed = false) : Stored settings (s.finish i) := by
  rw [Store.finish]
  cases has : (s.objects i).data with
  | none =>
      refine stored.putXlater below rfl rfl (stored.channel i) ?_ fun _ => rfl
      simp [Xlater.frames, has]
  | some p =>
      refine stored.deliver { s.objects i with destroyed := true } below has going has rfl
        (stored.channel i) ?_ (.inr ⟨rfl, rfl⟩)
      simp [Xlater.frames, has, going]

end Stored

/-! ## The dictionaries -/

/-- What a dictionary with a new entry refers to. -/
theorem found_update {refs : Int → Option Nat} {key w : Int} {i j : Nat}
    (found : Function.update refs key (some i) w = some j) :
    w = key ∧ j = i ∨ refs w = some j := by
  by_cases same : w = key
  · rw [same, Function.update_self] at found
    exact .inl ⟨same, (Option.some.inj found).symm⟩
  · rw [Function.update_of_ne same] at found
    exact .inr found

namespace Referred

variable {s t : Client}

/-- Nothing that the dictionaries know of has changed. -/
theorem same (referred : Referred s) (xlaters : t.xlaters = s.xlaters)
    (xlater_q : t.xlater_q = s.xlater_q) (allocated : s.allocated ≤ t.allocated)
    (destroyed : ∀ i, i < s.allocated → (t.objects i).destroyed = (s.objects i).destroyed)
    (keys : ∀ wid, (t.lib.xlaters wid).isSome = (s.lib.xlaters wid).isSome)
    (queued : ∀ rid, (t.lib.xlater_q rid).isSome = (s.lib.xlater_q rid).isSome) : Referred t where
  xlaters := fun wid i found => by
    obtain ⟨below, going⟩ := referred.xlaters wid i (xlaters ▸ found)
    exact ⟨below.trans_le allocated, (destroyed i below).trans going⟩
  xlater_q := fun rid i found => by
    obtain ⟨below, going⟩ := referred.xlater_q rid i (xlater_q ▸ found)
    exact ⟨below.trans_le allocated, (destroyed i below).trans going⟩
  once := xlaters ▸ referred.once
  pending := xlater_q ▸ referred.pending
  moved := xlaters ▸ xlater_q ▸ referred.moved
  keys := fun wid => by rw [xlaters, keys, referred.keys]
  queued := fun rid => by rw [xlater_q, queued, referred.queued]

theorem init : Referred .init where
  xlaters := fun _ _ found => nomatch found
  xlater_q := fun _ _ found => nomatch found
  once := fun _ _ _ found => nomatch found
  pending := fun _ _ _ found => nomatch found
  moved := fun _ _ _ found => nomatch found
  keys := fun _ => rfl
  queued := fun _ => rfl

theorem create (referred : Referred s) (rotate : Float32Bits) (decimation : Int)
    (taps : List Float32Bits) (history : Int) :
    Referred (s.create_xlater rotate decimation taps history) := by
  have flags (j : Nat) (below : j < s.allocated) :
      ((s.create_xlater rotate decimation taps history).objects j).destroyed =
        (s.objects j).destroyed := by
    have other : j ≠ s.allocated := below.ne
    simp [Client.create_xlater, Store.attach, Store.alloc, Store.spawn_mode, other]
  have new : ((s.create_xlater rotate decimation taps history).objects s.allocated).destroyed =
      false := by
    simp [Client.create_xlater, Store.attach, Store.alloc, Xlater.new]
  have found {rid : Int} {i : Nat}
      (here : Function.update s.xlater_q s.lib.xln (some s.allocated) rid = some i) :
      rid = s.lib.xln ∧ i = s.allocated ∨ s.xlater_q rid = some i ∧ i < s.allocated :=
    (found_update here).imp_right fun old => ⟨old, (referred.xlater_q rid i old).1⟩
  refine ⟨fun wid i here => ?_, fun rid i here => ?_, referred.once,
    fun rid rid' i here there => ?_, fun wid rid i here there => ?_, referred.keys, fun rid => ?_⟩
  · obtain ⟨below, going⟩ := referred.xlaters wid i here
    exact ⟨Nat.lt_succ_of_lt below, (flags i below).trans going⟩
  · rcases found here with ⟨_, rfl⟩ | ⟨old, below⟩
    · exact ⟨Nat.lt_succ_self _, new⟩
    · exact ⟨Nat.lt_succ_of_lt below, (flags i below).trans (referred.xlater_q rid i old).2⟩
  · rcases found here with ⟨rfl, rfl⟩ | ⟨old, below⟩
    · rcases found there with ⟨rfl, _⟩ | ⟨_, below⟩
      · rfl
      · exact absurd below (Nat.lt_irrefl _)
    · rcases found there with ⟨_, rfl⟩ | ⟨old', _⟩
      · exact absurd below (Nat.lt_irrefl _)
      · exact referred.pending rid rid' i old old'
  · rcases found there with ⟨_, rfl⟩ | ⟨old, _⟩
    · exact absurd (referred.xlaters wid _ here).1 (Nat.lt_irrefl _)
    · exact referred.moved wid rid i here old
  · simp only [Client.create_xlater, LibClient.Client.create_xlater, LibClient.Client.q_msg]
    by_cases latest : rid = s.lib.xln
    · rw [latest, Function.update_self, Function.update_self]
      rfl
    · rw [Function.update_of_ne latest, Function.update_of_ne latest]
      exact referred.queued rid

/-- The object of a pending xlater becomes that of a running one. -/
theorem move (referred : Referred s) {wid rid : Int} {i : Nat} {lib : LibClient.Client}
    (queue : s.xlater_q rid = some i)
    (keys : ∀ w, (Function.update s.xlaters wid (some i) w).isSome = (lib.xlaters w).isSome)
    (queued : ∀ r, (Function.update s.xlater_q rid none r).isSome = (lib.xlater_q r).isSome) :
    Referred { s with
      lib := lib
      xlaters := Function.update s.xlaters wid (some i)
      xlater_q := Function.update s.xlater_q rid none } := by
  have found {w : Int} {j : Nat} (here : Function.update s.xlaters wid (some i) w = some j) :
      w = wid ∧ j = i ∨ s.xlaters w = some j ∧ j ≠ i :=
    (found_update here).imp_right fun old =>
      ⟨old, fun again => referred.moved w rid i (again ▸ old) queue⟩
  have waits {r : Int} {j : Nat} (here : Function.update s.xlater_q rid none r = some j) :
      r ≠ rid ∧ s.xlater_q r = some j := by
    by_cases same : r = rid
    · rw [same, Function.update_self] at here
      cases here
    · rw [Function.update_of_ne same] at here
      exact ⟨same, here⟩
  refine ⟨fun w j here => ?_, fun r j here => referred.xlater_q r j (waits here).2,
    fun w w' j here there => ?_,
    fun r r' j here there => referred.pending r r' j (waits here).2 (waits there).2,
    fun w r j here there => ?_, keys, queued⟩
  · rcases found here with ⟨_, rfl⟩ | ⟨old, _⟩
    · exact referred.xlater_q rid j queue
    · exact referred.xlaters w j old
  · rcases found here with ⟨rfl, rfl⟩ | ⟨old, other⟩
    · rcases found there with ⟨rfl, _⟩ | ⟨_, other⟩
      · rfl
      · exact absurd rfl other
    · rcases found there with ⟨_, rfl⟩ | ⟨old', _⟩
      · exact absurd rfl other
      · exact referred.once w w' j old old'
  · obtain ⟨apart, waiting⟩ := waits there
    rcases found here with ⟨_, rfl⟩ | ⟨old, _⟩
    · exact apart (referred.pending r rid j waiting queue)
    · exact referred.moved w r j old waiting

/-- A running xlater gets an object of its own. -/
theorem learn (referred : Referred s) {wid : Int} {lib : LibClient.Client}
    (keys : ∀ w, (Function.update s.xlaters wid (some s.allocated) w).isSome =
      (lib.xlaters w).isSome)
    (queued : ∀ r, (s.xlater_q r).isSome = (lib.xlater_q r).isSome) :
    Referred { s with
      toStore := s.alloc
      lib := lib
      xlaters := Function.update s.xlaters wid (some s.allocated) } := by
  have flags (j : Nat) (below : j < s.allocated) :
      (s.alloc.objects j).destroyed = (s.objects j).destroyed := by
    have other : j ≠ s.allocated := below.ne
    simp [Store.alloc, other]
  have new : (s.alloc.objects s.allocated).destroyed = false := by simp [Store.alloc, Xlater.new]
  have found {w : Int} {j : Nat}
      (here : Function.update s.xlaters wid (some s.allocated) w = some j) :
      w = wid ∧ j = s.allocated ∨ s.xlaters w = some j ∧ j < s.allocated :=
    (found_update here).imp_right fun old => ⟨old, (referred.xlaters w j old).1⟩
  refine ⟨fun w j here => ?_, fun r j here => ?_, fun w w' j here there => ?_, referred.pending,
    fun w r j here there => ?_, keys, queued⟩
  · rcases found here with ⟨_, rfl⟩ | ⟨old, below⟩
    · exact ⟨Nat.lt_succ_self _, new⟩
    · exact ⟨Nat.lt_succ_of_lt below, (flags j below).trans (referred.xlaters w j old).2⟩
  · obtain ⟨below, going⟩ := referred.xlater_q r j here
    exact ⟨Nat.lt_succ_of_lt below, (flags j below).trans going⟩
  · rcases found here with ⟨rfl, rfl⟩ | ⟨old, below⟩
    · rcases found there with ⟨rfl, _⟩ | ⟨_, below⟩
      · rfl
      · exact absurd below (Nat.lt_irrefl _)
    · rcases found there with ⟨_, rfl⟩ | ⟨old', _⟩
      · exact absurd below (Nat.lt_irrefl _)
      · exact referred.once w w' j old old'
  · rcases found here with ⟨_, rfl⟩ | ⟨old, _⟩
    · exact absurd (referred.xlater_q r _ there).1 (Nat.lt_irrefl _)
    · exact referred.moved w r j old there

theorem running (referred : Referred s) (msg : SRV_RUNNING_XLATER) :
    Referred (s.srv_running_xlater msg) := by
  rw [Client.srv_running_xlater]
  cases ran : s.lib.srv_running_xlater msg with
  | none => exact referred.same rfl rfl le_rfl (fun _ _ => rfl) (fun _ => rfl) fun _ => rfl
  | some lib =>
      have running := LibClient.Client.Running.of_srv_running_xlater ran
      have keys (i : Nat) (wid : Int) :
          (Function.update s.xlaters msg.id (some i) wid).isSome = (lib.xlaters wid).isSome := by
        refine Bool.eq_iff_iff.mpr (Iff.trans ?_ (running.mem_keys wid).symm)
        by_cases same : wid = msg.id
        · simp [same]
        · rw [Function.update_of_ne same, referred.keys]
          exact (or_iff_right same).symm
      have known := referred.keys msg.id
      have asked := referred.queued msg.remoteid
      cases own : s.xlaters msg.id with
      | some i =>
          refine referred.same rfl rfl le_rfl (fun _ _ => rfl) (fun wid => ?_) fun rid => ?_
          · rw [← keys i wid, ← referred.keys wid]
            by_cases same : wid = msg.id
            · rw [same, Function.update_self, own]
            · rw [Function.update_of_ne same]
          · cases running with
            | update => rfl
            | move unknown | new unknown =>
                rw [own, unknown] at known
                cases known
      | none =>
          rw [own] at known
          cases queue : s.xlater_q msg.remoteid with
          | some i =>
              refine referred.move queue (keys i) fun rid => ?_
              rw [queue] at asked
              cases running with
              | update there =>
                  rw [there] at known
                  cases known
              | move =>
                  dsimp only
                  by_cases same : rid = msg.remoteid
                  · rw [same, Function.update_self, Function.update_self]
                    rfl
                  · rw [Function.update_of_ne same, Function.update_of_ne same]
                    exact referred.queued rid
              | new _ other =>
                  rw [other] at asked
                  cases asked
          | none =>
              refine referred.learn (keys s.allocated) fun rid => ?_
              rw [queue] at asked
              cases running with
              | update there =>
                  rw [there] at known
                  cases known
              | move _ pending =>
                  rw [pending] at asked
                  cases asked
              | new => exact referred.queued rid

/-- The dictionary loses the only reference to the object. -/
theorem destroyed (referred : Referred s) (id : Int) : Referred (s.srv_destroyed_xlater id) := by
  have flags (i j : Nat) (other : j ≠ i) : ((s.finish i).objects j).destroyed =
      (s.objects j).destroyed := by
    rw [Store.finish]
    cases (s.objects i).data <;> simp [other]
  have allocated (i : Nat) : (s.finish i).allocated = s.allocated := by
    rw [Store.finish]
    cases (s.objects i).data <;> rfl
  have place {j : Nat} (below : j < s.allocated) (other : s.xlaters id ≠ some j) :
      j < (s.srv_destroyed_xlater id).allocated ∧
        ((s.srv_destroyed_xlater id).objects j).destroyed = (s.objects j).destroyed := by
    rw [Client.srv_destroyed_xlater]
    cases known : s.xlaters id with
    | none => exact ⟨below, rfl⟩
    | some i =>
        have apart : j ≠ i := fun same => other (by rw [known, same])
        exact ⟨below.trans_eq (allocated i).symm, flags i j apart⟩
  have found {wid : Int} {i : Nat} (here : Function.update s.xlaters id none wid = some i) :
      wid ≠ id ∧ s.xlaters wid = some i := by
    by_cases same : wid = id
    · rw [same, Function.update_self] at here
      cases here
    · rw [Function.update_of_ne same] at here
      exact ⟨same, here⟩
  refine ⟨fun wid i here => ?_, fun rid i here => ?_, fun wid wid' i here there => ?_,
    referred.pending, fun wid rid i here => ?_, fun wid => ?_, referred.queued⟩
  · obtain ⟨other, old⟩ := found here
    obtain ⟨below, going⟩ := referred.xlaters wid i old
    obtain ⟨below', flag⟩ := place below fun known => other (referred.once wid id i old known)
    exact ⟨below', flag.trans going⟩
  · obtain ⟨below, going⟩ := referred.xlater_q rid i here
    obtain ⟨below', flag⟩ := place below fun known => referred.moved id rid i known here
    exact ⟨below', flag.trans going⟩
  · exact referred.once wid wid' i (found here).2 (found there).2
  · exact referred.moved wid rid i (found here).2
  · simp only [Client.srv_destroyed_xlater, LibClient.Client.srv_destroyed_xlater]
    by_cases same : wid = id
    · rw [same, Function.update_self, Function.update_self]
      rfl
    · rw [Function.update_of_ne same, Function.update_of_ne same]
      exact referred.keys wid

end Referred

/-! ## Runs -/

structure Inv (settings : Settings) (s : Client) : Prop where
  stored : Stored settings s.toStore
  referred : Referred s

namespace Inv

variable {settings : Settings} {s t : Client}

/-- Only programs and objects have changed. -/
theorem store (inv : Inv settings s) {store : Store} {raised : Bool}
    (stored : Stored settings store) (allocated : s.allocated ≤ store.allocated)
    (destroyed : ∀ i, (store.objects i).destroyed = (s.objects i).destroyed) :
    Inv settings { s with toStore := store, raised := raised } :=
  ⟨stored, inv.referred.same rfl rfl allocated (fun i _ => destroyed i) (fun _ => rfl) fun _ => rfl⟩

/-- Only the library's own account has changed, and not the keys in it. -/
theorem lib (inv : Inv settings s) {lib : LibClient.Client} {raised : Bool}
    (keys : lib.keys = s.lib.keys) (queued : lib.xlater_q = s.lib.xlater_q) :
    Inv settings { s with lib := lib, raised := raised } := by
  refine ⟨inv.stored,
    inv.referred.same rfl rfl le_rfl (fun _ _ => rfl) (fun wid => ?_) fun rid => ?_⟩
  · exact Bool.eq_iff_iff.mpr (iff_of_eq (congrArg (wid ∈ ·) keys))
  · rw [queued]

theorem attach (inv : Inv settings s) {i : Nat} (below : i < s.allocated)
    (going : (s.objects i).destroyed = false) :
    Inv settings { s with toStore := s.attach i } :=
  inv.store (inv.stored.attach below going) le_rfl fun j =>
    Store.field_putXlater Xlater.destroyed (by rfl) j

theorem setChannel (inv : Inv settings s) {xid : Int} {act : Squelch.Act}
    (quiet : ∀ channel next : Channel, channel.step? settings act = some next →
      next.data = channel.data)
    (step : s.setChannel settings xid act = some t) : Inv settings t := by
  obtain ⟨i, found, step⟩ := Option.bind_eq_some_iff.mp step
  obtain ⟨channel, moved, step⟩ := Option.bind_eq_some_iff.mp step
  obtain rfl := Option.some.inj step
  obtain ⟨below, _⟩ := inv.referred.xlaters xid i found
  exact inv.store (inv.stored.setChannel below moved (quiet _ _ moved)) le_rfl
    fun j => Store.field_putXlater Xlater.destroyed (by rfl) j

theorem receive (inv : Inv settings s) {i p : Nat} {d : List UInt8} {ret : Bool}
    (below : i < s.allocated) (has : (s.objects i).data = some p)
    (going : (s.objects i).destroyed = false) (step : s.receive settings i p d ret = some t) :
    Inv settings t := by
  obtain ⟨channel, moved, rfl⟩ := Option.map_eq_some_iff.mp step
  exact inv.store (inv.stored.receive below has going moved) le_rfl
    fun j => Store.field_putXlater Xlater.destroyed (by rfl) j

theorem payload (inv : Inv settings s) {d : List UInt8} {ret : Bool}
    (step : s.process_payload settings d ret = some t) : Inv settings t := by
  rw [Client.process_payload] at step
  split at step
  · obtain rfl := Option.some.inj step
    exact inv.lib rfl rfl
  · rename_i wid _ _ _
    obtain ⟨⟨i, p⟩, alive, step⟩ := Option.bind_eq_some_iff.mp step
    obtain ⟨j, found, alive⟩ := Option.bind_eq_some_iff.mp alive
    obtain ⟨q, has, alive⟩ := Option.bind_eq_some_iff.mp alive
    split_ifs at alive
    obtain ⟨rfl, rfl⟩ := Prod.mk.inj (Option.some.inj alive)
    obtain ⟨below, going⟩ := inv.referred.xlaters wid j found
    exact inv.receive below has going step
  · split at step
    · obtain rfl := Option.some.inj step
      exact inv
    · split_ifs at step
      · obtain rfl := Option.some.inj step
        exact inv.lib rfl rfl
      · obtain rfl := Option.some.inj step
        exact inv.lib rfl rfl
  · obtain rfl := Option.some.inj step
    exact inv

theorem thread (inv : Inv settings s) {p : Nat} {act : Program → Option Program}
    (keeps : ∀ g next : Program, g.Kept → act g = some next → next.Kept ∧ next.put = g.put)
    (step : s.thread p act = some t) : Inv settings t := by
  rw [Client.thread] at step
  split_ifs at step with below
  obtain ⟨g, moved, rfl⟩ := Option.map_eq_some_iff.mp step
  obtain ⟨kept, same⟩ := keeps _ g (inv.stored.programs p) moved
  exact inv.store (inv.stored.putProgram below kept same) le_rfl fun _ => rfl

theorem step (inv : Inv settings s) {act : Act} (step : s.step? settings act = some t) :
    Inv settings t := by
  cases act with
  | set_auto_enable_xlater | q_msg =>
      obtain rfl := Option.some.inj step
      exact inv.lib rfl rfl
  | create_xlater rotate decimation taps history =>
      obtain rfl := Option.some.inj step
      refine ⟨inv.stored.alloc.attach (Nat.lt_succ_self _) ?_, inv.referred.create _ _ _ _⟩
      simp [Store.alloc, Xlater.new]
  | modify_xlater xid rotate taps =>
      obtain ⟨lib, modified, rfl⟩ := Option.map_eq_some_iff.mp step
      refine inv.lib (LibClient.Client.keys_modify_xlater modified) ?_
      obtain ⟨_, _, rfl⟩ := Option.map_eq_some_iff.mp modified
      rfl
  | subscribe_xlater xid =>
      obtain rfl := Option.some.inj step
      rw [Client.subscribe_xlater]
      cases found : s.xlaters xid with
      | none => exact inv.store inv.stored.spawn_mode le_rfl fun _ => rfl
      | some i =>
          obtain ⟨below, going⟩ := inv.referred.xlaters xid i found
          exact inv.attach below going
  | set_squelch | set_afc =>
      refine inv.setChannel (fun channel next moved => ?_) step
      obtain rfl := Option.some.inj moved
      rfl
  | running msg =>
      simp only [Client.step?] at step
      split_ifs at step
      obtain rfl := Option.some.inj step
      refine ⟨?_, inv.referred.running msg⟩
      rw [Client.srv_running_xlater]
      split
      · exact inv.stored
      · split
        · exact inv.stored
        · exact inv.stored
        · exact inv.stored.alloc
  | destroyed id =>
      simp only [Client.step?] at step
      split_ifs at step
      obtain rfl := Option.some.inj step
      refine ⟨?_, inv.referred.destroyed id⟩
      simp only [Client.srv_destroyed_xlater]
      cases found : s.xlaters id with
      | none => exact inv.stored
      | some i =>
          obtain ⟨below, going⟩ := inv.referred.xlaters id i found
          exact inv.stored.finish below going
  | payload d ret =>
      simp only [Client.step?] at step
      split_ifs at step
      exact inv.payload step
  | feed p written => exact inv.thread (fun g next kept => kept.feeder_thr) step
  | exit p => exact inv.thread (fun g next kept => kept.exit) step

end Inv

/-- What the programs of a client have got. -/
structure Piped (settings : Settings) (s : Client) : Prop where
  /-- Frames are written in the order in which they were put, and none is left out. -/
  ordered : ∀ p, (s.programs p).stdin.map some <+: (s.programs p).put
  /-- A thread that waits for its queue has written all. -/
  written : ∀ p, (s.programs p).thread = .looping → (s.programs p).que = [] →
    (s.programs p).put = (s.programs p).stdin.map some
  /-- An input is closed behind the last frame that ever comes. -/
  closed : ∀ p, (s.programs p).closed = true →
    (s.programs p).que = [] ∧ (s.programs p).put = (s.programs p).stdin.map some ++ [none]
  /-- Every frame of an xlater is put for one of its programs, and the end for the one
  that it has when it is destroyed. -/
  frames : ∀ i, ((s.objects i).fed.flatMap fun p => (s.programs p).put) = (s.objects i).frames
  apart : ∀ i j, i ≠ j → ∀ p ∈ (s.objects i).fed, p ∉ (s.objects j).fed
  /-- A program that another one has replaced is never closed. -/
  ends : ∀ i, ∀ p ∈ (s.objects i).fed, (s.programs p).closed = true →
    (s.objects i).destroyed = true ∧ (s.objects i).data = some p
  /-- The frames are those that the squelch puts. -/
  channel : ∀ i, (Squelch.channel settings).Reachable Machine.Any (s.objects i).channel
  running : ∀ wid i, s.xlaters wid = some i → (s.objects i).destroyed = false
  keys : ∀ wid, (s.xlaters wid).isSome = (s.lib.xlaters wid).isSome

theorem Program.Kept.of_closed {g : Program} (kept : g.Kept) (closed : g.closed = true) :
    g.que = [] ∧ g.put = g.stdin.map some ++ [none] := by
  have put := kept.closed closed
  obtain ⟨frames, all⟩ := kept.final (put ▸ List.mem_append_right _ List.mem_cons_self)
  have frameless : none ∉ frames.map (some : Entry → Option Entry) := by simp
  obtain ⟨_, _, rest⟩ := (List.append_cons_inj_of_notMem frameless List.not_mem_nil).mp
    (all.symm.trans put)
  exact ⟨rest.symm, rest ▸ put⟩

theorem Inv.piped {settings : Settings} {s : Client} (inv : Inv settings s) : Piped settings s where
  ordered := fun p => by
    have kept := inv.stored.programs p
    by_cases closed : (s.programs p).closed = true
    · rw [kept.closed closed]
      exact List.prefix_append _ _
    · by_cases loops : (s.programs p).thread = .looping
      · rw [(kept.looping loops).2]
        exact List.prefix_append _ _
      · obtain ⟨lost, put⟩ := kept.broken loops (Bool.eq_false_of_not_eq_true closed)
        rw [put]
        exact List.prefix_append _ _
  written := fun p loops empty => by
    rw [((inv.stored.programs p).looping loops).2, empty, List.append_nil]
  closed := fun p closed => (inv.stored.programs p).of_closed closed
  frames := inv.stored.frames
  apart := inv.stored.apart
  ends := fun i p member closed => by
    have put := ((inv.stored.programs p).of_closed closed).2
    exact inv.stored.ended i p member (put ▸ List.mem_append_right _ List.mem_cons_self)
  channel := inv.stored.channel
  running := fun wid i found => (inv.referred.xlaters wid i found).2
  keys := inv.referred.keys

/-- Whatever the server sends, the user does and the threads and processes make of it,
in any order. -/
theorem piped_of_reachable {settings : Settings} {s : Client}
    (reach : (machine settings).Reachable Machine.Any s) : Piped settings s := by
  refine Inv.piped (reach.invariant ?_ ?_)
  · rintro s rfl
    exact ⟨.init settings, .init⟩
  · intro s act t inv _ step
    exact inv.step step

/-- A program gets a frame, is replaced and never hears of the end; the one after it
gets two frames and the end. -/
theorem piped_replaced : ∃ s, (machine Squelch.settings).Reachable Machine.Any s ∧
    (s.programs 0).closed = false ∧
    (s.programs 0).put = [some (0, .raw [1])] ∧
    s.programs 1 = ⟨[], .leaving, [(1, .raw [2]), (2, .raw [3])], true,
      [some (1, .raw [2]), some (2, .raw [3]), none]⟩ ∧
    Piped Squelch.settings s := by
  have run : ((machine Squelch.settings).run? .init
      [.create_xlater 0 1 [] (-1), .running ⟨0, 0, 0, 1⟩, .payload (Squelch.frame 1 [1]) false,
        .subscribe_xlater 0, .payload (Squelch.frame 1 [2]) false,
        .payload (Squelch.frame 1 [3]) false, .feed 1 true, .destroyed 0, .feed 1 true,
        .feed 1 true]).any
      (fun s => decide ((s.programs 0).closed = false ∧
        (s.programs 0).put = [some (0, .raw [1])] ∧
        s.programs 1 = ⟨[], .leaving, [(1, .raw [2]), (2, .raw [3])], true,
          [some (1, .raw [2]), some (2, .raw [3]), none]⟩)) = true := by decide +kernel
  obtain ⟨s, reached, found⟩ := (Option.any_eq_true _ _).mp run
  obtain ⟨going, put, ended⟩ := of_decide_eq_true found
  have reach : (machine Squelch.settings).Reachable Machine.Any s := ⟨_, _, rfl, .of_run? reached⟩
  exact ⟨s, reach, going, put, ended, piped_of_reachable reach⟩

end Kukuruku.Clients.Programs
