import Mathlib.Data.Set.Defs
import Kukuruku.Server.Messages

/-!
# The client library

One `client` of `libclient.py` as far as it keeps track of xlaters.  Floats are
the bit patterns that go on the wire; callbacks and the processes that channels
are piped to are left out.  `moved` is history: the entries of `xlater_q` that
became entries of `xlaters`, as pairs of reference and server id.
-/

namespace Kukuruku.Clients.LibClient

open Kukuruku.Server.Messages

structure Xlater where
  rotate : Option Float32Bits
  decimation : Option Int
  sql : Bool
  afc : Bool
  rid : Option Int
deriving DecidableEq

def Xlater.new : Xlater := ⟨none, none, false, false, none⟩

/-- A sample format by its name; `bad` is any name but those of the formats. -/
inductive SampleFormat where
  | F32
  | I16
  | I8
  | bad
deriving DecidableEq

def SampleFormat.type? : SampleFormat → Option SampleType
  | .F32 => some .F32
  | .I16 => some .I16
  | .I8 => some .I8
  | .bad => none

structure Client where
  xlaters : Int → Option Xlater
  xlater_q : Int → Option Xlater
  msgq : List CliMsg
  auto_enable_xlater : Bool
  preferred_sample_type : SampleFormat
  xln : Nat
  moved : List (Int × Int)

namespace Client

def init : Client where
  xlaters := fun _ => none
  xlater_q := fun _ => none
  msgq := []
  auto_enable_xlater := false
  preferred_sample_type := .F32
  xln := 0
  moved := []

def q_msg (cl : Client) (msg : CliMsg) : Client := { cl with msgq := cl.msgq ++ [msg] }

def set_auto_enable_xlater (cl : Client) (val : Bool) (st : SampleFormat) : Client :=
  { cl with auto_enable_xlater := val, preferred_sample_type := st }

def create_xlater (cl : Client) (rotate : Float32Bits) (decimation : Int)
    (taps : List Float32Bits) (history : Int) : Client :=
  let pending_xlater : Xlater :=
    { Xlater.new with rotate := rotate, decimation := decimation, rid := some cl.xln }
  { cl.q_msg (.CREATE_XLATER cl.xln rotate decimation history taps) with
    xlater_q := Function.update cl.xlater_q cl.xln (some pending_xlater)
    xln := cl.xln + 1 }

/-- An unknown `xid` is a `KeyError`. -/
def modify_xlater (cl : Client) (xid : Int) (rotate : Float32Bits) (taps : List Float32Bits) :
    Option Client :=
  (cl.xlaters xid).map fun xl =>
    { cl.q_msg (.MODIFY_XLATER xid rotate taps) with
      xlaters := Function.update cl.xlaters xid (some { xl with rotate := rotate }) }

/-- A bad format raises an exception. -/
def enable_xlater (cl : Client) (idx : Int) (sampleformat : SampleFormat) : Option Client :=
  sampleformat.type?.map fun type => cl.q_msg (.ENABLE_XLATER idx type)

/-- The end of `srv_running_xlater`. -/
def store (cl : Client) (msg : SRV_RUNNING_XLATER) (xl : Xlater) : Client :=
  { cl with
    xlaters := Function.update cl.xlaters msg.id
      (some { xl with rotate := msg.rotate, decimation := msg.decimation }) }

def srv_running_xlater (cl : Client) (msg : SRV_RUNNING_XLATER) : Option Client :=
  match cl.xlaters msg.id, cl.xlater_q msg.remoteid with
  | some xl, _ => some (cl.store msg xl)
  | none, some xl =>
      let enabled :=
        if cl.auto_enable_xlater then cl.enable_xlater msg.id cl.preferred_sample_type
        else some cl
      enabled.map fun cl =>
        { cl.store msg xl with
          xlater_q := Function.update cl.xlater_q msg.remoteid none
          moved := cl.moved ++ [(msg.remoteid, msg.id)] }
  | none, none => some (cl.store msg Xlater.new)

def srv_destroyed_xlater (cl : Client) (id : Int) : Client :=
  { cl with xlaters := Function.update cl.xlaters id none }

/-- One round of `tcp_receive_thr`; none where an exception ends the thread.  What
the handling of a payload asks the server for is queued by calls of its own. -/
def dispatch (cl : Client) : SrvMsg → Option Client
  | .running msg => cl.srv_running_xlater msg
  | .destroyed id => some (cl.srv_destroyed_xlater id)
  | _ => some cl

/-- The key set of `xlaters`. -/
def keys (cl : Client) : Set Int := { id | (cl.xlaters id).isSome }

theorem mem_keys {cl : Client} {id : Int} : id ∈ cl.keys ↔ (cl.xlaters id).isSome = true :=
  Iff.rfl

instance (cl : Client) (id : Int) : Decidable (id ∈ cl.keys) :=
  inferInstanceAs (Decidable ((cl.xlaters id).isSome = true))

/-- The first case updates, the second one moves a pending xlater, the third one
learns of a new one. -/
inductive Running (cl : Client) (msg : SRV_RUNNING_XLATER) : Client → Prop where
  | update {xl : Xlater} (known : cl.xlaters msg.id = some xl) :
      Running cl msg (cl.store msg xl)
  | move {xl : Xlater} {msgq : List CliMsg} (unknown : cl.xlaters msg.id = none)
      (pending : cl.xlater_q msg.remoteid = some xl)
      (sent : msgq = cl.msgq ∨ ∃ type, msgq = cl.msgq ++ [.ENABLE_XLATER msg.id type]) :
      Running cl msg { cl.store msg xl with
        msgq := msgq
        xlater_q := Function.update cl.xlater_q msg.remoteid none
        moved := cl.moved ++ [(msg.remoteid, msg.id)] }
  | new (unknown : cl.xlaters msg.id = none) (other : cl.xlater_q msg.remoteid = none) :
      Running cl msg (cl.store msg Xlater.new)

theorem Running.of_srv_running_xlater {cl next : Client} {msg : SRV_RUNNING_XLATER}
    (step : cl.srv_running_xlater msg = some next) : Running cl msg next := by
  unfold srv_running_xlater at step
  split at step
  · rename_i xl known
    obtain rfl := Option.some.inj step
    exact .update known
  · rename_i xl unknown pending
    obtain ⟨enabled, sends, rfl⟩ := Option.map_eq_some_iff.mp step
    split at sends
    · obtain ⟨type, _, rfl⟩ := Option.map_eq_some_iff.mp sends
      exact .move unknown pending (Or.inr ⟨type, rfl⟩)
    · obtain rfl := Option.some.inj sends
      exact .move unknown pending (Or.inl rfl)
  · rename_i unknown other
    obtain rfl := Option.some.inj step
    exact .new unknown other

/-! ## The keys of `xlaters` -/

@[simp] theorem mem_keys_store (cl : Client) (msg : SRV_RUNNING_XLATER) (xl : Xlater) (id : Int) :
    id ∈ (cl.store msg xl).keys ↔ id = msg.id ∨ id ∈ cl.keys := by
  by_cases same : id = msg.id
  · subst same
    simp [mem_keys, store]
  · simp [mem_keys, store, same]

theorem Running.mem_keys {cl next : Client} {msg : SRV_RUNNING_XLATER}
    (running : Running cl msg next) (id : Int) :
    id ∈ next.keys ↔ id = msg.id ∨ id ∈ cl.keys := by
  cases running with
  | update | new => exact mem_keys_store cl msg _ id
  | @move xl => exact mem_keys_store cl msg xl id

@[simp] theorem mem_keys_destroyed (cl : Client) (destroyed id : Int) :
    id ∈ (cl.srv_destroyed_xlater destroyed).keys ↔ id ≠ destroyed ∧ id ∈ cl.keys := by
  by_cases same : id = destroyed
  · subst same
    simp [mem_keys, srv_destroyed_xlater]
  · simp [mem_keys, srv_destroyed_xlater, same]

theorem keys_modify_xlater {cl next : Client} {xid : Int} {rotate : Float32Bits}
    {taps : List Float32Bits} (step : cl.modify_xlater xid rotate taps = some next) :
    next.keys = cl.keys := by
  obtain ⟨xl, known, rfl⟩ := Option.map_eq_some_iff.mp step
  ext id
  by_cases same : id = xid
  · subst same
    simp [mem_keys, q_msg, known]
  · simp [mem_keys, q_msg, same]

end Client

end Kukuruku.Clients.LibClient
