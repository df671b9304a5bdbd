import Mathlib.Data.Rat.Floor
import Kukuruku.Clients.LibClient
import Kukuruku.Clients.Transport
import Kukuruku.Foundation.PythonList
import Kukuruku.Foundation.PythonNumerals
import Kukuruku.Foundation.Truncate
import Kukuruku.Server.C2s

/-!
# Calls of the client library

What each method of `client` queues for the server, and what the server's thread
makes of the bytes that `tcp_send_thr` sends for the queue.  A value that a field
does not hold raises an exception, and nothing is queued.
-/

namespace Kukuruku.Clients.Requests

open Framing PythonList PythonNumerals
open Kukuruku.Server
open Kukuruku.Server.Messages
open Kukuruku.Server.C2s
open Kukuruku.Clients.LibClient
open Kukuruku.Clients.Transport

/-! ## The methods -/

/-- `int(x)`; infinities and NaN are errors. -/
def toInt? : Number → Option Int
  | .int n => some n
  | .float (.finite x) => some (truncate x)
  | .float _ => none

/-- A call of a method that sends a message. -/
inductive Call where
  | connect
  | enable_spectrum
  | enable_histo
  | disable_spectrum
  | disable_histo
  | record (startframe duration : Int)
  | create_xlater (rotate : Float32Bits) (decimation : Number) (taps : List Float32Bits)
      (history : Int)
  | modify_xlater (xid : Int) (rotate : Float32Bits) (taps : List Float32Bits)
  | destroy_xlater (xid : Int)
  | enable_xlater (idx : Int) (sampleformat : SampleFormat)
  | disable_xlater (idx : Int)
  | list_xlaters
  | set_frequency (f : Number)
  | set_gain (gain : List Int)
  | set_ppm (ppm : Int)

/-- `gain[min(len(gain)-1, k)]`. -/
def gainAt (gain : List Int) (k : Int) : Option Int := index? gain (min ((gain.length : Int) - 1) k)

def set_gain (gain : List Int) : Option Gain := do
  return ⟨← gainAt gain 0, ← gainAt gain 1, ← gainAt gain 2, ← gainAt gain 3⟩

/-- The message of a call, with the values as they are assigned. -/
def asked (xln : Nat) : Call → Option CliMsg
  | .connect => some .GET_INFO
  | .enable_spectrum => some .ENABLE_SPECTRUM
  | .enable_histo => some .ENABLE_HISTO
  | .disable_spectrum => some (.unknown 14)
  | .disable_histo => some (.unknown 16)
  | .record startframe duration => some (.RECORD_START startframe duration)
  | .create_xlater rotate decimation taps history =>
      (toInt? decimation).map fun decimation =>
        .CREATE_XLATER xln rotate decimation history taps
  | .modify_xlater xid rotate taps => some (.MODIFY_XLATER xid rotate taps)
  | .destroy_xlater xid => some (.DESTROY_XLATER xid)
  | .enable_xlater idx sampleformat => sampleformat.type?.map (.ENABLE_XLATER idx)
  | .disable_xlater idx => some (.DISABLE_XLATER idx)
  | .list_xlaters => some .LIST_XLATERS
  | .set_frequency f => (toInt? f).map .RETUNE
  | .set_gain gain => (set_gain gain).map .SET_GAIN
  | .set_ppm ppm => some (.SET_PPM ppm)

/-- The message that is queued, if no assignment raises an exception. -/
def sent (xln : Nat) (call : Call) : Option CliMsg :=
  (asked xln call).filter fun msg => Assignable msg

/-- The client after a call.  An exception leaves what was changed before it. -/
def perform (cl : Client) : Call → Client
  | .create_xlater rotate decimation taps history =>
      match toInt? decimation with
      | none => cl
      | some decimation =>
          let next := cl.create_xlater rotate decimation taps history
          if Assignable (.CREATE_XLATER cl.xln rotate decimation history taps) then next
          else { next with msgq := cl.msgq, xln := cl.xln }
  | .modify_xlater xid rotate taps =>
      match cl.modify_xlater xid rotate taps with
      | none => cl
      | some next => if Int32 xid then next else { next with msgq := cl.msgq }
  | call => (sent cl.xln call).elim cl cl.q_msg

/-- What the threads of a client do: calls, and messages of the server. -/
inductive Act where
  | call (call : Call)
  | set_auto_enable_xlater (val : Bool) (st : SampleFormat)
  | receive (msg : SrvMsg)

/-- The values of a received message come from its fields. -/
def Act.Held : Act → Prop
  | .receive msg => C2s.Held msg
  | _ => True

def act (cl : Client) : Act → Client
  | .call call => perform cl call
  | .set_auto_enable_xlater val st => cl.set_auto_enable_xlater val st
  | .receive msg => (cl.dispatch msg).getD cl

def after (acts : List Act) : Client := acts.foldl act Client.init

/-! ## What is queued -/

/-- Everything in the queue was assigned to fields. -/
def Proper (cl : Client) : Prop := ∀ msg ∈ cl.msgq, Assignable msg

section

variable {cl : Client}

theorem Proper.q_msg (proper : Proper cl) {msg : CliMsg} (assignable : Assignable msg) :
    Proper (cl.q_msg msg) := by
  intro other member
  rcases List.mem_append.mp member with earlier | last
  · exact proper other earlier
  · rwa [List.mem_singleton.mp last]

theorem Proper.sent (proper : Proper cl) (call : Call) :
    Proper ((sent cl.xln call).elim cl cl.q_msg) := by
  cases found : Requests.sent cl.xln call with
  | none => exact proper
  | some msg =>
      rw [Requests.sent, Option.filter_eq_some_iff] at found
      exact proper.q_msg (of_decide_eq_true found.2)

theorem Proper.perform (proper : Proper cl) (call : Call) : Proper (perform cl call) := by
  cases call with
  | create_xlater rotate decimation taps history =>
      simp only [Requests.perform]
      split
      · exact proper
      · split
        · next assignable => exact proper.q_msg assignable
        · exact proper
  | modify_xlater xid rotate taps =>
      simp only [Requests.perform]
      split
      · exact proper
      · next next step =>
        obtain ⟨xl, known, rfl⟩ := Option.map_eq_some_iff.mp step
        split
        · next range => exact proper.q_msg range
        · exact proper
  | _ => exact proper.sent _

theorem known_of_type? {format : SampleFormat} {type : SampleType}
    (named : format.type? = some type) : type ∈ [SampleType.F32, .I16, .I8] := by
  cases format with
  | bad => cases named
  | F32 | I16 | I8 =>
      obtain rfl := Option.some.inj named
      decide

/-- A received message makes the client ask for nothing but the xlater it tells. -/
theorem Proper.receive (proper : Proper cl) {msg : SrvMsg} (held : C2s.Held msg) :
    Proper ((cl.dispatch msg).getD cl) := by
  cases msg with
  | running msg =>
      simp only [Client.dispatch, Client.srv_running_xlater]
      split
      · exact proper
      · cases auto : cl.auto_enable_xlater with
        | false => exact proper
        | true =>
            cases named : cl.preferred_sample_type.type? with
            | none => simpa [Client.enable_xlater, named] using proper
            | some type =>
                simp only [if_true, Client.enable_xlater, named, Option.map_some,
                  Option.getD_some]
                exact proper.q_msg ⟨held.2.1, known_of_type? named⟩
      · exact proper
  | _ => exact proper

theorem Proper.act (proper : Proper cl) {act : Act} (held : act.Held) :
    Proper (Requests.act cl act) := by
  cases act with
  | call call => exact proper.perform call
  | set_auto_enable_xlater => exact proper
  | receive msg => exact proper.receive held

end

theorem proper_after {acts : List Act} (held : ∀ act ∈ acts, act.Held) : Proper (after acts) := by
  induction acts using List.reverseRecOn with
  | nil => exact nofun
  | append_singleton acts act ih =>
      rw [after, List.foldl_append]
      refine Proper.act (ih fun other member => held other ?_) (held act ?_)
      · exact List.mem_append_left _ member
      · exact List.mem_append_right _ (List.mem_singleton_self act)

/-! ## What the server handles -/

section Stream

variable (c2s : Generated)

/-- The server takes bodies of up to 1 MiB. -/
def fits (msg : CliMsg) : Bool := (c2s.body msg).length ≤ 1024 * 1024

/-- The messages whose frames lie within the first `count` bytes. -/
def arrived : List CliMsg → Nat → List CliMsg
  | [], _ => []
  | msg :: rest, count =>
      if Socket.requests.width + (c2s.body msg).length ≤ count then
        msg :: arrived rest (count - (Socket.requests.width + (c2s.body msg).length))
      else []

theorem contained_bodies (msgs : List CliMsg) (count : Nat) :
    Socket.requests.contained (msgs.map c2s.body) count =
      (arrived c2s msgs count).map c2s.body := by
  induction msgs generalizing count with
  | nil => rfl
  | cons msg rest ih =>
      rw [List.map_cons, Format.contained, arrived, ih]
      split <;> rfl

theorem arrived_subset (msgs : List CliMsg) (count : Nat) : arrived c2s msgs count ⊆ msgs := by
  induction msgs generalizing count with
  | nil => exact List.Subset.refl _
  | cons msg rest ih =>
      rw [arrived]
      split
      · exact List.cons_subset_cons msg (ih _)
      · exact List.nil_subset _

theorem arrived_of_le {msgs : List CliMsg} {count : Nat}
    (whole : (tcp_send_thr (msgs.map c2s.body)).length ≤ count) :
    arrived c2s msgs count = msgs := by
  induction msgs generalizing count with
  | nil => rfl
  | cons msg rest ih =>
      rw [tcp_send_thr_eq_wire, List.map_cons, Format.wire_cons, List.length_append,
        Format.length_frame, ← tcp_send_thr_eq_wire] at whole
      rw [arrived, if_pos (by omega), ih (by omega)]

theorem le_length_body (msg : CliMsg) : 4 ≤ (c2s.body msg).length := by
  rw [Generated.body, List.length_append, length_LE32]
  exact Nat.le_add_right 4 _

theorem accepted_of_fits {msg : CliMsg} (small : fits c2s msg = true) :
    Socket.requests.announced (Socket.requests.header (c2s.body msg).length) =
      some (c2s.body msg).length :=
  Request.accepted ⟨c2s.body msg, le_length_body c2s msg, of_decide_eq_true small⟩

theorem refused_of_not_fits {msg : CliMsg} (large : fits c2s msg ≠ true)
    (short : (c2s.body msg).length < 2 ^ 31) :
    Socket.requests.announced (Socket.requests.header (c2s.body msg).length) = none := by
  have above : ¬(c2s.body msg).length ≤ 1024 * 1024 := by simpa [fits] using large
  have told : Endian.signed (LE32 (c2s.body msg).length) = (c2s.body msg).length :=
    Endian.signed_LE32 (by omega) (by omega)
  simp only [Socket.requests, told]
  exact if_pos (by omega)

/-- The thread hands over what arrives before the first message above 1 MiB. -/
theorem client_read_thr_eq {msgs : List CliMsg}
    (short : ∀ msg ∈ msgs, (c2s.body msg).length < 2 ^ 31) {fd : Socket.Fd}
    (sent : fd.pending <+: tcp_send_thr (msgs.map c2s.body)) :
    Socket.client_read_thr fd =
      (arrived c2s (msgs.takeWhile (fits c2s)) fd.pending.length).map c2s.body := by
  have accepted : ∀ body ∈ (msgs.takeWhile (fits c2s)).map c2s.body,
      Socket.requests.announced (Socket.requests.header body.length) = some body.length := by
    intro body member
    obtain ⟨msg, taken, rfl⟩ := List.mem_map.mp member
    exact accepted_of_fits c2s (List.mem_takeWhile_imp taken)
  rw [Socket.client_read_thr_eq_split, ← contained_bodies]
  cases later : msgs.dropWhile (fits c2s) with
  | nil =>
      have all : msgs.takeWhile (fits c2s) = msgs := by
        simpa [later] using List.takeWhile_append_dropWhile (p := fits c2s) (l := msgs)
      rw [all] at accepted ⊢
      exact Socket.requests.split_eq_contained accepted sent
  | cons first after =>
      have large : fits c2s first ≠ true := by
        have head := List.head?_dropWhile_not (fits c2s) msgs
        rw [later] at head
        simpa using head
      have whole : msgs.map c2s.body = (msgs.takeWhile (fits c2s)).map c2s.body ++
          c2s.body first :: after.map c2s.body := by
        rw [← List.map_cons, ← later, ← List.map_append, List.takeWhile_append_dropWhile]
      have member : first ∈ msgs :=
        (List.dropWhile_sublist (fits c2s)).subset (later ▸ List.mem_cons_self)
      rw [whole, tcp_send_thr_eq_wire] at sent
      exact Socket.requests.split_eq_contained_of_refused accepted
        (refused_of_not_fits c2s large (short first member)) sent

/-- Whatever a client does, and however the bytes of its requests are cut, the
server runs the handlers of those that have arrived, in order, with the arguments
of the calls, up to the first request above 1 MiB and none after it. -/
theorem requests_handled (acts : List Act) (held : ∀ act ∈ acts, act.Held)
    (short : ∀ msg ∈ (after acts).msgq, (c2s.body msg).length < 2 ^ 31) (fd : Socket.Fd)
    (sent : fd.pending <+: tcp_send_thr ((after acts).msgq.map c2s.body)) :
    List.Forall₂
        (fun body msg => ∀ workers me now,
          RequestBytes.parse_client_req c2s.unpack workers me now body =
            .ok (ClientParser.parse_client_req me now msg))
        (Socket.client_read_thr fd)
        (arrived c2s ((after acts).msgq.takeWhile (fits c2s)) fd.pending.length) ∧
      (fd.pending = tcp_send_thr ((after acts).msgq.map c2s.body) →
        arrived c2s ((after acts).msgq.takeWhile (fits c2s)) fd.pending.length =
          (after acts).msgq.takeWhile (fits c2s)) := by
  constructor
  · rw [client_read_thr_eq c2s short sent, List.forall₂_map_left_iff, List.forall₂_same]
    intro msg member workers me now
    have queued := List.takeWhile_subset _ (arrived_subset c2s _ _ member)
    exact parse_client_req_body c2s (proper_after held msg queued) workers me now
  · intro whole
    refine arrived_of_le c2s ?_
    rw [whole, tcp_send_thr, tcp_send_thr]
    exact (((List.takeWhile_sublist (fits c2s)).map c2s.body).flatMap _).length_le

end Stream

/-- `set_gain([7])`, cut inside its length. -/
theorem requests_handled_gain :
    ∃ body, Socket.client_read_thr ⟨[⟨[12, 0, 0], by decide⟩,
        ⟨[0, 8, 0, 0, 0, 8, 7, 16, 7, 24, 7, 32, 7], by decide⟩], 0, by decide⟩ = [body] ∧
      RequestBytes.parse_client_req unpackFields [] 0 0 body =
        .ok (ClientParser.parse_client_req 0 0 (.SET_GAIN ⟨7, 7, 7, 7⟩)) := by
  have handled := (requests_handled .documented [.call (.set_gain [7])]
    (fun act member => by rw [List.mem_singleton.mp member]; trivial) (by decide +kernel)
    ⟨[⟨[12, 0, 0], by decide⟩,
      ⟨[0, 8, 0, 0, 0, 8, 7, 16, 7, 24, 7, 32, 7], by decide⟩], 0, by decide⟩
    (by decide +kernel)).1
  obtain ⟨body, rest, runs, none, read⟩ := List.forall₂_cons_right_iff.mp handled
  obtain rfl := List.forall₂_nil_right_iff.mp none
  exact ⟨body, read, runs [] 0 0⟩

end Kukuruku.Clients.Requests
