import Kukuruku.Clients.Network
import Kukuruku.Clients.Payload
import Kukuruku.Clients.Requests
import Kukuruku.Clients.XlaterSet
import Kukuruku.Server.StreamIntegrity

/-!
# The network on bytes

Clients and server joined by byte streams: `tcp_send_thr` puts a queued message on
the stream, `client_read_thr` takes bytes off it until it has a whole request, and
`tcp_receive_thr` does the same on the other direction.  Every run is a run of the
network in which whole messages pass.
-/

namespace Kukuruku.Clients.WireNetwork

open Framing
open Kukuruku.Server
open Kukuruku.Server.Messages
open Kukuruku.Server.ClientParser
open Kukuruku.Server.C2s
open Kukuruku.Server.Threads
open Kukuruku.Server.StreamIntegrity
open Kukuruku.Clients.LibClient
open Kukuruku.Clients.Transport
open Kukuruku.Clients.Network

/-! ## The machine -/

/-- `toServer` is what a client has sent and the server has not read; `taken` counts
the bytes that a client has read from its socket. -/
structure Wire where
  sys : Sys
  clients : Nat → Client
  toServer : Nat → List UInt8
  taken : Nat → Nat

/-- `fd` and `sock` are the streams in the pieces in which they arrive. -/
inductive Act where
  | server (act : Server.Threads.Act)
  | send (cli : Nat)
  | read (cli : Nat) (now : Int) (fd : Socket.Fd)
  | create_xlater (cli : Nat) (rotate : Float32Bits) (decimation : Int)
      (taps : List Float32Bits) (history : Int)
  | modify_xlater (cli : Nat) (xid : Int) (rotate : Float32Bits) (taps : List Float32Bits)
  | set_auto_enable_xlater (cli : Nat) (val : Bool) (st : SampleFormat)
  | q_msg (cli : Nat) (msg : CliMsg)
  | receive (cli : Nat) (sock : List (Chunk UInt8))

/-- The handlers of `tcp_receive_thr`, as far as they keep track of xlaters; a
message that does not parse is an exception. -/
def handle (c2s : Generated) (cl : Client) : Dispatch → Option Client
  | .srv_running_xlater data => (c2s.running data).bind cl.srv_running_xlater
  | .srv_destroyed_xlater data => (c2s.destroyed data).map cl.srv_destroyed_xlater
  | .process_info data => (c2s.info data).map fun _ => cl
  | .process_payload _ => some cl
  | .unknown _ => some cl

namespace Wire

def start (srv : Server) : Wire where
  sys := Sys.start srv
  clients := fun _ => Client.init
  toServer := fun _ => []
  taken := fun _ => 0

def setClient (s : Wire) (cli : Nat) (client : Client) : Wire :=
  { s with clients := Function.update s.clients cli client }

/-- One round of `tcp_send_thr`. -/
def send (c2s : Generated) (s : Wire) (cli : Nat) : Option Wire :=
  match (s.clients cli).msgq with
  | [] => none
  | msg :: later =>
      some { s.setClient cli { s.clients cli with msgq := later } with
        toServer := Function.update s.toServer cli
          (s.toServer cli ++ tcp_send_thr [c2s.body msg]) }

/-- One round of `client_read_thr`, which waits for a whole request; a request that
faults has no step. -/
def read (c2s : Generated) (s : Wire) (cli : Nat) (now : Int) (fd : Socket.Fd) : Option Wire :=
  let head := Socket.readn fd 4
  let size := Endian.signed head.buf
  let body := Socket.readn head.fd size.toNat
  if fd.pending ≠ s.toServer cli ∨ head.ret ≤ 0 ∨ size ≤ 0 ∨ size > 1024 * 1024 ∨
      body.ret < size ∨ (s.sys.srv.client? cli).isNone ∨ s.sys.prog (.client cli) ≠ [] then none
  else
    match RequestBytes.parse_client_req c2s.unpack s.sys.srv.worker_head cli now body.buf with
    | .error _ => none
    | .ok prog =>
        some { s with
          sys := s.sys.setProg (.client cli) prog
          toServer := Function.update s.toServer cli body.fd.pending }

/-- One round of `tcp_receive_thr`, which waits for a whole message. -/
def receive (c2s : Generated) (s : Wire) (cli : Nat) (sock : List (Chunk UInt8)) : Option Wire :=
  let head := getdata sock 4
  let d := getdata head.2 (Endian.signed (head.1.take 4))
  if joined sock ≠ (s.sys.sock cli).drop (s.taken cli) ∨ head.1.length < 4 ∨ d.1.length < 4 then
    none
  else
    (handle c2s (s.clients cli) (dispatch d.1)).map fun client =>
      { s.setClient cli client with
        taken := Function.update s.taken cli
          (s.taken cli + ((joined sock).length - (joined d.2).length)) }

def step? (c2s : Generated) (s : Wire) : Act → Option Wire
  | .server act =>
      if isRequest act then none
      else (s.sys.step? c2s.pack act).map fun sys => { s with sys := sys }
  | .send cli => s.send c2s cli
  | .read cli now fd => s.read c2s cli now fd
  | .create_xlater cli rotate decimation taps history =>
      some (s.setClient cli ((s.clients cli).create_xlater rotate decimation taps history))
  | .modify_xlater cli xid rotate taps =>
      ((s.clients cli).modify_xlater xid rotate taps).map (s.setClient cli)
  | .set_auto_enable_xlater cli val st =>
      some (s.setClient cli ((s.clients cli).set_auto_enable_xlater val st))
  | .q_msg cli msg => some (s.setClient cli ((s.clients cli).q_msg msg))
  | .receive cli sock => s.receive c2s cli sock

end Wire

def wire (c2s : Generated) : Machine Wire Act where
  Initial s := ∃ srv, Fresh srv ∧ s = Wire.start srv
  step? := Wire.step? c2s

/-- The step of whole messages that a step on bytes stands for. -/
def abstract : Act → Option Network.Act
  | .server act => some (.server act)
  | .send _ => none
  | .read cli now _ => some (.read cli now)
  | .create_xlater cli rotate decimation taps history =>
      some (.create_xlater cli rotate decimation taps history)
  | .modify_xlater cli xid rotate taps => some (.modify_xlater cli xid rotate taps)
  | .set_auto_enable_xlater cli val st => some (.set_auto_enable_xlater cli val st)
  | .q_msg cli msg => some (.q_msg cli msg)
  | .receive cli _ => some (.receive cli)

/-- Writes to one socket do not mix, what is sent was assigned to fields and stays
within 1 MiB, and the variables that the server reports hold their values. -/
def Sound (c2s : Generated) (s : Wire) : Act → Prop
  | .server act => Exclusive s.sys act
  | .send cli => ∀ msg ∈ (s.clients cli).msgq.head?,
      Assignable msg ∧ (c2s.body msg).length ≤ 1024 * 1024
  | .receive cli _ => ∀ msg ∈ s.sys.log cli, Held msg
  | _ => True

/-! ## The relation -/

/-- What is on the way comes before what is still queued. -/
def behind (flight : List CliMsg) (cl : Client) : Client :=
  { cl with msgq := flight ++ cl.msgq }

/-- A message on the way to the server. -/
def Sendable (c2s : Generated) (msg : CliMsg) : Prop :=
  Assignable msg ∧ (c2s.body msg).length ≤ 1024 * 1024

/-- The state on bytes and the state on messages. -/
structure Refines (c2s : Generated) (s : Wire) (n : Net) : Prop where
  sys : n.sys = s.sys
  streams : Streams c2s.pack s.sys
  queued : ∀ cli, ∃ flight : List CliMsg,
    s.toServer cli = tcp_send_thr (flight.map c2s.body) ∧ (∀ msg ∈ flight, Sendable c2s msg) ∧
      n.clients cli = behind flight (s.clients cli)
  received : ∀ cli, n.received cli ≤ (s.sys.log cli).length ∧
    s.taken cli =
      (((s.sys.log cli).take (n.received cli)).flatMap (SrvMsg.bytes c2s.pack)).length

/-! ## Clients with messages on the way -/

section Behind

variable (flight : List CliMsg) (cl : Client)

theorem behind_q_msg (msg : CliMsg) :
    behind flight (cl.q_msg msg) = (behind flight cl).q_msg msg := by
  rw [behind, behind, Client.q_msg, Client.q_msg, List.append_assoc]

theorem behind_create_xlater (rotate : Float32Bits) (decimation : Int)
    (taps : List Float32Bits) (history : Int) :
    behind flight (cl.create_xlater rotate decimation taps history) =
      (behind flight cl).create_xlater rotate decimation taps history := by
  simp only [behind, Client.create_xlater, Client.q_msg, List.append_assoc]

theorem modify_xlater_behind (xid : Int) (rotate : Float32Bits) (taps : List Float32Bits) :
    (behind flight cl).modify_xlater xid rotate taps =
      (cl.modify_xlater xid rotate taps).map (behind flight) := by
  rw [Client.modify_xlater, Client.modify_xlater, Option.map_map]
  congr 1
  funext xl
  simp only [Function.comp_apply, behind, Client.q_msg, List.append_assoc]

theorem dispatch_behind (msg : SrvMsg) :
    (behind flight cl).dispatch msg = (cl.dispatch msg).map (behind flight) := by
  obtain ⟨xlaters, xlater_q, msgq, auto_enable_xlater, preferred_sample_type, xln, moved⟩ := cl
  cases msg with
  | running msg =>
      simp only [Client.dispatch, Client.srv_running_xlater, behind]
      split
      · rfl
      · cases auto_enable_xlater with
        | false => rfl
        | true =>
            simp only [if_true, Client.enable_xlater]
            cases preferred_sample_type.type? with
            | none => rfl
            | some type =>
                simp only [Option.map_some, behind, Client.q_msg, Client.store,
                  List.append_assoc]
      · rfl
  | _ => rfl

end Behind

/-! ## One message -/

/-- A handler gets the values that the server has packed. -/
theorem handle_dispatch (c2s : Generated) (cl : Client) {msg : SrvMsg} (held : Held msg) :
    handle c2s cl (dispatch (msg.writes c2s.pack).flatten) = cl.dispatch msg := by
  have typed (type : Int) (data : List UInt8) (low : -2 ^ 31 ≤ type) (high : type < 2 ^ 31) :
      Endian.signed ((LE32 type ++ data).take 4) = type ∧ (LE32 type ++ data).drop 4 = data := by
    rw [List.take_left' (length_LE32 type), List.drop_left' (length_LE32 type)]
    exact ⟨Endian.signed_LE32 low high, rfl⟩
  cases msg with
  | running msg =>
      obtain ⟨type, data⟩ := typed 258 (c2s.pack.running msg) (by decide) (by decide)
      simp only [SrvMsg.writes, List.flatten_cons, List.flatten_nil, List.append_nil, dispatch,
        type, data, if_true]
      rw [handle, c2s.running_packed held]
      rfl
  | info msg =>
      obtain ⟨type, data⟩ := typed 259 (c2s.pack.info msg) (by decide) (by decide)
      simp only [SrvMsg.writes, List.flatten_cons, List.flatten_nil, List.append_nil, dispatch,
        type, data]
      exact (congrArg (Option.map fun _ => cl) (c2s.info_packed held)).trans rfl
  | destroyed id =>
      obtain ⟨type, data⟩ := typed 260 (c2s.pack.destroyed id) (by decide) (by decide)
      simp only [SrvMsg.writes, List.flatten_cons, List.flatten_nil, List.append_nil, dispatch,
        type, data]
      exact (congrArg (Option.map cl.srv_destroyed_xlater) (c2s.destroyed_packed held)).trans rfl
  | payload | spectrum | histo =>
      simp only [SrvMsg.writes, List.flatten_cons, Payload.dispatch_header]
      rfl

/-! ## Reading from a client -/

section Read

variable {c2s : Generated} {s u : Wire} {cli : Nat} {now : Int} {fd : Socket.Fd}

/-- The server reads the request that was sent first. -/
theorem Wire.read_inv {flight : List CliMsg} (step : s.read c2s cli now fd = some u)
    (stream : s.toServer cli = tcp_send_thr (flight.map c2s.body))
    (sendable : ∀ msg ∈ flight, Sendable c2s msg) :
    ∃ msg later, flight = msg :: later ∧
      ((s.sys.srv.client? cli).isSome ∧ s.sys.prog (.client cli) = []) ∧
      u = { s with
        sys := s.sys.setProg (.client cli) (ClientParser.parse_client_req cli now msg)
        toServer := Function.update s.toServer cli (tcp_send_thr (later.map c2s.body)) } := by
  simp only [Wire.read] at step
  split at step
  · cases step
  next waits =>
  obtain ⟨arrived, opened, -, -, -, connected, idle⟩ := by simpa only [not_or] using waits
  have pending : fd.pending = tcp_send_thr (flight.map c2s.body) :=
    (not_not.mp arrived).trans stream
  cases flight with
  | nil =>
      have short : fd.pending.length < 4 := by
        rw [pending]
        exact Nat.zero_lt_succ 3
      exact absurd (Socket.readn_short short) opened
  | cons msg later =>
      obtain ⟨assignable, limited⟩ := sendable msg List.mem_cons_self
      have four := Requests.le_length_body c2s msg
      have front : fd.pending =
          LE32 (c2s.body msg).length ++ (c2s.body msg ++ tcp_send_thr (later.map c2s.body)) := by
        rw [pending, tcp_send_thr, List.map_cons, List.flatMap_cons, List.append_assoc]
        rfl
      have enough : 4 ≤ fd.pending.length := by
        rw [front, List.length_append, length_LE32]
        exact Nat.le_add_right 4 _
      obtain ⟨-, head, left⟩ := Socket.readn_complete enough
      rw [front, List.take_left' (length_LE32 _)] at head
      rw [front, List.drop_left' (length_LE32 _)] at left
      have size : Endian.signed (Socket.readn fd 4).buf = (c2s.body msg).length := by
        rw [head]
        exact Endian.signed_LE32 (by omega) (by omega)
      have complete : (c2s.body msg).length ≤ (Socket.readn fd 4).fd.pending.length := by
        rw [left, List.length_append]
        exact Nat.le_add_right _ _
      obtain ⟨-, body, rest⟩ := Socket.readn_complete complete
      rw [left, List.take_left] at body
      rw [left, List.drop_left] at rest
      simp only [size, Int.toNat_natCast, body, rest,
        parse_client_req_body c2s assignable] at step
      obtain rfl := Option.some.inj step
      refine ⟨msg, later, rfl, ⟨?_, not_not.mp idle⟩, rfl⟩
      rwa [Bool.not_eq_true, Option.isNone_eq_false_iff] at connected

end Read

/-! ## Reading from the server -/

section Receive

variable {c2s : Generated} {s u : Wire} {cli : Nat} {sock : List (Chunk UInt8)}

theorem received_append {log : List SrvMsg} {count : Nat} {msg : SrvMsg} (pack : Protobuf)
    (next : log[count]? = some msg) :
    (log.take (count + 1)).flatMap (SrvMsg.bytes pack) =
      (log.take count).flatMap (SrvMsg.bytes pack) ++ msg.bytes pack := by
  rw [List.take_add_one, next, List.flatMap_append, Option.toList_some, List.flatMap_singleton]

/-- What follows the messages that were received. -/
theorem unread_prefix {pack : Protobuf} {log : List SrvMsg} {stream : List UInt8} {count : Nat}
    (intact : stream <+: log.flatMap (SrvMsg.bytes pack)) :
    stream.drop ((log.take count).flatMap (SrvMsg.bytes pack)).length <+:
      (log.drop count).flatMap (SrvMsg.bytes pack) := by
  have whole : log.flatMap (SrvMsg.bytes pack) =
      (log.take count).flatMap (SrvMsg.bytes pack) ++
        (log.drop count).flatMap (SrvMsg.bytes pack) := by
    rw [← List.flatMap_append, List.take_append_drop]
  rw [whole] at intact
  have dropped := intact.drop ((log.take count).flatMap (SrvMsg.bytes pack)).length
  rwa [List.drop_left] at dropped

/-- The client reads the message that was begun first. -/
theorem Wire.receive_inv {count : Nat} (step : s.receive c2s cli sock = some u)
    (intact : s.sys.sock cli <+: (s.sys.log cli).flatMap (SrvMsg.bytes c2s.pack))
    (taken : s.taken cli =
      (((s.sys.log cli).take count).flatMap (SrvMsg.bytes c2s.pack)).length)
    (held : ∀ msg ∈ s.sys.log cli, Held msg) :
    ∃ msg client, (s.sys.log cli)[count]? = some msg ∧
      (s.clients cli).dispatch msg = some client ∧
      u = { s.setClient cli client with
        taken := Function.update s.taken cli (s.taken cli + (msg.bytes c2s.pack).length) } := by
  simp only [Wire.receive] at step
  split at step
  · cases step
  next waits =>
  obtain ⟨arrived, counted, complete⟩ := by simpa only [not_or] using waits
  have unread : joined sock <+:
      ((s.sys.log cli).drop count).flatMap (SrvMsg.bytes c2s.pack) := by
    rw [not_not.mp arrived, taken]
    exact unread_prefix intact
  have enough : 4 ≤ (joined sock).length := enough_of_getdata counted
  obtain ⟨-, left⟩ := getdata_head counted
  have front := take_getdata_head counted
  cases later : (s.sys.log cli).drop count with
  | nil =>
      rw [later, List.flatMap_nil, List.prefix_nil] at unread
      rw [unread] at enough
      exact absurd enough (by decide)
  | cons msg rest =>
      have next : (s.sys.log cli)[count]? = some msg := by
        rw [← List.head?_drop, later, List.head?_cons]
      have member : msg ∈ s.sys.log cli := List.mem_of_getElem? next
      have small := msg.size_lt c2s.pack
      have total := msg.size_eq c2s.pack
      have four := le_length_writes c2s.pack msg
      rw [later, List.flatMap_cons, SrvMsg.bytes, List.append_assoc] at unread
      have length : (joined sock).take 4 = LE32 (msg.size c2s.pack) := by
        rw [List.prefix_iff_eq_take.mp unread, List.take_take, min_eq_left enough]
        exact List.take_left' (length_LE32 _)
      have size : Endian.signed ((getdata sock 4).1.take 4) = msg.size c2s.pack := by
        rw [front, length]
        exact Endian.signed_LE32 (by omega) small
      rw [size] at complete step
      have fits := enough_of_getdata complete
      obtain ⟨body, remain⟩ := getdata_complete _ _ fits
      have behind : joined (getdata sock 4).2 <+:
          (msg.writes c2s.pack).flatten ++ rest.flatMap (SrvMsg.bytes c2s.pack) := by
        rw [left]
        have dropped := unread.drop 4
        rwa [List.drop_left' (length_LE32 _)] at dropped
      have bytes : (getdata (getdata sock 4).2 (msg.size c2s.pack)).1 =
          (msg.writes c2s.pack).flatten := by
        rw [body, List.prefix_iff_eq_take.mp behind, List.take_take, min_eq_left fits, total,
          Int.toNat_natCast]
        exact List.take_left
      have consumed : (joined sock).length -
          (joined (getdata (getdata sock 4).2 (msg.size c2s.pack)).2).length =
            (msg.bytes c2s.pack).length := by
        have header : (msg.bytes c2s.pack).length = 4 + (msg.writes c2s.pack).flatten.length := by
          rw [SrvMsg.bytes, List.length_append, length_LE32]
        rw [remain, header, List.length_drop]
        rw [left, List.length_drop] at fits ⊢
        omega
      rw [bytes, handle_dispatch c2s _ (held msg member)] at step
      obtain ⟨client, dispatched, rfl⟩ := Option.map_eq_some_iff.mp step
      refine ⟨msg, client, next, dispatched, ?_⟩
      rw [consumed]

end Receive

/-! ## The refinement -/

namespace Refines

variable {c2s : Generated} {s u : Wire} {n : Net} {cli : Nat}

theorem start (c2s : Generated) (srv : Server) : Refines c2s (Wire.start srv) (Net.start srv) where
  sys := rfl
  streams := Streams.start srv
  queued _ := ⟨[], rfl, nofun, rfl⟩
  received _ := ⟨Nat.le_refl 0, rfl⟩

/-- The bytes of whole messages and of a part of the next one are on the socket. -/
theorem intact (refines : Refines c2s s n) (cli : Nat) :
    s.sys.sock cli <+: (s.sys.log cli).flatMap (SrvMsg.bytes c2s.pack) := by
  obtain ⟨t, others⟩ := refines.streams.sole
  have whole : Intact c2s.pack (s.sys.log cli) (s.sys.sock cli) :=
    ⟨⟨_, refines.streams.written t others cli⟩, fun msg _ => msg.framed c2s.pack⟩
  exact whole.isPrefix

/-- The server moves, and what was received stays received. -/
theorem server (refines : Refines c2s s n) {sys : Sys} (streams : Streams c2s.pack sys)
    (grows : ∀ cli, ∃ more, sys.log cli = s.sys.log cli ++ more) :
    Refines c2s { s with sys := sys } { n with sys := sys } where
  sys := rfl
  streams := streams
  queued := refines.queued
  received cli := by
    obtain ⟨below, taken⟩ := refines.received cli
    obtain ⟨more, log⟩ := grows cli
    refine ⟨?_, ?_⟩
    · rw [log, List.length_append]
      exact Nat.le_add_right_of_le below
    · rw [log, List.take_append_of_le_length below]
      exact taken

/-- One client changes, with the same messages before its queue. -/
theorem setClient (refines : Refines c2s s n) {flight : List CliMsg} {client client' : Client}
    (stream : s.toServer cli = tcp_send_thr (flight.map c2s.body))
    (sendable : ∀ msg ∈ flight, Sendable c2s msg) (same : client' = behind flight client) :
    Refines c2s (s.setClient cli client) (n.setClient cli client') where
  sys := refines.sys
  streams := refines.streams
  queued other := by
    by_cases own : other = cli
    · subst own
      refine ⟨flight, stream, sendable, ?_⟩
      simp only [Net.setClient, Wire.setClient, Function.update_self, same]
    · simpa only [Net.setClient, Wire.setClient, Function.update_of_ne own]
        using refines.queued other
  received := refines.received

/-- Sending moves a message from the queue to the stream. -/
theorem send (refines : Refines c2s s n) (sound : Sound c2s s (.send cli))
    (step : s.send c2s cli = some u) : Refines c2s u n := by
  simp only [Wire.send] at step
  split at step
  · cases step
  next msg later queue =>
  obtain rfl := Option.some.inj step
  have sendable_msg : Sendable c2s msg := sound msg (by rw [queue]; rfl)
  refine ⟨refines.sys, refines.streams, fun other => ?_, refines.received⟩
  obtain ⟨flight, stream, sendable, same⟩ := refines.queued other
  by_cases own : other = cli
  · subst own
    refine ⟨flight ++ [msg], ?_, ?_, ?_⟩
    · simp only [Function.update_self, stream, List.map_append, List.map_cons, List.map_nil]
      rw [tcp_send_thr, tcp_send_thr, tcp_send_thr, ← List.flatMap_append]
    · intro entry member
      rcases List.mem_append.mp member with earlier | last
      · exact sendable entry earlier
      · rwa [List.mem_singleton.mp last]
    · rw [same]
      simp only [behind, Wire.setClient, Function.update_self, queue, List.append_assoc,
        List.singleton_append]
  · refine ⟨flight, ?_, sendable, ?_⟩
    · simpa only [Function.update_of_ne own] using stream
    · simpa only [Wire.setClient, Function.update_of_ne own] using same

/-- Reading runs the handler of the message that was queued first. -/
theorem read {now : Int} {fd : Socket.Fd} (refines : Refines c2s s n)
    (step : s.read c2s cli now fd = some u) :
    ∃ n', n.step? c2s.pack (.read cli now) = some n' ∧ Refines c2s u n' := by
  obtain ⟨flight, stream, sendable, same⟩ := refines.queued cli
  obtain ⟨msg, later, rfl, ready, rfl⟩ := Wire.read_inv step stream sendable
  have queue : (n.clients cli).msgq = msg :: (later ++ (s.clients cli).msgq) := by
    rw [same]
    rfl
  have taken : n.sys.step? c2s.pack (.request cli now msg) =
      some (s.sys.setProg (.client cli) (ClientParser.parse_client_req cli now msg)) := by
    rw [refines.sys, Sys.step?, if_pos ready]
  refine ⟨n.read cli (later ++ (s.clients cli).msgq)
    (s.sys.setProg (.client cli) (ClientParser.parse_client_req cli now msg)), ?_, ?_⟩
  · rw [Net.step?, queue]
    simp only [taken, Option.map_some]
  · have moved : Sys.step? c2s.pack s.sys (.request cli now msg) = some _ := refines.sys ▸ taken
    have alone : Exclusive s.sys (.request cli now msg) := trivial
    refine ⟨rfl, refines.streams.step alone (.of_step? moved), fun other => ?_,
      refines.received⟩
    obtain ⟨flight, stream', sendable', same'⟩ := refines.queued other
    by_cases own : other = cli
    · subst own
      refine ⟨later, ?_, fun entry member => sendable entry (List.mem_cons_of_mem msg member), ?_⟩
      · simp only [Function.update_self]
      · simp only [Net.read, Net.setClient, Function.update_self, same]
        rfl
    · refine ⟨flight, ?_, sendable', ?_⟩
      · simpa only [Function.update_of_ne own] using stream'
      · simpa only [Net.read, Net.setClient, Function.update_of_ne own] using same'

/-- Receiving dispatches the message that was begun first. -/
theorem receive {sock : List (Chunk UInt8)} (refines : Refines c2s s n)
    (sound : Sound c2s s (.receive cli sock)) (step : s.receive c2s cli sock = some u) :
    ∃ n', n.step? c2s.pack (.receive cli) = some n' ∧ Refines c2s u n' := by
  obtain ⟨below, taken⟩ := refines.received cli
  obtain ⟨flight, stream, sendable, same⟩ := refines.queued cli
  obtain ⟨msg, client, next, dispatched, rfl⟩ :=
    Wire.receive_inv step (refines.intact cli) taken sound
  have moved : (n.clients cli).dispatch msg = some (behind flight client) := by
    rw [same, dispatch_behind, dispatched, Option.map_some]
  refine ⟨n.receive cli (behind flight client), ?_, ?_⟩
  · rw [Net.step?, refines.sys, next]
    simp only [Option.bind_some, moved, Option.map_some]
  · have kept := refines.setClient stream sendable (rfl : behind flight client = _)
    refine ⟨kept.sys, kept.streams, kept.queued, fun other => ?_⟩
    by_cases own : other = cli
    · subst own
      simp only [Net.receive, Wire.setClient, Function.update_self]
      refine ⟨(List.getElem?_eq_some_iff.mp next).1, ?_⟩
      rw [received_append c2s.pack next, List.length_append, taken]
    · simpa only [Net.receive, Wire.setClient, Function.update_of_ne own] using
        refines.received other

/-- The network of messages answers every step on bytes. -/
theorem answers {act : Act} (refines : Refines c2s s n) (sound : Sound c2s s act)
    (step : s.step? c2s act = some u) :
    (net c2s.pack).Answers (Refines c2s) u n (abstract act) := by
  cases act with
  | server act =>
      simp only [Wire.step?] at step
      split at step
      · cases step
      next own =>
      obtain ⟨sys, taken, rfl⟩ := Option.map_eq_some_iff.mp step
      have moved : Sys.Step c2s.pack s.sys act sys := .of_step? taken
      refine ⟨{ n with sys := sys }, ?_, ?_⟩
      · show n.step? c2s.pack (.server act) = _
        rw [Net.step?, if_neg own, refines.sys, taken, Option.map_some]
      · exact refines.server (refines.streams.step sound moved) (XlaterSet.log_step moved)
  | send cli => exact refines.send sound step
  | read cli now fd => exact refines.read step
  | create_xlater cli rotate decimation taps history =>
      obtain rfl := Option.some.inj step
      obtain ⟨flight, stream, sendable, same⟩ := refines.queued cli
      refine ⟨_, rfl, refines.setClient stream sendable ?_⟩
      rw [same, behind_create_xlater]
  | modify_xlater cli xid rotate taps =>
      obtain ⟨next, taken, rfl⟩ := Option.map_eq_some_iff.mp step
      obtain ⟨flight, stream, sendable, same⟩ := refines.queued cli
      refine ⟨n.setClient cli (behind flight next), ?_, refines.setClient stream sendable rfl⟩
      show n.step? c2s.pack (.modify_xlater cli xid rotate taps) = _
      rw [Net.step?, same, modify_xlater_behind, taken, Option.map_some, Option.map_some]
  | set_auto_enable_xlater cli val st =>
      obtain rfl := Option.some.inj step
      obtain ⟨flight, stream, sendable, same⟩ := refines.queued cli
      refine ⟨_, rfl, refines.setClient stream sendable ?_⟩
      rw [same]
      rfl
  | q_msg cli msg =>
      obtain rfl := Option.some.inj step
      obtain ⟨flight, stream, sendable, same⟩ := refines.queued cli
      refine ⟨_, rfl, refines.setClient stream sendable ?_⟩
      rw [same, behind_q_msg]
  | receive cli sock => exact refines.receive sound step

end Refines

/-- However the streams are cut, a run on bytes is a run of the network in which
whole messages pass, with the same server and the same dictionaries of xlaters. -/
theorem wire_refines_net {c2s : Generated} {srv : Server} {acts : List Act} {s : Wire}
    (run : (wire c2s).Run (Sound c2s) (Wire.start srv) acts s) :
    ∃ n, (net c2s.pack).Run Machine.Any (Net.start srv) (acts.filterMap abstract) n ∧
      Refines c2s s n :=
  run.simulated (fun _ _ _ _ refines sound step => refines.answers sound step)
    (Refines.start c2s srv)

/-! ## Two clients that take turns -/

/-- The server runs the threads of the first two clients alone, without an announcement
beside another message, and all values fit. -/
def TakeTurns (c2s : Generated) (s : Wire) : Act → Prop
  | .server act => Paired s.sys act
  | .send cli => ∀ msg ∈ (s.clients cli).msgq.head?, Sendable c2s msg
  | .read cli _ _ => .client cli ∈ pair
  | .receive cli _ => ∀ msg ∈ s.sys.log cli, Held msg
  | _ => True

instance (c2s : Generated) (msg : CliMsg) : Decidable (Sendable c2s msg) :=
  inferInstanceAs (Decidable (_ ∧ _))

instance (c2s : Generated) (s : Wire) (act : Act) : Decidable (TakeTurns c2s s act) := by
  cases act <;> unfold TakeTurns <;> infer_instance

section TakeTurns

variable {c2s : Generated} {s u : Wire} {act : Act}

theorem TakeTurns.sound (quiet : Quiet s.sys) (turns : TakeTurns c2s s act) :
    Sound c2s s act := by
  cases act with
  | server => exact quiet.exclusive turns
  | send | receive => exact turns
  | _ => trivial

theorem TakeTurns.quiet (quiet : Quiet s.sys) (turns : TakeTurns c2s s act)
    (step : s.step? c2s act = some u) : Quiet u.sys := by
  cases act with
  | server act =>
      simp only [Wire.step?] at step
      split at step
      · cases step
      · obtain ⟨sys, taken, rfl⟩ := Option.map_eq_some_iff.mp step
        exact quiet.step turns (.of_step? taken)
  | send cli =>
      simp only [Wire.step?, Wire.send] at step
      split at step
      · cases step
      · obtain rfl := Option.some.inj step
        exact quiet
  | read cli now fd =>
      simp only [Wire.step?, Wire.read] at step
      split at step
      · cases step
      · split at step
        · cases step
        · obtain rfl := Option.some.inj step
          exact quiet.turn turns rfl (Or.inl rfl)
  | modify_xlater =>
      obtain ⟨client, _, rfl⟩ := Option.map_eq_some_iff.mp step
      exact quiet
  | receive cli sock =>
      simp only [Wire.step?, Wire.receive] at step
      split at step
      · cases step
      · obtain ⟨client, _, rfl⟩ := Option.map_eq_some_iff.mp step
        exact quiet
  | create_xlater | set_auto_enable_xlater | q_msg =>
      obtain rfl := Option.some.inj step
      exact quiet

end TakeTurns

/-- A stream that arrives one byte at a time. -/
def bytewise (bytes : List UInt8) : List (Chunk UInt8) :=
  bytes.map fun byte => ⟨[byte], List.cons_ne_nil byte []⟩

/-- Each byte arrives by itself: a request for a worker, the two announcements of it, one of
which moves the xlater of the client that has asked, and the announcement after the worker was
modified, while the other client waits for the reply to `GET_INFO`. -/
theorem wire_refines_net_bytewise : ∃ n acts,
    (net .documented).Run Machine.Any (Net.start idleServer) acts n ∧
      (n.clients 0).moved = [(0, 0)] ∧ (n.sys.log 1).length = 3 := by
  let turn (cli count : Nat) : List Act :=
    List.replicate count (.server (.exec (.client cli) Junk.zero))
  let read (cli : Nat) (msg : CliMsg) : Act :=
    .read cli 7 ⟨bytewise (tcp_send_thr [Generated.documented.body msg]), 0, Int.le_refl 0⟩
  let receive (cli : Nat) (msg : SrvMsg) : Act := .receive cli (bytewise (msg.bytes .documented))
  have found : ((wire .documented).runIf? (TakeTurns .documented) (Wire.start idleServer)
      (List.flatten [[.server (.connect false false), .server (.connect false false),
        .create_xlater 0 0 1 [] (-1), .send 0, read 0 (.CREATE_XLATER 0 0 1 (-1) [])], turn 0 14,
        [receive 0 (.running ⟨0, 0, 0, 1⟩), receive 1 (.running ⟨-1, 0, 0, 1⟩),
          .modify_xlater 0 0 0 [], .send 0, read 0 (.MODIFY_XLATER 0 0 []),
          .q_msg 1 .GET_INFO, .send 1, read 1 .GET_INFO], turn 0 14, turn 1 4])).any
      (fun s => decide ((s.clients 0).moved = [(0, 0)] ∧ (s.sys.log 1).length = 3)) = true := by
    decide +kernel
  obtain ⟨s, ran, state⟩ := (Option.any_eq_true _ _).mp found
  obtain ⟨moved, three⟩ := of_decide_eq_true state
  have sound := (Machine.Run.of_runIf? ran).weaken
    (fun _ _ _ quiet turns step => TakeTurns.quiet quiet turns step)
    (fun _ _ quiet turns => TakeTurns.sound quiet turns) (Quiet.start idleServer)
  obtain ⟨n, abstracted, refines⟩ := wire_refines_net sound
  obtain ⟨flight, _, _, same⟩ := refines.queued 0
  refine ⟨n, _, abstracted, ?_, refines.sys ▸ three⟩
  rw [same]
  exact moved

end Kukuruku.Clients.WireNetwork
