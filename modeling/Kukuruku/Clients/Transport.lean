import Kukuruku.Server.Socket

/-!
# Messages on the two directions of a connection

`tcp_send_thr`, `getdata` and `tcp_receive_thr` of `libclient.py`, beside the
server's `client_read_thr`.  Each receiver hands over exactly the messages that
what has arrived contains, for every way in which the stream is cut.
-/

namespace Kukuruku.Clients.Transport

open Framing Kukuruku.Server Messages Endian Socket

/-! ## The sending thread -/

/-- A message that a client queues: at least its type, at most 1 MiB. -/
structure Request where
  body : List UInt8
  typed : 4 ≤ body.length
  limited : body.length ≤ 1024 * 1024

/-- What the thread sends for the messages of `msgq`. -/
def tcp_send_thr (msgq : List (List UInt8)) : List UInt8 :=
  msgq.flatMap fun s => LE32 s.length ++ s

/-! ## The receiving thread -/

/-- The loop of `getdata`; `d` is what earlier calls of `recv` returned. -/
def getdataLoop (remaining : Int) (d : List UInt8) (sock : List (Chunk UInt8)) :
    List UInt8 × List (Chunk UInt8) :=
  if remaining > 0 then
    let r := Framing.read (min remaining 4096).toNat sock
    if r.1 = [] then ([], r.2)
    else getdataLoop (remaining - r.1.length) (d ++ r.1) r.2
  else (d, sock)
termination_by remaining.toNat
decreasing_by
  have some_read : 0 < r.1.length := List.length_pos_iff_ne_nil.mpr (by assumption)
  show (remaining - r.1.length).toNat < remaining.toNat
  omega

def getdata (sock : List (Chunk UInt8)) (remaining : Int) :
    List UInt8 × List (Chunk UInt8) :=
  getdataLoop remaining [] sock

/-- The bytes asked for, however `recv` cuts them. -/
theorem getdataLoop_complete {remaining : Int} (d : List UInt8) {sock : List (Chunk UInt8)}
    (enough : remaining.toNat ≤ (joined sock).length) :
    (getdataLoop remaining d sock).1 = d ++ (joined sock).take remaining.toNat ∧
      joined (getdataLoop remaining d sock).2 = (joined sock).drop remaining.toNat := by
  induction remaining, d, sock using getdataLoop.induct with
  | case1 remaining d sock more r ended =>
      have left : joined sock ≠ [] := by
        rw [← List.length_pos_iff_ne_nil]
        omega
      exact absurd ended (read_ne_nil (by omega) left)
  | case2 remaining d sock more r got ih =>
      have cut : r.1 ++ joined r.2 = joined sock := read_append _ sock
      have short : r.1.length ≤ (min remaining 4096).toNat := length_read_le _ sock
      rw [← cut, List.length_append] at enough
      obtain ⟨stored, left⟩ := ih (by omega)
      have rest : (remaining - r.1.length).toNat = remaining.toNat - r.1.length := by omega
      have within : r.1.length ≤ remaining.toNat := by omega
      rw [getdataLoop, if_pos more, if_neg got]
      refine ⟨?_, ?_⟩
      · rw [stored, ← cut, rest, List.append_assoc, List.take_append,
          List.take_of_length_le within]
      · rw [left, ← cut, rest, List.drop_append, List.drop_of_length_le within,
          List.nil_append]
  | case3 remaining d sock done =>
      rw [getdataLoop, if_neg done, Int.toNat_of_nonpos (by omega)]
      exact ⟨(List.append_nil d).symm, rfl⟩

/-- When the stream ends first, nothing is returned. -/
theorem getdataLoop_short {remaining : Int} (d : List UInt8) {sock : List (Chunk UInt8)}
    (short : (joined sock).length < remaining.toNat) :
    (getdataLoop remaining d sock).1 = [] := by
  induction remaining, d, sock using getdataLoop.induct with
  | case1 remaining d sock more r ended =>
      rw [getdataLoop, if_pos more, if_pos ended]
  | case2 remaining d sock more r got ih =>
      have cut : r.1 ++ joined r.2 = joined sock := read_append _ sock
      rw [← cut, List.length_append] at short
      rw [getdataLoop, if_pos more, if_neg got]
      exact ih (by omega)
  | case3 remaining d sock done => omega

theorem getdata_complete (sock : List (Chunk UInt8)) (remaining : Int)
    (enough : remaining.toNat ≤ (joined sock).length) :
    (getdata sock remaining).1 = (joined sock).take remaining.toNat ∧
      joined (getdata sock remaining).2 = (joined sock).drop remaining.toNat := by
  simpa only [getdata, List.nil_append] using getdataLoop_complete [] enough

theorem getdata_short {sock : List (Chunk UInt8)} {remaining : Int}
    (short : (joined sock).length < remaining.toNat) : (getdata sock remaining).1 = [] :=
  getdataLoop_short [] short

/-- Whoever gets data asked for no more than there was. -/
theorem enough_of_getdata {sock : List (Chunk UInt8)} {remaining : Int}
    (got : ¬(getdata sock remaining).1.length < 4) :
    remaining.toNat ≤ (joined sock).length := by
  by_contra short
  rw [getdata_short (Nat.lt_of_not_le short)] at got
  exact got (by decide)

/-- The handler a message goes to, with what follows its type. -/
inductive Dispatch where
  | srv_running_xlater (data : List UInt8)
  | srv_destroyed_xlater (data : List UInt8)
  | process_payload (data : List UInt8)
  | process_info (data : List UInt8)
  | unknown (dtype : Int)
deriving DecidableEq

def dispatch (d : List UInt8) : Dispatch :=
  let dtype := signed (d.take 4)
  if dtype = 258 then .srv_running_xlater (d.drop 4)
  else if dtype = 260 then .srv_destroyed_xlater (d.drop 4)
  else if dtype = 256 then .process_payload (d.drop 4)
  else if dtype = 259 then .process_info (d.drop 4)
  else .unknown dtype

/-- A length that was received leaves the socket. -/
theorem getdata_head {sock : List (Chunk UInt8)} (got : ¬(getdata sock 4).1.length < 4) :
    (getdata sock 4).1 = (joined sock).take 4 ∧
      joined (getdata sock 4).2 = (joined sock).drop 4 :=
  getdata_complete sock 4 (enough_of_getdata got)

theorem take_getdata_head {sock : List (Chunk UInt8)} (got : ¬(getdata sock 4).1.length < 4) :
    (getdata sock 4).1.take 4 = (joined sock).take 4 := by
  rw [(getdata_head got).1, List.take_take, min_self]

theorem length_getdata_le {sock : List (Chunk UInt8)} {remaining : Int}
    (got : ¬(getdata sock remaining).1.length < 4) :
    (joined (getdata sock remaining).2).length ≤ (joined sock).length := by
  rw [(getdata_complete sock remaining (enough_of_getdata got)).2, List.length_drop]
  exact Nat.sub_le _ _

/-- What the thread dispatches until it raises an exception. -/
def tcp_receive_thr (sock : List (Chunk UInt8)) : List Dispatch :=
  let head := getdata sock 4
  if _lost : head.1.length < 4 then []
  else
    let l := signed (head.1.take 4)
    let d := getdata head.2 l
    if _short : d.1.length < 4 then [] else dispatch d.1 :: tcp_receive_thr d.2
termination_by (joined sock).length
decreasing_by
  have enough : 4 ≤ (joined sock).length := enough_of_getdata _lost
  have first : (joined head.2).length = (joined sock).length - 4 := by
    rw [show joined head.2 = _ from (getdata_head _lost).2, List.length_drop]
  have second : (joined d.2).length ≤ (joined head.2).length := length_getdata_le _short
  show (joined d.2).length < (joined sock).length
  omega

/-- A message of the server: at least its type, and no longer than an `int32_t`
can tell. -/
structure Reply where
  body : List UInt8
  typed : 4 ≤ body.length
  limited : body.length < 2 ^ 31

theorem length_LE32_length (length : Nat) : (LE32 length).length = 4 := length_LE32 length

/-- The frames of the server, as the thread takes them. -/
def replies : Format UInt8 where
  width := 4
  positive := Nat.zero_lt_succ 3
  header length := LE32 length
  length_header := length_LE32_length
  announced head := if signed head < 4 then none else some (signed head).toNat

/-- The thread dispatches what `split` finds in the whole stream, however `recv`
cuts it. -/
theorem tcp_receive_thr_eq_split (sock : List (Chunk UInt8)) :
    tcp_receive_thr sock = (replies.split (joined sock)).map dispatch := by
  induction sock using tcp_receive_thr.induct with
  | case1 sock head lost =>
      have short : (joined sock).length < replies.width := by
        by_contra enough
        have stored : head.1 = (joined sock).take 4 :=
          (getdata_complete sock 4 (Nat.le_of_not_lt enough)).1
        rw [stored, List.length_take] at lost
        exact enough (by simp only [replies]; omega)
      rw [tcp_receive_thr, dif_pos lost, Format.split_short short, List.map_nil]
  | case2 sock head kept l d short =>
      have front : head.1.take 4 = (joined sock).take 4 := take_getdata_head kept
      have left : joined head.2 = (joined sock).drop 4 := (getdata_head kept).2
      have nothing : replies.split (joined sock) = [] := by
        by_cases tiny : l < 4
        · have refused : replies.announced (head.1.take 4) = none := if_pos tiny
          exact Format.split_refused (front ▸ refused)
        · have told : replies.announced (head.1.take 4) = some l.toNat := if_neg tiny
          refine Format.split_partial (front ▸ told) ?_
          by_contra enough
          have held : l.toNat ≤ (joined head.2).length := left ▸ Nat.le_of_not_lt enough
          have bytes : d.1 = (joined head.2).take l.toNat := (getdata_complete head.2 l held).1
          rw [bytes, List.length_take] at short
          omega
      rw [tcp_receive_thr, dif_neg kept, nothing]
      exact dif_pos short
  | case3 sock head kept l d complete ih =>
      have front : head.1.take 4 = (joined sock).take 4 := take_getdata_head kept
      have left : joined head.2 = (joined sock).drop 4 := (getdata_head kept).2
      have enough : l.toNat ≤ (joined head.2).length := enough_of_getdata complete
      have bytes : d.1 = (joined head.2).take l.toNat := (getdata_complete head.2 l enough).1
      have rest : joined d.2 = (joined head.2).drop l.toNat := (getdata_complete head.2 l enough).2
      have tall : ¬l < 4 := by
        rw [bytes, List.length_take] at complete
        omega
      have told : replies.announced (head.1.take 4) = some l.toNat := if_neg tall
      rw [left] at enough bytes rest
      rw [rest] at ih
      rw [Format.split_complete (enough_of_getdata kept) (front ▸ told) enough, List.map_cons,
        tcp_receive_thr, dif_neg kept]
      refine (dif_neg complete).trans ?_
      exact congrArg₂ List.cons (congrArg dispatch bytes) ih

/-! ## Both directions -/

theorem tcp_send_thr_eq_wire (msgq : List (List UInt8)) :
    tcp_send_thr msgq = requests.wire msgq := rfl

theorem Request.accepted (msg : Request) :
    requests.announced (requests.header msg.body.length) = some msg.body.length := by
  have typed := msg.typed
  have limited := msg.limited
  have told : signed (LE32 msg.body.length) = msg.body.length :=
    signed_LE32 (by omega) (by omega)
  simp only [requests, told]
  rw [if_neg (by omega), Int.toNat_natCast]

theorem Reply.accepted (msg : Reply) :
    replies.announced (replies.header msg.body.length) = some msg.body.length := by
  have typed := msg.typed
  have limited := msg.limited
  have told : signed (LE32 msg.body.length) = msg.body.length :=
    signed_LE32 (by omega) (by omega)
  simp only [replies, told]
  rw [if_neg (by omega), Int.toNat_natCast]

/-- Every message of the server starts with its type. -/
theorem le_length_writes (pack : Protobuf) (msg : SrvMsg) :
    4 ≤ (msg.writes pack).flatten.length := by
  cases msg <;>
    simp only [SrvMsg.writes, List.flatten_cons, List.length_append, length_LE32,
      PayloadHeader.length_bytes] <;> omega

theorem length_writes_lt (pack : Protobuf) (msg : SrvMsg) :
    (msg.writes pack).flatten.length < 2 ^ 31 := by
  have total := msg.size_eq pack
  have short := msg.size_lt pack
  omega

/-- What a message of the server puts on the wire after its length. -/
def Reply.ofSrvMsg (pack : Protobuf) (msg : SrvMsg) : Reply :=
  ⟨(msg.writes pack).flatten, le_length_writes pack msg, length_writes_lt pack msg⟩

/-- The stream of the server for a list of messages to one client. -/
def socket_stream (msgs : List Reply) : List UInt8 :=
  msgs.flatMap fun msg => LE32 msg.body.length ++ msg.body

/-- The bytes of a message are the stream of its body. -/
theorem socket_stream_ofSrvMsg (pack : Protobuf) (msgs : List SrvMsg) :
    socket_stream (msgs.map (Reply.ofSrvMsg pack)) = msgs.flatMap (SrvMsg.bytes pack) := by
  induction msgs with
  | nil => rfl
  | cons msg rest ih =>
      rw [List.map_cons, socket_stream, List.flatMap_cons, List.flatMap_cons, SrvMsg.bytes,
        msg.size_eq pack, ← ih]
      rfl

theorem socket_stream_eq_wire (msgs : List Reply) :
    socket_stream msgs = replies.wire (msgs.map Reply.body) := by
  rw [socket_stream, Format.wire, List.flatMap_map]
  rfl

/-- However the two streams are cut and wherever they end, the receivers hand
over the messages that have arrived completely, in order. -/
theorem framing_intact :
    (∀ (msgs : List Request) (fd : Fd),
      fd.pending <+: tcp_send_thr (msgs.map Request.body) →
        client_read_thr fd =
          requests.contained (msgs.map Request.body) fd.pending.length ∧
        (fd.pending = tcp_send_thr (msgs.map Request.body) →
          client_read_thr fd = msgs.map Request.body)) ∧
    (∀ (msgs : List Reply) (sock : List (Chunk UInt8)),
      joined sock <+: socket_stream msgs →
        tcp_receive_thr sock =
          (replies.contained (msgs.map Reply.body) (joined sock).length).map dispatch ∧
        (joined sock = socket_stream msgs →
          tcp_receive_thr sock = msgs.map fun msg => dispatch msg.body)) := by
  refine ⟨fun msgs fd arrived => ?_, fun msgs sock arrived => ?_⟩
  · have handed : client_read_thr fd =
        requests.contained (msgs.map Request.body) fd.pending.length := by
      rw [client_read_thr_eq_split]
      refine requests.split_eq_contained (fun body member => ?_) arrived
      obtain ⟨msg, _, rfl⟩ := List.mem_map.mp member
      exact msg.accepted
    refine ⟨handed, fun whole => ?_⟩
    rw [handed, whole, tcp_send_thr_eq_wire, Format.contained_wire]
  · have handed : tcp_receive_thr sock =
        (replies.contained (msgs.map Reply.body) (joined sock).length).map dispatch := by
      rw [socket_stream_eq_wire] at arrived
      rw [tcp_receive_thr_eq_split]
      refine congrArg _ (replies.split_eq_contained (fun body member => ?_) arrived)
      obtain ⟨msg, _, rfl⟩ := List.mem_map.mp member
      exact msg.accepted
    refine ⟨handed, fun whole => ?_⟩
    rw [handed, whole, socket_stream_eq_wire, Format.contained_wire, List.map_map]
    rfl

/-- `GET_INFO` in two chunks and the first bytes of `ENABLE_SPECTRUM`; an empty
`RUNNING_XLATER` cut inside its length. -/
theorem framing_intact_get_info :
    client_read_thr ⟨[⟨[4, 0, 0], by decide⟩, ⟨[0, 17, 0, 0, 0, 4, 0], by decide⟩], 0, by decide⟩ =
        [[17, 0, 0, 0]] ∧
      tcp_receive_thr [⟨[4, 0], by decide⟩, ⟨[0, 0, 2, 1, 0, 0], by decide⟩] =
        [.srv_running_xlater []] := by
  refine ⟨?_, ?_⟩
  · refine (framing_intact.1 [⟨[17, 0, 0, 0], by decide, by decide⟩,
      ⟨[13, 0, 0, 0], by decide, by decide⟩] _ (by decide +kernel)).1.trans (by decide +kernel)
  · refine (framing_intact.2 [⟨[2, 1, 0, 0], by decide, by decide⟩] _
      (by decide +kernel)).1.trans (by decide +kernel)

end Kukuruku.Clients.Transport
