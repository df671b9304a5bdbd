import Mathlib.Algebra.Group.Int.Defs
import Mathlib.Algebra.Group.Nat.Defs
import Mathlib.Data.List.Basic
import Kukuruku.Server.Constants

/-!
# Messages between clients and server

Messages of the clients appear as `parse_client_req` has unpacked them.
Messages of the server appear as the writes that put them on a socket: a length,
a type or a header, and the body in one or many pieces.  Floats are their bit
patterns.  `Protobuf` stands for the generated packing functions and for the
conversion of samples to integers.
-/

namespace Kukuruku.Server.Messages

/-- The bit pattern of a `float`. -/
abbrev Float32Bits := UInt32

inductive SampleType where
  | F32
  | I16
  | I8
  | other (value : Int)
deriving DecidableEq

/-- The value that represents a sample format on the wire. -/
def SampleType.code : SampleType → Int
  | .F32 => 1
  | .I16 => 2
  | .I8 => 3
  | .other value => value

structure Gain where
  autogain : Int
  global_gain : Int
  if_gain : Int
  bb_gain : Int
deriving DecidableEq

/-! ## From the clients -/

inductive CliMsg where
  | CREATE_XLATER (remoteid : Int) (rotate : Float32Bits) (decimation startframe : Int)
      (taps : List Float32Bits)
  | ENABLE_XLATER (id : Int) (type : SampleType)
  | DISABLE_XLATER (id : Int)
  | MODIFY_XLATER (localid : Int) (rotate : Float32Bits) (newtaps : List Float32Bits)
  | LIST_XLATERS
  | DESTROY_XLATER (id : Int)
  | GET_INFO
  | RECORD_START (startframe stopframe : Int)
  | RECORD_STOP
  | ENABLE_SPECTRUM
  | ENABLE_HISTO
  | SET_GAIN (gain : Gain)
  | RETUNE (freq : Int)
  | SET_PPM (ppm : Int)
  | unknown (type : Int)
deriving DecidableEq

/-! ## From the server -/

structure SRV_RUNNING_XLATER where
  remoteid : Int
  id : Int
  rotate : Float32Bits
  decimation : Int
deriving DecidableEq

structure SRV_INFO where
  samplerate : Int
  frequency : Int
  ppm : Int
  fftw : Int
  gain : Gain
  packetlen : Int
  bufsize : Int
  maxtaps : Int
deriving DecidableEq

/-- The packing functions, whose results have a length an `int32_t` can tell,
and the integer samples that scaling by a maximal amplitude gives. -/
structure Protobuf where
  running : SRV_RUNNING_XLATER → List UInt8
  info : SRV_INFO → List UInt8
  destroyed : Int → List UInt8
  calc_max_amplitude : List Float32Bits → Float32Bits
  toI16 : Float32Bits → Float32Bits → Int
  toI8 : Float32Bits → Float32Bits → Int
  running_short : ∀ msg, (running msg).length + 4 < 2 ^ 31
  info_short : ∀ msg, (info msg).length + 4 < 2 ^ 31
  destroyed_short : ∀ id, (destroyed id).length + 4 < 2 ^ 31

/-- Floats of a payload; an `int32_t` can tell their length in bytes. -/
abbrev Samples := { samples : List Float32Bits // 20 + 4 * samples.length < 2 ^ 31 }

abbrev Histogram := { bins : List UInt16 // bins.length = HISTOGRAM_RES }

/-- The fields of `SRV_PAYLOAD_HEADER` after its type. -/
structure PayloadHeader where
  id : Int
  time : Int
  frameno : Int
  type : Int
deriving DecidableEq

/-- One message to one client. -/
inductive SrvMsg where
  | running (msg : SRV_RUNNING_XLATER)
  | info (msg : SRV_INFO)
  | destroyed (id : Int)
  | payload (header : PayloadHeader) (format : SampleType) (maxval : Float32Bits)
      (samples : Samples)
  | spectrum (header : PayloadHeader) (samples : Samples)
  | histo (header : PayloadHeader) (bins : Histogram)
deriving DecidableEq

/-- The `n` low bytes of a number, the lowest first. -/
def littleEndian (n : Nat) (value : Int) : List UInt8 :=
  (List.range n).map fun i => UInt8.ofNat ((value / 256 ^ i) % 256).toNat

@[simp] theorem length_littleEndian (n : Nat) (value : Int) :
    (littleEndian n value).length = n := by
  simp [littleEndian]

def LE32 (value : Int) : List UInt8 := littleEndian 4 value

def LE16 (value : Int) : List UInt8 := littleEndian 2 value

@[simp] theorem length_LE32 (value : Int) : (LE32 value).length = 4 :=
  length_littleEndian 4 value

@[simp] theorem length_LE16 (value : Int) : (LE16 value).length = 2 :=
  length_littleEndian 2 value

/-- A float as it lies in memory. -/
def floatBytes (sample : Float32Bits) : List UInt8 := LE32 sample.toNat

def PayloadHeader.bytes (header : PayloadHeader) : List UInt8 :=
  LE32 256 ++ LE32 header.id ++ LE32 header.time ++ LE32 header.frameno ++ LE32 header.type

@[simp] theorem PayloadHeader.length_bytes (header : PayloadHeader) :
    header.bytes.length = 20 := by
  simp [bytes]

/-! ### An instance of the packing functions -/

/-- The base 128 digits of a number, the last one unmarked. -/
def varint : Nat → Nat → List UInt8
  | 0, _ => []
  | digits + 1, n =>
      if n < 128 then [UInt8.ofNat n]
      else UInt8.ofNat (n % 128 + 128) :: varint digits (n / 128)

theorem length_varint_le (digits n : Nat) : (varint digits n).length ≤ digits := by
  induction digits generalizing n with
  | zero => exact Nat.le_refl 0
  | succ digits ih =>
      rw [varint]
      split
      · rw [List.length_singleton]
        omega
      · rw [List.length_cons]
        exact Nat.succ_le_succ (ih _)

/-- An integer field; negative values are those of 64 bits. -/
def intField (tag : Nat) (value : Int) : List UInt8 :=
  UInt8.ofNat (8 * tag) :: varint 10 (value % 2 ^ 64).toNat

theorem length_intField_le (tag : Nat) (value : Int) : (intField tag value).length ≤ 11 :=
  Nat.succ_le_succ (length_varint_le 10 _)

def floatField (tag : Nat) (value : Float32Bits) : List UInt8 :=
  UInt8.ofNat (8 * tag + 5) :: floatBytes value

theorem length_floatField (tag : Nat) (value : Float32Bits) :
    (floatField tag value).length = 5 := by
  rw [floatField, List.length_cons, floatBytes, length_LE32]

/-- The documented encoding of the messages; amplitudes are those of empty tap
lists. -/
def Protobuf.documented : Protobuf where
  running msg := intField 1 msg.remoteid ++ intField 2 msg.id ++ floatField 3 msg.rotate ++
    intField 4 msg.decimation
  info msg := intField 1 msg.samplerate ++ intField 2 msg.frequency ++ intField 3 msg.ppm ++
    intField 4 msg.fftw ++ intField 5 msg.gain.autogain ++ intField 6 msg.gain.global_gain ++
    intField 7 msg.gain.if_gain ++ intField 8 msg.gain.bb_gain ++ intField 9 msg.packetlen ++
    intField 10 msg.bufsize ++ intField 11 msg.maxtaps
  destroyed id := intField 1 id
  calc_max_amplitude _ := 0
  toI16 _ _ := 0
  toI8 _ _ := 0
  running_short msg := by
    have remoteid := length_intField_le 1 msg.remoteid
    have id := length_intField_le 2 msg.id
    have decimation := length_intField_le 4 msg.decimation
    simp only [List.length_append, length_floatField]
    omega
  info_short msg := by
    have bound := fun tag value => length_intField_le tag value
    simp only [List.length_append]
    have samplerate := bound 1 msg.samplerate
    have frequency := bound 2 msg.frequency
    have ppm := bound 3 msg.ppm
    have fftw := bound 4 msg.fftw
    have autogain := bound 5 msg.gain.autogain
    have global_gain := bound 6 msg.gain.global_gain
    have if_gain := bound 7 msg.gain.if_gain
    have bb_gain := bound 8 msg.gain.bb_gain
    have packetlen := bound 9 msg.packetlen
    have bufsize := bound 10 msg.bufsize
    have maxtaps := bound 11 msg.maxtaps
    omega
  destroyed_short id := by
    have bound := length_intField_le 1 id
    omega

namespace SrvMsg

variable (pack : Protobuf)

/-- The length the sender announces; `plen` is the byte length of the floats in
`outbuf`, halved or quartered for the integer formats. -/
def size : SrvMsg → Int
  | running msg => (pack.running msg).length + 4
  | info msg => (pack.info msg).length + 4
  | destroyed id => (pack.destroyed id).length + 4
  | payload _ format _ samples =>
      let plen : Int := samples.val.length * 4
      match format with
      | .I16 => 20 + plen / 2
      | .I8 => 20 + plen / 4
      | _ => 20 + plen
  | spectrum _ samples => 20 + samples.val.length * 4
  | histo _ bins => 20 + bins.val.length * 2

/-- The writes after the length. -/
def writes : SrvMsg → List (List UInt8)
  | running msg => [LE32 258, pack.running msg]
  | info msg => [LE32 259, pack.info msg]
  | destroyed id => [LE32 260, pack.destroyed id]
  | payload header format maxval samples =>
      header.bytes ::
        match format with
        | .I16 => samples.val.map fun sample => LE16 (pack.toI16 maxval sample)
        | .I8 => samples.val.map fun sample => littleEndian 1 (pack.toI8 maxval sample)
        | _ => [samples.val.flatMap floatBytes]
  | spectrum header samples => [header.bytes, samples.val.flatMap floatBytes]
  | histo header bins => [header.bytes, bins.val.flatMap fun bin => LE16 bin.toNat]

/-- The message on the wire. -/
def bytes (msg : SrvMsg) : List UInt8 := LE32 (msg.size pack) ++ (msg.writes pack).flatten

/-- A 4-byte length, which an `int32_t` holds, and exactly that many bytes. -/
def Framed (stream : List UInt8) : Prop :=
  ∃ body : List UInt8, stream = LE32 body.length ++ body ∧ body.length < 2 ^ 31

theorem length_flatten_map {α : Type*} (convert : α → List UInt8) (width : Nat)
    (fixed : ∀ sample, (convert sample).length = width) (samples : List α) :
    (samples.map convert).flatten.length = width * samples.length := by
  induction samples with
  | nil => rfl
  | cons sample rest ih =>
      rw [List.map_cons, List.flatten_cons, List.length_append, ih, fixed, List.length_cons,
        Nat.mul_succ, Nat.add_comm]

theorem length_flatMap_floatBytes (samples : List Float32Bits) :
    (samples.flatMap floatBytes).length = 4 * samples.length := by
  rw [List.flatMap_def, length_flatten_map floatBytes 4 fun sample => length_LE32 _]

/-- Every sender announces exactly what it then writes. -/
theorem size_eq (msg : SrvMsg) : msg.size pack = (msg.writes pack).flatten.length := by
  cases msg with
  | running | info | destroyed =>
      simp only [size, writes, List.flatten_cons, List.flatten_nil, List.append_nil,
        List.length_append, length_LE32]
      omega
  | payload header format maxval samples =>
      cases format with
      | I16 =>
          simp only [size, writes, List.flatten_cons, List.length_append,
            PayloadHeader.length_bytes]
          rw [length_flatten_map _ 2 fun sample => length_LE16 _]
          omega
      | I8 =>
          simp only [size, writes, List.flatten_cons, List.length_append,
            PayloadHeader.length_bytes]
          rw [length_flatten_map _ 1 fun sample => length_littleEndian 1 _]
          omega
      | F32 | other =>
          simp only [size, writes, List.flatten_cons, List.flatten_nil, List.append_nil,
            List.length_append, PayloadHeader.length_bytes, length_flatMap_floatBytes]
          omega
  | spectrum header samples =>
      simp only [size, writes, List.flatten_cons, List.flatten_nil, List.append_nil,
        List.length_append, PayloadHeader.length_bytes, length_flatMap_floatBytes]
      omega
  | histo header bins =>
      simp only [size, writes, List.flatten_cons, List.flatten_nil, List.append_nil,
        List.length_append, PayloadHeader.length_bytes]
      rw [List.flatMap_def, length_flatten_map _ 2 fun bin => length_LE16 _]
      omega

theorem size_lt (msg : SrvMsg) : msg.size pack < 2 ^ 31 := by
  cases msg with
  | running msg =>
      have short := pack.running_short msg
      simp only [size]
      omega
  | info msg =>
      have short := pack.info_short msg
      simp only [size]
      omega
  | destroyed id =>
      have short := pack.destroyed_short id
      simp only [size]
      omega
  | payload header format maxval samples =>
      have short := samples.property
      simp only [size]
      split <;> omega
  | spectrum header samples =>
      have short := samples.property
      simp only [size]
      omega
  | histo header bins =>
      simp only [size, bins.property, HISTOGRAM_RES]
      omega

/-- Every message is a length and exactly that many bytes. -/
theorem framed (msg : SrvMsg) : Framed (msg.bytes pack) := by
  have total := msg.size_eq pack
  have short := msg.size_lt pack
  refine ⟨(msg.writes pack).flatten, ?_, by omega⟩
  rw [bytes, total]

end SrvMsg

end Kukuruku.Server.Messages
