import Kukuruku.Foundation.WireFormat
import Kukuruku.Server.RequestBytes

/-!
# The messages of `c2s.proto`

The fields of every message, and what the two ends make of them.  `C2s` stands for
the code that is generated from the file: `c2s_pb2` of the clients and `c2s.pb-c`
of the server, as far as they understand each other.  Its instance `documented`
packs and unpacks fields as the wire format is described.
-/

namespace Kukuruku.Server.C2s

open Messages Endian RequestBytes WireFormat

/-! ## Fields -/

/-- What an `int32` holds. -/
def Int32 (value : Int) : Prop := -2 ^ 31 ≤ value ∧ value < 2 ^ 31

def Int64 (value : Int) : Prop := -2 ^ 63 ≤ value ∧ value < 2 ^ 63

instance (value : Int) : Decidable (Int32 value) := inferInstanceAs (Decidable (_ ∧ _))

instance (value : Int) : Decidable (Int64 value) := inferInstanceAs (Decidable (_ ∧ _))

theorem positive_four : 0 < 4 := by decide

/-- An `int32`, `int64` or enumeration field. -/
def int (number : Nat) (value : Int) (positive : 0 < number := by decide)
    (limited : number < 2 ^ 29 := by decide) : Field :=
  ⟨number, .varint (ofInt value), positive, limited⟩

def float (number : Nat) (value : Float32Bits) (positive : 0 < number := by decide)
    (limited : number < 2 ^ 29 := by decide) : Field :=
  ⟨number, .fixed32 ⟨floatBytes value, length_LE32 _⟩, positive, limited⟩

section

variable (number : Nat) (positive : 0 < number) (limited : number < 2 ^ 29)

@[simp] theorem number_int (value : Int) : (int number value positive limited).number = number :=
  rfl

@[simp] theorem value_int (value : Int) :
    (int number value positive limited).value = .varint (ofInt value) := rfl

@[simp] theorem number_float (value : Float32Bits) :
    (float number value positive limited).number = number := rfl

@[simp] theorem value_float (value : Float32Bits) :
    (float number value positive limited).value =
      .fixed32 ⟨floatBytes value, length_LE32 _⟩ := rfl

@[simp] theorem occurrences_floats (other : Nat) (values : List Float32Bits) :
    occurrences other (values.map fun value => float number value positive limited) =
      if number = other then
        values.map fun value => .fixed32 ⟨floatBytes value, length_LE32 _⟩
      else [] :=
  occurrences_map other _ values fun _ => rfl

end

def int32? : Value → Option Int
  | .varint n => some (toInt 32 n)
  | _ => none

def int64? : Value → Option Int
  | .varint n => some (toInt 64 n)
  | _ => none

def SampleType.ofCode : Int → SampleType
  | 1 => .F32
  | 2 => .I16
  | 3 => .I8
  | value => .other value

def sample_type? (value : Value) : Option SampleType := (int32? value).map SampleType.ofCode

def float? : Value → Option Float32Bits
  | .fixed32 word => some (UInt32.ofNat (unsigned word.val))
  | _ => none

/-- The floats of a packed field. -/
def packed : List UInt8 → Option (List Float32Bits)
  | [] => some []
  | a :: b :: c :: d :: rest => (packed rest).map (UInt32.ofNat (unsigned [a, b, c, d]) :: ·)
  | _ => none

/-- What one occurrence of a repeated field adds. -/
def floats? : Value → Option (List Float32Bits)
  | .fixed32 word => some [UInt32.ofNat (unsigned word.val)]
  | .delimited bytes => packed bytes.val
  | _ => none

theorem int32?_ofInt {value : Int} (range : Int32 value) :
    int32? (.varint (ofInt value)) = some value := by
  obtain ⟨low, high⟩ := range
  exact congrArg some (toInt_ofInt (by decide) (by omega) (by omega))

theorem int64?_ofInt {value : Int} (range : Int64 value) :
    int64? (.varint (ofInt value)) = some value := by
  obtain ⟨low, high⟩ := range
  exact congrArg some (toInt_ofInt (by decide) (by omega) (by omega))

theorem unsigned_floatBytes (value : Float32Bits) :
    UInt32.ofNat (unsigned (floatBytes value)) = value := by
  have digits : (unsigned (floatBytes value) : Int) = (value.toNat : Int) % 256 ^ 4 :=
    unsigned_littleEndian 4 value.toNat
  have small := value.toNat_lt
  have same : unsigned (floatBytes value) = value.toNat := by omega
  rw [same, UInt32.ofNat_toNat]

theorem float?_floatBytes (value : Float32Bits) :
    float? (.fixed32 ⟨floatBytes value, length_LE32 _⟩) = some value :=
  congrArg some (unsigned_floatBytes value)

theorem floats?_floatBytes (value : Float32Bits) :
    floats? (.fixed32 ⟨floatBytes value, length_LE32 _⟩) = some [value] :=
  congrArg (fun bits => some [bits]) (unsigned_floatBytes value)

theorem ofCode_code {type : SampleType} (known : type ∈ [SampleType.F32, .I16, .I8]) :
    Int32 type.code ∧ SampleType.ofCode type.code = type := by
  simp only [List.mem_cons, List.not_mem_nil, or_false] at known
  rcases known with rfl | rfl | rfl
  · exact ⟨by decide, rfl⟩
  · exact ⟨by decide, rfl⟩
  · exact ⟨by decide, rfl⟩

/-! ## Requests -/

/-- The fields in the order of their numbers. -/
def fields : CliMsg → List Field
  | .CREATE_XLATER remoteid rotate decimation startframe taps =>
      [int 1 remoteid, float 2 rotate, int 3 decimation, int 4 startframe positive_four] ++
        taps.map (float 5 ·)
  | .ENABLE_XLATER id type => [int 1 id, int 2 type.code]
  | .DISABLE_XLATER id => [int 1 id]
  | .MODIFY_XLATER localid rotate newtaps =>
      [int 1 localid, float 2 rotate] ++ newtaps.map (float 3 ·)
  | .DESTROY_XLATER id => [int 1 id]
  | .RECORD_START startframe stopframe => [int 1 startframe, int 2 stopframe]
  | .SET_GAIN gain =>
      [int 1 gain.autogain, int 2 gain.global_gain, int 3 gain.if_gain,
        int 4 gain.bb_gain positive_four]
  | .RETUNE freq => [int 1 freq]
  | .SET_PPM ppm => [int 1 ppm]
  | .LIST_XLATERS | .GET_INFO | .RECORD_STOP | .ENABLE_SPECTRUM | .ENABLE_HISTO => []
  | .unknown _ => []

/-- The type in front of the message. -/
def type : CliMsg → Int
  | .CREATE_XLATER .. => 3
  | .ENABLE_XLATER .. => 6
  | .DISABLE_XLATER _ => 7
  | .MODIFY_XLATER .. => 18
  | .LIST_XLATERS => 4
  | .DESTROY_XLATER _ => 5
  | .GET_INFO => 17
  | .RECORD_START .. => 2
  | .RECORD_STOP => 19
  | .ENABLE_SPECTRUM => 13
  | .ENABLE_HISTO => 15
  | .SET_GAIN _ => 8
  | .RETUNE _ => 9
  | .SET_PPM _ => 10
  | .unknown type => type

/-- The values that assignments to the fields accept. -/
def Assignable : CliMsg → Prop
  | .CREATE_XLATER remoteid _ decimation startframe _ =>
      Int32 remoteid ∧ Int32 decimation ∧ Int32 startframe
  | .ENABLE_XLATER id type => Int32 id ∧ type ∈ [SampleType.F32, .I16, .I8]
  | .DISABLE_XLATER id | .DESTROY_XLATER id => Int32 id
  | .MODIFY_XLATER localid _ _ => Int32 localid
  | .RECORD_START startframe stopframe => Int32 startframe ∧ Int32 stopframe
  | .SET_GAIN gain =>
      Int32 gain.autogain ∧ Int32 gain.global_gain ∧ Int32 gain.if_gain ∧ Int32 gain.bb_gain
  | .RETUNE freq => Int64 freq
  | .SET_PPM ppm => Int32 ppm
  | .LIST_XLATERS | .GET_INFO | .RECORD_STOP | .ENABLE_SPECTRUM | .ENABLE_HISTO => True
  | .unknown type => Int32 type ∧ commands.lookup type = none

instance (msg : CliMsg) : Decidable (Assignable msg) := by
  cases msg <;> unfold Assignable <;> infer_instance

/-- The message that a branch takes its values from. -/
def message? (unpack : Unpack) (buf : List UInt8) : Command → Option CliMsg
  | .CREATE_XLATER =>
      (unpack.create_xlater buf).map fun s =>
        .CREATE_XLATER s.1 s.2.1 s.2.2.1 s.2.2.2.1 s.2.2.2.2
  | .ENABLE_XLATER => (unpack.enable_xlater buf).map fun s => .ENABLE_XLATER s.1 s.2
  | .DISABLE_XLATER => (unpack.disable_xlater buf).map .DISABLE_XLATER
  | .MODIFY_XLATER =>
      (unpack.modify_xlater buf).map fun s => .MODIFY_XLATER s.1 s.2.1 s.2.2
  | .LIST_XLATERS => some .LIST_XLATERS
  | .DESTROY_XLATER => (unpack.destroy_xlater buf).map .DESTROY_XLATER
  | .GET_INFO => some .GET_INFO
  | .RECORD_START => (unpack.record_start buf).map fun s => .RECORD_START s.1 s.2
  | .RECORD_STOP => some .RECORD_STOP
  | .ENABLE_SPECTRUM => some .ENABLE_SPECTRUM
  | .ENABLE_HISTO => some .ENABLE_HISTO
  | .SET_GAIN => (unpack.set_gain buf).map .SET_GAIN
  | .RETUNE => (unpack.retune buf).map .RETUNE
  | .SET_PPM => (unpack.set_ppm buf).map .SET_PPM

/-- A branch handles the message that it unpacks. -/
theorem branch_of_message {unpack : Unpack} {workers : List ClientParser.WorkerEntry} {me : Nat}
    {now : Int} {buf : List UInt8} {command : Command} {msg : CliMsg}
    (unpacked : message? unpack buf command = some msg) :
    branch unpack workers me now buf command =
      .ok (ClientParser.parse_client_req me now msg) := by
  cases command with
  | LIST_XLATERS | GET_INFO | RECORD_STOP | ENABLE_SPECTRUM | ENABLE_HISTO =>
      obtain rfl := Option.some.inj unpacked
      rfl
  | DISABLE_XLATER =>
      obtain ⟨id, found, rfl⟩ := Option.map_eq_some_iff.mp unpacked
      rw [branch, found]
  | CREATE_XLATER | ENABLE_XLATER | MODIFY_XLATER | DESTROY_XLATER | RECORD_START | SET_GAIN
  | RETUNE | SET_PPM =>
      obtain ⟨s, found, rfl⟩ := Option.map_eq_some_iff.mp unpacked
      rw [branch, found]
      rfl

/-- Unpacking fields as the format is described. -/
def unpackFields : Unpack where
  create_xlater buf := do
    let fields ← parse buf
    return (← required int32? 1 fields, ← required float? 2 fields, ← required int32? 3 fields,
      ← required int32? 4 fields, ← repeated floats? 5 fields)
  enable_xlater buf := do
    let fields ← parse buf
    return (← required int32? 1 fields, ← required sample_type? 2 fields)
  disable_xlater buf := (parse buf).bind (required int32? 1)
  modify_xlater buf := do
    let fields ← parse buf
    return (← required int32? 1 fields, ← required float? 2 fields, ← repeated floats? 3 fields)
  destroy_xlater buf := (parse buf).bind (required int32? 1)
  record_start buf := do
    let fields ← parse buf
    return (← required int32? 1 fields, ← required int32? 2 fields)
  set_gain buf := do
    let fields ← parse buf
    return ⟨← required int32? 1 fields, ← required int32? 2 fields, ← required int32? 3 fields,
      ← required int32? 4 fields⟩
  retune buf := (parse buf).bind (required int64? 1)
  set_ppm buf := (parse buf).bind (required int32? 1)
  frees_null := true

/-- The numbers that a message has a field for. -/
def numbers : CliMsg → List Nat
  | .CREATE_XLATER .. => [1, 2, 3, 4, 5]
  | .MODIFY_XLATER .. => [1, 2, 3]
  | .SET_GAIN _ => [1, 2, 3, 4]
  | .ENABLE_XLATER .. | .RECORD_START .. => [1, 2]
  | .DISABLE_XLATER _ | .DESTROY_XLATER _ | .RETUNE _ | .SET_PPM _ => [1]
  | _ => []

theorem sample_type?_code {type : SampleType} (known : type ∈ [SampleType.F32, .I16, .I8]) :
    sample_type? (.varint (ofInt type.code)) = some type := by
  obtain ⟨range, back⟩ := ofCode_code known
  rw [sample_type?, int32?_ofInt range, Option.map_some, back]

/-- Other numbers do not matter, nor does the order of fields of different numbers. -/
theorem message?_unpackFields {msg : CliMsg} {command : Command} (assignable : Assignable msg)
    (own : commands.lookup (type msg) = some command) {sent : List Field}
    (same : ∀ number ∈ numbers msg, occurrences number sent = occurrences number (fields msg)) :
    message? unpackFields (encode sent) command = some msg := by
  cases msg with
  | LIST_XLATERS | GET_INFO | RECORD_STOP | ENABLE_SPECTRUM | ENABLE_HISTO =>
      obtain rfl := Option.some.inj own
      rfl
  | unknown type =>
      cases assignable.2.symm.trans own
  | CREATE_XLATER remoteid rotate decimation startframe taps =>
      obtain rfl := Option.some.inj own
      obtain ⟨remoteid_range, decimation_range, startframe_range⟩ := assignable
      simp only [numbers, List.forall_mem_cons] at same
      obtain ⟨first, second, third, fourth, fifth, -⟩ := same
      simp [fields] at first second third fourth fifth
      have remoteid_read := required_single int32? first (int32?_ofInt remoteid_range)
      have rotate_read := required_single float? second (float?_floatBytes rotate)
      have decimation_read := required_single int32? third (int32?_ofInt decimation_range)
      have startframe_read := required_single int32? fourth (int32?_ofInt startframe_range)
      have taps_read := repeated_map floats? fifth floats?_floatBytes
      rw [List.map_id'] at taps_read
      simp only [message?, unpackFields, parse_encode, Option.bind_eq_bind, Option.bind_some,
        remoteid_read, rotate_read, decimation_read, startframe_read, taps_read]
      rfl
  | MODIFY_XLATER localid rotate newtaps =>
      obtain rfl := Option.some.inj own
      simp only [numbers, List.forall_mem_cons] at same
      obtain ⟨first, second, third, -⟩ := same
      simp [fields] at first second third
      have localid_read := required_single int32? first (int32?_ofInt assignable)
      have rotate_read := required_single float? second (float?_floatBytes rotate)
      have newtaps_read := repeated_map floats? third floats?_floatBytes
      rw [List.map_id'] at newtaps_read
      simp only [message?, unpackFields, parse_encode, Option.bind_eq_bind, Option.bind_some,
        localid_read, rotate_read, newtaps_read]
      rfl
  | SET_GAIN gain =>
      obtain rfl := Option.some.inj own
      obtain ⟨autogain, global_gain, if_gain, bb_gain⟩ := assignable
      simp only [numbers, List.forall_mem_cons] at same
      obtain ⟨first, second, third, fourth, -⟩ := same
      simp [fields] at first second third fourth
      simp only [message?, unpackFields, parse_encode, Option.bind_eq_bind, Option.bind_some,
        required_single int32? first (int32?_ofInt autogain),
        required_single int32? second (int32?_ofInt global_gain),
        required_single int32? third (int32?_ofInt if_gain),
        required_single int32? fourth (int32?_ofInt bb_gain)]
      rfl
  | ENABLE_XLATER id type =>
      obtain rfl := Option.some.inj own
      obtain ⟨id_range, known⟩ := assignable
      simp only [numbers, List.forall_mem_cons] at same
      obtain ⟨first, second, -⟩ := same
      simp [fields] at first second
      simp only [message?, unpackFields, parse_encode, Option.bind_eq_bind, Option.bind_some,
        required_single int32? first (int32?_ofInt id_range),
        required_single sample_type? second (sample_type?_code known)]
      rfl
  | RECORD_START startframe stopframe =>
      obtain rfl := Option.some.inj own
      obtain ⟨startframe_range, stopframe_range⟩ := assignable
      simp only [numbers, List.forall_mem_cons] at same
      obtain ⟨first, second, -⟩ := same
      simp [fields] at first second
      simp only [message?, unpackFields, parse_encode, Option.bind_eq_bind, Option.bind_some,
        required_single int32? first (int32?_ofInt startframe_range),
        required_single int32? second (int32?_ofInt stopframe_range)]
      rfl
  | RETUNE freq =>
      obtain rfl := Option.some.inj own
      simp only [numbers, List.forall_mem_cons] at same
      have first := same.1
      simp [fields] at first
      simp only [message?, unpackFields, parse_encode, Option.bind_some,
        required_single int64? first (int64?_ofInt assignable), Option.map_some]
  | DISABLE_XLATER id | DESTROY_XLATER id | SET_PPM id =>
      obtain rfl := Option.some.inj own
      simp only [numbers, List.forall_mem_cons] at same
      have first := same.1
      simp [fields] at first
      simp only [message?, unpackFields, parse_encode, Option.bind_some,
        required_single int32? first (int32?_ofInt assignable), Option.map_some]

/-! ## Replies -/

def runningFields (msg : SRV_RUNNING_XLATER) : List Field :=
  [int 1 msg.remoteid, int 2 msg.id, float 3 msg.rotate, int 4 msg.decimation positive_four]

def infoFields (msg : SRV_INFO) : List Field :=
  [int 1 msg.samplerate, int 2 msg.frequency, int 3 msg.ppm, int 4 msg.fftw positive_four,
    int 5 msg.gain.autogain, int 6 msg.gain.global_gain, int 7 msg.gain.if_gain,
    int 8 msg.gain.bb_gain, int 9 msg.packetlen, int 10 msg.bufsize, int 11 msg.maxtaps]

def destroyedFields (id : Int) : List Field := [int 1 id]

/-- The values that the variables of the server hold. -/
def Held : SrvMsg → Prop
  | .running msg => Int32 msg.remoteid ∧ Int32 msg.id ∧ Int32 msg.decimation
  | .info msg =>
      (Int32 msg.samplerate ∧ Int64 msg.frequency ∧ Int32 msg.ppm ∧ Int32 msg.fftw) ∧
      (Int32 msg.gain.autogain ∧ Int32 msg.gain.global_gain ∧ Int32 msg.gain.if_gain ∧
        Int32 msg.gain.bb_gain) ∧
      Int32 msg.packetlen ∧ Int32 msg.bufsize ∧ Int32 msg.maxtaps
  | .destroyed id => Int32 id
  | _ => True

instance (msg : SrvMsg) : Decidable (Held msg) := by
  cases msg <;> unfold Held <;> infer_instance

def parseRunning (buf : List UInt8) : Option SRV_RUNNING_XLATER := do
  let fields ← parse buf
  return ⟨← required int32? 1 fields, ← required int32? 2 fields, ← required float? 3 fields,
    ← required int32? 4 fields⟩

def parseInfo (buf : List UInt8) : Option SRV_INFO := do
  let fields ← parse buf
  return ⟨← required int32? 1 fields, ← required int64? 2 fields, ← required int32? 3 fields,
    ← required int32? 4 fields,
    ⟨← required int32? 5 fields, ← required int32? 6 fields, ← required int32? 7 fields,
      ← required int32? 8 fields⟩,
    ← required int32? 9 fields, ← required int32? 10 fields, ← required int32? 11 fields⟩

def parseDestroyed (buf : List UInt8) : Option Int := (parse buf).bind (required int32? 1)

section Parsed

variable {sent : List Field}

theorem parseRunning_encode {msg : SRV_RUNNING_XLATER} (held : Held (.running msg))
    (same : ∀ number ∈ [1, 2, 3, 4],
      occurrences number sent = occurrences number (runningFields msg)) :
    parseRunning (encode sent) = some msg := by
  obtain ⟨remoteid, id, decimation⟩ := held
  simp only [List.forall_mem_cons] at same
  obtain ⟨first, second, third, fourth, -⟩ := same
  simp [runningFields] at first second third fourth
  simp only [parseRunning, parse_encode, Option.bind_eq_bind, Option.bind_some,
    required_single int32? first (int32?_ofInt remoteid),
    required_single int32? second (int32?_ofInt id),
    required_single float? third (float?_floatBytes msg.rotate),
    required_single int32? fourth (int32?_ofInt decimation)]
  rfl

theorem parseInfo_encode {msg : SRV_INFO} (held : Held (.info msg))
    (same : ∀ number ∈ [1, 2, 3, 4, 5, 6, 7, 8, 9, 10, 11],
      occurrences number sent = occurrences number (infoFields msg)) :
    parseInfo (encode sent) = some msg := by
  obtain ⟨⟨samplerate, frequency, ppm, fftw⟩, ⟨autogain, global_gain, if_gain, bb_gain⟩,
    packetlen, bufsize, maxtaps⟩ := held
  simp only [List.forall_mem_cons] at same
  obtain ⟨first, second, third, fourth, fifth, sixth, seventh, eighth, ninth, tenth, last, -⟩ :=
    same
  simp [infoFields] at first second third fourth fifth sixth seventh eighth ninth tenth last
  simp only [parseInfo, parse_encode, Option.bind_eq_bind, Option.bind_some,
    required_single int32? first (int32?_ofInt samplerate),
    required_single int64? second (int64?_ofInt frequency),
    required_single int32? third (int32?_ofInt ppm),
    required_single int32? fourth (int32?_ofInt fftw),
    required_single int32? fifth (int32?_ofInt autogain),
    required_single int32? sixth (int32?_ofInt global_gain),
    required_single int32? seventh (int32?_ofInt if_gain),
    required_single int32? eighth (int32?_ofInt bb_gain),
    required_single int32? ninth (int32?_ofInt packetlen),
    required_single int32? tenth (int32?_ofInt bufsize),
    required_single int32? last (int32?_ofInt maxtaps)]
  rfl

theorem parseDestroyed_encode {id : Int} (held : Int32 id)
    (same : occurrences 1 sent = occurrences 1 (destroyedFields id)) :
    parseDestroyed (encode sent) = some id := by
  simp [destroyedFields] at same
  rw [parseDestroyed, parse_encode, Option.bind_some,
    required_single int32? same (int32?_ofInt held)]

end Parsed

/-! ## The packing functions on fields -/

theorem varint_eq_base128 (digits n : Nat) : varint digits n = base128 digits n := by
  induction digits generalizing n with
  | zero => rfl
  | succ digits ih => rw [varint, base128, ih]

theorem bytes_int {number : Nat} (positive : 0 < number) (small : number < 16) (value : Int) :
    (int number value positive (Nat.lt_trans small (by decide))).bytes =
      intField number value := by
  have key : base128 10 (8 * number) = [UInt8.ofNat (8 * number)] := by
    rw [base128, if_pos (by omega)]
  have digits : (ofInt value).toNat = (value % 2 ^ 64).toNat := by
    have := toNat_ofInt value
    omega
  rw [Field.bytes, value_int, Value.wireType, Value.bytes, number_int, Nat.add_zero, key,
    List.singleton_append, intField, varint_eq_base128, digits]

theorem bytes_float {number : Nat} (positive : 0 < number) (small : number < 15)
    (value : Float32Bits) :
    (float number value positive (Nat.lt_trans small (by decide))).bytes =
      floatField number value := by
  have key : base128 10 (8 * number + 5) = [UInt8.ofNat (8 * number + 5)] := by
    rw [base128, if_pos (by omega)]
  rw [Field.bytes, value_float, Value.wireType, Value.bytes, number_float, key,
    List.singleton_append, floatField]

theorem running_eq_encode (msg : SRV_RUNNING_XLATER) :
    Protobuf.documented.running msg = encode (runningFields msg) := by
  rw [runningFields, encode, List.flatMap_cons, List.flatMap_cons, List.flatMap_cons,
    List.flatMap_cons, List.flatMap_nil, bytes_int (by decide) (by decide),
    bytes_int (by decide) (by decide), bytes_float (by decide) (by decide),
    bytes_int (by decide) (by decide), List.append_nil, Protobuf.documented]
  simp only [List.append_assoc]

theorem info_eq_encode (msg : SRV_INFO) :
    Protobuf.documented.info msg = encode (infoFields msg) := by
  have each (number : Nat) (positive : 0 < number) (small : number < 16) (value : Int) :=
    bytes_int positive small value
  simp only [infoFields, encode, List.flatMap_cons, List.flatMap_nil, List.append_nil]
  rw [each 1, each 2, each 3, each 4, each 5, each 6, each 7, each 8, each 9, each 10, each 11]
  · simp only [Protobuf.documented, List.append_assoc]
  all_goals decide

theorem destroyed_eq_encode (id : Int) :
    Protobuf.documented.destroyed id = encode (destroyedFields id) := by
  rw [destroyedFields, encode, List.flatMap_cons, List.flatMap_nil,
    bytes_int (by decide) (by decide), List.append_nil, Protobuf.documented]

/-! ## The generated code -/

/-- `SerializeToString` and `ParseFromString` of the clients, and the packing and
unpacking functions of the server.  Each end reads what the other one has written. -/
structure Generated where
  SerializeToString : CliMsg → List UInt8
  unpack : Unpack
  pack : Protobuf
  running : List UInt8 → Option SRV_RUNNING_XLATER
  info : List UInt8 → Option SRV_INFO
  destroyed : List UInt8 → Option Int
  unpack_serialized : ∀ {msg command}, Assignable msg →
    commands.lookup (type msg) = some command →
    message? unpack (SerializeToString msg) command = some msg
  running_packed : ∀ {msg}, Held (.running msg) → running (pack.running msg) = some msg
  info_packed : ∀ {msg}, Held (.info msg) → info (pack.info msg) = some msg
  destroyed_packed : ∀ {id}, Held (.destroyed id) → destroyed (pack.destroyed id) = some id

/-- Both ends as the wire format is described. -/
def Generated.documented : Generated where
  SerializeToString msg := encode (fields msg)
  unpack := unpackFields
  pack := .documented
  running := parseRunning
  info := parseInfo
  destroyed := parseDestroyed
  unpack_serialized assignable own := message?_unpackFields assignable own fun _ _ => rfl
  running_packed held := by
    rw [running_eq_encode]
    exact parseRunning_encode held fun _ _ => rfl
  info_packed held := by
    rw [info_eq_encode]
    exact parseInfo_encode held fun _ _ => rfl
  destroyed_packed held := by
    rw [destroyed_eq_encode]
    exact parseDestroyed_encode held rfl

/-- What a client queues: the type and the message. -/
def Generated.body (c2s : Generated) (msg : CliMsg) : List UInt8 :=
  LE32 (type msg) ++ c2s.SerializeToString msg

/-- The types that an `int32_t` tells, as the branches compare them. -/
theorem command?_body (c2s : Generated) {msg : CliMsg} (assignable : Assignable msg) :
    command? (c2s.body msg) = commands.lookup (type msg) := by
  have range : Int32 (type msg) := by
    cases msg with
    | unknown type => exact assignable.1
    | _ => exact of_decide_eq_true rfl
  have front : (c2s.body msg).take 4 = LE32 (type msg) := List.take_left' (length_LE32 _)
  rw [command?, front, signed_LE32 range.1 range.2]

/-- The server runs the handler of the message that was sent. -/
theorem parse_client_req_body (c2s : Generated) {msg : CliMsg} (assignable : Assignable msg)
    (workers : List ClientParser.WorkerEntry) (me : Nat) (now : Int) :
    RequestBytes.parse_client_req c2s.unpack workers me now (c2s.body msg) =
      .ok (ClientParser.parse_client_req me now msg) := by
  have typed : 4 ≤ (c2s.body msg).length := by
    rw [Generated.body, List.length_append, length_LE32]
    exact Nat.le_add_right 4 _
  have back : (c2s.body msg).drop 4 = c2s.SerializeToString msg :=
    List.drop_left' (length_LE32 _)
  rw [parse_client_req_eq _ _ _ _ typed, command?_body c2s assignable, back]
  cases found : commands.lookup (type msg) with
  | none =>
      cases msg with
      | unknown type => rfl
      | _ => cases found
  | some command => exact branch_of_message (c2s.unpack_serialized assignable found)

end Kukuruku.Server.C2s
