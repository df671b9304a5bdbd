import Mathlib.Algebra.Order.Floor.Ring
import Mathlib.Data.Rat.Floor
import Mathlib.Algebra.Order.Field.Basic
import Mathlib.Tactic.Linarith
import Mathlib.Tactic.FieldSimp
import Mathlib.Tactic.NormNum
import Kukuruku.Foundation.Truncate
import Kukuruku.Clients.Transport

/-!
# Channel payloads

What `socket_write_thr` writes for one subscribed frame, and what
`process_payload` makes of it.  Scaling is exact rational arithmetic on the
values of the floats; conversion to an integer type truncates towards zero.
-/

namespace Kukuruku.Clients.Payload

open Kukuruku.Server Messages Endian Transport

/-! ## The sender -/

/-- Conversion of a number to an integer type that holds it. -/
def trunc (q : ℚ) : Int := if 0 ≤ q then ⌊q⌋ else ⌈q⌉

/-- The conversions of `socket_write_thr`, with `value` the number that a float
stands for. -/
def exactly (pack : Protobuf) (value : Float32Bits → ℚ) : Protobuf :=
  { pack with
    toI16 := fun maxval sample => trunc (value sample * (32767 / value maxval))
    toI8 := fun maxval sample => trunc (value sample * (127 / value maxval)) }

/-- The announced size and the writes after it, with the arithmetic on `plen`; the
formats without a branch write nothing.  Time and frame number of the header are
what its memory holds. -/
def socket_write_payload (pack : Protobuf) (wid time frameno : Int) (maxval : Float32Bits)
    (outbuf : List Float32Bits) (format : SampleType) : Option (Int × List (List UInt8)) :=
  let ph : PayloadHeader := ⟨wid, time, frameno, format.code⟩
  match format with
  | .F32 =>
      let plen := outbuf.length * 4
      some (20 + plen, [ph.bytes, outbuf.flatMap floatBytes])
  | .I16 =>
      let plen := outbuf.length * 4 / 2
      some (20 + plen, ph.bytes ::
        (outbuf.take (plen * 2 / 4)).map fun sample => LE16 (pack.toI16 maxval sample))
  | .I8 =>
      let plen := outbuf.length * 4 / 4
      some (20 + plen, ph.bytes ::
        (outbuf.take (plen * 4 / 4)).map fun sample => littleEndian 1 (pack.toI8 maxval sample))
  | .other _ => none

/-- The message that the server's model sends. -/
theorem socket_write_payload_eq (pack : Protobuf) (wid time frameno : Int) (maxval : Float32Bits)
    (samples : Samples) {format : SampleType}
    (supported : format = .F32 ∨ format = .I16 ∨ format = .I8) :
    let msg := SrvMsg.payload ⟨wid, time, frameno, format.code⟩ format maxval samples
    socket_write_payload pack wid time frameno maxval samples.val format =
      some (msg.size pack, msg.writes pack) := by
  rcases supported with rfl | rfl | rfl
  · simp [socket_write_payload, SrvMsg.size, SrvMsg.writes]
  · have all : samples.val.length * 4 / 2 * 2 / 4 = samples.val.length := by omega
    simp [socket_write_payload, SrvMsg.size, SrvMsg.writes, all]
  · simp [socket_write_payload, SrvMsg.size, SrvMsg.writes]

/-! ## The receiver -/

/-- Cut `count` items of a fixed width off the front. -/
def words (width : Nat) : Nat → List UInt8 → List (List UInt8)
  | 0, _ => []
  | count + 1, bytes => bytes.take width :: words width count (bytes.drop width)

theorem words_map {α : Type*} {width : Nat} {encode : α → List UInt8}
    (fixed : ∀ sample, (encode sample).length = width) (samples : List α) :
    words width samples.length (samples.map encode).flatten = samples.map encode := by
  induction samples with
  | nil => rfl
  | cons sample rest ih =>
      rw [List.map_cons, List.flatten_cons, List.length_cons, words,
        List.take_left' (fixed sample), List.drop_left' (fixed sample), ih]

/-- The samples that are passed on to the program of a channel. -/
inductive ChannelData where
  | raw (bytes : List UInt8)
  | scaled (values : List ℚ)
deriving DecidableEq

inductive Outcome where
  | fft_callback (flts : List Float32Bits) (frameno time : Int)
  | histo_callback (bins : List Nat)
  | channel (wid stype : Int) (datacut : ChannelData)
  | dropped (wid : Int)
  | ignored
deriving DecidableEq

/-- The floats of a string of bytes. -/
def floats (bytes : List UInt8) : List Float32Bits :=
  (words 4 (bytes.length / 4) bytes).map fun word => UInt32.ofNat (unsigned word)

/-- The integers of a string of bytes, divided by the largest one. -/
def rescale (width : Nat) (largest : ℚ) (bytes : List UInt8) : List ℚ :=
  (words width (bytes.length / width) bytes).map fun word => (signed word : ℚ) / largest

/-- `alive` tells which xlaters are known and have a living thread; an exception
is `none`. -/
def process_payload (alive : Int → Bool) (d : List UInt8) : Option Outcome :=
  if d.length < 16 then none
  else
    let wid := signed (d.take 4)
    let time := signed ((d.drop 4).take 4)
    let frameno := signed ((d.drop 8).take 4)
    let stype := signed ((d.drop 12).take 4)
    let body := d.drop 16
    if wid = -1 then
      if body.length % 4 = 0 then some (.fft_callback (floats body) frameno time) else none
    else if wid = -2 then
      if body.length % 2 = 0 then
        some (.histo_callback ((words 2 (body.length / 2) body).map unsigned))
      else none
    else if wid ≥ 0 then
      if alive wid then
        if stype = 1 then some (.channel wid stype (.raw body))
        else if stype = 2 then
          if body.length % 2 = 0 then some (.channel wid stype (.scaled (rescale 2 32767 body)))
          else none
        else if stype = 3 then some (.channel wid stype (.scaled (rescale 1 127 body)))
        else none
      else some (.dropped wid)
    else some .ignored

/-! ## What arrives -/

theorem take_LE32 (value : Int) (rest : List UInt8) : (LE32 value ++ rest).take 4 = LE32 value :=
  List.take_left' (length_LE32 value)

theorem drop_LE32 (value : Int) (rest : List UInt8) : (LE32 value ++ rest).drop 4 = rest :=
  List.drop_left' (length_LE32 value)

theorem drop_LE32_add (value : Int) (rest : List UInt8) (n : Nat) :
    (LE32 value ++ rest).drop (4 + n) = rest.drop n := by
  rw [← List.drop_drop, drop_LE32]

/-- The header without its type, and the body. -/
def afterType (header : PayloadHeader) (body : List UInt8) : List UInt8 :=
  LE32 header.id ++ (LE32 header.time ++ (LE32 header.frameno ++ (LE32 header.type ++ body)))

theorem dispatch_header (header : PayloadHeader) (body : List UInt8) :
    dispatch (header.bytes ++ body) = .process_payload (afterType header body) := by
  have split : header.bytes ++ body = LE32 256 ++ afterType header body := by
    simp only [PayloadHeader.bytes, afterType, List.append_assoc]
  have type : signed (LE32 256) = 256 := signed_LE32 (by decide) (by decide)
  rw [split, dispatch, take_LE32, drop_LE32, type]
  rfl

/-- A payload of a living channel by its sample type. -/
theorem process_payload_channel {alive : Int → Bool} {header : PayloadHeader}
    (id : 0 ≤ header.id ∧ header.id < 2 ^ 31) (running : alive header.id = true)
    (type : -2 ^ 31 ≤ header.type ∧ header.type < 2 ^ 31) (body : List UInt8) :
    process_payload alive (afterType header body) =
      if header.type = 1 then some (.channel header.id header.type (.raw body))
      else if header.type = 2 then
        if body.length % 2 = 0 then
          some (.channel header.id header.type (.scaled (rescale 2 32767 body)))
        else none
      else if header.type = 3 then
        some (.channel header.id header.type (.scaled (rescale 1 127 body)))
      else none := by
  have long : ¬(afterType header body).length < 16 := by
    simp only [afterType, List.length_append, length_LE32]
    omega
  have four : ∀ n, (afterType header body).drop (4 + n) =
      (LE32 header.time ++ (LE32 header.frameno ++ (LE32 header.type ++ body))).drop n :=
    drop_LE32_add header.id _
  have twelve : (afterType header body).drop 12 = LE32 header.type ++ body := by
    refine (four 8).trans ?_
    exact (drop_LE32_add header.time _ 4).trans (drop_LE32 header.frameno _)
  have sixteen : (afterType header body).drop 16 = body := by
    refine (four 12).trans ((drop_LE32_add header.time _ 8).trans ?_)
    exact (drop_LE32_add header.frameno _ 4).trans (drop_LE32 header.type body)
  have wid : signed ((afterType header body).take 4) = header.id := by
    rw [afterType, take_LE32, signed_LE32 (by omega) id.2]
  have stype : signed (((afterType header body).drop 12).take 4) = header.type := by
    rw [twelve, take_LE32, signed_LE32 type.1 type.2]
  rw [process_payload, if_neg long]
  simp only [wid, stype, sixteen]
  rw [if_neg (by omega), if_neg (by omega), if_pos id.1, if_pos running]

theorem unsigned_floatBytes (sample : Float32Bits) :
    unsigned (floatBytes sample) = sample.toNat := by
  have read := unsigned_littleEndian 4 sample.toNat
  have small := sample.toNat_lt
  rw [floatBytes, LE32]
  omega

theorem floats_floatBytes (samples : List Float32Bits) :
    floats (samples.flatMap floatBytes) = samples := by
  have count : (samples.flatMap floatBytes).length / 4 = samples.length := by
    rw [SrvMsg.length_flatMap_floatBytes]
    omega
  have fixed : ∀ sample, (floatBytes sample).length = 4 := fun sample => length_LE32 _
  rw [floats, count, List.flatMap_def, words_map fixed, List.map_map]
  simp [Function.comp_def, unsigned_floatBytes]

theorem rescale_map {width : Nat} (largest : ℚ) (convert : Float32Bits → Int)
    (samples : List Float32Bits) (width_pos : 0 < width)
    (fits : ∀ sample ∈ samples, -(256 ^ width : Nat) ≤ convert sample * 2 ∧
      convert sample * 2 < (256 ^ width : Nat)) :
    rescale width largest
        (samples.map fun sample => littleEndian width (convert sample)).flatten =
      samples.map fun sample => (convert sample : ℚ) / largest := by
  have count : (samples.map fun sample => littleEndian width (convert sample)).flatten.length /
      width = samples.length := by
    rw [SrvMsg.length_flatten_map _ width fun sample => length_littleEndian width _]
    exact Nat.mul_div_cancel_left _ width_pos
  rw [rescale, count, words_map (fun sample => length_littleEndian width _), List.map_map]
  apply List.map_congr_left
  intro sample member
  rw [Function.comp_apply, signed_littleEndian (fits sample member).1 (fits sample member).2]

/-! ## Scaling -/

theorem trunc_eq (q : ℚ) : trunc q = truncate q := rfl

/-- A sample scaled by a bound of its size, and the number that arrives for it. -/
theorem scaled_range {x maxval : ℚ} (positive : 0 < maxval) (bounded : |x| ≤ maxval)
    {largest : Int} (some_bits : 0 < largest) :
    (-largest ≤ trunc (x * (largest / maxval)) ∧ trunc (x * (largest / maxval)) ≤ largest) ∧
      |(trunc (x * (largest / maxval)) : ℚ) / largest - x / maxval| ≤ 1 / largest := by
  have some_bits' : (0 : ℚ) < largest := by exact_mod_cast some_bits
  constructor
  · rw [trunc_eq]
    apply truncate_range
    rw [abs_mul, abs_of_pos (div_pos some_bits' positive), mul_div_assoc', div_le_iff₀ positive,
      mul_comm]
    exact mul_le_mul_of_nonneg_left bounded some_bits'.le
  · have near := (abs_truncate_sub_lt (x * (largest / maxval))).le
    have apart : (trunc (x * (largest / maxval)) : ℚ) / largest - x / maxval =
        ((trunc (x * (largest / maxval)) : ℚ) - x * (largest / maxval)) / largest := by
      field_simp
    rw [apart, abs_div, abs_of_pos some_bits']
    exact div_le_div_of_nonneg_right near some_bits'.le

/-- The number that arrives for a sample sent with some number of steps. -/
def quantised (largest : Int) (x maxval : ℚ) : ℚ := (trunc (x * (largest / maxval)) : ℚ) / largest

/-- Each component truncated to a step, hence within one step of its share of
`maxval`. -/
def Scaled (largest : Int) (value : Float32Bits → ℚ) (maxval : Float32Bits)
    (outbuf : List Float32Bits) (values : List ℚ) : Prop :=
  values = outbuf.map (fun x => quantised largest (value x) (value maxval)) ∧
    ∀ x ∈ outbuf, |quantised largest (value x) (value maxval) - value x / value maxval| ≤
      1 / largest

/-- What is passed on is the frame that was sent: floats bit for bit. -/
def Recovers (value : Float32Bits → ℚ) (maxval : Float32Bits) (outbuf : List Float32Bits) :
    SampleType → ChannelData → Prop
  | .F32, .raw bytes => bytes.length = 4 * outbuf.length ∧ floats bytes = outbuf
  | .I16, .scaled values => Scaled 32767 value maxval outbuf values
  | .I8, .scaled values => Scaled 127 value maxval outbuf values
  | _, _ => False

/-- Both integer formats recover the frame from the bytes of its integers. -/
theorem scaled_rescale {width : Nat} {largest : Int} (some_bits : 0 < largest)
    (fits : largest * 2 < (256 ^ width : Nat)) {value : Float32Bits → ℚ} {maxval : Float32Bits}
    (positive : 0 < value maxval) {outbuf : List Float32Bits}
    (bounded : ∀ x ∈ outbuf, |value x| ≤ value maxval) :
    Scaled largest value maxval outbuf (rescale width largest
      (outbuf.map fun x => littleEndian width
        (trunc (value x * (largest / value maxval)))).flatten) := by
  have range := fun x (member : x ∈ outbuf) => scaled_range positive (bounded x member) some_bits
  have wide : 0 < width := by
    by_contra narrow
    obtain rfl : width = 0 := by omega
    omega
  refine ⟨rescale_map largest _ outbuf wide fun x member => ?_, fun x member => (range x member).2⟩
  have limits := (range x member).1
  omega

/-- The announced length is what is written, and the client recovers the worker,
the format and every component of the frame. -/
theorem payload_round_trip (pack : Protobuf) (value : Float32Bits → ℚ) (alive : Int → Bool)
    {wid : Int} (id : 0 ≤ wid ∧ wid < 2 ^ 31) (running : alive wid = true) (time frameno : Int)
    {format : SampleType} (supported : format = .F32 ∨ format = .I16 ∨ format = .I8)
    {maxval : Float32Bits} (positive : 0 < value maxval) (outbuf : Samples)
    (bounded : ∀ x ∈ outbuf.val, |value x| ≤ value maxval) :
    ∃ size writes,
      socket_write_payload (exactly pack value) wid time frameno maxval outbuf.val format =
        some (size, writes) ∧
      size = writes.flatten.length ∧
      ∃ d datacut, dispatch writes.flatten = .process_payload d ∧
        process_payload alive d = some (.channel wid format.code datacut) ∧
        Recovers value maxval outbuf.val format datacut := by
  have sent := socket_write_payload_eq (exactly pack value) wid time frameno maxval outbuf supported
  refine ⟨_, _, sent, SrvMsg.size_eq _ _, ?_⟩
  rcases supported with rfl | rfl | rfl
  · have parsed : process_payload alive (afterType ⟨wid, time, frameno, 1⟩ _) = _ :=
      process_payload_channel id running (show -2 ^ 31 ≤ (1 : Int) ∧ (1 : Int) < 2 ^ 31 by decide)
        [outbuf.val.flatMap floatBytes].flatten
    refine ⟨_, .raw _, dispatch_header _ _, parsed, ?_⟩
    rw [List.flatten_singleton]
    exact ⟨SrvMsg.length_flatMap_floatBytes _, floats_floatBytes _⟩
  · have parsed : process_payload alive (afterType ⟨wid, time, frameno, 2⟩ _) = _ :=
      process_payload_channel id running (show -2 ^ 31 ≤ (2 : Int) ∧ (2 : Int) < 2 ^ 31 by decide)
        (outbuf.val.map fun x => LE16 ((exactly pack value).toI16 maxval x)).flatten
    have even := SrvMsg.length_flatten_map
      (fun x => LE16 ((exactly pack value).toI16 maxval x)) 2 (fun x => length_LE16 _) outbuf.val
    rw [if_neg (show ¬(2 : Int) = 1 by decide), if_pos rfl, if_pos (by omega)] at parsed
    refine ⟨_, .scaled _, dispatch_header _ _, parsed, ?_⟩
    exact scaled_rescale (by decide) (by decide) positive bounded
  · have parsed : process_payload alive (afterType ⟨wid, time, frameno, 3⟩ _) = _ :=
      process_payload_channel id running (show -2 ^ 31 ≤ (3 : Int) ∧ (3 : Int) < 2 ^ 31 by decide)
        (outbuf.val.map fun x => littleEndian 1 ((exactly pack value).toI8 maxval x)).flatten
    refine ⟨_, .scaled _, dispatch_header _ _, parsed, ?_⟩
    exact scaled_rescale (by decide) (by decide) positive bounded

/-- The number of a finite float. -/
def ofBits (x : Float32Bits) : ℚ :=
  let exponent := x.toNat / 2 ^ 23 % 2 ^ 8
  let mantissa : Nat := x.toNat % 2 ^ 23
  let size : ℚ :=
    if exponent = 0 then (mantissa : ℚ) / 2 ^ 149
    else ((2 ^ 23 + mantissa : Nat) : ℚ) * 2 ^ exponent / 2 ^ 150
  if x.toNat < 2 ^ 31 then size else -size

theorem ofBits_half : ofBits 0x3F000000 = 1 / 2 := by
  have bits : UInt32.toNat 0x3F000000 = 1056964608 := rfl
  norm_num [ofBits, bits]

theorem ofBits_quarter : ofBits 0x3E800000 = 1 / 4 := by
  have bits : UInt32.toNat 0x3E800000 = 1048576000 := rfl
  norm_num [ofBits, bits]

theorem ofBits_negative_half : ofBits 0xBF000000 = -1 / 2 := by
  have bits : UInt32.toNat 0xBF000000 = 3204448256 := rfl
  norm_num [ofBits, bits]

/-- The sample 0.25 - 0.5j of worker 3 as 16-bit integers, with 0.5 for `maxval`. -/
theorem payload_round_trip_I16 :
    ∃ size writes,
      socket_write_payload (exactly .documented ofBits) 3 0 0 0x3F000000 [0x3E800000, 0xBF000000]
        .I16 = some (size, writes) ∧
      size = writes.flatten.length ∧
      ∃ d datacut, dispatch writes.flatten = .process_payload d ∧
        process_payload (fun wid => wid = 3) d = some (.channel 3 2 datacut) ∧
        Recovers ofBits 0x3F000000 [0x3E800000, 0xBF000000] .I16 datacut := by
  have positive : 0 < ofBits 0x3F000000 := by
    rw [ofBits_half]
    norm_num
  refine payload_round_trip .documented ofBits (fun wid => wid = 3) (by decide) (by decide) 0 0
    (.inr (.inl rfl)) positive ⟨[0x3E800000, 0xBF000000], by decide⟩ fun x member => ?_
  rw [ofBits_half]
  rcases List.mem_pair.mp member with rfl | rfl
  · rw [ofBits_quarter]
    norm_num [abs_le]
  · rw [ofBits_negative_half]
    norm_num [abs_le]

end Kukuruku.Clients.Payload
