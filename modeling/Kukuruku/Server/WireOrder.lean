import Kukuruku.Server.Bits

/-!
# Messages in the memory of a host

Before it is written a field lies in memory in the byte order of the host, and `LE32` or
`LE16` is called on it.  On the wire the messages should be those of `SrvMsg.bytes`
whatever the host.
-/

namespace Kukuruku.Server.WireOrder

open Kukuruku.Server.Bits
open Kukuruku.Server.Messages
open Kukuruku.Server.Endian

/-! ## Memory -/

/-- From the little-endian bytes of an object to its bytes in memory, and back. -/
def arrange : ByteOrder → List UInt8 → List UInt8
  | .little, bytes => bytes
  | .big, bytes => bytes.reverse
  | .pdp, bytes => bytes.drop 2 ++ bytes.take 2

def store (order : ByteOrder) (width : Nat) (value : Int) : List UInt8 :=
  arrange order (littleEndian width value)

def load (order : ByteOrder) (mem : List UInt8) : Nat := unsigned (arrange order mem)

/-- `htole32` and `htole16`: the number that lies in memory as `value` does on a
little-endian host. -/
def htole (order : ByteOrder) (width : Nat) (value : Int) : Int :=
  load order (littleEndian width value)

/-- An object is copied to a number, the number converted and copied back. -/
def convert (order : ByteOrder) (width : Nat) (mem : List UInt8) : List UInt8 :=
  store order width (htole order width (load order mem))

/-- The functions and the choices that are compiled. -/
structure Build where
  LE32 : List UInt8 → List UInt8
  LE16 : List UInt8 → List UInt8
  whole : Site → Bool

def build (host : Host) : Build where
  LE32 mem := if .LE32_htole32 ∈ host.preprocess bits_c then convert host.order 4 mem else mem
  LE16 mem := if .LE16_htole16 ∈ host.preprocess bits_c then convert host.order 2 mem else mem
  whole site := decide (.whole site ∈ host.preprocess server_c)

/-! ## Messages -/

inductive Piece where
  | LE32 (value : Int)
  | LE16 (value : Int)
  /-- Objects of some width, written as they lie in memory. -/
  | array (width : Nat) (values : List Int)
  /-- Single bytes, which every host has in the same order. -/
  | raw (mem : List UInt8)

/-- What is written of a piece. -/
def Piece.written (b : Build) (order : ByteOrder) : Piece → List UInt8
  | .LE32 value => b.LE32 (store order 4 value)
  | .LE16 value => b.LE16 (store order 2 value)
  | .array width values => values.flatMap (store order width)
  | .raw mem => mem

/-- The little-endian encoding of its values. -/
def Piece.encoded : Piece → List UInt8
  | .LE32 value => Messages.LE32 value
  | .LE16 value => Messages.LE16 value
  | .array width values => values.flatMap (littleEndian width)
  | .raw mem => mem

/-- A header field that is not set, by what a client reads there. -/
def unset (value : Int) : Piece := .raw (littleEndian 4 value)

section Pieces

variable (b : Build) (pack : Protobuf)

/-- An array of floats, in one of the two ways. -/
def floats (site : Site) (samples : List Float32Bits) : List Piece :=
  if b.whole site = true then [.array 4 (samples.map fun sample => (sample.toNat : Int))]
  else samples.map fun sample => .LE32 sample.toNat

def histogram (bins : List UInt16) : List Piece :=
  if b.whole .histo = true then [.array 2 (bins.map fun bin => (bin.toNat : Int))]
  else bins.map fun bin => .LE16 bin.toNat

/-- The samples of a payload in the format that its receiver has asked for. -/
def samplePieces (maxval : Float32Bits) (samples : List Float32Bits) : SampleType → List Piece
  | .I16 => samples.map fun sample => .LE16 (pack.toI16 maxval sample)
  | .I8 => samples.map fun sample => .raw (littleEndian 1 (pack.toI8 maxval sample))
  | _ => floats b .F32 samples

/-- The types of the messages. -/
def mtype : SrvMsg → Int
  | .running _ => 258
  | .info _ => 259
  | .destroyed _ => 260
  | .payload .. | .spectrum .. | .histo .. => 256

/-- What follows the length and the type. -/
def body : SrvMsg → List Piece
  | .running msg => [.raw (pack.running msg)]
  | .info msg => [.raw (pack.info msg)]
  | .destroyed id => [.raw (pack.destroyed id)]
  | .payload header format maxval samples =>
      .LE32 header.id :: unset header.time :: unset header.frameno :: .LE32 header.type ::
        samplePieces b pack maxval samples.val format
  | .spectrum header samples =>
      .LE32 header.id :: .LE32 header.time :: .LE32 header.frameno :: unset header.type ::
        floats b .spectrum samples.val
  | .histo header bins =>
      .LE32 header.id :: .LE32 header.time :: unset header.frameno :: unset header.type ::
        histogram b bins.val

/-- A message as `socket_write_thr` and the functions of `client_parser.c` write it. -/
def pieces (msg : SrvMsg) : List Piece :=
  .LE32 (msg.size pack) :: .LE32 (mtype msg) :: body b pack msg

theorem encoded_floats (site : Site) (samples : List Float32Bits) :
    (floats b site samples).flatMap Piece.encoded = samples.flatMap floatBytes := by
  rw [floats]
  split
  · rw [List.flatMap_singleton, Piece.encoded, List.flatMap_map]
    rfl
  · rw [List.flatMap_map]
    rfl

theorem encoded_histogram (bins : List UInt16) :
    (histogram b bins).flatMap Piece.encoded = bins.flatMap fun bin => Messages.LE16 bin.toNat := by
  rw [histogram]
  split
  · rw [List.flatMap_singleton, Piece.encoded, List.flatMap_map]
    rfl
  · rw [List.flatMap_map]
    rfl

theorem encoded_samplePieces (header : PayloadHeader) (format : SampleType)
    (maxval : Float32Bits) (samples : Samples) :
    (samplePieces b pack maxval samples.val format).flatMap Piece.encoded =
      ((SrvMsg.payload header format maxval samples).writes pack).tail.flatten := by
  cases format with
  | I16 | I8 =>
      rw [samplePieces, List.flatMap_map, List.flatMap_def]
      rfl
  | F32 | other => exact (encoded_floats b .F32 samples.val).trans List.flatten_singleton.symm

/-- Encoded piece by piece, every message is what it should be on the wire. -/
theorem encoded_pieces (msg : SrvMsg) :
    (pieces b pack msg).flatMap Piece.encoded = msg.bytes pack := by
  rw [pieces, List.flatMap_cons, List.flatMap_cons, SrvMsg.bytes]
  cases msg with
  | running | info | destroyed => simp [body, Piece.encoded, mtype, SrvMsg.writes]
  | payload header format maxval samples =>
      have split : ((SrvMsg.payload header format maxval samples).writes pack).flatten =
        header.bytes ++ ((SrvMsg.payload header format maxval samples).writes pack).tail.flatten :=
          rfl
      simp only [body, List.flatMap_cons]
      rw [split, encoded_samplePieces b pack header]
      simp [Piece.encoded, mtype, unset, PayloadHeader.bytes, Messages.LE32]
  | spectrum header samples =>
      simp [body, Piece.encoded, mtype, unset, SrvMsg.writes, encoded_floats,
        PayloadHeader.bytes, Messages.LE32]
  | histo header bins =>
      simp [body, Piece.encoded, mtype, unset, SrvMsg.writes, encoded_histogram,
        PayloadHeader.bytes, Messages.LE32]

end Pieces

/-! ## Conversions -/

/-- Objects of two and four bytes. -/
theorem arrange_arrange (order : ByteOrder) {mem : List UInt8}
    (word : mem.length = 2 ∨ mem.length = 4) : arrange order (arrange order mem) = mem := by
  cases order with
  | little => rfl
  | big => exact List.reverse_reverse mem
  | pdp =>
      rcases word with two | four
      · obtain ⟨first, second, rfl⟩ := List.length_eq_two.mp two
        rfl
      · obtain ⟨first, second, third, fourth, rfl⟩ := List.length_eq_four.mp four
        rfl

theorem length_arrange (order : ByteOrder) (mem : List UInt8) :
    (arrange order mem).length = mem.length := by
  cases order with
  | little => rfl
  | big => exact List.length_reverse
  | pdp =>
      rw [arrange, List.length_append, List.length_drop, List.length_take]
      omega

theorem length_store (order : ByteOrder) (width : Nat) (value : Int) :
    (store order width value).length = width := by
  rw [store, length_arrange, length_littleEndian]

/-- The functions with `htole32` and `htole16` put the bytes into little-endian order. -/
theorem convert_eq (order : ByteOrder) {width : Nat} {mem : List UInt8}
    (length : mem.length = width) (word : width = 2 ∨ width = 4) :
    convert order width mem = arrange order mem := by
  have back (bytes : List UInt8) (same : bytes.length = width) :
      littleEndian width (unsigned bytes) = bytes := by
    rw [← same, littleEndian_unsigned]
  rw [convert, store, htole, load, load, back _ ((length_arrange order mem).trans length),
    arrange_arrange order (length ▸ word), back mem length]

theorem convert_store (order : ByteOrder) {width : Nat} (word : width = 2 ∨ width = 4)
    (value : Int) : convert order width (store order width value) = littleEndian width value := by
  have length := length_littleEndian width value
  rw [store, convert_eq order ((length_arrange order _).trans length) word,
    arrange_arrange order (length.symm ▸ word)]

/-! ## What is written -/

/-- A message as it is written on a host. -/
def hostBytes (b : Build) (order : ByteOrder) (pack : Protobuf) (msg : SrvMsg) : List UInt8 :=
  (pieces b pack msg).flatMap (Piece.written b order)

/-- The conversions convert, and no array with another byte order is written whole. -/
structure Build.Converts (b : Build) (order : ByteOrder) : Prop where
  LE32 : ∀ mem, mem.length = 4 → b.LE32 mem = convert order 4 mem
  LE16 : ∀ mem, mem.length = 2 → b.LE16 mem = convert order 2 mem
  whole : ∀ site, b.whole site = true → order = .little

/-- An array is written whole only where the build says so. -/
def Piece.Chosen (b : Build) : Piece → Prop
  | .array _ _ => ∃ site, b.whole site = true
  | _ => True

theorem chosen_floats (b : Build) (site : Site) (samples : List Float32Bits) :
    ∀ piece ∈ floats b site samples, piece.Chosen b := by
  rw [floats]
  split
  · rename_i whole
    exact List.forall_mem_singleton.mpr ⟨site, whole⟩
  · exact List.forall_mem_map.mpr fun _ _ => trivial

theorem chosen_histogram (b : Build) (bins : List UInt16) :
    ∀ piece ∈ histogram b bins, piece.Chosen b := by
  rw [histogram]
  split
  · rename_i whole
    exact List.forall_mem_singleton.mpr ⟨.histo, whole⟩
  · exact List.forall_mem_map.mpr fun _ _ => trivial

theorem chosen_pieces (b : Build) (pack : Protobuf) (msg : SrvMsg) :
    ∀ piece ∈ pieces b pack msg, piece.Chosen b := by
  rw [pieces]
  refine List.forall_mem_cons.mpr ⟨trivial, List.forall_mem_cons.mpr ⟨trivial, ?_⟩⟩
  cases msg with
  | running | info | destroyed => exact List.forall_mem_singleton.mpr trivial
  | payload header format maxval samples =>
      have samples : ∀ piece ∈ samplePieces b pack maxval samples.val format, piece.Chosen b := by
        cases format with
        | I16 | I8 => exact List.forall_mem_map.mpr fun _ _ => trivial
        | F32 | other => exact chosen_floats b .F32 samples.val
      simpa [body, Piece.Chosen, unset] using samples
  | spectrum header samples =>
      simpa [body, Piece.Chosen, unset] using chosen_floats b .spectrum samples.val
  | histo header bins =>
      simpa [body, Piece.Chosen, unset] using chosen_histogram b bins.val

theorem written_eq_encoded {b : Build} {order : ByteOrder} (converts : b.Converts order)
    {piece : Piece} (chosen : piece.Chosen b) : piece.written b order = piece.encoded := by
  cases piece with
  | LE32 value =>
      rw [Piece.written, converts.LE32 _ (length_store order 4 value),
        convert_store order (Or.inr rfl)]
      rfl
  | LE16 value =>
      rw [Piece.written, converts.LE16 _ (length_store order 2 value),
        convert_store order (Or.inl rfl)]
      rfl
  | array width values =>
      obtain ⟨site, whole⟩ := chosen
      rw [converts.whole site whole]
      rfl
  | raw mem => rfl

/-- With the functions that `bits.c` means to compile the messages are the same on every
host. -/
theorem hostBytes_of_converts {b : Build} {order : ByteOrder} (converts : b.Converts order)
    (pack : Protobuf) (msg : SrvMsg) : hostBytes b order pack msg = msg.bytes pack := by
  rw [hostBytes, ← encoded_pieces b pack msg]
  exact List.flatMap_congr fun piece mem =>
    written_eq_encoded converts (chosen_pieces b pack msg piece mem)

section Compiled

variable (host : Host)

/-- The functions that are compiled are the empty ones, on every host. -/
theorem build_LE32 (mem : List UInt8) : (build host).LE32 mem = mem := by
  have empty : Text.LE32_htole32 ∉ host.preprocess bits_c := by
    rw [host.preprocess_bits_c]
    decide
  simp only [build, if_neg empty]

theorem build_LE16 (mem : List UInt8) : (build host).LE16 mem = mem := by
  have empty : Text.LE16_htole16 ∉ host.preprocess bits_c := by
    rw [host.preprocess_bits_c]
    decide
  simp only [build, if_neg empty]

theorem build_whole (site : Site) : (build host).whole site = true ↔ host.order = .little := by
  simp only [build, decide_eq_true_eq, host.preprocess_server_c, Host.arrayText, Host.declarations]
  by_cases little : host.order = .little
  · cases site <;> simp [little]
  · cases site <;> simp [little]

/-- On a little-endian host the conversions have nothing to do. -/
theorem converts_little (little : host.order = .little) :
    (build host).Converts host.order where
  LE32 mem length := by rw [build_LE32, convert_eq _ length (Or.inr rfl), little, arrange]
  LE16 mem length := by rw [build_LE16, convert_eq _ length (Or.inl rfl), little, arrange]
  whole site := (build_whole host site).mp

theorem mtype_mem (msg : SrvMsg) : mtype msg ∈ [256, 258, 259, 260] := by
  cases msg <;> simp [mtype]

/-- No type of a message reads the same in another byte order. -/
theorem store_mtype {order : ByteOrder} (other : order ≠ .little) (msg : SrvMsg) :
    store order 4 (mtype msg) ≠ Messages.LE32 (mtype msg) := by
  have none : ∀ type ∈ [256, 258, 259, 260], ∀ order ∈ [ByteOrder.big, .pdp],
      store order 4 type ≠ Messages.LE32 type := by decide
  refine none _ (mtype_mem msg) order ?_
  cases order with
  | little => exact absurd rfl other
  | big => exact List.mem_cons_self
  | pdp => exact List.mem_cons_of_mem _ List.mem_cons_self

theorem hostBytes_iff (pack : Protobuf) (msg : SrvMsg) :
    hostBytes (build host) host.order pack msg = msg.bytes pack ↔ host.order = .little := by
  constructor
  · intro same
    by_contra other
    rw [← encoded_pieces (build host) pack msg, hostBytes, pieces, List.flatMap_cons,
      List.flatMap_cons, List.flatMap_cons, List.flatMap_cons] at same
    simp only [Piece.written, Piece.encoded, build_LE32] at same
    have size := List.append_inj same ((length_store ..).trans (length_LE32 _).symm)
    have type := List.append_inj size.2 ((length_store ..).trans (length_LE32 _).symm)
    exact store_mtype other msg type.1
  · exact fun little => hostBytes_of_converts (converts_little host little) pack msg

end Compiled

/-- A message reaches the clients in little-endian order, and on a big-endian host the
conversions reverse the bytes. -/
structure LittleOnWire (host : Host) (pack : Protobuf) (msg : SrvMsg) : Prop where
  written : hostBytes (build host) host.order pack msg = msg.bytes pack
  reverse32 : host.order = .big → ∀ mem, mem.length = 4 → (build host).LE32 mem = mem.reverse
  reverse16 : host.order = .big → ∀ mem, mem.length = 2 → (build host).LE16 mem = mem.reverse

/-- It does so on little-endian hosts only, whatever the message and whatever the other
headers define. -/
theorem littleOnWire_iff (host : Host) (pack : Protobuf) (msg : SrvMsg) :
    LittleOnWire host pack msg ↔ host.order = .little := by
  constructor
  · exact fun onWire => (hostBytes_iff host pack msg).mp onWire.written
  · intro little
    have never : host.order ≠ .big := by
      rw [little]
      decide
    exact ⟨(hostBytes_iff host pack msg).mpr little, fun big => absurd big never,
      fun big => absurd big never⟩

/-- On a big-endian host the type of a message arrives in reverse. -/
theorem not_littleOnWire_big :
    ¬LittleOnWire ⟨.big, []⟩ Protobuf.documented (.destroyed 1) := by
  intro onWire
  exact absurd ((hostBytes_iff ⟨.big, []⟩ _ _).mp onWire.written) (by decide)

end Kukuruku.Server.WireOrder
