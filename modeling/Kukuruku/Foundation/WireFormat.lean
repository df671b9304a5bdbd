import Mathlib.Data.Int.ModEq
import Mathlib.Data.List.Basic
import Mathlib.Tactic.Linarith

/-!
# The wire format of numbered fields

A message is a sequence of fields, each with a number and a value: an integer in
base 128 of at most ten digits, four or eight bytes, or bytes behind their length.
`parse` recovers the fields of a message, and `required` and `repeated` what they
say under one number; the last one counts, and other numbers are ignored.
-/

namespace Kukuruku.WireFormat

/-! ## Integers in base 128 -/

/-- The digits of a number, the lowest first; all but the last one are marked. -/
def base128 : Nat → Nat → List UInt8
  | 0, _ => []
  | digits + 1, n =>
      if n < 128 then [UInt8.ofNat n]
      else UInt8.ofNat (n % 128 + 128) :: base128 digits (n / 128)

/-- The number at the front of some bytes, and what follows it. -/
def readBase128 : Nat → List UInt8 → Option (Nat × List UInt8)
  | 0, _ => none
  | _ + 1, [] => none
  | digits + 1, byte :: rest =>
      if byte.toNat < 128 then some (byte.toNat, rest)
      else (readBase128 digits rest).map fun tail => (byte.toNat - 128 + 128 * tail.1, tail.2)

theorem readBase128_base128 {digits n : Nat} (fits : n < 128 ^ (digits + 1)) (rest : List UInt8) :
    readBase128 (digits + 1) (base128 (digits + 1) n ++ rest) = some (n, rest) := by
  induction digits generalizing n with
  | zero =>
      have small : n < 128 := by simpa using fits
      have byte : (UInt8.ofNat n).toNat = n := by
        rw [UInt8.toNat_ofNat']
        omega
      rw [base128, if_pos small, List.singleton_append, readBase128, byte, if_pos small]
  | succ digits ih =>
      rw [base128]
      split
      · next small =>
        have byte : (UInt8.ofNat n).toNat = n := by
          rw [UInt8.toNat_ofNat']
          omega
        rw [List.singleton_append, readBase128, byte, if_pos small]
      · have byte : (UInt8.ofNat (n % 128 + 128)).toNat = n % 128 + 128 := by
          rw [UInt8.toNat_ofNat']
          omega
        have later : n / 128 < 128 ^ (digits + 1) := by
          rw [Nat.div_lt_iff_lt_mul (by decide), ← Nat.pow_succ]
          exact fits
        rw [List.cons_append, readBase128, byte, if_neg (by omega), ih later, Option.map_some]
        congr 2
        omega

theorem base128_ne_nil (digits n : Nat) : base128 (digits + 1) n ≠ [] := by
  rw [base128]
  split
  · exact List.cons_ne_nil _ _
  · exact List.cons_ne_nil _ _

/-! ## Signed integers -/

/-- The 64 bits of an integer. -/
def ofInt (value : Int) : UInt64 := UInt64.ofNat (value % 2 ^ 64).toNat

/-- The integer of the low bits. -/
def toInt (bits : Nat) (n : UInt64) : Int := (n.toNat : Int).bmod (2 ^ bits : Nat)

theorem toNat_ofInt (value : Int) : ((ofInt value).toNat : Int) = value % 2 ^ 64 := by
  rw [ofInt, UInt64.toNat_ofNat']
  omega

/-- A value that the bits hold is read as it was written. -/
theorem toInt_ofInt {bits : Nat} (narrow : bits ≤ 64) {value : Int}
    (low : -(2 ^ bits : Nat) ≤ value * 2) (high : value * 2 < (2 ^ bits : Nat)) :
    toInt bits (ofInt value) = value := by
  have divides : ((2 ^ bits : Nat) : Int) ∣ 2 ^ 64 := by
    exact_mod_cast pow_dvd_pow 2 narrow
  have same : (value % 2 ^ 64) % ((2 ^ bits : Nat) : Int) = value % ((2 ^ bits : Nat) : Int) :=
    Int.emod_emod_of_dvd value divides
  rw [toInt, toNat_ofInt, ← Int.emod_bmod, same, Int.emod_bmod]
  exact Int.bmod_eq_of_le_mul_two low high

/-! ## Fields -/

/-- Bytes of a fixed number. -/
abbrev Word (n : Nat) := { bytes : List UInt8 // bytes.length = n }

inductive Value where
  | varint (n : UInt64)
  | fixed64 (word : Word 8)
  | delimited (bytes : { bytes : List UInt8 // bytes.length < 2 ^ 64 })
  | fixed32 (word : Word 4)
deriving DecidableEq

structure Field where
  number : Nat
  value : Value
  positive : 0 < number
  limited : number < 2 ^ 29
deriving DecidableEq

namespace Value

def wireType : Value → Nat
  | varint _ => 0
  | fixed64 _ => 1
  | delimited _ => 2
  | fixed32 _ => 5

def bytes : Value → List UInt8
  | varint n => base128 10 n.toNat
  | fixed64 word => word.val
  | delimited bytes => base128 10 bytes.val.length ++ bytes.val
  | fixed32 word => word.val

end Value

def Field.bytes (field : Field) : List UInt8 :=
  base128 10 (8 * field.number + field.value.wireType) ++ field.value.bytes

/-- The message that consists of the fields. -/
def encode (fields : List Field) : List UInt8 := fields.flatMap Field.bytes

/-- A word at the front. -/
def readWord (n : Nat) (bytes : List UInt8) : Option (Word n × List UInt8) :=
  if enough : n ≤ bytes.length then
    some (⟨bytes.take n, List.length_take_of_le enough⟩, bytes.drop n)
  else none

/-- Bytes behind their length. -/
def readDelimited (bytes : List UInt8) : Option (Value × List UInt8) :=
  (readBase128 10 bytes).bind fun head =>
    if limited : head.1 < 2 ^ 64 then
      (readWord head.1 head.2).map fun word =>
        (.delimited ⟨word.1.val, word.1.property.symm ▸ limited⟩, word.2)
    else none

/-- The value of a wire type. -/
def readValue (wireType : Nat) (bytes : List UInt8) : Option (Value × List UInt8) :=
  match wireType with
  | 0 => (readBase128 10 bytes).map fun head => (.varint (UInt64.ofNat head.1), head.2)
  | 1 => (readWord 8 bytes).map fun word => (.fixed64 word.1, word.2)
  | 2 => readDelimited bytes
  | 5 => (readWord 4 bytes).map fun word => (.fixed32 word.1, word.2)
  | _ => none

def readField (bytes : List UInt8) : Option (Field × List UInt8) :=
  (readBase128 10 bytes).bind fun key =>
    if valid : 0 < key.1 / 8 ∧ key.1 / 8 < 2 ^ 29 then
      (readValue (key.1 % 8) key.2).map fun head =>
        (⟨key.1 / 8, head.1, valid.1, valid.2⟩, head.2)
    else none

def parseLoop : Nat → List UInt8 → Option (List Field)
  | _, [] => some []
  | 0, _ :: _ => none
  | count + 1, byte :: rest =>
      (readField (byte :: rest)).bind fun head =>
        (parseLoop count head.2).map (head.1 :: ·)

/-- The fields of a message; no field is empty, so its length bounds their number. -/
def parse (bytes : List UInt8) : Option (List Field) := parseLoop bytes.length bytes

section RoundTrip

variable (rest : List UInt8)

theorem readWord_append {n : Nat} (word : Word n) :
    readWord n (word.val ++ rest) = some (word, rest) := by
  have enough : n ≤ (word.val ++ rest).length := by
    rw [List.length_append, word.property]
    exact Nat.le_add_right n _
  rw [readWord, dif_pos enough]
  congr 2
  · exact Subtype.ext (List.take_left' word.property)
  · exact List.drop_left' word.property

theorem readValue_append (value : Value) :
    readValue value.wireType (value.bytes ++ rest) = some (value, rest) := by
  cases value with
  | varint n =>
      have fits : n.toNat < 128 ^ (9 + 1) := Nat.lt_trans n.toNat_lt (by decide)
      rw [Value.wireType, readValue, Value.bytes, readBase128_base128 fits, Option.map_some,
        UInt64.ofNat_toNat]
  | fixed64 word =>
      rw [Value.wireType, readValue, Value.bytes, readWord_append, Option.map_some]
  | delimited bytes =>
      have fits : bytes.val.length < 128 ^ (9 + 1) := Nat.lt_trans bytes.property (by decide)
      rw [Value.wireType, readValue, Value.bytes, readDelimited, List.append_assoc,
        readBase128_base128 fits, Option.bind_some, dif_pos bytes.property,
        readWord_append rest ⟨bytes.val, rfl⟩, Option.map_some]
  | fixed32 word =>
      rw [Value.wireType, readValue, Value.bytes, readWord_append, Option.map_some]

theorem readField_append (field : Field) :
    readField (field.bytes ++ rest) = some (field, rest) := by
  have kind : field.value.wireType < 8 := by
    cases field.value <;> exact of_decide_eq_true rfl
  have limited := field.limited
  have fits : 8 * field.number + field.value.wireType < 128 ^ (9 + 1) := by omega
  have number : (8 * field.number + field.value.wireType) / 8 = field.number := by omega
  have wireType : (8 * field.number + field.value.wireType) % 8 = field.value.wireType := by omega
  rw [readField, Field.bytes, List.append_assoc, readBase128_base128 fits, Option.bind_some]
  simp only [number, wireType]
  rw [dif_pos ⟨field.positive, field.limited⟩, readValue_append, Option.map_some]

end RoundTrip

theorem Field.bytes_ne_nil (field : Field) : field.bytes ≠ [] :=
  List.append_ne_nil_of_left_ne_nil (base128_ne_nil 9 _) _

theorem parseLoop_encode {fields : List Field} {count : Nat} (enough : fields.length ≤ count) :
    parseLoop count (encode fields) = some fields := by
  induction fields generalizing count with
  | nil => rw [encode, List.flatMap_nil, parseLoop]
  | cons field rest ih =>
      obtain ⟨count, rfl⟩ := Nat.exists_eq_add_of_lt (Nat.lt_of_lt_of_le (Nat.succ_pos _) enough)
      rw [Nat.zero_add, List.length_cons] at enough
      have step := readField_append (encode rest) field
      obtain ⟨byte, tail, front⟩ := List.exists_cons_of_ne_nil field.bytes_ne_nil
      rw [front, List.cons_append] at step
      rw [Nat.zero_add, encode, List.flatMap_cons, ← encode, front, List.cons_append, parseLoop,
        step, Option.bind_some, ih (Nat.le_of_succ_le_succ enough), Option.map_some]

theorem length_le_length_encode (fields : List Field) : fields.length ≤ (encode fields).length := by
  induction fields with
  | nil => exact Nat.zero_le _
  | cons field rest ih =>
      have nonempty := List.length_pos_iff_ne_nil.mpr field.bytes_ne_nil
      rw [encode, List.flatMap_cons, ← encode, List.length_append, List.length_cons]
      omega

/-- A message is the fields it was made of. -/
theorem parse_encode (fields : List Field) : parse (encode fields) = some fields :=
  parseLoop_encode (length_le_length_encode fields)

/-! ## What the fields say -/

section Lookup

variable {α : Type}

/-- The values under a number. -/
def occurrences (number : Nat) (fields : List Field) : List Value :=
  fields.filterMap fun field => if field.number = number then some field.value else none

/-- The last value under a number, if there is one and all of them have the type. -/
def required (cast : Value → Option α) (number : Nat) (fields : List Field) : Option α :=
  ((occurrences number fields).mapM cast).bind List.getLast?

/-- All values under a number. -/
def repeated (cast : Value → Option (List α)) (number : Nat) (fields : List Field) :
    Option (List α) :=
  ((occurrences number fields).mapM cast).map List.flatten

@[simp] theorem occurrences_nil (number : Nat) : occurrences number [] = [] := rfl

@[simp] theorem occurrences_cons (number : Nat) (field : Field) (rest : List Field) :
    occurrences number (field :: rest) =
      if field.number = number then field.value :: occurrences number rest
      else occurrences number rest := by
  rw [occurrences, List.filterMap_cons]
  by_cases same : field.number = number
  · rw [if_pos same, if_pos same]
    rfl
  · rw [if_neg same, if_neg same]
    rfl

/-- Fields of one number that were made from a list. -/
theorem occurrences_map {β : Type} (number : Nat) (build : β → Field) (items : List β)
    {own : Nat} (numbered : ∀ item, (build item).number = own) :
    occurrences number (items.map build) =
      if own = number then items.map fun item => (build item).value else [] := by
  induction items with
  | nil => simp
  | cons item rest ih =>
      rw [List.map_cons, occurrences_cons, numbered, ih]
      by_cases same : own = number
      · simp [same]
      · simp [same]

theorem required_single (cast : Value → Option α) {number : Nat} {fields : List Field}
    {value : Value} {result : α} (single : occurrences number fields = [value])
    (typed : cast value = some result) : required cast number fields = some result := by
  rw [required, single, List.mapM_cons, typed]
  rfl

/-- Every occurrence has the type. -/
theorem mapM_typed {β γ : Type} {cast : Value → Option γ} {build : β → Value} {result : β → γ}
    (typed : ∀ item, cast (build item) = some (result item)) (items : List β) :
    (items.map build).mapM cast = some (items.map result) := by
  induction items with
  | nil => rfl
  | cons item rest ih =>
      rw [List.map_cons, List.mapM_cons, typed, ih]
      rfl

theorem repeated_map {β : Type} (cast : Value → Option (List α)) {number : Nat}
    {fields : List Field} {build : β → Value} {result : β → α} {items : List β}
    (all : occurrences number fields = items.map build)
    (typed : ∀ item, cast (build item) = some [result item]) :
    repeated cast number fields = some (items.map result) := by
  rw [repeated, all, mapM_typed typed, Option.map_some, ← List.flatMap_def,
    ← List.map_eq_flatMap]

end Lookup

end Kukuruku.WireFormat
