import Kukuruku.Server.ClientParser
import Kukuruku.Server.Endian

/-!
# The SDR control pipe

The handlers of `SET_GAIN`, `RETUNE` and `SET_PPM` write a type of one byte and
its fields to `sdr_cmd`; the thread `set_param_thr` of `osmosdr-input.py` reads
the type and unpacks as many bytes as the type asks for.
-/

namespace Kukuruku.Server.SdrIface

open Kukuruku.Server.Messages
open Kukuruku.Server.ClientParser
open Kukuruku.Server.Endian

/-- What `set_param_thr` unpacks in one round and passes to the SDR. -/
inductive Command where
  | tune (freq : Int)
  | ppm (ppm : Int)
  | gain (gain : Gain)
deriving DecidableEq

namespace sdr_iface

def TUNE : UInt8 := 1

def PPM : UInt8 := 2

def GAIN : UInt8 := 3

end sdr_iface

/-! ## The reading end -/

/-- How many bytes follow a type; an unknown one is only printed. -/
def calcsize (ptype : UInt8) : Nat :=
  if ptype = sdr_iface.TUNE then 8
  else if ptype = sdr_iface.PPM then 4
  else if ptype = sdr_iface.GAIN then 16
  else 0

def unpack (ptype : UInt8) (data : List UInt8) : Option Command :=
  if ptype = sdr_iface.TUNE then some (.tune (signed data))
  else if ptype = sdr_iface.PPM then some (.ppm (signed data))
  else if ptype = sdr_iface.GAIN then
    some (.gain ⟨signed (data.take 4), signed ((data.drop 4).take 4),
      signed ((data.drop 8).take 4), signed ((data.drop 12).take 4)⟩)
  else none

/-- The commands among the bytes of the pipe, and the bytes that are left over:
the thread waits for a field that is not there in full. -/
def set_param_thr : List UInt8 → List Command × List UInt8
  | [] => ([], [])
  | ptype :: rest =>
      if rest.length < calcsize ptype then ([], ptype :: rest)
      else
        let later := set_param_thr (rest.drop (calcsize ptype))
        ((unpack ptype (rest.take (calcsize ptype))).toList ++ later.1, later.2)
termination_by stream => stream.length
decreasing_by
  rw [List.length_drop, List.length_cons]
  omega

/-- A type and a field of the size it asks for make up one round. -/
theorem set_param_thr_round (ptype : UInt8) (data rest : List UInt8)
    (size : data.length = calcsize ptype) :
    set_param_thr (ptype :: (data ++ rest)) =
      ((unpack ptype data).toList ++ (set_param_thr rest).1, (set_param_thr rest).2) := by
  have whole : ¬ (data ++ rest).length < calcsize ptype := by
    rw [List.length_append, size]
    exact Nat.not_lt.mpr (Nat.le_add_right _ _)
  rw [set_param_thr, if_neg whole, ← size, List.take_left, List.drop_left]

/-! ## The writing end -/

/-- The bytes that the handlers write for a command. -/
def Command.bytes : Command → List UInt8
  | .tune freq => littleEndian 1 1 ++ littleEndian 8 freq
  | .ppm value => littleEndian 1 2 ++ LE32 value
  | .gain levels => littleEndian 1 3 ++ LE32 levels.autogain ++ LE32 levels.global_gain ++
      LE32 levels.if_gain ++ LE32 levels.bb_gain

def Int32 (value : Int) : Prop := -2 ^ 31 ≤ value ∧ value < 2 ^ 31

def Int64 (value : Int) : Prop := -2 ^ 63 ≤ value ∧ value < 2 ^ 63

/-- The values are those of the C types that the fields have in the requests. -/
def Command.Fits : Command → Prop
  | .tune freq => Int64 freq
  | .ppm value => Int32 value
  | .gain levels => Int32 levels.autogain ∧ Int32 levels.global_gain ∧ Int32 levels.if_gain ∧
      Int32 levels.bb_gain

instance (value : Int) : Decidable (Int32 value) := inferInstanceAs (Decidable (_ ∧ _))

instance (value : Int) : Decidable (Int64 value) := inferInstanceAs (Decidable (_ ∧ _))

instance (command : Command) : Decidable command.Fits :=
  match command with
  | .tune freq => inferInstanceAs (Decidable (Int64 freq))
  | .ppm value => inferInstanceAs (Decidable (Int32 value))
  | .gain _ => inferInstanceAs (Decidable (_ ∧ _ ∧ _ ∧ _))

/-- The four gains stand one after the other. -/
theorem unpack_gain {levels : Gain} (fits : (Command.gain levels).Fits) :
    unpack sdr_iface.GAIN (LE32 levels.autogain ++ LE32 levels.global_gain ++
      LE32 levels.if_gain ++ LE32 levels.bb_gain) = some (.gain levels) := by
  obtain ⟨auto, whole, interm, bb⟩ := fits
  have field {value : Int} (fits : Int32 value) : signed (LE32 value) = value :=
    signed_LE32 fits.1 fits.2
  have size := length_LE32
  have skip (value : Int) {n : Nat} (past : 4 ≤ n) : (LE32 value).drop n = [] := by
    refine List.drop_eq_nil_of_le ?_
    rwa [size]
  have all (value : Int) : (LE32 value).take 4 = LE32 value :=
    List.take_of_length_le (Nat.le_of_eq (size value))
  rw [unpack, if_neg (by decide), if_neg (by decide), if_pos rfl]
  simp [List.drop_append, size, skip, all, field auto, field whole, field interm, field bb]

/-- Every command is written as a type and the field that the type asks for. -/
theorem unpack_bytes {command : Command} (fits : command.Fits) :
    ∃ ptype data, command.bytes = ptype :: data ∧ data.length = calcsize ptype ∧
      unpack ptype data = some command := by
  cases command with
  | tune freq =>
      refine ⟨sdr_iface.TUNE, littleEndian 8 freq, rfl, length_littleEndian 8 freq, ?_⟩
      obtain ⟨low, high⟩ := fits
      have field : signed (littleEndian 8 freq) = freq :=
        signed_littleEndian (by omega) (by omega)
      exact congrArg (some ∘ Command.tune) field
  | ppm value =>
      refine ⟨sdr_iface.PPM, LE32 value, rfl, length_LE32 value, ?_⟩
      exact congrArg (some ∘ Command.ppm) (signed_LE32 fits.1 fits.2)
  | gain levels =>
      refine ⟨sdr_iface.GAIN, _, ?_, ?_, unpack_gain fits⟩
      · simp only [Command.bytes, List.append_assoc]
        rfl
      · simp only [List.length_append, length_LE32]
        rfl

/-- What the handlers have written is unpacked into their commands, and nothing is
left over. -/
theorem set_param_thr_bytes {commands : List Command}
    (fits : ∀ command ∈ commands, command.Fits) :
    set_param_thr (commands.flatMap Command.bytes) = (commands, []) := by
  induction commands with
  | nil => rw [List.flatMap_nil, set_param_thr]
  | cons command later ih =>
      obtain ⟨ptype, data, written, size, unpacked⟩ :=
        unpack_bytes (fits command List.mem_cons_self)
      have rest := ih fun other mem => fits other (List.mem_cons_of_mem command mem)
      rw [List.flatMap_cons, written, List.cons_append, set_param_thr_round ptype data _ size,
        unpacked, rest]
      rfl

end Kukuruku.Server.SdrIface
