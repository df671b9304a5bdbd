import Mathlib.Data.Nat.Digits.Defs
import Mathlib.Tactic.Ring
import Kukuruku.Server.Messages

/-!
# Reading little-endian numbers

The numbers that a receiver reads from the bytes `LE32` and `LE16` wrote, on
either side of the connection: `unsigned` the value of the bytes, `signed` that
of the two's complement integer of the same width.
-/

namespace Kukuruku.Server.Endian

open Messages

def unsigned (bytes : List UInt8) : Nat := Nat.ofDigits 256 (bytes.map UInt8.toNat)

def signed (bytes : List UInt8) : Int := (unsigned bytes : Int).bmod (256 ^ bytes.length)

theorem littleEndian_succ (n : Nat) (value : Int) :
    littleEndian (n + 1) value =
      UInt8.ofNat (value % 256).toNat :: littleEndian n (value / 256) := by
  simp only [littleEndian, List.range_succ_eq_map, List.map_cons, List.map_map, pow_zero,
    Int.ediv_one, List.cons.injEq, true_and]
  apply List.map_congr_left
  intro i _
  rw [Function.comp_apply, Int.ediv_ediv_of_nonneg (by decide), pow_succ']

/-- The bytes are the digits of the value modulo the width. -/
theorem unsigned_littleEndian (n : Nat) (value : Int) :
    (unsigned (littleEndian n value) : Int) = value % 256 ^ n := by
  induction n generalizing value with
  | zero => simp [unsigned, littleEndian, Int.emod_one]
  | succ n ih =>
      have low : (UInt8.ofNat (value % 256).toNat).toNat = (value % 256).toNat := by
        rw [UInt8.toNat_ofNat']
        omega
      have lowest : ((value % 256).toNat : Int) = value % 256 :=
        Int.toNat_of_nonneg (Int.emod_nonneg value (by decide))
      have later := ih (value / 256)
      rw [unsigned] at later
      rw [littleEndian_succ, unsigned, List.map_cons, Nat.ofDigits_cons, low, Nat.cast_add,
        Nat.cast_mul, lowest, later, pow_succ', Int.emod_def value (256 * 256 ^ n),
        ← Int.ediv_ediv_of_nonneg (by decide), Int.emod_def (value / 256), Int.emod_def value 256]
      push_cast
      ring

/-- Any bytes are those of the number they give. -/
theorem littleEndian_unsigned (bytes : List UInt8) :
    littleEndian bytes.length (unsigned bytes) = bytes := by
  induction bytes with
  | nil => rfl
  | cons byte rest ih =>
      have small := byte.toNat_lt
      have digits : unsigned (byte :: rest) = byte.toNat + 256 * unsigned rest := by
        rw [unsigned, List.map_cons, Nat.ofDigits_cons]
        rfl
      have low : ((unsigned (byte :: rest) : Int) % 256).toNat = byte.toNat := by omega
      have high : (unsigned (byte :: rest) : Int) / 256 = unsigned rest := by omega
      rw [List.length_cons, littleEndian_succ, low, high, ih, UInt8.ofNat_toNat]

theorem signed_littleEndian {n : Nat} {value : Int} (low : -(256 ^ n : Nat) ≤ value * 2)
    (high : value * 2 < (256 ^ n : Nat)) : signed (littleEndian n value) = value := by
  have modulus : (256 ^ n : Int) = ((256 ^ n : Nat) : Int) := by push_cast; rfl
  rw [signed, unsigned_littleEndian, length_littleEndian, modulus, Int.emod_bmod]
  exact Int.bmod_eq_of_le_mul_two low high

/-- An `int32_t` is read as it was written. -/
theorem signed_LE32 {value : Int} (low : -2 ^ 31 ≤ value) (high : value < 2 ^ 31) :
    signed (LE32 value) = value :=
  signed_littleEndian (by omega) (by omega)

end Kukuruku.Server.Endian
