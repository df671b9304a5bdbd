import Mathlib.Data.List.Basic

/-!
# Decimal texts of integers

What `"%i"` prints, and that its digits read back as the number.
-/

namespace Kukuruku.Decimal

/-- `"%i"` of an integer. -/
def decimal (n : Int) : List Char :=
  if n < 0 then '-' :: Nat.toDigits 10 n.natAbs else Nat.toDigits 10 n.natAbs

/-- The value of digits. -/
def value (digits : List Char) : Nat := Nat.ofDigitChars 10 digits 0

/-- The number that a sign and digits stand for. -/
def signed (text : List Char) : Int :=
  match text with
  | '-' :: digits => -(value digits : Int)
  | digits => value digits

theorem decimal_of_nonneg {n : Int} (nonneg : 0 ≤ n) : decimal n = Nat.toDigits 10 n.natAbs :=
  if_neg (Int.not_lt.mpr nonneg)

theorem decimal_of_neg {n : Int} (negative : n < 0) :
    decimal n = '-' :: Nat.toDigits 10 n.natAbs :=
  if_pos negative

theorem isDigit_of_mem {n : Nat} {c : Char} (member : c ∈ Nat.toDigits 10 n) : c.isDigit = true :=
  Nat.isDigit_of_mem_toDigits (by decide) (by decide) member

theorem decimal_ne_nil (n : Int) : decimal n ≠ [] := by
  rw [decimal]
  split_ifs
  · exact List.cons_ne_nil _ _
  · exact Nat.toDigits_ne_nil

/-- A minus and digits are all that is printed. -/
theorem minus_or_digit {n : Int} {c : Char} (member : c ∈ decimal n) :
    c = '-' ∨ c.isDigit = true := by
  rw [decimal] at member
  split_ifs at member
  · rcases List.mem_cons.mp member with rfl | later
    · exact .inl rfl
    · exact .inr (isDigit_of_mem later)
  · exact .inr (isDigit_of_mem member)

theorem value_toDigits (n : Nat) : value (Nat.toDigits 10 n) = n :=
  Nat.ofDigitChars_ten_toDigits

/-- The number reads back. -/
theorem signed_decimal (n : Int) : signed (decimal n) = n := by
  rw [decimal]
  split_ifs with negative
  · rw [signed, value_toDigits]
    omega
  · rw [signed]
    · rw [value_toDigits]
      omega
    · intro digits printed
      have member : '-' ∈ Nat.toDigits 10 n.natAbs := printed ▸ List.mem_cons_self
      exact absurd (isDigit_of_mem member) (by decide)

theorem decimal_injective : Function.Injective decimal :=
  Function.LeftInverse.injective signed_decimal

end Kukuruku.Decimal
