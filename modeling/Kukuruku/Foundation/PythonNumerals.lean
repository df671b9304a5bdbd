import Mathlib.Data.List.DropRight
import Mathlib.Data.Nat.Digits.Defs
import Mathlib.Data.Rat.Defs
import Mathlib.Algebra.Order.Field.Rat
import Kukuruku.Foundation.Decimal

/-!
# Numbers from Python texts

`int(s)` and `float(s)` of a text, as the language reference describes them: the
text is stripped, an underscore may stand between two digits, and decimal digits of
any script count.  Arithmetic on floats is exact.
-/

namespace Kukuruku.PythonNumerals

/-- What Python knows of characters beyond ASCII, and its limit on the digits of a
decimal integer; zero is no limit. -/
structure Python where
  decimal : Char → Option Nat
  isspace : Char → Bool
  int_max_str_digits : Nat

inductive PyFloat where
  | finite (x : ℚ)
  | inf (negative : Bool)
  | nan
deriving DecidableEq

/-- Multiplication by an integer. -/
def PyFloat.times (n : Nat) : PyFloat → PyFloat
  | .finite x => .finite (x * n)
  | .inf negative => if n = 0 then .nan else .inf negative
  | .nan => .nan

inductive Number where
  | int (n : Int)
  | float (x : PyFloat)
deriving DecidableEq

namespace Python

variable (py : Python)

/-! ## Characters -/

def digit (c : Char) : Option Nat :=
  if c.isDigit then some (c.toNat - 48) else if c.toNat < 128 then none else py.decimal c

def space (c : Char) : Bool :=
  decide (c ∈ [' ', '\t', '\n', '\x0b', '\x0c', '\r']) || (decide (128 ≤ c.toNat) && py.isspace c)

/-! ## Texts -/

def strip (s : List Char) : List Char := (s.dropWhile py.space).rdropWhile py.space

/-- Remove the underscores; `none` where one does not stand between two digits. -/
def plain (afterDigit : Bool) : List Char → Option (List Char)
  | [] => some []
  | c :: rest =>
      if c = '_' then
        if afterDigit ∧ (rest.head?.bind py.digit).isSome then plain false rest else none
      else (plain (py.digit c).isSome rest).map (c :: ·)

/-- A sign, whether it is a minus, and what follows. -/
def sign : List Char → Bool × List Char
  | '+' :: rest => (false, rest)
  | '-' :: rest => (true, rest)
  | s => (false, s)

/-- All of a text as decimal digits, the last one first. -/
def digits? (s : List Char) : Option (List Nat) :=
  if s = [] then none else (s.mapM py.digit).map List.reverse

/-- The longest run of digits at the beginning, the last one first, and what follows. -/
def run : List Char → List Nat → List Nat × List Char
  | [], before => (before, [])
  | c :: rest, before =>
      match py.digit c with
      | some d => run rest (d :: before)
      | none => (before, c :: rest)

/-- `int(s)`. -/
def int (s : List Char) : Option Int := do
  let s ← py.plain false (py.strip s)
  let ds ← py.digits? (sign s).2
  if py.int_max_str_digits ≠ 0 ∧ py.int_max_str_digits < ds.length then none
  else return if (sign s).1 then -(Nat.ofDigits 10 ds : Int) else Nat.ofDigits 10 ds

/-- The power of ten behind a number. -/
def exponent : List Char → Option Int
  | [] => some 0
  | c :: rest =>
      if c = 'e' ∨ c = 'E' then
        (py.digits? (sign rest).2).map fun ds =>
          if (sign rest).1 then -(Nat.ofDigits 10 ds : Int) else Nat.ofDigits 10 ds
      else none

/-- The part behind the digits before the point: `none` without a point. -/
def fraction : List Char → List Nat → List Nat × List Char
  | '.' :: rest, before => py.run rest before
  | s, before => (before, s)

/-- A number without its sign. -/
def magnitude (s : List Char) : Option ℚ :=
  let whole := py.run s []
  let all := py.fraction whole.2 whole.1
  if all.1 = [] then none
  else (py.exponent all.2).map fun e =>
    ((Nat.ofDigits 10 all.1 : Nat) : ℚ) * 10 ^ (e - ((all.1.length - whole.1.length : Nat) : Int))

/-- `float(s)`. -/
def float (s : List Char) : Option PyFloat := do
  let s ← py.plain false (py.strip s)
  let name := (sign s).2.map Char.toLower
  if name = "inf".toList ∨ name = "infinity".toList then return .inf (sign s).1
  else if name = "nan".toList then return .nan
  else
    let x ← py.magnitude (sign s).2
    return .finite (if (sign s).1 then -x else x)

end Python

/-! ## Characters that no number has -/

/-- Neither a digit nor anything else that the texts of numbers are made of. -/
structure Python.Foreign (py : Python) (c : Char) : Prop where
  digit : py.digit c = none
  space : py.space c = false
  mark : c ∉ ['_', '+', '-', '.', 'e', 'E']
  name : c.toLower ∉ "infinityna".toList

/-- ASCII decides. -/
theorem Python.foreign_of_ascii (py : Python) {c : Char} (ascii : c.toNat < 128)
    (digit : c.isDigit = false) (space : c ∉ [' ', '\t', '\n', '\x0b', '\x0c', '\r'])
    (mark : c ∉ ['_', '+', '-', '.', 'e', 'E']) (name : c.toLower ∉ "infinityna".toList) :
    py.Foreign c := by
  refine ⟨?_, ?_, mark, name⟩
  · rw [Python.digit, digit, if_neg (by decide), if_pos ascii]
  · rw [Python.space, decide_eq_false space, decide_eq_false (Nat.not_le.mpr ascii)]
    rfl

namespace Python.Foreign

variable {py : Python} {c : Char} {s : List Char}

theorem mem_dropWhile (foreign : py.Foreign c) (member : c ∈ s) : c ∈ s.dropWhile py.space := by
  induction s with
  | nil => cases member
  | cons first rest ih =>
      rw [List.dropWhile_cons]
      split
      · rename_i blank
        rcases List.mem_cons.mp member with rfl | later
        · rw [foreign.space] at blank
          cases blank
        · exact ih later
      · exact member

end Python.Foreign

/-! ## Integers that were printed -/

section Printed

open Decimal

variable {py : Python}

/-- Digits of ASCII, and the minus, are no blanks. -/
theorem space_decimal {n : Int} {c : Char} (member : c ∈ decimal n) : py.space c = false := by
  have small : c ∉ [' ', '\t', '\n', '\x0b', '\x0c', '\r'] ∧ ¬ 128 ≤ c.toNat := by
    rcases minus_or_digit member with rfl | digit
    · decide
    · obtain ⟨low, high⟩ := Char.isDigit_iff_toNat.mp digit
      have above : '0'.toNat = 48 := rfl
      have below : '9'.toNat = 57 := rfl
      refine ⟨fun blank => ?_, by omega⟩
      simp only [List.mem_cons, List.not_mem_nil, or_false] at blank
      rcases blank with rfl | rfl | rfl | rfl | rfl | rfl <;> exact absurd low (by decide)
  rw [Python.space, decide_eq_false small.1, decide_eq_false small.2]
  rfl

theorem strip_decimal (n : Int) : py.strip (decimal n) = decimal n := by
  have solid (s : List Char) (all : ∀ c ∈ s, py.space c = false) : s.dropWhile py.space = s := by
    cases s with
    | nil => rfl
    | cons c rest => rw [List.dropWhile_cons, all c List.mem_cons_self]; rfl
  rw [Python.strip, solid _ fun c => space_decimal, List.rdropWhile, solid _ fun c member =>
    space_decimal (List.mem_reverse.mp member), List.reverse_reverse]

theorem plain_of_not_mem {s : List Char} (none : '_' ∉ s) (afterDigit : Bool) :
    py.plain afterDigit s = some s := by
  induction s generalizing afterDigit with
  | nil => rfl
  | cons c rest ih =>
      obtain ⟨other, later⟩ := List.ne_and_not_mem_of_not_mem_cons none
      rw [Python.plain, if_neg other.symm, ih later]
      rfl

theorem mapM_digit {s : List Char} (all : ∀ c ∈ s, c.isDigit = true) :
    s.mapM py.digit = some (s.map fun c => c.toNat - 48) := by
  induction s with
  | nil => rfl
  | cons c rest ih =>
      have first : py.digit c = some (c.toNat - 48) := if_pos (all c List.mem_cons_self)
      rw [List.mapM_cons, first, ih fun d member => all d (List.mem_cons_of_mem c member)]
      rfl

/-- The last digit first, and the first one first. -/
theorem ofDigits_reverse (s : List Char) (before : List Nat) :
    Nat.ofDigits 10 ((s.map fun c => c.toNat - 48).reverse ++ before) =
      Nat.ofDigitChars 10 s (Nat.ofDigits 10 before) := by
  induction s generalizing before with
  | nil => rfl
  | cons c rest ih =>
      rw [List.map_cons, List.reverse_cons, List.append_assoc, List.singleton_append, ih,
        Nat.ofDigitChars_cons, Nat.ofDigits_cons]
      congr 1
      exact add_comm _ _

theorem digits?_toDigits (n : Nat) : ∃ ds, py.digits? (Nat.toDigits 10 n) = some ds ∧
    Nat.ofDigits 10 ds = n ∧ ds.length = (Nat.toDigits 10 n).length := by
  refine ⟨((Nat.toDigits 10 n).map fun c => c.toNat - 48).reverse, ?_, ?_, ?_⟩
  · rw [Python.digits?, if_neg Nat.toDigits_ne_nil, mapM_digit fun c => isDigit_of_mem]
    rfl
  · have stands := ofDigits_reverse (Nat.toDigits 10 n) []
    rw [List.append_nil] at stands
    exact stands.trans (value_toDigits n)
  · rw [List.length_reverse, List.length_map]

/-- `int` reads what is printed of a number that is not too long. -/
theorem int_printed {n : Int} (limit : py.int_max_str_digits = 0 ∨
    (Nat.toDigits 10 n.natAbs).length ≤ py.int_max_str_digits) :
    py.int (decimal n) = some n := by
  obtain ⟨ds, read, value, length⟩ := @digits?_toDigits py n.natAbs
  have plain : '_' ∉ decimal n := fun member =>
    (minus_or_digit member).elim (by decide) (by decide)
  have short : ¬ (py.int_max_str_digits ≠ 0 ∧ py.int_max_str_digits < ds.length) := by omega
  have sign : Python.sign (decimal n) = (decide (n < 0), Nat.toDigits 10 n.natAbs) := by
    rcases lt_or_ge n 0 with negative | nonneg
    · rw [decimal_of_neg negative, decide_eq_true negative]
      rfl
    · rw [decimal_of_nonneg nonneg, decide_eq_false (not_lt.mpr nonneg), Python.sign]
      · intro rest same
        exact absurd (isDigit_of_mem (same ▸ List.mem_cons_self)) (by decide)
      · intro rest same
        exact absurd (isDigit_of_mem (same ▸ List.mem_cons_self)) (by decide)
  rw [Python.int, strip_decimal, plain_of_not_mem plain]
  have number : Nat.ofDigits (10 : Int) ds = n.natAbs := by
    rw [← value, Nat.coe_ofDigits]
    rfl
  simp only [Option.bind_eq_bind, Option.bind_some, sign, read, if_neg short, number]
  refine congrArg some ?_
  split_ifs with minus
  · have negative := of_decide_eq_true minus
    omega
  · have nonneg : ¬ n < 0 := fun negative => minus (decide_eq_true negative)
    omega

end Printed

end Kukuruku.PythonNumerals
