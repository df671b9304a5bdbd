import Mathlib.Tactic.NormNum
import Kukuruku.Clients.XlatersLock
import Kukuruku.Foundation.PythonNumerals

/-!
# Engineering numbers

`engnum` of `libutil.py` reads a number with a suffix for a power of a thousand.
Its three tests look at the last character of what the tests before have left.  An
exception is `none`, and so is Python's `None` inside it.
-/

namespace Kukuruku.Clients.EngNum

open Kukuruku.PythonNumerals

variable (py : Python)

/-! ## The function -/

/-- An argument of `engnum`. -/
inductive Value where
  | number (x : Number)
  | text (s : List Char)

/-- Cast `val` to `to_type`, return `default` if it fails. -/
def safe_cast {α β : Type} (val : α) (to_type : α → Option β) (default : Option β) : Option β :=
  match to_type val with
  | some x => some x
  | none => default

def kilo : List Char := ['k', 'K']

def mega : List Char := ['m', 'M']

def giga : List Char := ['g', 'G']

/-- One of the three tests, on `s` and `i`; the empty text has no last character. -/
def scaled (suffix : List Char) (factor : Nat) (s : List Char) (i : Option Number) :
    Option (List Char × Option Number) :=
  s.getLast?.map fun last =>
    if last ∈ suffix then
      (s.dropLast, (safe_cast s.dropLast py.float none).map fun x => .float (x.times factor))
    else (s, i)

/-- The part of `engnum` for texts. -/
def engtext (s : List Char) : Option (Option Number) := do
  let i := (safe_cast s py.int none).map Number.int
  let (s, i) ← scaled py kilo 1000 s i
  let (s, i) ← scaled py mega (1000 * 1000) s i
  let (_, i) ← scaled py giga (1000 * 1000) s i
  return i

/-- Convert string containing number with postfix k, K, M, m, G, g. -/
def engnum : Value → Option (Option Number)
  | .number x => some (some x)
  | .text s => engtext py s

/-! ## What it should return -/

/-- What a suffix stands for. -/
def factor? (c : Char) : Option Nat :=
  if c ∈ kilo then some (10 ^ 3)
  else if c ∈ mega then some (10 ^ 6)
  else if c ∈ giga then some (10 ^ 9)
  else none

/-- The integer, or the numeral before one suffix times what this stands for. -/
def value? (s : List Char) : Option Number :=
  match py.int s with
  | some n => some (.int n)
  | none => do
      let c ← s.getLast?
      let factor ← factor? c
      let x ← py.float s.dropLast
      return .float (x.times factor)

section Suffixes

variable {py} {s t : List Char} {c : Char}

/-- The letters of the suffixes. -/
def letters : List Char := kilo ++ mega ++ giga

theorem letters_foreign (letter : c ∈ letters) : py.Foreign c := by
  have ascii : letters.all (fun c => decide (c.toNat < 128 ∧ c.isDigit = false ∧
      c ∉ [' ', '\t', '\n', '\x0b', '\x0c', '\r'] ∧ c ∉ ['_', '+', '-', '.', 'e', 'E'] ∧
      c.toLower ∉ "infinityna".toList)) = true := by decide
  obtain ⟨small, digit, space, mark, name⟩ := of_decide_eq_true (List.all_eq_true.mp ascii c letter)
  exact py.foreign_of_ascii small digit space mark name

theorem safe_cast_none {α β : Type} (val : α) (to_type : α → Option β) :
    safe_cast val to_type none = to_type val := by
  unfold safe_cast
  cases to_type val <;> rfl

/-! ## The tests -/

variable {suffix : List Char} {factor : Nat} {i : Option Number}

theorem scaled_miss (last : c ∉ suffix) :
    scaled py suffix factor (t ++ [c]) i = some (t ++ [c], i) := by
  rw [scaled, List.getLast?_concat, Option.map_some, if_neg last]

end Suffixes

/-! ## What the tests return -/

section Results

variable {py} {t u v : List Char} {c d e : Char}

/-- The last test. -/
def fromGiga (py : Python) (s : List Char) (i : Option Number) : Option (Option Number) :=
  (scaled py giga (1000 * 1000) s i).map Prod.snd

/-- The last two tests. -/
def fromMega (py : Python) (s : List Char) (i : Option Number) : Option (Option Number) :=
  (scaled py mega (1000 * 1000) s i).bind fun left => fromGiga py left.1 left.2

theorem engtext_eq (s : List Char) : engtext py s =
    (scaled py kilo 1000 s ((py.int s).map Number.int)).bind fun left =>
      fromMega py left.1 left.2 := by
  rw [engtext, safe_cast_none]
  refine Option.bind_congr fun left _ => Option.bind_congr fun left _ => ?_
  rw [fromGiga, Option.map_eq_bind]
  rfl

/-- The float before a suffix, scaled. -/
def times (py : Python) (t : List Char) (factor : Nat) : Option Number :=
  (py.float t).map fun x => .float (x.times factor)

theorem fromGiga_miss (last : c ∉ giga) (i : Option Number) :
    fromGiga py (t ++ [c]) i = some i := by
  rw [fromGiga, scaled_miss last]
  rfl

theorem fromMega_miss (last : c ∉ mega) (i : Option Number) :
    fromMega py (t ++ [c]) i = fromGiga py (t ++ [c]) i := by
  rw [fromMega, scaled_miss last]
  rfl

theorem engtext_miss (last : c ∉ kilo) : engtext py (t ++ [c]) =
    fromMega py (t ++ [c]) ((py.int (t ++ [c])).map Number.int) := by
  rw [engtext_eq, scaled_miss last]
  rfl

theorem value?_plain (letter : c ∉ letters) :
    value? py (t ++ [c]) = (py.int (t ++ [c])).map Number.int := by
  simp only [letters, List.mem_append, not_or] at letter
  have stands : factor? c = none := by
    rw [factor?, if_neg letter.1.1, if_neg letter.1.2, if_neg letter.2]
  rw [value?]
  cases py.int (t ++ [c]) with
  | some n => rfl
  | none => simp [stands]

end Results

/-! ## When a number is read -/

section Reads

variable {py} {s t u v : List Char} {c d e : Char}

/-- Of the last character alone. -/
theorem reads_plain (letter : c ∉ letters) :
    engtext py (t ++ [c]) = some (value? py (t ++ [c])) := by
  have suffix := letter
  simp only [letters, List.mem_append, not_or] at suffix
  rw [engtext_miss suffix.1.1, fromMega_miss suffix.1.2, fromGiga_miss suffix.2,
    value?_plain letter]

end Reads

/-! ## The panel -/

section Panel

variable {py} {out : XlaterPanel.Outside}

/-- The panel takes the conversions from outside; its floats are finite. -/
def ofPanel : XlaterPanel.Number → Number
  | .int n => .int n
  | .float x => .float (.finite x)

theorem scaled_eq_suffix (letters : List Char) {factor : Nat} {rational : ℚ}
    (same : (factor : ℚ) = rational) {s : List Char}
    (finite : py.float s.dropLast = (out.float s.dropLast).map .finite)
    (i : Option XlaterPanel.Number) :
    scaled py letters factor s (i.map ofPanel) =
      (XlatersLock.suffix out letters rational (s, i)).map fun left =>
        (left.1, left.2.map ofPanel) := by
  rw [scaled, XlatersLock.suffix, ← same]
  cases s.getLast? with
  | none => rfl
  | some last =>
      by_cases letter : last ∈ letters
      · rw [Option.map_some, if_pos letter, safe_cast_none, finite, Option.map_map]
        simp only [if_pos letter, Option.map_some, Option.map_map]
        rfl
      · rw [Option.map_some, if_neg letter]
        simp only [if_neg letter, Option.map_some]

/-- Every test leaves a prefix of the text. -/
theorem prefix_of_suffix {letters : List Char} {factor : ℚ} {s : List Char}
    {i : Option XlaterPanel.Number} {left : List Char × Option XlaterPanel.Number}
    (ended : XlatersLock.suffix out letters factor (s, i) = some left) : left.1 <+: s := by
  rw [XlatersLock.suffix] at ended
  cases last : s.getLast? with
  | none => simp [last] at ended
  | some letter =>
      simp only [last] at ended
      split at ended
      · obtain rfl := Option.some.inj ended
        exact List.dropLast_prefix s
      · obtain rfl := Option.some.inj ended
        exact List.prefix_rfl

/-- Where the two read the same numbers they return the same. -/
theorem engtext_eq_engnum {s : List Char} (int : out.int s = py.int s)
    (finite : ∀ t, t <+: s → py.float t = (out.float t).map .finite) :
    engtext py s = (XlatersLock.engnum out s).map (Option.map ofPanel) := by
  have short {t : List Char} (left : t <+: s) :
      py.float t.dropLast = (out.float t.dropLast).map .finite :=
    finite _ ((List.dropLast_prefix t).trans left)
  have start : (py.int s).map Number.int = ((out.int s).map .int).map ofPanel := by
    rw [int, Option.map_map]
    rfl
  have thousand : ((1000 : Nat) : ℚ) = 1000 := by norm_num
  have million : ((1000 * 1000 : Nat) : ℚ) = 1000 * 1000 := by norm_num
  rw [engtext_eq, start, scaled_eq_suffix kilo thousand (short List.prefix_rfl),
    XlatersLock.engnum, ← kilo, ← mega, ← giga]
  cases first : XlatersLock.suffix out kilo 1000 (s, (out.int s).map .int) with
  | none => rfl
  | some one =>
      have before := prefix_of_suffix first
      simp only [Option.map_some, Option.bind_some, Option.bind_eq_bind, fromMega]
      rw [scaled_eq_suffix mega million (short before)]
      cases second : XlatersLock.suffix out mega (1000 * 1000) one with
      | none => rfl
      | some two =>
          have earlier := (prefix_of_suffix second).trans before
          simp only [Option.map_some, Option.bind_some, fromGiga]
          rw [scaled_eq_suffix giga million (short earlier), Option.map_map]
          cases XlatersLock.suffix out giga (1000 * 1000) two with
          | none => rfl
          | some three => rfl

end Panel

/-! ## Some texts -/

/-- A Python that knows no characters beyond ASCII. -/
def ascii : Python := ⟨fun _ => none, fun _ => false, 4300⟩

end Kukuruku.Clients.EngNum
