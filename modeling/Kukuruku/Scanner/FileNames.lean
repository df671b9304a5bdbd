import Mathlib.Data.List.DropRight
import Mathlib.Data.Rat.Floor
import Kukuruku.Foundation.PythonNumerals
import Kukuruku.Foundation.Truncate
import Kukuruku.Scanner.Schedule

/-!
# The names of recordings

`getfn` builds the name of a recording from the frequency, the date and the rate of
its channel.  `sorter.py` takes the frequency and the rate out of the name again.
-/

namespace Kukuruku.Scanner.FileNames

open Kukuruku.Decimal
open Kukuruku.PythonNumerals
open Kukuruku.Scanner.IntervalList
open Kukuruku.Scanner.Schedule

/-! ## Names -/

/-- What the name keeps of the local time. -/
structure Stamp where
  year : Nat
  month : Nat
  day : Nat
  hour : Nat
  minute : Nat
  second : Nat
deriving DecidableEq

/-- Two digits at least. -/
def padded (n : Nat) : List Char := if n < 10 then '0' :: Nat.toDigits 10 n else Nat.toDigits 10 n

def Stamp.fields (ds : Stamp) : List (List Char) :=
  [Nat.toDigits 10 ds.year, padded ds.month, padded ds.day, padded ds.hour, padded ds.minute,
    padded ds.second]

/-- `strftime('%Y-%m-%d-%H-%M-%S')`. -/
def Stamp.strftime (ds : Stamp) : List Char := ['-'].intercalate ds.fields

section Names

variable {K : Type} [Field K] [LinearOrder K] [FloorRing K]

/-- Build filename from frequency, current date and channel rate. -/
def getfn (f : K) (ds : Stamp) (rate : Option K) : List Char :=
  match rate with
  | some rate =>
      decimal (truncate f) ++ '-' :: (ds.strftime ++ '-' :: decimal (truncate rate))
  | none => decimal (truncate f) ++ '-' :: ds.strftime

/-- The file that `do_record` opens for a channel without a pipe. -/
def fullfile (archive : Bool) (basename : List Char) : List Char :=
  (if archive then "archive/".toList ++ basename else basename) ++ ".cfile".toList

/-- The file of `dump_spectrum`. -/
def spectrumfile (f : K) (ds : Stamp) : List Char := getfn f ds none ++ ".spectrum.txt".toList

end Names

/-! ## Reading names -/

/-- How the interpreter may stop the sorter. -/
inductive Failure where
  | valueError
  | overflowError
  | indexError
  | nameError
  | zeroDivisionError
  | eofError
  | osError
deriving DecidableEq

/-- `os.path.basename`. -/
def basename (path : List Char) : List Char := path.rtakeWhile (· ≠ '/')

/-- Strings are bytes: no digits and blanks but those of ASCII. -/
def bytes : Python := ⟨fun _ => none, fun _ => false, 0⟩

/-- `float` of a string. -/
def float (s : List Char) : Option PyFloat :=
  let (minus, text) := Python.sign (strip s)
  let name := text.map Char.toLower
  if name = "inf".toList ∨ name = "infinity".toList then some (.inf minus)
  else if name = "nan".toList then some .nan
  else (bytes.magnitude text).map fun x => .finite (if minus then -x else x)

/-- The frequency and the rate of a recording, and nothing for a file that is passed
over.  The text above the menu truncates the rate. -/
def recording (filename : List Char) : Except Failure (Option (Int × ℚ)) :=
  let fn := basename filename
  if fn.drop (fn.length - 6) ≠ ".cfile".toList then .ok none
  else
    match fn.splitOn '-' with
    | [first, _, _, _, _, _, _, last] =>
        match float ((last.splitOn '.').headD []), int first with
        | some (.finite rate), .ok freq => .ok (some (freq, rate))
        | some (.inf _), .ok _ => .error .overflowError
        | _, _ => .error .valueError
    | _ => .ok none

/-! ## Digits -/

theorem not_mem_toDigits {c : Char} (other : c.isDigit = false) (n : Nat) :
    c ∉ Nat.toDigits 10 n := by
  intro member
  rw [isDigit_of_mem member] at other
  cases other

theorem not_mem_padded {c : Char} (other : c.isDigit = false) (n : Nat) : c ∉ padded n := by
  rw [padded]
  split_ifs
  · intro member
    rcases List.mem_cons.mp member with rfl | later
    · exact absurd other (by decide)
    · exact not_mem_toDigits other n later
  · exact not_mem_toDigits other n

theorem value_padded (n : Nat) : value (padded n) = n := by
  rw [padded]
  split_ifs
  · have zero : value ('0' :: Nat.toDigits 10 n) = value (Nat.toDigits 10 n) := by
      simp [value, Nat.ofDigitChars_eq_foldl]
    rw [zero, value_toDigits]
  · exact value_toDigits n

/-- The digits of a run, the last one first, stand for the value of the text. -/
theorem run_digits {s : List Char} (all : ∀ c ∈ s, c.isDigit = true) (before : List Nat) :
    ∃ ds, bytes.run s before = (ds, []) ∧
      Nat.ofDigits 10 ds = Nat.ofDigitChars 10 s (Nat.ofDigits 10 before) := by
  induction s generalizing before with
  | nil => exact ⟨before, rfl, rfl⟩
  | cons c s ih =>
      have digit : bytes.digit c = some (c.toNat - 48) := if_pos (all c List.mem_cons_self)
      obtain ⟨ds, ran, stands⟩ :=
        ih (fun d member => all d (List.mem_cons_of_mem c member)) ((c.toNat - 48) :: before)
      refine ⟨ds, ?_, ?_⟩
      · rw [Python.run, digit]
        exact ran
      · rw [stands, Nat.ofDigitChars_cons, Nat.ofDigits_cons]
        congr 1
        exact add_comm _ _

theorem run_ne_nil {s : List Char} (nonempty : s ≠ []) (all : ∀ c ∈ s, c.isDigit = true) :
    (bytes.run s []).1 ≠ [] := by
  have kept (t : List Char) (before : List Nat) (some : before ≠ []) :
      (bytes.run t before).1 ≠ [] := by
    induction t generalizing before with
    | nil => exact some
    | cons c t ih =>
        rw [Python.run]
        cases bytes.digit c with
        | none => exact some
        | some d => exact ih _ (List.cons_ne_nil _ _)
  cases s with
  | nil => exact absurd rfl nonempty
  | cons c s =>
      have digit : bytes.digit c = some (c.toNat - 48) := if_pos (all c List.mem_cons_self)
      rw [Python.run, digit]
      exact kept s _ (List.cons_ne_nil _ _)

theorem toLower_of_isDigit {c : Char} (digit : c.isDigit = true) : c.toLower = c := by
  have below : c.toNat ≤ '9'.toNat := (Char.isDigit_iff_toNat.mp digit).2
  refine dif_neg fun upper => ?_
  have above : 'A'.toNat ≤ c.toNat := UInt32.le_iff_toNat_le.mp upper.1
  exact absurd (above.trans below) (by decide)

/-- `float` reads the digits of a number. -/
theorem float_toDigits (n : Nat) : float (Nat.toDigits 10 n) = some (.finite n) := by
  have all : ∀ c ∈ Nat.toDigits 10 n, c.isDigit = true := fun c => isDigit_of_mem
  have solid : ∀ c ∈ Nat.toDigits 10 n, isspace c = false := fun c member =>
    isspace_of_isDigit (all c member)
  obtain ⟨ds, ran, stands⟩ := run_digits all []
  have nonempty := run_ne_nil Nat.toDigits_ne_nil all
  rw [ran] at nonempty
  have magnitude : bytes.magnitude (Nat.toDigits 10 n) = some (n : ℚ) := by
    have total : Nat.ofDigits 10 ds = n := stands.trans (value_toDigits n)
    have whole : bytes.fraction [] ds = (ds, []) := rfl
    rw [Python.magnitude, ran]
    simp only [whole, if_neg nonempty, Nat.sub_self, Python.exponent, total, Option.map_some]
    norm_num
  obtain ⟨c, rest, shape⟩ := List.exists_cons_of_ne_nil (Nat.toDigits_ne_nil (b := 10) (n := n))
  have digit : c.isDigit = true := all c (shape ▸ List.mem_cons_self)
  have unsigned : Python.sign (Nat.toDigits 10 n) = (false, Nat.toDigits 10 n) := by
    rw [shape, Python.sign]
    · rintro _ ⟨rfl, _⟩
      exact absurd digit (by decide)
    · rintro _ ⟨rfl, _⟩
      exact absurd digit (by decide)
  have unnamed {d : Char} {word : List Char} (letter : d.isDigit = false) :
      (Nat.toDigits 10 n).map Char.toLower ≠ d :: word := by
    intro same
    rw [shape, List.map_cons, toLower_of_isDigit digit] at same
    rw [← (List.cons.inj same).1, digit] at letter
    cases letter
  rw [float, strip_eq solid]
  simp only [unsigned]
  rw [if_neg, if_neg, magnitude]
  · rfl
  · exact unnamed (d := 'n') rfl
  · rintro (same | same)
    · exact unnamed (d := 'i') rfl same
    · exact unnamed (d := 'i') rfl same

/-! ## The pieces of a name -/

/-- What a number followed by a suffix is split into. -/
def pieces (n : Int) (suffix : List Char) : List (List Char) :=
  if n < 0 then [[], Nat.toDigits 10 n.natAbs ++ suffix]
  else [Nat.toDigits 10 n.natAbs ++ suffix]

theorem pieces_of_nonneg {n : Int} (nonneg : 0 ≤ n) (suffix : List Char) :
    pieces n suffix = [decimal n ++ suffix] := by
  rw [pieces, if_neg (Int.not_lt.mpr nonneg), decimal_of_nonneg nonneg]

theorem pieces_of_neg {n : Int} (negative : n < 0) (suffix : List Char) :
    pieces n suffix = [[], Nat.toDigits 10 n.natAbs ++ suffix] :=
  if_pos negative

theorem splitOn_decimal (n : Int) (suffix : List Char) (plain : '-' ∉ suffix) :
    (decimal n ++ suffix).splitOn '-' = pieces n suffix := by
  have digits : '-' ∉ Nat.toDigits 10 n.natAbs ++ suffix := fun member =>
    (List.mem_append.mp member).elim (not_mem_toDigits rfl _) plain
  rcases lt_or_ge n 0 with negative | nonneg
  · rw [pieces_of_neg negative, decimal_of_neg negative, List.cons_append,
      List.splitOn_cons_eq_if_modifyHead, if_pos (beq_self_eq_true _),
      List.splitOn_eq_singleton digits]
  · rw [pieces_of_nonneg nonneg, decimal_of_nonneg nonneg, List.splitOn_eq_singleton digits]

theorem Stamp.splitOn_strftime (ds : Stamp) : ds.strftime.splitOn '-' = ds.fields := by
  refine List.splitOn_intercalate '-' ?_ (List.cons_ne_nil _ _)
  simp [fields, not_mem_toDigits (c := '-') rfl, not_mem_padded (c := '-') rfl]

section Pieces

variable {K : Type} [Field K] [LinearOrder K] [FloorRing K] {f rate : K} {ds : Stamp}
  {suffix : List Char}

theorem splitOn_getfn (f rate : K) (ds : Stamp) (plain : '-' ∉ suffix) :
    (getfn f ds (some rate) ++ suffix).splitOn '-' =
      pieces (truncate f) [] ++ (ds.fields ++ pieces (truncate rate) suffix) := by
  have shape : getfn f ds (some rate) ++ suffix =
      decimal (truncate f) ++ '-' :: (ds.strftime ++ '-' :: (decimal (truncate rate) ++ suffix)) :=
    by simp [getfn]
  have first := splitOn_decimal (truncate f) [] List.not_mem_nil
  rw [List.append_nil] at first
  rw [shape, List.splitOn_append_cons_self, List.splitOn_append_cons_self, first,
    ds.splitOn_strftime, splitOn_decimal _ _ plain]

/-- A name is made of digits and minuses. -/
theorem minus_or_digit_getfn {c : Char} {rate : Option K} (member : c ∈ getfn f ds rate) :
    c = '-' ∨ c.isDigit = true := by
  by_contra other
  obtain ⟨minus, nondigit⟩ := not_or.mp other
  have digit : c.isDigit = false := Bool.eq_false_of_not_eq_true nondigit
  have number (n : Int) : c ∉ decimal n := fun inside =>
    (minus_or_digit inside).elim minus (ne_true_of_eq_false digit)
  have date : c ∉ ds.strftime := by
    simp [Stamp.strftime, Stamp.fields, minus, not_mem_toDigits digit, not_mem_padded digit]
  cases rate with
  | none => simp [getfn, minus, number, date] at member
  | some rate => simp [getfn, minus, number, date] at member

theorem basename_eq {name : List Char} (plain : '/' ∉ name) : basename name = name := by
  refine List.rtakeWhile_eq_self_iff.mpr fun c member => ?_
  exact decide_eq_true fun same => plain (same ▸ member)

theorem basename_append {name : List Char} (plain : '/' ∉ name) (path : List Char) :
    basename (path ++ '/' :: name) = name := by
  have inner : ∀ c ∈ name.reverse, decide (c ≠ '/') = true := fun c member =>
    decide_eq_true fun same => plain (same ▸ List.mem_reverse.mp member)
  rw [basename, List.rtakeWhile, List.reverse_append, List.reverse_cons, List.append_assoc,
    List.takeWhile_append_of_pos inner]
  simp

theorem basename_fullfile (archive : Bool) {name : List Char} (plain : '/' ∉ name) :
    basename (fullfile archive name) = name ++ ".cfile".toList := by
  have suffixed : '/' ∉ name ++ ".cfile".toList := by simp [plain]
  cases archive with
  | false => exact basename_eq suffixed
  | true =>
      have shape : fullfile true name = "archive".toList ++ '/' :: (name ++ ".cfile".toList) := by
        simp [fullfile]
      rw [shape, basename_append suffixed]

/-- The end of a name that the sorter looks at. -/
theorem drop_suffix (name suffix : List Char) (six : suffix.length = 6) :
    (name ++ suffix).drop ((name ++ suffix).length - 6) = suffix := by
  rw [List.length_append, six, Nat.add_sub_cancel, List.drop_left]

/-- The pieces that the sorter counts. -/
theorem length_pieces (n : Int) (suffix : List Char) :
    (pieces n suffix).length = if n < 0 then 2 else 1 := by
  rw [pieces]
  split_ifs <;> rfl

/-! ## What the sorter makes of a name -/

theorem recording_of_nonneg (archive : Bool) (ds : Stamp) (freq : 0 ≤ truncate f)
    (rated : 0 ≤ truncate rate) :
    recording (fullfile archive (getfn f ds (some rate))) =
      .ok (some (truncate f, (truncate rate : ℚ))) := by
  have plain : '/' ∉ getfn f ds (some rate) := fun member =>
    (minus_or_digit_getfn member).elim (by decide) (by decide)
  have point : '.' ∉ decimal (truncate rate) := fun member =>
    (minus_or_digit member).elim (by decide) (by decide)
  have last : ((decimal (truncate rate) ++ ".cfile".toList).splitOn '.').headD [] =
      decimal (truncate rate) := by
    have shape : decimal (truncate rate) ++ ".cfile".toList =
      decimal (truncate rate) ++ '.' :: "cfile".toList := by simp
    rw [shape, List.splitOn_append_cons_self_of_not_mem point]
    rfl
  have value : float (decimal (truncate rate)) = some (.finite (truncate rate : ℚ)) := by
    have same : ((truncate rate).natAbs : Int) = truncate rate := Int.natAbs_of_nonneg rated
    rw [decimal_of_nonneg rated, float_toDigits, ← Int.cast_natCast, same]
  rw [recording, basename_fullfile archive plain]
  simp only [drop_suffix _ ".cfile".toList (by decide)]
  rw [if_neg (not_not_intro rfl), splitOn_getfn f rate ds (by decide), pieces_of_nonneg freq,
    pieces_of_nonneg rated, Stamp.fields, List.append_nil]
  simp only [List.cons_append, List.nil_append, last, value, int_decimal]

theorem recording_of_neg (archive : Bool) (ds : Stamp)
    (negative : truncate f < 0 ∨ truncate rate < 0) :
    recording (fullfile archive (getfn f ds (some rate))) = .ok none := by
  have plain : '/' ∉ getfn f ds (some rate) := fun member =>
    (minus_or_digit_getfn member).elim (by decide) (by decide)
  have count : (pieces (truncate f) [] ++
      (ds.fields ++ pieces (truncate rate) ".cfile".toList)).length ≠ 8 := by
    simp only [List.length_append, length_pieces, Stamp.fields, List.length_cons, List.length_nil]
    split_ifs <;> omega
  rw [recording, basename_fullfile archive plain]
  simp only [drop_suffix _ ".cfile".toList (by decide)]
  rw [if_neg (not_not_intro rfl), splitOn_getfn f rate ds (by decide)]
  split
  · rename_i split
    rw [split] at count
    exact absurd rfl count
  · rfl

theorem recording_spectrumfile (f : K) (ds : Stamp) :
    recording (spectrumfile f ds) = .ok none := by
  have plain : '/' ∉ spectrumfile f ds := fun member =>
    (List.mem_append.mp member).elim
      (fun inside => (minus_or_digit_getfn inside).elim (by decide) (by decide)) (by decide)
  have shape : spectrumfile f ds = (getfn f ds none ++ ".spectr".toList) ++ "um.txt".toList := by
    simp [spectrumfile]
  rw [recording, basename_eq plain, shape]
  simp only [drop_suffix _ "um.txt".toList (by decide)]
  rw [if_pos (by decide)]

/-! ## Names tell recordings apart -/

theorem padded_injective : Function.Injective padded :=
  Function.LeftInverse.injective value_padded

theorem toDigits_injective : Function.Injective (Nat.toDigits 10) :=
  Function.LeftInverse.injective value_toDigits

theorem Stamp.fields_injective : Function.Injective Stamp.fields := by
  rintro ⟨_, _, _, _, _, _⟩ ⟨_, _, _, _, _, _⟩ same
  simp only [fields, List.cons.injEq] at same
  obtain ⟨year, month, day, hour, minute, second, _⟩ := same
  rw [toDigits_injective year, padded_injective month, padded_injective day,
    padded_injective hour, padded_injective minute, padded_injective second]

theorem pieces_append_inj {n m : Int} {later later' : List (List Char)}
    (same : pieces n [] ++ later = pieces m [] ++ later') : n = m ∧ later = later' := by
  have digits {k l : Int} (text : Nat.toDigits 10 k.natAbs = Nat.toDigits 10 l.natAbs) :
      k.natAbs = l.natAbs := toDigits_injective text
  simp only [pieces, List.append_nil] at same
  split_ifs at same with left right right
  · obtain ⟨text, rest⟩ := List.cons.inj (List.cons.inj same).2
    have absolute := digits text
    exact ⟨by omega, rest⟩
  · have none : [] = Nat.toDigits 10 m.natAbs := (List.cons.inj same).1
    exact absurd none.symm Nat.toDigits_ne_nil
  · have none : Nat.toDigits 10 n.natAbs = [] := (List.cons.inj same).1
    exact absurd none Nat.toDigits_ne_nil
  · obtain ⟨text, rest⟩ := List.cons.inj same
    have absolute := digits text
    exact ⟨by omega, rest⟩

theorem getfn_inj {f' rate' : K} {ds' : Stamp}
    (same : getfn f ds (some rate) = getfn f' ds' (some rate')) :
    truncate f = truncate f' ∧ ds = ds' ∧ truncate rate = truncate rate' := by
  have split := splitOn_getfn f rate ds (List.not_mem_nil (a := '-'))
  rw [List.append_nil, same, ← List.append_nil (getfn f' ds' (some rate')),
    splitOn_getfn f' rate' ds' List.not_mem_nil] at split
  obtain ⟨freq, later⟩ := pieces_append_inj split.symm
  obtain ⟨fields, rated⟩ := List.append_inj later rfl
  have last : pieces (truncate rate) [] ++ [] = pieces (truncate rate') [] ++ [] := by rw [rated]
  exact ⟨freq, Stamp.fields_injective fields, (pieces_append_inj last).1⟩

theorem fullfile_inj {archive archive' : Bool} {f' rate' : K} {ds' : Stamp}
    (same : fullfile archive (getfn f ds (some rate)) =
      fullfile archive' (getfn f' ds' (some rate'))) :
    archive = archive' ∧ getfn f ds (some rate) = getfn f' ds' (some rate') := by
  have letter {f : K} {ds : Stamp} {rate : K} : 'a' ∉ getfn f ds (some rate) := fun member =>
    (minus_or_digit_getfn member).elim (by decide) (by decide)
  have name := List.append_cancel_right same
  cases archive <;> cases archive'
  · exact ⟨rfl, name⟩
  · have moved : getfn f ds (some rate) = "archive/".toList ++ getfn f' ds' (some rate') := name
    exact absurd (moved ▸ List.mem_append_left _ List.mem_cons_self) (letter (f := f))
  · have moved : "archive/".toList ++ getfn f ds (some rate) = getfn f' ds' (some rate') := name
    exact absurd (moved ▸ List.mem_append_left _ List.mem_cons_self) (letter (f := f'))
  · exact ⟨rfl, List.append_cancel_left name⟩

/-- What holds of the name of a recording. -/
structure Named (archive : Bool) (f : K) (ds : Stamp) (rate : K) : Prop where
  /-- The sorter finds the frequency and the rate without their fractions, unless a
  minus among them makes a piece too many. -/
  read : recording (fullfile archive (getfn f ds (some rate))) =
    .ok (if 0 ≤ truncate f ∧ 0 ≤ truncate rate then some (truncate f, (truncate rate : ℚ))
      else none)
  /-- Two recordings share a file only if they agree in all that is in the name. -/
  shared : ∀ (archive' : Bool) (f' : K) (ds' : Stamp) (rate' : K),
    fullfile archive (getfn f ds (some rate)) =
      fullfile archive' (getfn f' ds' (some rate')) ↔
    archive = archive' ∧ truncate f = truncate f' ∧ ds = ds' ∧ truncate rate = truncate rate'
  /-- No spectrum is written over it, and none is taken for a recording. -/
  spectrum : ∀ (f' : K) (ds' : Stamp),
    spectrumfile f' ds' ≠ fullfile archive (getfn f ds (some rate)) ∧
    recording (spectrumfile f' ds') = .ok none

theorem named (archive : Bool) (f : K) (ds : Stamp) (rate : K) : Named archive f ds rate where
  read := by
    split_ifs with signs
    · exact recording_of_nonneg archive ds signs.1 signs.2
    · refine recording_of_neg archive ds ?_
      omega
  shared := fun archive' f' ds' rate' => by
    constructor
    · intro same
      obtain ⟨folder, name⟩ := fullfile_inj same
      exact ⟨folder, getfn_inj name⟩
    · rintro ⟨rfl, freq, rfl, rated⟩
      simp only [getfn, freq, rated]
  spectrum := fun f' ds' => by
    refine ⟨fun same => ?_, recording_spectrumfile f' ds'⟩
    have text : (spectrumfile f' ds').getLast? = some 't' := by
      rw [spectrumfile, List.getLast?_append]
      rfl
    have data : (fullfile archive (getfn f ds (some rate))).getLast? = some 'e' := by
      rw [fullfile, List.getLast?_append]
      rfl
    rw [same, data] at text
    exact absurd (Option.some.inj text) (by decide)

end Pieces

end Kukuruku.Scanner.FileNames
