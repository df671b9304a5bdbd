import Mathlib.Algebra.Order.Floor.Ring
import Mathlib.Algebra.Order.Field.Basic
import Mathlib.Data.Rat.Floor
import Mathlib.Tactic.FieldSimp
import Mathlib.Tactic.Linarith
import Mathlib.Tactic.NormNum
import Mathlib.Tactic.Ring
import Kukuruku.Foundation.Decimal
import Kukuruku.Foundation.Truncate
import Kukuruku.Scanner.IntervalList

/-!
# When the scanner does what

`work` first looks for a scheduled frame whose cron string fits the local time and
otherwise picks a frame by a hash of the running interval, so that scanners with
the same `nonce` move together.
-/

namespace Kukuruku.Scanner.Schedule

open Kukuruku.Decimal
open Kukuruku.Scanner.IntervalList

/-! ## The functions -/

/-- `safe_cast(s, int, None)`. -/
def safe_cast (s : List Char) : Option Int := (int s).toOption

/-- Compare cron field, return True on positive match. -/
def croncmp (i : Int) (frag : List Char) : Bool :=
  if frag = ['*'] then true
  else
    let raw := decide (safe_cast frag = some i)
    if frag.take 2 = ['*', '/'] then
      match safe_cast (frag.drop 2) with
      | none => false
      | some num => if num = 0 then false else if i.fmod num = 0 then true else raw
    else raw

/-- What `datetime.fromtimestamp` tells of the local time; Monday is weekday zero. -/
structure Date where
  minute : Nat
  hour : Nat
  day : Nat
  month : Nat
  weekday : Nat

/-- Test a cron string against a time, return True on positive match. -/
def crontest (d : Date) (s : List Char) : Bool :=
  match s.splitOn ' ' with
  | [minute, hour, day, month, weekday] =>
      croncmp d.minute minute && croncmp d.hour hour && croncmp d.day day &&
        croncmp d.month month && croncmp (d.weekday + 1) weekday
  | _ => false

/-- Check cron string of all frames, return the place of the first frame that
matches; every string is tested against a reading of the clock of its own. -/
def find_cronjob : List (List Char) → List Date → Option Nat
  | cron :: crons, d :: dates =>
      if crontest d cron then some 0 else (find_cronjob crons dates).map (· + 1)
  | _, _ => none

section Slots

variable {K : Type*} [Field K] [LinearOrder K] [FloorRing K]

/-- The settings of `main.conf` about intervals. -/
structure Timing where
  interval : Int
  skip : Int
  rate : Int

variable (conf : Timing)

/-- `interval - time % interval`. -/
def delta (time : K) : K := conf.interval - (time - conf.interval * ⌊time / conf.interval⌋)

/-- `math.floor(time) / interval`, as `"%i"` prints it. -/
def slot (time : K) : Int := truncate ((⌊time⌋ : K) / conf.interval)

/-- Length in bytes. -/
def COMPLEX64 : Nat := 8

/-- The bytes that a scan reads. -/
def nbytes (time : K) : Int :=
  let nbytes := truncate ((conf.rate : K) * (COMPLEX64 : K) * delta conf time)
  nbytes - nbytes % COMPLEX64

/-- The place of the frame to scan; `sha256` gives the digest as a number. -/
def pick (sha256 : List Char → Nat) (nonce : List Char) (frames : Nat) (time : K) : Nat :=
  sha256 (nonce ++ decimal (slot conf time)) % frames

end Slots

/-! ## What a cron string stands for -/

/-- A field of a schedule. -/
inductive CronField where
  | any
  | every (num : Int)
  | exactly (value : Int)

/-- The numbers that a field admits; no number is a multiple of zero here. -/
def CronField.Admits : CronField → Int → Prop
  | any, _ => True
  | every num, i => num ≠ 0 ∧ num ∣ i
  | exactly value, i => i = value

structure Cron where
  minute : CronField
  hour : CronField
  day : CronField
  month : CronField
  weekday : CronField

/-- Monday is day one of the week. -/
structure Cron.Admits (cron : Cron) (d : Date) : Prop where
  minute : cron.minute.Admits d.minute
  hour : cron.hour.Admits d.hour
  day : cron.day.Admits d.day
  month : cron.month.Admits d.month
  weekday : cron.weekday.Admits (d.weekday + 1)

/-- The texts of a field. -/
def CronField.Written : CronField → List Char → Prop
  | any, frag => frag = ['*']
  | every num, frag => ∃ rest, frag = '*' :: '/' :: rest ∧ int rest = .ok num
  | exactly value, frag => int frag = .ok value

/-- Five fields with a blank between each two. -/
def Cron.Written (cron : Cron) (s : List Char) : Prop :=
  ∃ minute hour day month weekday, s.splitOn ' ' = [minute, hour, day, month, weekday] ∧
    cron.minute.Written minute ∧ cron.hour.Written hour ∧ cron.day.Written day ∧
    cron.month.Written month ∧ cron.weekday.Written weekday

def CronField.print : CronField → List Char
  | any => ['*']
  | every num => '*' :: '/' :: decimal num
  | exactly value => decimal value

def Cron.print (cron : Cron) : List Char :=
  List.intercalate [' '] [cron.minute.print, cron.hour.print, cron.day.print,
    cron.month.print, cron.weekday.print]

/-! ## Numbers read back -/

section Numbers

theorem isspace_of_isDigit {c : Char} (digit : c.isDigit = true) : isspace c = false := by
  have range := Char.isDigit_iff_toNat.mp digit
  have low : 48 ≤ c.toNat := range.1
  have blank : ¬c = ' ' := by
    rintro rfl
    exact absurd low (by decide)
  rw [isspace, beq_eq_false_iff_ne.mpr blank, Bool.false_or, Bool.and_eq_false_iff,
    decide_eq_false_iff_not, decide_eq_false_iff_not]
  omega

/-- A text whose ends are no blanks is not stripped. -/
theorem strip_eq {s : List Char} (solid : ∀ c ∈ s, isspace c = false) : strip s = s := by
  have kept (t : List Char) (inner : ∀ c ∈ t, isspace c = false) : t.dropWhile isspace = t := by
    cases t with
    | nil => rfl
    | cons c t => rw [List.dropWhile_cons, inner c List.mem_cons_self, if_neg Bool.false_ne_true]
  have reversed : ∀ c ∈ s.reverse, isspace c = false := fun c member =>
    solid c (List.mem_reverse.mp member)
  rw [strip, kept s solid, kept s.reverse reversed, List.reverse_reverse]

theorem solid_decimal (n : Int) : ∀ c ∈ decimal n, isspace c = false := by
  intro c member
  rcases minus_or_digit member with rfl | digit
  · rfl
  · exact isspace_of_isDigit digit

theorem digits_eq {s : List Char} (nonempty : s ≠ []) (all : ∀ c ∈ s, c.isDigit = true) :
    digits s = .ok (value s) := by
  rw [digits, if_pos ⟨nonempty, List.all_eq_true.mpr all⟩, value, Nat.ofDigitChars_eq_foldl]

/-- `int` reads what `"%i"` has printed. -/
theorem int_decimal (n : Int) : int (decimal n) = .ok n := by
  rw [int, strip_eq (solid_decimal n)]
  rcases lt_or_ge n 0 with negative | nonneg
  · have all : ∀ c ∈ Nat.toDigits 10 n.natAbs, c.isDigit = true := fun c => isDigit_of_mem
    rw [decimal_of_neg negative]
    simp only [if_true, digits_eq Nat.toDigits_ne_nil all, value_toDigits]
    have same : -(n.natAbs : Int) = n := by omega
    exact congrArg Except.ok same
  · have all : ∀ c ∈ Nat.toDigits 10 n.natAbs, c.isDigit = true := fun c => isDigit_of_mem
    rw [decimal_of_nonneg nonneg]
    cases printed : Nat.toDigits 10 n.natAbs with
    | nil => exact absurd printed Nat.toDigits_ne_nil
    | cons c rest =>
        have digit := all c (printed ▸ List.mem_cons_self)
        have minus : c ≠ '-' := by
          rintro rfl
          exact absurd digit (by decide)
        have plus : c ≠ '+' := by
          rintro rfl
          exact absurd digit (by decide)
        simp only [if_neg minus, if_neg plus]
        have same : (n.natAbs : Int) = n := by omega
        rw [← printed, digits_eq Nat.toDigits_ne_nil all, value_toDigits]
        exact congrArg Except.ok same

theorem mem_dropWhile {c : Char} (solid : isspace c = false) {s : List Char} (member : c ∈ s) :
    c ∈ s.dropWhile isspace := by
  induction s with
  | nil => exact member
  | cons first rest ih =>
      rw [List.dropWhile_cons]
      split_ifs with blank
      · rcases List.mem_cons.mp member with rfl | later
        · exact absurd blank (by rw [solid]; decide)
        · exact ih later
      · exact member

theorem digits_error {c : Char} {s : List Char} (member : c ∈ s) (digit : c.isDigit = false) :
    digits s = .error .valueError := by
  rw [digits, if_neg]
  rintro ⟨_, all⟩
  exact absurd (List.all_eq_true.mp all c member) (by rw [digit]; decide)

/-- A text with a star in it is no number. -/
theorem int_star {s : List Char} (member : '*' ∈ s) : int s = .error .valueError := by
  have inner : '*' ∈ strip s := by
    rw [strip, List.mem_reverse]
    exact mem_dropWhile rfl (List.mem_reverse.mpr (mem_dropWhile rfl member))
  rw [int]
  cases stripped : strip s with
  | nil => rfl
  | cons c rest =>
      rw [stripped] at inner
      dsimp only
      split_ifs with minus plus
      · have later := List.mem_of_ne_of_mem (a := '*') (by rw [minus]; decide) inner
        rw [digits_error later rfl]
        rfl
      · have later := List.mem_of_ne_of_mem (a := '*') (by rw [plus]; decide) inner
        rw [digits_error later rfl]
        rfl
      · rw [digits_error inner rfl]
        rfl

end Numbers

/-! ## Cron strings -/

section Fields

theorem safe_cast_eq_some {s : List Char} {n : Int} : safe_cast s = some n ↔ int s = .ok n := by
  rw [safe_cast]
  cases int s with
  | error e => simp [Except.toOption]
  | ok m => simp [Except.toOption]

theorem safe_cast_star {s : List Char} (member : '*' ∈ s) : safe_cast s = none := by
  rw [safe_cast, int_star member]
  rfl

/-- A field is written in one way at most. -/
theorem CronField.Written.unique {frag : List Char} {field other : CronField}
    (written : field.Written frag) (also : other.Written frag) : field = other := by
  cases field with
  | any =>
      obtain rfl : frag = ['*'] := written
      cases other with
      | any => rfl
      | every num =>
          obtain ⟨rest, same, _⟩ := also
          cases same
      | exactly value => exact nomatch (int_star List.mem_cons_self).symm.trans also
  | every num =>
      obtain ⟨rest, rfl, read⟩ := written
      cases other with
      | any => cases also
      | every other =>
          obtain ⟨rest', same, read'⟩ := also
          cases same
          rw [read] at read'
          rw [Except.ok.inj read']
      | exactly value => exact nomatch (int_star List.mem_cons_self).symm.trans also
  | exactly value =>
      have number : int frag = .ok value := written
      cases other with
      | any =>
          obtain rfl : frag = ['*'] := also
          exact nomatch (int_star List.mem_cons_self).symm.trans number
      | every num =>
          obtain ⟨rest, rfl, _⟩ := also
          exact nomatch (int_star List.mem_cons_self).symm.trans number
      | exactly other => rw [Except.ok.inj (number.symm.trans also)]

theorem croncmp_iff (i : Int) (frag : List Char) :
    croncmp i frag = true ↔ ∃ field : CronField, field.Written frag ∧ field.Admits i := by
  rw [croncmp]
  split_ifs with star slash
  · exact iff_of_true rfl ⟨.any, star, trivial⟩
  · obtain ⟨rest, rfl⟩ : ∃ rest, frag = '*' :: '/' :: rest :=
      ⟨frag.drop 2, by rw [← List.take_append_drop 2 frag, slash]; rfl⟩
    have raw : ¬safe_cast ('*' :: '/' :: rest) = some i := by
      rw [safe_cast_star List.mem_cons_self]
      exact nofun
    have shape : (∃ field : CronField, field.Written ('*' :: '/' :: rest) ∧ field.Admits i) ↔
        ∃ num, safe_cast rest = some num ∧ num ≠ 0 ∧ num ∣ i := by
      constructor
      · rintro ⟨field | num | value, written, admits⟩
        · exact absurd written star
        · obtain ⟨other, same, read⟩ := written
          cases same
          exact ⟨num, safe_cast_eq_some.mpr read, admits⟩
        · exact nomatch (int_star List.mem_cons_self).symm.trans written
      · rintro ⟨num, read, admits⟩
        exact ⟨.every num, ⟨rest, rfl, safe_cast_eq_some.mp read⟩, admits⟩
    rw [shape, decide_eq_false raw]
    simp only [List.drop_succ_cons, List.drop_zero]
    cases found : safe_cast rest with
    | none => simp
    | some num =>
        dsimp only
        split_ifs with zero multiple
        · simp [zero]
        · simp [zero, Int.dvd_iff_fmod_eq_zero.mpr multiple]
        · have apart : ¬num ∣ i := fun divides => multiple (Int.dvd_iff_fmod_eq_zero.mp divides)
          simp [apart]
  · rw [decide_eq_true_eq, safe_cast_eq_some]
    constructor
    · exact fun read => ⟨.exactly i, read, rfl⟩
    · rintro ⟨field | num | value, written, admits⟩
      · exact absurd written star
      · obtain ⟨rest, rfl, _⟩ := written
        exact absurd rfl slash
      · obtain rfl : i = value := admits
        exact written

/-- A string is positive at a time if and only if it is a schedule that admits it. -/
theorem crontest_iff (d : Date) (s : List Char) :
    crontest d s = true ↔ ∃ cron : Cron, cron.Written s ∧ cron.Admits d := by
  rw [crontest]
  split
  · rename_i minute hour day month weekday pieces
    simp only [Bool.and_eq_true, croncmp_iff]
    constructor
    · rintro ⟨⟨⟨⟨⟨m, wm, am⟩, ⟨h, wh, ah⟩⟩, ⟨dd, wd, ad⟩⟩, ⟨mo, wmo, amo⟩⟩, ⟨w, ww, aw⟩⟩
      exact ⟨⟨m, h, dd, mo, w⟩, ⟨minute, hour, day, month, weekday, pieces, wm, wh, wd, wmo, ww⟩,
        ⟨am, ah, ad, amo, aw⟩⟩
    · rintro ⟨cron, ⟨_, _, _, _, _, same, wm, wh, wd, wmo, ww⟩, ⟨am, ah, ad, amo, aw⟩⟩
      rw [pieces] at same
      cases same
      exact ⟨⟨⟨⟨⟨_, wm, am⟩, ⟨_, wh, ah⟩⟩, ⟨_, wd, ad⟩⟩, ⟨_, wmo, amo⟩⟩, ⟨_, ww, aw⟩⟩
  · rename_i other
    refine iff_of_false Bool.false_ne_true ?_
    rintro ⟨cron, ⟨_, _, _, _, _, same, _⟩, _⟩
    exact other _ _ _ _ _ same

theorem CronField.written_print (field : CronField) : field.Written field.print := by
  cases field with
  | any => rfl
  | every num => exact ⟨decimal num, rfl, int_decimal num⟩
  | exactly value => exact int_decimal value

theorem CronField.blank_not_mem (field : CronField) : ' ' ∉ field.print := by
  have number (n : Int) : ' ' ∉ decimal n := fun member =>
    absurd (solid_decimal n _ member) (by decide)
  cases field with
  | any => decide
  | every num => simp [print, number num]
  | exactly value => exact number value

theorem Cron.written_print (cron : Cron) : cron.Written cron.print := by
  have apart : ∀ piece ∈ [cron.minute.print, cron.hour.print, cron.day.print,
      cron.month.print, cron.weekday.print], ' ' ∉ piece := by
    simp only [List.forall_mem_cons, CronField.blank_not_mem, not_false_iff, true_and,
      List.not_mem_nil, false_imp_iff, implies_true]
  exact ⟨_, _, _, _, _, List.splitOn_intercalate ' ' apart (List.cons_ne_nil _ _),
    cron.minute.written_print, cron.hour.written_print, cron.day.written_print,
    cron.month.written_print, cron.weekday.written_print⟩

theorem Cron.Written.unique {s : List Char} {cron other : Cron} (written : cron.Written s)
    (also : other.Written s) : cron = other := by
  obtain ⟨_, _, _, _, _, pieces, wm, wh, wd, wmo, ww⟩ := written
  obtain ⟨_, _, _, _, _, same, wm', wh', wd', wmo', ww'⟩ := also
  rw [pieces] at same
  cases same
  have minute := wm.unique wm'
  have hour := wh.unique wh'
  have day := wd.unique wd'
  have month := wmo.unique wmo'
  have weekday := ww.unique ww'
  cases cron
  cases other
  simp_all only

end Fields

/-! ## The frame that is due -/

section Due

/-- The frame at a place is scheduled for the time at which its string is tested. -/
def Due (crons : List (List Char)) (dates : List Date) (k : Nat) : Prop :=
  ∃ s ∈ crons[k]?, ∃ d ∈ dates[k]?, ∃ cron : Cron, cron.Written s ∧ cron.Admits d

theorem due_zero {s : List Char} {crons : List (List Char)} {d : Date} {dates : List Date} :
    Due (s :: crons) (d :: dates) 0 ↔ crontest d s = true := by
  rw [crontest_iff]
  simp [Due]

theorem due_succ {s : List Char} {crons : List (List Char)} {d : Date} {dates : List Date}
    {k : Nat} : Due (s :: crons) (d :: dates) (k + 1) ↔ Due crons dates k := by
  simp [Due]

theorem find_cronjob_eq_some {crons : List (List Char)} {dates : List Date} {k : Nat} :
    find_cronjob crons dates = some k ↔
      Due crons dates k ∧ ∀ j, j < k → ¬Due crons dates j := by
  induction crons generalizing dates k with
  | nil => simp [find_cronjob, Due]
  | cons s crons ih =>
      cases dates with
      | nil => simp [find_cronjob, Due]
      | cons d dates =>
          rw [find_cronjob]
          split_ifs with first
          · cases k with
            | zero => simp [due_zero, first]
            | succ k =>
                refine iff_of_false nofun ?_
                rintro ⟨_, earliest⟩
                exact earliest 0 (Nat.succ_pos k) (due_zero.mpr first)
          · cases k with
            | zero => simp [due_zero, first]
            | succ k =>
                rw [Option.map_eq_some_iff]
                constructor
                · rintro ⟨j, found, same⟩
                  obtain rfl : j = k := Nat.succ.inj same
                  obtain ⟨due, earliest⟩ := ih.mp found
                  refine ⟨due_succ.mpr due, fun i below => ?_⟩
                  cases i with
                  | zero => exact fun now => first (due_zero.mp now)
                  | succ i =>
                      have later := earliest i (Nat.lt_of_succ_lt_succ below)
                      exact fun now => later (due_succ.mp now)
                · rintro ⟨due, earliest⟩
                  refine ⟨k, ih.mpr ⟨due_succ.mp due, fun i below now => ?_⟩, rfl⟩
                  exact earliest (i + 1) (Nat.succ_lt_succ below) (due_succ.mpr now)

/-- What the strings mean: a printed schedule is obeyed, no string has two meanings,
and the first frame that is due is found, if there is one. -/
structure Obeyed (crons : List (List Char)) (dates : List Date) : Prop where
  printed : ∀ (cron : Cron) (d : Date), crontest d cron.print = true ↔ cron.Admits d
  unique : ∀ (s : List Char) (cron other : Cron), cron.Written s → other.Written s → cron = other
  found : ∀ k, find_cronjob crons dates = some k ↔
    Due crons dates k ∧ ∀ j, j < k → ¬Due crons dates j
  missed : find_cronjob crons dates = none ↔ ∀ k, ¬Due crons dates k

theorem find_cronjob_obeyed (crons : List (List Char)) (dates : List Date) :
    Obeyed crons dates where
  printed cron d := by
    rw [crontest_iff]
    constructor
    · rintro ⟨other, written, admits⟩
      rwa [cron.written_print.unique written]
    · exact fun admits => ⟨cron, cron.written_print, admits⟩
  unique _ _ _ written also := written.unique also
  found _ := find_cronjob_eq_some
  missed := by
    rw [Option.eq_none_iff_forall_ne_some]
    constructor
    · intro missed k
      induction k using Nat.strong_induction_on with
      | _ k earlier => exact fun due => missed k (find_cronjob_eq_some.mpr ⟨due, earlier⟩)
    · exact fun never k found => never k (find_cronjob_eq_some.mp found).1

end Due

/-! ## The interval that is running -/

section Running

variable {K : Type*} [Field K] [LinearOrder K] [FloorRing K] {conf : Timing} {time : K}

/-- The interval with a number, as time goes by. -/
def Within (conf : Timing) (k : Int) (time : K) : Prop :=
  ((conf.interval * k : Int) : K) ≤ time ∧ time < ((conf.interval * (k + 1) : Int) : K)

/-- What a reading of the clock decides. -/
structure Paced (conf : Timing) (time : K) (k : Int) : Prop where
  within : Within conf k time
  slot : slot conf time = k
  left : time + delta conf time = ((conf.interval * (k + 1) : Int) : K)
  samples : nbytes conf time = COMPLEX64 * ⌊(conf.rate : K) * delta conf time⌋
  /-- Reading at the sample rate ends less than one sample before the interval does. -/
  lasts : ((nbytes conf time : Int) : K) ≤ (COMPLEX64 : K) * conf.rate * delta conf time ∧
    (COMPLEX64 : K) * conf.rate * delta conf time < (nbytes conf time : Int) + (COMPLEX64 : K)
  /-- A clock in the same interval picks the same frame, another interval hashes
  another text. -/
  same : ∀ (sha256 : List Char → Nat) (nonce : List Char) (frames : Nat) (other : K),
    Within conf k other → pick conf sha256 nonce frames other = pick conf sha256 nonce frames time
  apart : ∀ (nonce : List Char) (other : K) (l : Int), 0 ≤ other → Within conf l other → l ≠ k →
    nonce ++ decimal (Schedule.slot conf other) ≠ nonce ++ decimal (Schedule.slot conf time)
  inside : ∀ (sha256 : List Char → Nat) (nonce : List Char) (frames : Nat), 0 < frames →
    pick conf sha256 nonce frames time < frames

variable [IsStrictOrderedRing K]

/-- Every time lies in one interval. -/
theorem within_iff (positive : 0 < conf.interval) {k : Int} :
    Within conf k time ↔ ⌊time / (conf.interval : K)⌋ = k := by
  have above : (0 : K) < conf.interval := Int.cast_pos.mpr positive
  rw [Int.floor_eq_iff, le_div_iff₀ above, div_lt_iff₀ above, Within]
  push_cast
  rw [mul_comm (k : K), mul_comm ((k : K) + 1)]

theorem within_floor {k : Int} :
    Within conf k time ↔ Within conf k ((⌊time⌋ : Int) : K) := by
  rw [Within, Within, ← Int.le_floor, ← Int.floor_lt, Int.cast_le, Int.cast_lt]

theorem slot_eq (positive : 0 < conf.interval) (nonneg : 0 ≤ time) {k : Int}
    (within : Within conf k time) : slot conf time = k := by
  have above : (0 : K) < conf.interval := Int.cast_pos.mpr positive
  have whole : (0 : K) ≤ (⌊time⌋ : Int) := Int.cast_nonneg (Int.floor_nonneg.mpr nonneg)
  rw [slot, truncate_of_nonneg (div_nonneg whole above.le)]
  exact (within_iff positive).mp (within_floor.mp within)

theorem time_add_delta (positive : 0 < conf.interval) {k : Int} (within : Within conf k time) :
    time + delta conf time = ((conf.interval * (k + 1) : Int) : K) := by
  rw [delta, (within_iff positive).mp within]
  push_cast
  ring

theorem delta_pos (positive : 0 < conf.interval) : 0 < delta conf time := by
  have within : Within conf ⌊time / (conf.interval : K)⌋ time := (within_iff positive).mpr rfl
  have stop := time_add_delta positive within
  have below := within.2
  linarith

/-- The bytes of a scan are those of the whole samples that are left. -/
theorem nbytes_eq (positive : 0 < conf.interval) (rated : 0 ≤ conf.rate) :
    nbytes conf time = COMPLEX64 * ⌊(conf.rate : K) * delta conf time⌋ := by
  have rate : (0 : K) ≤ conf.rate := Int.cast_nonneg rated
  have bytes : (0 : K) ≤ (conf.rate : K) * (COMPLEX64 : K) * delta conf time :=
    mul_nonneg (mul_nonneg rate (Nat.cast_nonneg _)) (delta_pos positive).le
  have eight : (0 : K) < (COMPLEX64 : K) := Nat.cast_pos.mpr (by decide)
  have quotient : ⌊(conf.rate : K) * (COMPLEX64 : K) * delta conf time⌋ / (COMPLEX64 : Int) =
      ⌊(conf.rate : K) * delta conf time⌋ := by
    rw [← Int.floor_div_natCast]
    congr 1
    field_simp
  rw [nbytes, truncate_of_nonneg bytes, ← quotient]
  have split := Int.emod_add_mul_ediv ⌊(conf.rate : K) * (COMPLEX64 : K) * delta conf time⌋
    (COMPLEX64 : Int)
  omega

theorem paced (conf : Timing) (positive : 0 < conf.interval) (rated : 0 ≤ conf.rate) (time : K)
    (nonneg : 0 ≤ time) : ∃ k, Paced conf time k := by
  have within : Within conf ⌊time / (conf.interval : K)⌋ time := (within_iff positive).mpr rfl
  have slotted := slot_eq positive nonneg within
  have bytes : nbytes conf time = COMPLEX64 * ⌊(conf.rate : K) * delta conf time⌋ :=
    nbytes_eq positive rated
  refine ⟨_, within, slotted, time_add_delta positive within, bytes, ?_, ?_, ?_, ?_⟩
  · have eight : (0 : K) < (COMPLEX64 : K) := Nat.cast_pos.mpr (by decide)
    have low := Int.floor_le ((conf.rate : K) * delta conf time)
    have high := Int.lt_floor_add_one ((conf.rate : K) * delta conf time)
    have lower := mul_le_mul_of_nonneg_left low eight.le
    have upper := mul_lt_mul_of_pos_left high eight
    rw [bytes]
    push_cast
    constructor <;> linarith
  · intro sha256 nonce frames other near
    have start : (0 : Int) ≤ ⌊time / (conf.interval : K)⌋ :=
      Int.floor_nonneg.mpr (div_nonneg nonneg (Int.cast_nonneg positive.le))
    have nonneg' : 0 ≤ other :=
      (Int.cast_nonneg (Int.mul_nonneg positive.le start)).trans near.1
    rw [pick, pick, slotted, slot_eq positive nonneg' near]
  · intro nonce other l nonneg' near different same
    rw [slotted, slot_eq positive nonneg' near] at same
    exact different (decimal_injective (List.append_cancel_left same))
  · exact fun sha256 nonce frames some => Nat.mod_lt _ some

theorem paced_main : ∃ k, Paced ⟨5, 3, 2048000⟩ (12 : Rat) k :=
  paced ⟨5, 3, 2048000⟩ (by decide) (by decide) 12 (by norm_num)

end Running

end Kukuruku.Scanner.Schedule
