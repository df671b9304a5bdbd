import Kukuruku.Scanner.FileNames

/-!
# Sorting recordings

`sorter.py` asks for every recording what is to become of it.  Bands that are to be
ignored are appended to `blacklist.conf`, which the scanner reads when it starts.
-/

namespace Kukuruku.Scanner.Sorter

open Kukuruku.Decimal
open Kukuruku.Scanner.FileNames
open Kukuruku.Scanner.IntervalList
open Kukuruku.Scanner.Schedule

/-! ## Data -/

/-- What `raw_input` returns, a line without its end. -/
structure Answer where
  text : List Char
  line : '\n' ∉ text

/-- What the sorter reads of an entry of the file of modes. -/
structure Mode where
  program : List Char
  rate : Int
  resample : Bool

/-- `os.remove` and `os.rename`; `none` where they raise. -/
structure Files (F : Type) where
  remove : List Char → F → Option F
  rename : List Char → List Char → F → Option F

/-- The recordings, `blacklist.conf`, the answers that have settled a file and the
demodulators that have been run, with the ratio for a resampler. -/
structure Desk (F : Type) where
  files : F
  blacklist : List Char
  settled : List (List Char × Answer)
  played : List (List Char × Mode × Option ℚ)

inductive Stop where
  | exit
  | raised (failure : Failure)
deriving DecidableEq

/-! ## The questions -/

def archdir : List Char := "archive".toList

/-- What an answer asks for. -/
inductive Reply where
  | play (mode : Mode) (ratio : Option ℚ)
  | quit
  | settle
  | unknown

def reply (modes : List Mode) (rate : ℚ) (c : List Char) : Except Failure Reply :=
  if c ≠ [] ∧ c.all Char.isDigit then
    match modes[value c]? with
    | none => .error .indexError
    | some mode =>
        if mode.rate = 0 then .error .zeroDivisionError
        -- the text of the complaint names variables that are not there
        else if rate ≠ mode.rate ∧ mode.resample = false then .error .nameError
        else .ok (.play mode (if rate ≠ mode.rate then some (rate / mode.rate) else none))
  else
    match c with
    | [] => .error .indexError
    | first :: rest =>
        if first = 'q' then .ok .quit
        else if rest ≠ [] then .ok .settle
        else .ok .unknown

/-- The tag for the second character of an answer. -/
def tagFor (text : List Char) : Option (List Char) :=
  match text[1]? with
  | some 's' => some ['i']
  | some 'h' => some ['h']
  | _ => none

/-- `"%s %i %i %s\n"`. -/
def entry (tag : List Char) (freq rate : Int) (comment : List Char) : List Char :=
  tag ++ ' ' :: (decimal freq ++ ' ' :: (decimal rate ++ ' ' :: (comment ++ ['\n'])))

variable {F : Type} (os : Files F) (modes : List Mode)

/-- Delete a file, archive it or leave it where it is. -/
def filed (filename text : List Char) (files : F) : Option F :=
  if text[0]? = some 'd' then os.remove filename files
  else if text[0]? = some 'a' then os.rename filename (archdir ++ '/' :: filename) files
  else some files

/-- What is appended to the blacklist. -/
def noted (freq : Int) (rate : ℚ) (c : List Char) : List Char :=
  match tagFor c with
  | some tag => entry tag freq (truncate rate) (c.drop 3)
  | none => []

def settle (filename : List Char) (freq : Int) (rate : ℚ) (c : Answer) (desk : Desk F) :
    Option (Desk F) :=
  (filed os filename c.text desk.files).map fun files =>
    { desk with
      files := files
      blacklist := desk.blacklist ++ noted freq rate c.text
      settled := desk.settled ++ [(filename, c)] }

/-- The menu of one recording. -/
def menu (filename : List Char) (freq : Int) (rate : ℚ) :
    List Answer → Desk F → Option Stop × List Answer × Desk F
  | [], desk => (some (.raised .eofError), [], desk)
  | c :: answers, desk =>
      match reply modes rate c.text with
      | .error failure => (some (.raised failure), answers, desk)
      | .ok (.play mode ratio) =>
          menu filename freq rate answers
            { desk with played := desk.played ++ [(filename, mode, ratio)] }
      | .ok .quit => (some .exit, answers, desk)
      | .ok .settle =>
          match settle os filename freq rate c desk with
          | none => (some (.raised .osError), answers, desk)
          | some desk => (none, answers, desk)
      | .ok .unknown => menu filename freq rate answers desk

/-- The loop over the file names. -/
def sorter : List (List Char) → List Answer → Desk F → Option Stop × Desk F
  | [], _, desk => (none, desk)
  | filename :: filenames, answers, desk =>
      match recording filename with
      | .error failure => (some (.raised failure), desk)
      | .ok none => sorter filenames answers desk
      | .ok (some (freq, rate)) =>
          match menu os modes filename freq rate answers desk with
          | (some stop, _, desk) => (some stop, desk)
          | (none, answers, desk) => sorter filenames answers desk

/-- A run of the sorter, on the files that there are by then. -/
structure Session (F : Type) where
  meanwhile : F → F
  filenames : List (List Char)
  answers : List Answer

def Session.run (session : Session F) (desk : Desk F) : Option Stop × Desk F :=
  sorter os modes session.filenames session.answers
    { desk with files := session.meanwhile desk.files }

/-- The desk after a history of sessions. -/
def replay (history : List (Session F)) (desk : Desk F) : Desk F :=
  history.foldl (fun desk session => (session.run os modes desk).2) desk

/-! ## What a session asks for -/

/-- The frequency and the width that a settled file is entered with under a tag. -/
def asked (tag : List Char) (settled : List Char × Answer) : Option (Int × Int) :=
  match recording settled.1 with
  | .ok (some (freq, rate)) =>
      if tagFor settled.2.text = some tag then some (freq, truncate rate) else none
  | _ => none

/-- All lines of a file are ended. -/
def Ended (content : List Char) : Prop := content = [] ∨ content.getLast? = some '\n'

/-- A file after entries under a tag have been added to it. -/
structure Entered (tag before after : List Char) (entries : List (Int × Int)) : Prop where
  lines : tagged tag after =
    tagged tag before ++ entries.map fun line => (decimal line.1, decimal line.2)
  readable : ∀ lines, IntervalList.Lists tag (some before) lines →
    IntervalList.Lists tag (some after) (lines ++ entries)
  requested : requested tag (some after) = requested tag (some before) ∪
    {x | ∃ line ∈ entries, (line.1 - line.2 / 2 : ℚ) ≤ x ∧ x ≤ line.1 + line.2 / 2}

/-! ## Lines -/

section Lines

variable {a b s tag : List Char}

theorem readlines_ne_nil (nonempty : s ≠ []) : readlines s ≠ [] := by
  cases s with
  | nil => exact absurd rfl nonempty
  | cons c s =>
      rw [readlines]
      split_ifs
      · exact List.cons_ne_nil _ _
      · cases readlines s <;> exact List.cons_ne_nil _ _

theorem Ended.tail {c : Char} (ended : Ended (c :: s)) (inner : c ≠ '\n') :
    s ≠ [] ∧ Ended s := by
  rcases ended with nothing | last
  · cases nothing
  · cases s with
    | nil => exact absurd (Option.some.inj last) inner
    | cons d s => exact ⟨List.cons_ne_nil d s, .inr ((List.getLast?_cons_cons).symm.trans last)⟩

/-- What follows an ended line starts a new one. -/
theorem readlines_append (ended : Ended a) (b : List Char) :
    readlines (a ++ b) = readlines a ++ readlines b := by
  induction a with
  | nil => rfl
  | cons c a ih =>
      rw [List.cons_append, readlines, readlines]
      split_ifs with newline
      · have rest : Ended a := by
          rcases ended with nothing | last
          · cases nothing
          · cases a with
            | nil => exact .inl rfl
            | cons d a => exact .inr ((List.getLast?_cons_cons).symm.trans last)
        rw [ih rest, List.cons_append]
      · obtain ⟨nonempty, rest⟩ := ended.tail newline
        rw [ih rest]
        cases lines : readlines a with
        | nil => exact absurd lines (readlines_ne_nil nonempty)
        | cons line lines => rfl

theorem readlines_line (plain : '\n' ∉ s) : readlines (s ++ ['\n']) = [s ++ ['\n']] := by
  induction s with
  | nil => rfl
  | cons c s ih =>
      have inner : c ≠ '\n' := fun same => plain (same ▸ List.mem_cons_self)
      rw [List.cons_append, readlines, if_neg inner,
        ih fun member => plain (List.mem_cons_of_mem c member)]

theorem tagged_append (ended : Ended a) (b : List Char) :
    tagged tag (a ++ b) = tagged tag a ++ tagged tag b := by
  rw [tagged, readlines_append ended, List.filterMap_append, tagged, tagged]

/-- Stripping takes nothing from a text whose ends are no blanks, and leaves of what
follows a piece of its beginning. -/
theorem strip_append {c d : Char} (first : isspace c = false) (last : isspace d = false)
    (rest : List Char) : ∃ kept, kept.IsPrefix rest ∧
      strip (c :: (s ++ d :: rest)) = c :: (s ++ d :: kept) := by
  refine ⟨(rest.reverse.dropWhile isspace).reverse, ?_, ?_⟩
  · rw [← List.reverse_suffix, List.reverse_reverse]
    exact List.dropWhile_suffix isspace
  · have whole : (c :: (s ++ d :: rest)).reverse = rest.reverse ++ d :: (c :: s).reverse := by simp
    have front : (c :: (s ++ d :: rest)).dropWhile isspace = c :: (s ++ d :: rest) := by
      rw [List.dropWhile_cons, first, if_neg Bool.false_ne_true]
    have back : (d :: (c :: s).reverse).dropWhile isspace = d :: (c :: s).reverse := by
      rw [List.dropWhile_cons, last, if_neg Bool.false_ne_true]
    rw [strip, front, whole, List.dropWhile_append]
    split_ifs with blank
    · rw [back, List.isEmpty_iff.mp blank]
      simp
    · simp

/-- A line of the file is read as its tag and two numbers, whatever the comment. -/
theorem fields_entry {name : Char} (solid : isspace name = false) (freq rate : Int)
    (comment : List Char) : fields tag (entry [name] freq rate comment) =
      if [name] = tag then some (decimal freq, decimal rate) else none := by
  obtain ⟨digits, d, shape⟩ : ∃ digits d, decimal rate = digits ++ [d] :=
    ⟨_, _, (List.dropLast_append_getLast (decimal_ne_nil rate)).symm⟩
  have last : isspace d = false :=
    solid_decimal rate d (shape ▸ List.mem_append_right _ List.mem_cons_self)
  obtain ⟨kept, ⟨lost, parts⟩, stripped⟩ :=
    strip_append (s := ' ' :: (decimal freq ++ ' ' :: digits)) solid last
      (' ' :: (comment ++ ['\n']))
  have blank (n : Int) : ' ' ∉ decimal n := fun member =>
    absurd (solid_decimal n _ member) (by decide)
  have named : ' ' ∉ [name] := by
    rw [List.mem_singleton]
    rintro rfl
    exact absurd solid (by decide)
  have line : entry [name] freq rate comment =
      name :: ((' ' :: (decimal freq ++ ' ' :: digits)) ++ d :: ' ' :: (comment ++ ['\n'])) := by
    simp [entry, shape]
  have pieces : ∃ more, (strip (entry [name] freq rate comment)).splitOn ' ' =
      [name] :: decimal freq :: decimal rate :: more := by
    have text : name :: ((' ' :: (decimal freq ++ ' ' :: digits)) ++ d :: kept) =
        [name] ++ ' ' :: (decimal freq ++ ' ' :: (decimal rate ++ kept)) := by
      simp [shape]
    rw [line, stripped, text, List.splitOn_append_cons_self_of_not_mem named,
      List.splitOn_append_cons_self_of_not_mem (blank freq)]
    cases kept with
    | nil => exact ⟨[], by rw [List.append_nil, List.splitOn_eq_singleton (blank rate)]⟩
    | cons e kept =>
        obtain ⟨rfl, _⟩ := List.cons.inj parts
        exact ⟨_, by rw [List.splitOn_append_cons_self_of_not_mem (blank rate)]⟩
  obtain ⟨more, split⟩ := pieces
  rw [fields, split]

end Lines

/-! ## Entries -/

section Entries

variable {before middle after tag : List Char} {entries later : List (Int × Int)}

theorem numbers_decimal (line : Int × Int) :
    numbers (decimal line.1, decimal line.2) = .ok line := by
  rw [numbers, int_decimal, int_decimal]
  rfl

theorem mapM_numbers (entries : List (Int × Int)) :
    (entries.map fun line => (decimal line.1, decimal line.2)).mapM numbers = .ok entries := by
  induction entries with
  | nil => rfl
  | cons line entries ih =>
      rw [List.map_cons, List.mapM_cons, numbers_decimal, ih]
      rfl

/-- Numbers that are written to the file can be read, and stand for their band. -/
theorem entered_of_lines (lines : tagged tag after =
    tagged tag before ++ entries.map fun line => (decimal line.1, decimal line.2)) :
    Entered tag before after entries where
  lines := lines
  readable := fun read lists => by
    have all : (tagged tag before).mapM numbers = .ok read := lists
    rw [IntervalList.Lists, Option.getD_some, lines, List.mapM_append, all, mapM_numbers]
    rfl
  requested := by
    ext x
    simp only [requested, Option.getD_some, lines, Set.mem_union, Set.mem_ofPred_eq,
      List.mem_append, or_and_right, exists_or]
    refine or_congr_right ⟨?_, ?_⟩
    · rintro ⟨text, member, freq, bw, read, inside⟩
      obtain ⟨line, entered, rfl⟩ := List.mem_map.mp member
      cases (numbers_decimal line).symm.trans read
      exact ⟨_, entered, inside⟩
    · rintro ⟨line, entered, inside⟩
      exact ⟨_, List.mem_map_of_mem entered, line.1, line.2, numbers_decimal line, inside⟩

theorem Entered.refl (tag content : List Char) : Entered tag content content [] :=
  entered_of_lines (List.append_nil _).symm

theorem Entered.trans (first : Entered tag before middle entries)
    (second : Entered tag middle after later) : Entered tag before after (entries ++ later) := by
  refine entered_of_lines ?_
  rw [second.lines, first.lines, List.map_append, List.append_assoc]

end Entries

/-! ## One answer -/

/-- What the sorter has done to the desk once the files `new` are settled. -/
structure Sorted (desk desk' : Desk F) (new : List (List Char × Answer)) : Prop where
  settled : desk'.settled = desk.settled ++ new
  ended : Ended desk'.blacklist
  entered : ∀ tag, Entered tag desk.blacklist desk'.blacklist (new.filterMap (asked tag))

section Desks

variable {desk middle desk' : Desk F} {new later : List (List Char × Answer)}

theorem Sorted.refl (ended : Ended desk.blacklist) (settled : desk'.settled = desk.settled)
    (kept : desk'.blacklist = desk.blacklist) : Sorted desk desk' [] where
  settled := settled.trans (List.append_nil _).symm
  ended := kept ▸ ended
  entered := fun tag => kept ▸ Entered.refl tag desk.blacklist

theorem Sorted.trans (first : Sorted desk middle new) (second : Sorted middle desk' later) :
    Sorted desk desk' (new ++ later) where
  settled := by rw [second.settled, first.settled, List.append_assoc]
  ended := second.ended
  entered := fun tag => by
    rw [List.filterMap_append]
    exact (first.entered tag).trans (second.entered tag)

theorem Ended.append {a b : List Char} (ended : Ended b) (nonempty : b ≠ []) :
    Ended (a ++ b) := by
  rcases ended with nothing | last
  · exact absurd nothing nonempty
  · exact .inr (by rw [List.getLast?_append, last, Option.some_or])

theorem ended_entry (name : List Char) (freq rate : Int) (comment : List Char) :
    Ended (entry name freq rate comment) :=
  .inr (by simp [entry, List.getLast?_append, List.getLast?_cons])

theorem tagged_entry {name : Char} (solid : isspace name = false) (freq rate : Int)
    {comment : List Char} (plain : '\n' ∉ comment) (tag : List Char) :
    tagged tag (entry [name] freq rate comment) =
      if [name] = tag then [(decimal freq, decimal rate)] else [] := by
  have number (n : Int) : '\n' ∉ decimal n := fun member =>
    absurd (solid_decimal n _ member) (by decide)
  have first : '\n' ≠ name := by
    rintro rfl
    exact absurd solid (by decide)
  have line : entry [name] freq rate comment =
      (name :: ' ' :: (decimal freq ++ ' ' :: (decimal rate ++ ' ' :: comment))) ++ ['\n'] := by
    simp [entry]
  have single : readlines (entry [name] freq rate comment) = [entry [name] freq rate comment] := by
    rw [line]
    exact readlines_line (by simp [first, number, plain])
  rw [tagged, single, List.filterMap_cons, fields_entry solid]
  split_ifs <;> rfl

theorem tagFor_shape {c name : List Char} (found : tagFor c = some name) :
    ∃ letter, isspace letter = false ∧ name = [letter] := by
  rw [tagFor] at found
  split at found
  · exact ⟨'i', rfl, (Option.some.inj found).symm⟩
  · exact ⟨'h', rfl, (Option.some.inj found).symm⟩
  · cases found

/-- One file, settled by one answer. -/
theorem sorted_settle {os : Files F} {filename : List Char} {freq : Int} {rate : ℚ} {c : Answer}
    (named : recording filename = .ok (some (freq, rate))) (ended : Ended desk.blacklist)
    (done : settle os filename freq rate c desk = some desk') :
    Sorted desk desk' [(filename, c)] := by
  obtain ⟨files, _, rfl⟩ := Option.map_eq_some_iff.mp done
  cases found : tagFor c.text with
  | none =>
      have nothing (tag : List Char) : [(filename, c)].filterMap (asked tag) = [] := by
        simp [asked, named, found]
      have kept : desk.blacklist ++ noted freq rate c.text = desk.blacklist := by
        rw [noted, found, List.append_nil]
      refine ⟨rfl, kept.symm ▸ ended, fun tag => ?_⟩
      rw [nothing, kept]
      exact Entered.refl tag desk.blacklist
  | some name =>
      obtain ⟨letter, solid, rfl⟩ := tagFor_shape found
      have plain : '\n' ∉ c.text.drop 3 := fun member => c.line (List.mem_of_mem_drop member)
      have line : noted freq rate c.text = entry [letter] freq (truncate rate) (c.text.drop 3) := by
        rw [noted, found]
      refine ⟨rfl, ?_, fun tag => entered_of_lines ?_⟩
      · rw [line]
        exact (ended_entry _ _ _ _).append (List.cons_ne_nil _ _)
      rw [line, tagged_append ended, tagged_entry solid _ _ plain]
      split_ifs with same
      · simp [asked, named, found, same]
      · simp [asked, named, found, same]

/-! ## Menus and sessions -/

variable {os : Files F} {modes : List Mode}

theorem sorted_menu {filename : List Char} {freq : Int} {rate : ℚ} {answers rest : List Answer}
    {stop : Option Stop} (named : recording filename = .ok (some (freq, rate)))
    (ended : Ended desk.blacklist)
    (ran : menu os modes filename freq rate answers desk = (stop, rest, desk')) :
    ∃ new, Sorted desk desk' new ∧ (new.map Prod.snd ++ rest).Sublist answers ∧
      new.map Prod.fst = if stop = none then [filename] else [] := by
  induction answers generalizing desk with
  | nil =>
      obtain ⟨rfl, rfl, rfl⟩ : _ ∧ _ ∧ _ := by simpa [menu] using ran
      exact ⟨[], .refl ended rfl rfl, List.Sublist.refl _, rfl⟩
  | cons c answers ih =>
      have later {desk : Desk F}
          (ran : menu os modes filename freq rate answers desk = (stop, rest, desk'))
          (ended : Ended desk.blacklist) :
          ∃ new, Sorted desk desk' new ∧ (new.map Prod.snd ++ rest).Sublist (c :: answers) ∧
            new.map Prod.fst = if stop = none then [filename] else [] := by
        obtain ⟨new, sorted, typed, names⟩ := ih ended ran
        exact ⟨new, sorted, typed.trans (List.sublist_cons_self c answers), names⟩
      rw [menu] at ran
      split at ran
      · obtain ⟨rfl, rfl, rfl⟩ : _ ∧ _ ∧ _ := by simpa using ran
        exact ⟨[], .refl ended rfl rfl, List.sublist_cons_self c _, rfl⟩
      · obtain ⟨new, sorted, typed, names⟩ := later ran ended
        exact ⟨new, ⟨sorted.settled, sorted.ended, sorted.entered⟩, typed, names⟩
      · obtain ⟨rfl, rfl, rfl⟩ : _ ∧ _ ∧ _ := by simpa using ran
        exact ⟨[], .refl ended rfl rfl, List.sublist_cons_self c _, rfl⟩
      · split at ran
        · obtain ⟨rfl, rfl, rfl⟩ : _ ∧ _ ∧ _ := by simpa using ran
          exact ⟨[], .refl ended rfl rfl, List.sublist_cons_self c _, rfl⟩
        · rename_i done
          obtain ⟨rfl, rfl, rfl⟩ : _ ∧ _ ∧ _ := by simpa using ran
          exact ⟨[(filename, c)], sorted_settle named ended done, List.Sublist.refl _, rfl⟩
      · exact later ran ended

/-- One session, over any files and any answers, however it ends. -/
theorem sorted_sorter {filenames : List (List Char)} {answers : List Answer}
    {stop : Option Stop} (ended : Ended desk.blacklist)
    (ran : sorter os modes filenames answers desk = (stop, desk')) :
    ∃ new, Sorted desk desk' new ∧ (new.map Prod.fst).Sublist filenames ∧
      (new.map Prod.snd).Sublist answers ∧
      (stop = none → new.map Prod.fst =
        filenames.filter fun filename => recording filename ≠ .ok none) := by
  induction filenames generalizing desk answers with
  | nil =>
      obtain ⟨rfl, rfl⟩ := Prod.mk.inj ran
      exact ⟨[], .refl ended rfl rfl, List.Sublist.refl _, List.nil_sublist _, fun _ => rfl⟩
  | cons filename filenames ih =>
      rw [sorter] at ran
      split at ran
      · obtain ⟨rfl, rfl⟩ := Prod.mk.inj ran
        exact ⟨[], .refl ended rfl rfl, List.nil_sublist _, List.nil_sublist _,
          fun none => nomatch none⟩
      · rename_i passed
        obtain ⟨new, sorted, names, typed, finished⟩ := ih ended ran
        refine ⟨new, sorted, names.trans (List.sublist_cons_self _ _), typed, fun none => ?_⟩
        rw [finished none, List.filter_cons, if_neg (by simpa using passed)]
      · rename_i freq rate named
        split at ran
        · rename_i stop' rest middle asked
          obtain ⟨rfl, rfl⟩ := Prod.mk.inj ran
          obtain ⟨new, sorted, typed, names⟩ := sorted_menu named ended asked
          rw [if_neg (Option.some_ne_none _)] at names
          refine ⟨new, sorted, names ▸ List.nil_sublist _, ?_, fun none => nomatch none⟩
          exact (List.sublist_append_left _ _).trans typed
        · rename_i rest middle asked
          obtain ⟨first, begun, typed, name⟩ := sorted_menu named ended asked
          obtain ⟨new, sorted, names, typed', finished⟩ := ih begun.ended ran
          rw [if_pos rfl] at name
          refine ⟨first ++ new, begun.trans sorted, ?_, ?_, fun none => ?_⟩
          · rw [List.map_append, name]
            exact names.cons_cons filename
          · rw [List.map_append]
            exact (typed'.append_left _).trans typed
          · rw [List.map_append, name, finished none, List.filter_cons,
              if_pos (by simp [named])]
            rfl

end Desks

/-! ## Histories -/

/-- What `blacklist.conf` holds after a history of sessions. -/
structure Remembers (os : Files F) (modes : List Mode) (desk : Desk F)
    (history : List (Session F)) : Prop where
  /-- Every line that has come is for a file that was offered and an answer that was
  typed, in their order. -/
  exists_new : ∃ new, Sorted desk (replay os modes history desk) new ∧
    (new.map Prod.fst).Sublist (history.flatMap Session.filenames) ∧
    (new.map Prod.snd).Sublist (history.flatMap Session.answers)
  /-- A session that comes to its end has settled every recording. -/
  finished : ∀ earlier session, history = earlier ++ [session] →
    (session.run os modes (replay os modes earlier desk)).1 = none →
    (replay os modes history desk).settled.map Prod.fst =
      (replay os modes earlier desk).settled.map Prod.fst ++
        session.filenames.filter fun filename => recording filename ≠ .ok none
  /-- A settled recording is listed with the band around its frequency. -/
  listed : ∀ {K : Type} [Field K] [LinearOrder K] [FloorRing K] (archive : Bool) (f : K)
    (ds : Stamp) (rate : K) (c : Answer) (tag : List Char),
    (fullfile archive (getfn f ds (some rate)), c) ∈
      (replay os modes history desk).settled.drop desk.settled.length →
    0 ≤ truncate f → 0 ≤ truncate rate → tagFor c.text = some tag →
    ∀ x : ℚ, |x - truncate f| ≤ truncate rate / 2 →
      x ∈ requested tag (some (replay os modes history desk).blacklist)

section Histories

variable (os : Files F) (modes : List Mode) {desk desk' : Desk F}

theorem sorted_session (session : Session F) (ended : Ended desk.blacklist) :
    ∃ new, Sorted desk (session.run os modes desk).2 new ∧
      (new.map Prod.fst).Sublist session.filenames ∧ (new.map Prod.snd).Sublist session.answers ∧
      ((session.run os modes desk).1 = none → new.map Prod.fst =
        session.filenames.filter fun filename => recording filename ≠ .ok none) := by
  cases ran : session.run os modes desk with
  | mk stop desk' =>
      obtain ⟨new, sorted, rest⟩ := sorted_sorter (by exact ended) ran
      exact ⟨new, ⟨sorted.settled, sorted.ended, sorted.entered⟩, rest⟩

theorem sorted_replay (history : List (Session F)) (ended : Ended desk.blacklist) :
    ∃ new, Sorted desk (replay os modes history desk) new ∧
      (new.map Prod.fst).Sublist (history.flatMap Session.filenames) ∧
      (new.map Prod.snd).Sublist (history.flatMap Session.answers) := by
  induction history generalizing desk with
  | nil => exact ⟨[], .refl ended rfl rfl, List.Sublist.refl _, List.Sublist.refl _⟩
  | cons session history ih =>
      obtain ⟨first, begun, names, typed, _⟩ := sorted_session os modes session ended
      obtain ⟨new, sorted, names', typed'⟩ := ih begun.ended
      refine ⟨first ++ new, begun.trans sorted, ?_, ?_⟩
      · rw [List.map_append, List.flatMap_cons]
        exact names.append names'
      · rw [List.map_append, List.flatMap_cons]
        exact typed.append typed'

theorem listed_of_sorted {new : List (List Char × Answer)} (sorted : Sorted desk desk' new)
    {K : Type} [Field K] [LinearOrder K] [FloorRing K] (archive : Bool) {f rate : K}
    {ds : Stamp} {c : Answer} {tag : List Char}
    (member : (fullfile archive (getfn f ds (some rate)), c) ∈ new)
    (freq : 0 ≤ truncate f) (rated : 0 ≤ truncate rate) (found : tagFor c.text = some tag) {x : ℚ}
    (near : |x - truncate f| ≤ truncate rate / 2) : x ∈ requested tag (some desk'.blacklist) := by
  have entry : (truncate f, truncate rate) ∈ new.filterMap (asked tag) := by
    refine List.mem_filterMap.mpr ⟨_, member, ?_⟩
    rw [asked, recording_of_nonneg archive ds freq rated]
    simp only [found, if_true, truncate_intCast]
  obtain ⟨above, below⟩ := abs_le.mp near
  rw [(sorted.entered tag).requested]
  refine .inr ⟨_, entry, ?_, ?_⟩
  · linarith
  · linarith

/-- Whatever files and answers come in a history of sessions, and however each of them
ends, all lines of the blacklist stay readable and ask for the bands that were to be
ignored and for no others. -/
theorem remembers (desk : Desk F) (history : List (Session F)) (ended : Ended desk.blacklist) :
    Remembers os modes desk history where
  exists_new := sorted_replay os modes history ended
  finished := fun earlier session last done => by
    obtain ⟨old, begun, _⟩ := sorted_replay os modes earlier ended
    obtain ⟨new, sorted, _, _, all⟩ := sorted_session os modes session begun.ended
    have final : replay os modes history desk =
        (session.run os modes (replay os modes earlier desk)).2 := by
      rw [last, replay, List.foldl_concat]
      rfl
    rw [final, sorted.settled, List.map_append, all done]
  listed := fun archive f ds rate c tag member freq rated found x near => by
    obtain ⟨new, sorted, _⟩ := sorted_replay os modes history ended
    rw [sorted.settled, List.drop_left] at member
    exact listed_of_sorted sorted archive member freq rated found near

end Histories

/-- A directory that lists its files. -/
def directory : Files (List (List Char)) where
  remove := fun path files => if path ∈ files then some (files.erase path) else none
  rename := fun path path' files => if path ∈ files then some (path' :: files.erase path) else none

/-- A recording is archived and its band is not to be recorded again. -/
theorem remembers_ignored :
    Remembers directory [] ⟨[], [], [], []⟩
      [⟨fun _ => ["100200300-2014-03-04-05-06-07-12345.cfile".toList],
        ["100200300-2014-03-04-05-06-07-12345.cfile".toList],
        [⟨"ah noise".toList, by decide⟩]⟩] :=
  remembers directory [] _ _ (.inl rfl)

end Kukuruku.Scanner.Sorter
