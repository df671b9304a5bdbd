import Mathlib.Data.List.Basic

/-!
# The C preprocessor

Files are lists of lines; a line is a directive or a piece of text that survives when it
is reached outside of skipped groups.  Macros stand for a number or for another name,
and in a condition a name that is no macro is zero.
-/

namespace Kukuruku.Preprocessor

variable {ν φ τ : Type*}

/-- What a macro stands for. -/
inductive Body (ν : Type*) where
  | empty
  | number (value : Int)
  | name (other : ν)

/-- `#ifndef` and the two comparisons of `#if`. -/
inductive Cond (ν : Type*) where
  | ndef (name : ν)
  | eq (left right : ν)
  | ne (left right : ν)

inductive Line (ν φ τ : Type*) where
  | define (name : ν) (body : Body ν)
  | includes (file : φ)
  | cond (condition : Cond ν)
  | otherwise
  | endif
  | text (piece : τ)

/-- The macros with the latest one first, which of the open groups are kept (the innermost
first), and the text so far. -/
structure State (ν τ : Type*) where
  macros : List (ν × Body ν)
  kept : List Bool
  out : List τ

def State.active (s : State ν τ) : Bool := s.kept.all id

/-- Inside a skipped group every group is skipped. -/
theorem State.active_push {s : State ν τ} (inactive : s.active = false) (keep : Bool) :
    ({ s with kept := keep :: s.kept } : State ν τ).active = false := by
  rw [active] at inactive ⊢
  rw [List.all_cons, inactive, Bool.and_false]

section Conditions

variable [DecidableEq ν]

/-- The value of a name in a condition, through at most `depth` macros. -/
def valueIn (macros : List (ν × Body ν)) : Nat → ν → Int
  | 0, _ => 0
  | depth + 1, name =>
      match macros.lookup name with
      | none => 0
      | some .empty => 0
      | some (.number value) => value
      | some (.name other) => valueIn macros depth other

theorem valueIn_number {macros : List (ν × Body ν)} {name : ν} {number : Int}
    (defined : macros.lookup name = some (.number number)) (depth : Nat) :
    valueIn macros (depth + 1) name = number := by
  rw [valueIn, defined]

theorem valueIn_name {macros : List (ν × Body ν)} {name other : ν}
    (defined : macros.lookup name = some (.name other)) (depth : Nat) :
    valueIn macros (depth + 1) name = valueIn macros depth other := by
  rw [valueIn, defined]

/-- A chain that is longer than there are macros goes in a circle. -/
def value (macros : List (ν × Body ν)) (name : ν) : Int :=
  valueIn macros (macros.length + 1) name

def Cond.holds (macros : List (ν × Body ν)) : Cond ν → Bool
  | .ndef name => (macros.lookup name).isNone
  | .eq left right => value macros left == value macros right
  | .ne left right => value macros left != value macros right

theorem value_undefined {macros : List (ν × Body ν)} {name : ν}
    (undefined : macros.lookup name = none) : value macros name = 0 := by
  rw [value, valueIn, undefined]

/-- Names that are no macros do not differ. -/
theorem not_ne_undefined {macros : List (ν × Body ν)} {left right : ν}
    (first : macros.lookup left = none) (second : macros.lookup right = none) :
    (Cond.ne left right).holds macros = false := by
  rw [Cond.holds, value_undefined first, value_undefined second, bne_self_eq_false]

end Conditions

section Lines

variable [DecidableEq ν] (enter : φ → State ν τ → State ν τ)

/-- One line; `enter` is what including a file does. -/
def step (s : State ν τ) : Line ν φ τ → State ν τ
  | .define name body =>
      if s.active = true then { s with macros := (name, body) :: s.macros } else s
  | .includes file => if s.active = true then enter file s else s
  | .cond condition => { s with kept := condition.holds s.macros :: s.kept }
  | .otherwise => { s with kept := s.kept.modifyHead not }
  | .endif => { s with kept := s.kept.tail }
  | .text piece => if s.active = true then { s with out := s.out ++ [piece] } else s

/-- The lines of a file, with includes nested at most `depth` deep. -/
def run (files : φ → List (Line ν φ τ)) : Nat → List (Line ν φ τ) → State ν τ → State ν τ
  | 0, _, s => s
  | depth + 1, lines, s => lines.foldl (step fun file => run files depth (files file)) s

/-- Every group that is opened is closed. -/
inductive Balanced : List (Line ν φ τ) → Prop where
  | nil : Balanced []
  | define (name : ν) (body : Body ν) {rest : List (Line ν φ τ)} (later : Balanced rest) :
      Balanced (.define name body :: rest)
  | includes (file : φ) {rest : List (Line ν φ τ)} (later : Balanced rest) :
      Balanced (.includes file :: rest)
  | text (piece : τ) {rest : List (Line ν φ τ)} (later : Balanced rest) :
      Balanced (.text piece :: rest)
  | group (condition : Cond ν) {body rest : List (Line ν φ τ)} (inner : Balanced body)
      (later : Balanced rest) : Balanced (.cond condition :: (body ++ .endif :: rest))
  | branches (condition : Cond ν) {body other rest : List (Line ν φ τ)} (inner : Balanced body)
      (second : Balanced other) (later : Balanced rest) :
      Balanced (.cond condition :: (body ++ .otherwise :: (other ++ .endif :: rest)))

variable {enter}

/-- What is skipped leaves no trace. -/
theorem foldl_skip {lines : List (Line ν φ τ)} (balanced : Balanced lines) {s : State ν τ}
    (inactive : s.active = false) : lines.foldl (step enter) s = s := by
  induction balanced generalizing s with
  | nil => rfl
  | define name body later ih | includes file later ih | text piece later ih =>
      rw [List.foldl_cons, step, if_neg (by simp [inactive]), ih inactive]
  | group condition inner later ihInner ihLater =>
      rw [List.foldl_cons, List.foldl_append]
      simp only [step]
      rw [ihInner (State.active_push inactive _), List.foldl_cons]
      exact ihLater inactive
  | branches condition inner second later ihInner ihSecond ihLater =>
      rw [List.foldl_cons, List.foldl_append]
      simp only [step]
      rw [ihInner (State.active_push inactive _), List.foldl_cons, List.foldl_append]
      simp only [step, List.modifyHead_cons]
      rw [ihSecond (State.active_push inactive _), List.foldl_cons]
      exact ihLater inactive

/-- A file under a guard that is already defined contributes nothing. -/
theorem foldl_guarded {guard : ν} {body : List (Line ν φ τ)} (balanced : Balanced body)
    {s : State ν τ} (defined : s.macros.lookup guard ≠ none) :
    (.cond (.ndef guard) :: (body ++ [.endif])).foldl (step enter) s = s := by
  have skipped : (Cond.ndef guard).holds s.macros = false := by
    rw [Cond.holds, Bool.eq_false_iff]
    exact fun absent => defined (Option.isNone_iff_eq_none.mp absent)
  rw [List.foldl_cons, List.foldl_append]
  simp only [step, skipped]
  rw [foldl_skip balanced rfl]
  rfl

/-- Its first inclusion goes through its lines. -/
theorem foldl_unguarded {guard : ν} (body : List (Line ν φ τ)) {s : State ν τ}
    (undefined : s.macros.lookup guard = none) :
    (.cond (.ndef guard) :: (body ++ [.endif])).foldl (step enter) s =
      step enter (body.foldl (step enter) { s with kept := true :: s.kept }) .endif := by
  have entered : (Cond.ndef guard).holds s.macros = true := by
    rw [Cond.holds, undefined]
    rfl
  rw [List.foldl_cons, List.foldl_append]
  simp only [step, entered, List.foldl_cons, List.foldl_nil]

/-- Outside of skipped groups definitions pile up. -/
theorem foldl_define (names : List (ν × Body ν)) {s : State ν τ} (active : s.active = true) :
    (names.map fun entry => .define entry.1 entry.2).foldl (step enter) s =
      { s with macros := names.reverse ++ s.macros } := by
  induction names generalizing s with
  | nil => rfl
  | cons entry rest ih =>
      have later : ({ s with macros := entry :: s.macros } : State ν τ).active = true := active
      rw [List.map_cons, List.foldl_cons, step, if_pos active, ih later, List.reverse_cons,
        List.append_assoc]
      rfl

/-- Text is kept outside of skipped groups. -/
theorem foldl_text (pieces : List τ) (s : State ν τ) :
    (pieces.map .text).foldl (step enter) s =
      if s.active = true then { s with out := s.out ++ pieces } else s := by
  induction pieces generalizing s with
  | nil => simp
  | cons piece rest ih =>
      rw [List.map_cons, List.foldl_cons, step]
      by_cases active : s.active = true
      · have later : ({ s with out := s.out ++ [piece] } : State ν τ).active = true := active
        rw [if_pos active, if_pos active, ih, if_pos later, List.append_assoc]
        rfl
      · rw [if_neg active, if_neg active, ih, if_neg active]

/-- One of two texts. -/
def choice (condition : Cond ν) (first second : List τ) : List (Line ν φ τ) :=
  .cond condition :: (first.map .text ++ .otherwise :: (second.map .text ++ [.endif]))

theorem foldl_choice (condition : Cond ν) (first second : List τ) {s : State ν τ}
    (active : s.active = true) :
    (choice condition first second).foldl (step enter) s =
      { s with out := s.out ++ if condition.holds s.macros = true then first else second } := by
  have kept : s.kept.all id = true := active
  rw [choice, List.foldl_cons, List.foldl_append, foldl_text]
  by_cases holds : condition.holds s.macros = true
  · simp [step, State.active, holds, kept, foldl_text]
  · simp [step, State.active, holds, kept, foldl_text]

end Lines

end Kukuruku.Preprocessor
