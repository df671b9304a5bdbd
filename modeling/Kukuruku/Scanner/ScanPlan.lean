import Mathlib.Algebra.Order.Floor.Ring
import Mathlib.Algebra.Order.Archimedean.Basic
import Mathlib.Data.Rat.Floor
import Mathlib.Tactic.FieldSimp
import Mathlib.Tactic.Linarith
import Mathlib.Tactic.NormNum
import Mathlib.Tactic.Positivity
import Mathlib.Tactic.Ring

/-!
# The scan plan of a range

`ConfReader` insets a range of frequencies by half a step at both ends and puts
scan frames into it at a whole number of hertz from each other.  Numbers are
exact.
-/

namespace Kukuruku.Scanner.ScanPlan

variable {K : Type*} [Field K] [LinearOrder K]

/-! ## The loop -/

/-- `while cf <= bound`, with the frequencies of the frames that it appends. -/
def insertFrames (bound inc : Int) : Nat → K → Option (List K)
  | 0, _ => none
  | fuel + 1, cf =>
      if cf ≤ bound then (insertFrames bound inc fuel (cf + inc)).map (cf :: ·)
      else some []

section Loop

variable {bound inc : Int} {fuel : Nat} {cf : K} {frames : List K}

theorem insertFrames_of_le (inside : cf ≤ bound) : insertFrames bound inc (fuel + 1) cf =
    (insertFrames bound inc fuel (cf + inc)).map (cf :: ·) :=
  if_pos inside

theorem insertFrames_of_lt (outside : (bound : K) < cf) :
    insertFrames bound inc (fuel + 1) cf = some [] :=
  if_neg (not_le.mpr outside)

/-- The induction over the rounds of a loop that ends. -/
theorem insertFrames_induction {P : K → List K → Prop}
    (done : ∀ cf : K, bound < cf → P cf [])
    (next : ∀ (cf : K) rest, cf ≤ bound → P (cf + inc) rest → P cf (cf :: rest))
    (ended : insertFrames bound inc fuel cf = some frames) : P cf frames := by
  induction fuel generalizing cf frames with
  | zero => cases ended
  | succ fuel ih =>
      rcases le_or_gt cf bound with inside | outside
      · rw [insertFrames_of_le inside] at ended
        obtain ⟨rest, later, rfl⟩ := Option.map_eq_some_iff.mp ended
        exact next cf rest inside (ih later)
      · rw [insertFrames_of_lt outside] at ended
        obtain rfl := Option.some.inj ended
        exact done cf outside

/-- The first frame stands at the start if the loop is entered. -/
theorem insertFrames_head (ended : insertFrames bound inc fuel cf = some frames) :
    (frames = [] ∧ bound < cf) ∨ ∃ rest, frames = cf :: rest ∧ cf ≤ bound :=
  insertFrames_induction (P := fun (cf : K) (frames : List K) =>
      (frames = [] ∧ bound < cf) ∨ ∃ rest, frames = cf :: rest ∧ cf ≤ bound)
    (fun _ outside => .inl ⟨rfl, outside⟩) (fun _ rest inside _ => .inr ⟨rest, rfl, inside⟩) ended

/-- Two frames in succession differ by the increment. -/
theorem insertFrames_isChain (ended : insertFrames bound inc fuel cf = some frames) :
    frames.IsChain fun f g : K => g = f + inc := by
  refine (insertFrames_induction (P := fun (cf : K) (frames : List K) =>
    frames.IsChain (fun f g : K => g = f + inc) ∧ ∀ f ∈ frames.head?, f = cf) ?_ ?_ ended).1
  · exact fun cf _ => ⟨.nil, fun f none => absurd none (Option.not_mem_none f)⟩
  · rintro cf rest _ ⟨chain, head⟩
    refine ⟨?_, fun f first => (Option.some.inj first).symm⟩
    cases rest with
    | nil => exact .singleton cf
    | cons g rest => exact .cons_cons (head g rfl) chain

/-- The frames stand where a whole number of increments reaches. -/
theorem mem_insertFrames (ended : insertFrames bound inc fuel cf = some frames) {f : K}
    (member : f ∈ frames) : f ≤ bound ∧ ∃ n : Nat, f = cf + n * inc := by
  refine insertFrames_induction (P := fun (cf : K) (frames : List K) =>
    f ∈ frames → f ≤ bound ∧ ∃ n : Nat, f = cf + n * inc) ?_ ?_ ended member
  · exact fun cf _ member => absurd member List.not_mem_nil
  · intro cf rest inside later member
    rcases List.mem_cons.mp member with rfl | member
    · exact ⟨inside, 0, by rw [Nat.cast_zero, zero_mul, add_zero]⟩
    · obtain ⟨below, n, place⟩ := later member
      refine ⟨below, n + 1, ?_⟩
      rw [place, Nat.cast_succ]
      ring

/-- The place after the last frame is out of bounds. -/
theorem lt_getLast_insertFrames (ended : insertFrames bound inc fuel cf = some frames) {e : K}
    (final : frames.getLast? = some e) : bound < e + inc := by
  refine (insertFrames_induction (P := fun (cf : K) (frames : List K) =>
    (frames = [] → bound < cf) ∧ (frames.getLast? = some e → bound < e + inc)) ?_ ?_ ended).2 final
  · exact fun cf outside => ⟨fun _ => outside, fun final => by cases final⟩
  · rintro cf rest _ ⟨stopped, later⟩
    refine ⟨fun empty => absurd empty (List.cons_ne_nil cf rest), fun final => ?_⟩
    cases rest with
    | nil =>
        obtain rfl := Option.some.inj final
        exact stopped rfl
    | cons g rest => exact later (by rwa [List.getLast?_cons_cons] at final)

variable [IsStrictOrderedRing K]

/-- Windows that are wider than the increment leave nothing out on the way from
the first frame to the last one. -/
theorem exists_insertFrames_window {width : K} (narrow : (inc : K) ≤ width)
    (ended : insertFrames bound inc fuel cf = some frames) {e x : K}
    (final : frames.getLast? = some e) (low : cf - width / 2 ≤ x) (high : x ≤ e + width / 2) :
    ∃ f ∈ frames, f - width / 2 ≤ x ∧ x ≤ f + width / 2 := by
  refine insertFrames_induction (P := fun (cf : K) (frames : List K) =>
    frames.getLast? = some e → cf - width / 2 ≤ x →
      ∃ f ∈ frames, f - width / 2 ≤ x ∧ x ≤ f + width / 2) ?_ ?_ ended final low
  · exact fun cf _ final => by cases final
  · intro cf rest _ later final low
    rcases le_or_gt x (cf + width / 2) with here | beyond
    · exact ⟨cf, List.mem_cons_self, low, here⟩
    · cases rest with
      | nil =>
          obtain rfl := Option.some.inj final
          exact absurd high (not_le.mpr beyond)
      | cons g rest =>
          rw [List.getLast?_cons_cons] at final
          obtain ⟨f, member, window⟩ := later final (by linarith)
          exact ⟨f, List.mem_cons_of_mem _ member, window⟩

/-- Without progress no number of rounds is enough. -/
theorem insertFrames_eq_none (still : inc ≤ 0) (inside : cf ≤ bound) :
    insertFrames bound inc fuel cf = none := by
  induction fuel generalizing cf with
  | zero => rfl
  | succ fuel ih =>
      have back : (inc : K) ≤ 0 := by exact_mod_cast still
      rw [insertFrames_of_le inside, ih (by linarith)]
      rfl

/-- With progress the loop passes its bound. -/
theorem exists_insertFrames [Archimedean K] (progress : 1 ≤ inc) (bound : Int) (cf : K) :
    ∃ fuel frames, insertFrames bound inc fuel cf = some frames := by
  have forward : (1 : K) ≤ inc := by exact_mod_cast progress
  obtain ⟨rounds, enough⟩ := exists_nat_gt ((bound : K) - cf)
  have passes : ∀ rounds : Nat, ∀ cf : K, (bound : K) - cf < rounds →
      ∃ frames, insertFrames bound inc (rounds + 1) cf = some frames := by
    intro rounds
    induction rounds with
    | zero =>
        intro cf near
        rw [Nat.cast_zero] at near
        exact ⟨[], insertFrames_of_lt (by linarith)⟩
    | succ rounds ih =>
        intro cf near
        rw [Nat.cast_succ] at near
        rcases le_or_gt cf bound with inside | outside
        · obtain ⟨frames, ended⟩ := ih (cf + inc) (by linarith)
          exact ⟨cf :: frames, by rw [insertFrames_of_le inside, ended]; rfl⟩
        · exact ⟨[], insertFrames_of_lt outside⟩
  obtain ⟨frames, ended⟩ := passes rounds cf enough
  exact ⟨rounds + 1, frames, ended⟩

/-- The loop ends exactly when it is not entered or makes progress. -/
theorem insertFrames_ends_iff [Archimedean K] :
    (∃ fuel frames, insertFrames bound inc fuel cf = some frames) ↔
      (cf ≤ bound → 1 ≤ inc) := by
  constructor
  · rintro ⟨fuel, frames, ended⟩ inside
    by_contra still
    rw [insertFrames_eq_none (by omega) inside] at ended
    cases ended
  · intro progress
    rcases le_or_gt cf bound with inside | outside
    · exact exists_insertFrames (progress inside) bound cf
    · exact ⟨1, [], insertFrames_of_lt outside⟩

/-- The last frame of a loop that makes progress. -/
theorem getLast_insertFrames [FloorRing K] (progress : 1 ≤ inc)
    (ended : insertFrames bound inc fuel cf = some frames) {e : K}
    (final : frames.getLast? = some e) : e = cf + ⌊((bound : K) - cf) / inc⌋ * inc := by
  have forward : (0 : K) < inc := by
    have one : (1 : K) ≤ inc := by exact_mod_cast progress
    linarith
  obtain ⟨below, n, rfl⟩ := mem_insertFrames ended (List.mem_of_getLast? final)
  have beyond := lt_getLast_insertFrames ended final
  have count : ⌊((bound : K) - cf) / inc⌋ = (n : Int) := by
    rw [Int.floor_eq_iff, le_div_iff₀ forward, div_lt_iff₀ forward, Int.cast_natCast]
    constructor <;> linarith
  rw [count, Int.cast_natCast]

/-- No frame stands after the last one. -/
theorem le_getLast_insertFrames [FloorRing K] (progress : 1 ≤ inc)
    (ended : insertFrames bound inc fuel cf = some frames) {e f : K}
    (final : frames.getLast? = some e) (member : f ∈ frames) : f ≤ e := by
  have forward : (0 : K) < inc := by
    have one : (1 : K) ≤ inc := by exact_mod_cast progress
    linarith
  obtain ⟨below, n, rfl⟩ := mem_insertFrames ended member
  have fits : (n : Int) ≤ ⌊((bound : K) - cf) / inc⌋ := by
    rw [Int.le_floor, le_div_iff₀ forward, Int.cast_natCast]
    linarith
  have fits' : (n : K) ≤ ⌊((bound : K) - cf) / inc⌋ := by exact_mod_cast fits
  rw [getLast_insertFrames progress ended final]
  have scaled := mul_le_mul_of_nonneg_right fits' forward.le
  linarith

end Loop

/-! ## The plan of a range -/

/-- The values that the plan is made from: the rate, the overlap and the ends of
the range. -/
structure Range (K : Type*) where
  rate : K
  overlap : K
  freqstart : K
  freqstop : K

namespace Range

section Plan

variable (range : Range K)

def step : K := range.rate * (1 - range.overlap)

/-- `freqstart` and `freqstop` after the inset. -/
def start : K := range.freqstart + range.step / 2

def stop : K := range.freqstop - range.step / 2

variable [FloorRing K]

def numf : Int := ⌈(range.stop - range.start) / range.step⌉

def delta : K :=
  if range.numf = 0 then range.stop else (range.stop - range.start) / range.numf

/-- The frames of the range, if the loop ends within some number of rounds. -/
def scanframes (fuel : Nat) : Option (List K) :=
  insertFrames ⌈range.stop⌉ ⌊range.delta⌋ fuel range.start

/-- What the configuration promises of the rate and the overlap. -/
structure Admissible : Prop where
  rate : 0 < range.rate
  overlap : 0 ≤ range.overlap
  overlap_lt : range.overlap < 1

/-! ## Termination -/

/-- The loop ends. -/
def Ends : Prop := ∃ fuel frames, range.scanframes fuel = some frames

/-- The length of the range after the inset. -/
def inset : K := range.freqstop - range.freqstart - range.step

/-- The range ends before it starts, or its length is within a step for each of
its whole hertz, or it is no longer than a step and ends at 1 Hz or later. -/
def Steps : Prop :=
  (⌈range.stop⌉ : K) < range.start ∨
    (0 < range.inset ∧ range.inset ≤ range.step * ⌊range.inset⌋) ∨
    (-range.step < range.inset ∧ range.inset ≤ 0 ∧ 1 ≤ range.stop)

/-! ## Coverage -/

/-- There is a frame, the windows of the frames cover the range, and those of
two frames in succession overlap enough. -/
structure Covers (frames : List K) : Prop where
  nonempty : frames ≠ []
  covers : ∀ x, range.freqstart ≤ x → x ≤ range.freqstop →
    ∃ f ∈ frames, f - range.rate / 2 ≤ x ∧ x ≤ f + range.rate / 2
  overlaps : frames.IsChain fun f g =>
    range.overlap * range.rate ≤ (f + range.rate / 2) - (g - range.rate / 2)

/-- What the whole hertz between two frames leave of the way from the start to
the end, rounded up. -/
def rest : K :=
  (⌈range.stop⌉ - range.start) -
    ⌊(⌈range.stop⌉ - range.start) / ⌊range.inset / ⌈range.inset / range.step⌉⌋⌋ *
      ⌊range.inset / ⌈range.inset / range.step⌉⌋

/-- The range is no longer than a step and does not end before it starts, or it
is longer and at most half an overlap of it is left behind the last frame. -/
def Reached : Prop :=
  (range.inset ≤ 0 ∧ range.start ≤ ⌈range.stop⌉) ∨
    (0 < range.inset ∧
      range.rest ≤ (⌈range.stop⌉ - range.stop) + range.overlap * range.rate / 2)

end Plan

/-! ## Termination -/

variable [IsStrictOrderedRing K] {range : Range K}

theorem Admissible.step_pos (admissible : range.Admissible) : 0 < range.step :=
  mul_pos admissible.rate (sub_pos.mpr admissible.overlap_lt)

theorem stop_sub_start (range : Range K) : range.stop - range.start = range.inset := by
  rw [stop, start, inset]
  ring

variable [FloorRing K]

/-- The count and the increment of an inset range that is not empty. -/
theorem delta_of_pos (positive : 0 < range.step) (long : 0 < range.inset) :
    range.delta = range.inset / range.numf ∧ 0 < range.numf := by
  have count : 0 < range.numf := by
    rw [numf, stop_sub_start]
    exact Int.ceil_pos.mpr (div_pos long positive)
  rw [delta, if_neg count.ne', stop_sub_start]
  exact ⟨rfl, count⟩

theorem delta_of_nonpos (positive : 0 < range.step) (above : -range.step < range.inset)
    (short : range.inset ≤ 0) : range.delta = range.stop := by
  have count : range.numf = 0 := by
    rw [numf, stop_sub_start, Int.ceil_eq_zero_iff]
    refine ⟨?_, div_nonpos_of_nonpos_of_nonneg short positive.le⟩
    rw [lt_div_iff₀ positive]
    linarith
  rw [delta, if_pos count]

/-- A positive inset range gives progress exactly when it has a hertz a frame. -/
theorem one_le_floor_delta_iff (positive : 0 < range.step) (long : 0 < range.inset) :
    1 ≤ ⌊range.delta⌋ ↔ range.inset ≤ range.step * ⌊range.inset⌋ := by
  obtain ⟨quotient, count⟩ := delta_of_pos positive long
  have count' : (0 : K) < range.numf := by exact_mod_cast count
  rw [Int.le_floor, quotient, Int.cast_one, one_le_div₀ count', ← Int.le_floor, numf,
    stop_sub_start, Int.ceil_le, div_le_iff₀ positive, mul_comm]

/-- Below minus one step the loop makes no progress when it is entered. -/
theorem floor_delta_of_le (positive : 0 < range.step) (below : range.inset ≤ -range.step)
    (entered : range.start ≤ ⌈range.stop⌉) : ⌊range.delta⌋ < 1 := by
  have near : -1 < range.inset := by
    have above := Int.ceil_lt_add_one range.stop
    have length := range.stop_sub_start
    linarith
  have ratio : range.inset / range.step ≤ -1 := by
    rw [div_le_iff₀ positive]
    linarith
  have count : range.numf ≤ -1 := by
    rw [numf, stop_sub_start, Int.ceil_le]
    exact_mod_cast ratio
  have count' : (range.numf : K) ≤ -1 := by exact_mod_cast count
  rw [Int.floor_lt, delta, if_neg (by omega), stop_sub_start, Int.cast_one,
    div_lt_iff_of_neg (by linarith)]
  linarith

/-- The loop of a range ends exactly when it is not entered or the increment is
at least 1, and these are the ranges named by `Steps`. -/
theorem ends_iff_steps (range : Range K) (admissible : range.Admissible) :
    (range.Ends ↔ range.Steps) ∧
      (range.Steps ↔ (range.start ≤ ⌈range.stop⌉ → 1 ≤ ⌊range.delta⌋)) := by
  have positive := admissible.step_pos
  have steps : range.Steps ↔ (range.start ≤ ⌈range.stop⌉ → 1 ≤ ⌊range.delta⌋) := by
    rcases lt_or_ge (⌈range.stop⌉ : K) range.start with outside | entered
    · exact iff_of_true (.inl outside) fun entered => absurd entered (not_le.mpr outside)
    · rw [imp_iff_right entered, Steps, or_iff_right (not_lt.mpr entered)]
      rcases lt_or_ge 0 range.inset with long | short
      · rw [one_le_floor_delta_iff positive long]
        constructor
        · rintro (⟨_, room⟩ | ⟨_, short, _⟩)
          · exact room
          · exact absurd long (not_lt.mpr short)
        · exact fun room => .inl ⟨long, room⟩
      · rcases lt_or_ge (-range.step) range.inset with above | below
        · rw [delta_of_nonpos positive above short, Int.le_floor, Int.cast_one]
          constructor
          · rintro (⟨long, _⟩ | ⟨_, _, late⟩)
            · exact absurd long (not_lt.mpr short)
            · exact late
          · exact fun late => .inr ⟨above, short, late⟩
        · refine iff_of_false ?_ (not_le.mpr (floor_delta_of_le positive below entered))
          rintro (⟨long, _⟩ | ⟨above, _⟩)
          · exact absurd long (not_lt.mpr short)
          · exact absurd above (not_lt.mpr below)
  exact ⟨insertFrames_ends_iff.trans steps.symm, steps⟩

/-- Two steps and a range of three. -/
theorem ends_iff_steps_wide :
    ((⟨10, 1 / 5, 100, 124⟩ : Range ℚ).Ends ↔ (⟨10, 1 / 5, 100, 124⟩ : Range ℚ).Steps) ∧
      ((⟨10, 1 / 5, 100, 124⟩ : Range ℚ).Steps ↔
        ((⟨10, 1 / 5, 100, 124⟩ : Range ℚ).start ≤ ⌈(⟨10, 1 / 5, 100, 124⟩ : Range ℚ).stop⌉ →
          1 ≤ ⌊(⟨10, 1 / 5, 100, 124⟩ : Range ℚ).delta⌋)) :=
  ends_iff_steps _ ⟨by norm_num, by norm_num, by norm_num⟩

/-- Half a hertz more than a step. -/
theorem not_ends_halfHertz :
    ¬ (⟨2048000, 1 / 5, 445000000, 446638400 + 1 / 2⟩ : Range ℚ).Ends := by
  rintro ⟨fuel, frames, ended⟩
  have still : insertFrames 445819201 0 fuel (445819200 : ℚ) = none :=
    insertFrames_eq_none (le_refl 0) (by norm_num)
  have same : (⟨2048000, 1 / 5, 445000000, 446638400 + 1 / 2⟩ : Range ℚ).scanframes fuel =
      insertFrames 445819201 0 fuel (445819200 : ℚ) := by
    norm_num [scanframes, delta, numf, stop, start, step]
  rw [same, still] at ended
  cases ended

/-! ## Coverage -/

/-- A range no longer than a step has one frame. -/
theorem scanframes_of_short (admissible : range.Admissible)
    (order : range.freqstart < range.freqstop) (short : range.inset ≤ 0)
    (entered : range.start ≤ ⌈range.stop⌉) {fuel : Nat} {frames : List K}
    (ended : range.scanframes fuel = some frames) : frames = [range.start] := by
  have above : -range.step < range.inset := by
    rw [inset]
    linarith
  have increment := delta_of_nonpos admissible.step_pos above short
  have progress : 1 ≤ ⌊range.stop⌋ := by
    have moves := insertFrames_ends_iff.mp ⟨fuel, frames, ended⟩ entered
    rwa [increment] at moves
  have progress' : (1 : K) ≤ ⌊range.stop⌋ := by exact_mod_cast progress
  have length := range.stop_sub_start
  rw [scanframes, increment] at ended
  rcases insertFrames_head ended with ⟨_, outside⟩ | ⟨rest, rfl, _⟩
  · exact absurd entered (not_le.mpr outside)
  · cases rest with
    | nil => rfl
    | cons g rest =>
        have next : g = range.start + ⌊range.stop⌋ :=
          (List.isChain_cons_cons.mp (insertFrames_isChain ended)).1
        obtain ⟨below, _⟩ := mem_insertFrames ended
          (List.mem_cons_of_mem _ (List.mem_cons_self : g ∈ g :: rest))
        have round := Int.ceil_lt_add_one range.stop
        linarith

/-- The increment of a longer range is at most a step. -/
theorem floor_delta_le (positive : 0 < range.step) (long : 0 < range.inset) :
    (⌊range.delta⌋ : K) ≤ range.step := by
  obtain ⟨quotient, count⟩ := delta_of_pos positive long
  have count' : (0 : K) < range.numf := by exact_mod_cast count
  refine (Int.floor_le _).trans ?_
  rw [quotient, div_le_iff₀ count', ← div_le_iff₀' positive, numf, stop_sub_start]
  exact Int.le_ceil _

omit [LinearOrder K] [IsStrictOrderedRing K] [FloorRing K] in
theorem overlap_add_step (range : Range K) :
    range.overlap * range.rate + range.step = range.rate := by
  rw [step]
  ring

/-- The last frame of a longer range, and its distance to the end. -/
theorem rest_eq (positive : 0 < range.step) (long : 0 < range.inset) {fuel : Nat}
    {frames : List K} (ended : range.scanframes fuel = some frames) {e : K}
    (final : frames.getLast? = some e) (progress : 1 ≤ ⌊range.delta⌋) :
    e = ⌈range.stop⌉ - range.rest := by
  have quotient : range.inset / ⌈range.inset / range.step⌉ = range.delta := by
    rw [(delta_of_pos positive long).1, numf, stop_sub_start]
  rw [rest, quotient, getLast_insertFrames progress ended final]
  ring

/-- When the loop ends, its frames cover the range exactly when the last of them
reaches the end. -/
theorem scanframes_covers_iff (range : Range K) (admissible : range.Admissible)
    (order : range.freqstart < range.freqstop) {fuel : Nat} {frames : List K}
    (ended : range.scanframes fuel = some frames) : range.Covers frames ↔ range.Reached := by
  have positive := admissible.step_pos
  have parts := range.overlap_add_step
  have lap : 0 ≤ range.overlap * range.rate := mul_nonneg admissible.overlap admissible.rate.le
  have ceil := Int.le_ceil range.stop
  have startEq : range.start = range.freqstart + range.step / 2 := rfl
  have stopEq : range.stop = range.freqstop - range.step / 2 := rfl
  have length := range.stop_sub_start
  rcases lt_or_ge 0 range.inset with long | short
  · have entered : range.start ≤ ⌈range.stop⌉ := by linarith
    have progress : 1 ≤ ⌊range.delta⌋ :=
      insertFrames_ends_iff.mp ⟨fuel, frames, ended⟩ entered
    have narrow := floor_delta_le positive long
    rw [Reached, or_iff_right fun both : range.inset ≤ 0 ∧ _ => absurd long (not_lt.mpr both.1),
      and_iff_right long]
    obtain ⟨_, outside⟩ | ⟨others, rfl, _⟩ := insertFrames_head ended
    · exact absurd entered (not_le.mpr outside)
    · cases final : (range.start :: others).getLast? with
      | none => cases List.getLast?_eq_none_iff.mp final
      | some e =>
          have last := rest_eq positive long ended final progress
          constructor
          · intro covers
            obtain ⟨f, member, _, reach⟩ := covers.covers range.freqstop order.le (le_refl _)
            have before := le_getLast_insertFrames progress ended final member
            linarith
          · intro reached
            refine ⟨List.cons_ne_nil _ _, fun x low high => ?_, ?_⟩
            · refine exists_insertFrames_window (by linarith) ended final ?_ ?_ <;> linarith
            · refine (insertFrames_isChain ended).imp fun f g next => ?_
              rw [next]
              linarith
  · rw [Reached, or_iff_left fun both : 0 < range.inset ∧ _ => absurd both.1 (not_lt.mpr short),
      and_iff_right short]
    constructor
    · intro covers
      rcases insertFrames_head ended with ⟨empty, _⟩ | ⟨_, _, inside⟩
      · exact absurd empty covers.nonempty
      · exact inside
    · intro entered
      obtain rfl := scanframes_of_short admissible order short entered ended
      refine ⟨List.cons_ne_nil _ _, fun x low high => ?_, .singleton _⟩
      rw [inset] at short
      exact ⟨range.start, List.mem_cons_self, by linarith, by linarith⟩

/-- The frames of two steps and a range of three. -/
theorem scanframes_covers_wide :
    (⟨10, 1 / 5, 100, 124⟩ : Range ℚ).Covers [104, 112, 120] ↔
      (⟨10, 1 / 5, 100, 124⟩ : Range ℚ).Reached := by
  have ended : (⟨10, 1 / 5, 100, 124⟩ : Range ℚ).scanframes 4 = some [104, 112, 120] := by
    norm_num [scanframes, delta, numf, stop, start, step, insertFrames]
  exact scanframes_covers_iff _ ⟨by norm_num, by norm_num, by norm_num⟩ (by norm_num) ended

/-- A range shorter than a step has no frame at all. -/
theorem scanframes_narrow :
    (⟨2048000, 1 / 5, 445000000, 446000000⟩ : Range ℚ).scanframes 1 = some [] ∧
      ¬ (⟨2048000, 1 / 5, 445000000, 446000000⟩ : Range ℚ).Covers [] := by
  constructor
  · norm_num [scanframes, delta, numf, stop, start, step, insertFrames]
  · exact fun covers => covers.nonempty rfl

end Range

end Kukuruku.Scanner.ScanPlan
