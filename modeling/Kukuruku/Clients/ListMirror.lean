import Kukuruku.Foundation.Reconcile
import Kukuruku.Clients.XlatersLock

/-!
# The list view as a mirror of the xlaters

`xlater_cb` deletes the rows whose xlater is gone, starting again after each one, and
then changes or adds the row of every xlater.  The integer columns of GTK hold 32 bits.
-/

namespace Kukuruku.Clients.ListMirror

open Kukuruku.Doubles (Rounding)
open Kukuruku.Reconcile
open Kukuruku.Server (INT32_MIN INT32_MAX INT32_range)
open Kukuruku.Clients.XlaterPanel

/-! ## The callback -/

/-- A row without an xlater; the number -1 is kept. -/
def gone (s : Shared) (row : Row) : Bool :=
  !((s.xlaters.lookup row.wid).isSome || decide (row.wid = -1))

/-- Write changes in libclient.xlaters to the GUI listview, with a bound on the rounds of
the first loop. -/
def xlater_cb (rounds : Nat) (out : Outside) (s : Shared) : Option Shared := do
  let model ← sweep (gone s) rounds s.model
  s.xlaters.foldlM (fun s entry => s.showXlater out entry.1 entry.2) { s with model := model }

/-- With a round for each row and one more, the first loop ends, and the result is that
of the shorter description. -/
theorem xlater_cb_eq (out : Outside) (s : Shared) {rounds : Nat}
    (enough : s.model.length < rounds) :
    xlater_cb rounds out s = s.xlater_cb out := by
  rw [xlater_cb, sweep_eq enough]
  simp only [gone, Bool.not_not]
  rfl

/-! ## What it should do -/

/-- The columns of a row but for its place. -/
def Row.other (row : Row) : Row := { row with offset := 0, freq := 0 }

/-- The rows after the callback, where -1 is no worker. -/
structure Mirrors (out : Outside) (s t : Shared) : Prop where
  rest : t = { s with model := t.model }
  keys : ∀ wid ≠ -1, wid ∈ t.model.map Row.wid ↔ wid ∈ s.xlaters.map Prod.fst
  once : (t.model.map Row.wid).Nodup
  kept : (s.model.filter fun row => !gone s row).map Row.other <+: t.model.map Row.other
  places : ∀ row ∈ t.model, ∀ xl, s.xlaters.lookup row.wid = some xl →
    row.offset = truncate (s.place out xl) ∧ (row.freq : ℚ) = s.frequency + row.offset

/-- The callback ends, without an exception, and the list mirrors the xlaters. -/
def Shows (out : Outside) (s : Shared) : Prop :=
  ∃ t, (∀ rounds, s.model.length < rounds → xlater_cb rounds out s = some t) ∧ Mirrors out s t

/-! ## When it does -/

/-- A number that an integer column can hold. -/
def Fits (x : ℚ) : Prop := INT32_MIN ≤ truncate x ∧ truncate x ≤ INT32_MAX

instance (x : ℚ) : Decidable (Fits x) := inferInstanceAs (Decidable (_ ∧ _))

/-- The cast of a float, where it fits. -/
def column (x : ℚ) : Option Int := if Fits x then some (truncate x) else none

def Whole (x : ℚ) : Prop := ∃ n : Int, x = n

instance (x : ℚ) : Decidable (Whole x) :=
  decidable_of_iff (x.den = 1) (by
    constructor
    · exact fun one => ⟨x.num, ((Rat.den_eq_one_iff x).mp one).symm⟩
    · rintro ⟨n, rfl⟩
      exact Rat.den_intCast n)

/-- Neither number is on the other side of zero. -/
def SameSide (x y : ℚ) : Prop := 0 ≤ x ∧ 0 ≤ y ∨ x ≤ 0 ∧ y ≤ 0

instance (x y : ℚ) : Decidable (SameSide x y) := inferInstanceAs (Decidable (_ ∨ _))

/-- A number becomes the next whole one, away from zero. -/
def Outward (double : ℚ → ℚ) (x : ℚ) : Prop := double x = if 0 ≤ x then ⌈x⌉ else ⌊x⌋

instance (double : ℚ → ℚ) (x : ℚ) : Decidable (Outward double x) :=
  inferInstanceAs (Decidable (_ = _))

section Condition

variable (out : Outside) (s : Shared)

/-- The filter parameters of a new row. -/
def helper (xl : Xlater) : XlaterHelper :=
  let lowpass := out.double (out.double ((s.samplerate : ℚ) / xl.decimation) / 2)
  (xl.rid.bind fun rid => s.XlaterHelpers.lookup rid).getD
    ⟨lowpass, "hamming".toList, out.double (out.double (1 / 10) * lowpass)⟩

/-- A new row's offset is cast before the centre frequency is added, and its frequency
after it and after the sum is rounded.  The two agree if neither zero nor the rounding makes
a difference, or if both do. -/
def CastsAgree (xl : Xlater) : Prop :=
  Whole (s.place out xl) ∨
    (SameSide (s.place out xl) (s.frequency + s.place out xl) ↔
      ¬ Outward out.double (s.frequency + s.place out xl))

instance (xl : Xlater) : Decidable (CastsAgree out s xl) := inferInstanceAs (Decidable (_ ∨ _))

/-- The centre frequency is whole.  The numbers of the xlater's row fit, and if the row is
new, it has a lowpass, and casting does not move the offset and the frequency apart. -/
def Fit (wid : Int) (xl : Xlater) : Prop :=
  Whole s.frequency ∧ Fits (s.place out xl) ∧
    if wid ∈ s.model.map Row.wid then Fits (out.double (s.frequency + truncate (s.place out xl)))
    else
      (xl.decimation ≠ 0 ∧ Fits wid ∧ Fits (helper out s xl).transition ∧
        Fits (helper out s xl).lowpass ∧ Fits (out.double (s.frequency + s.place out xl))) ∧
      CastsAgree out s xl

instance (wid : Int) (xl : Xlater) : Decidable (Fit out s wid xl) :=
  inferInstanceAs (Decidable (_ ∧ _))

/-- What a row that exists is changed to, and the row of an xlater that has none. -/
def sync : Sync Row Int Xlater where
  key := Row.wid
  change _ xl row :=
    { row with
      offset := truncate (s.place out xl)
      freq := truncate (out.double (s.frequency + truncate (s.place out xl))) }
  create wid xl :=
    ⟨wid, truncate (s.place out xl), (helper out s xl).filtertype,
      truncate (helper out s xl).transition, truncate (helper out s xl).lowpass, false, false,
      truncate (out.double (s.frequency + s.place out xl))⟩
  canChange _ xl := Fits (s.place out xl) ∧
    Fits (out.double (s.frequency + truncate (s.place out xl)))
  canCreate wid xl := xl.decimation ≠ 0 ∧ Fits wid ∧ Fits (s.place out xl) ∧
    Fits (helper out s xl).transition ∧ Fits (helper out s xl).lowpass ∧
    Fits (out.double (s.frequency + s.place out xl))
  key_change _ _ _ := rfl
  key_create _ _ := rfl

end Condition

/-! ### Columns -/

theorem fits_truncate (x : ℚ) : Fits (truncate x : ℚ) ↔ Fits x := by
  rw [Fits, Fits, truncate_intCast]

theorem column_truncate (x : ℚ) : column (truncate x : ℚ) = column x := by
  rw [column, column, truncate_intCast]
  exact if_congr (fits_truncate x) rfl rfl

/-! ### One xlater -/

section Step

variable {out : Outside} (s : Shared)

theorem make_panel_eq (gtk : ∀ x, out.gint x = column x) (wid : Int) (offset bw : ℚ)
    (filtertype : List Char) (transition : ℚ) (sql afc : Bool) :
    s.make_panel out wid offset bw filtertype transition sql afc =
      if Fits wid ∧ Fits offset ∧ Fits transition ∧ Fits bw ∧
        Fits (out.double (s.frequency + offset)) then
        some { s with
          model := s.model ++ [⟨wid, truncate offset, filtertype, truncate transition,
            truncate bw, afc, sql, truncate (out.double (s.frequency + offset))⟩] }
      else none := by
  simp only [Shared.make_panel, gtk, column_truncate]
  simp only [column, truncate_intCast]
  by_cases number : Fits wid
  · by_cases first : Fits offset
    · by_cases third : Fits transition
      · by_cases fourth : Fits bw
        · by_cases seventh : Fits (out.double (s.frequency + offset))
          · simp [number, first, third, fourth, seventh]
          · simp [number, first, third, fourth, seventh]
        · simp [number, first, third, fourth]
      · simp [number, first, third]
    · simp [number, first]
  · simp [number]

theorem addXlater_eq (gtk : ∀ x, out.gint x = column x) (wid : Int) (xl : Xlater) :
    s.addXlater out wid xl =
      if (sync out s).canCreate wid xl then
        some { s with model := s.model ++ [(sync out s).create wid xl] }
      else none := by
  rw [Shared.addXlater, make_panel_eq s gtk]
  by_cases dead : xl.decimation = 0
  · simp [sync, dead]
  · rw [if_neg dead]
    refine if_congr ?_ rfl rfl
    simp only [sync, decide_eq_true_eq]
    exact (and_iff_right dead).symm

theorem setRow_eq (gtk : ∀ x, out.gint x = column x) {i : Nat} (inside : i < s.model.length)
    (wid : Int) (xl : Xlater) :
    (s.setRow i fun old => do
      let offset ← out.gint (s.place out xl)
      let freq ← out.gint (out.double (s.frequency + offset))
      return { old with offset := offset, freq := freq }) =
      if (sync out s).canChange wid xl then
        some { s with model := s.model.modify i ((sync out s).change wid xl) }
      else none := by
  rw [Shared.setRow, List.getElem?_eq_getElem inside, List.modify_eq_set_getElem?,
    List.getElem?_eq_getElem inside]
  simp only [gtk, column, sync, decide_eq_true_eq]
  by_cases first : Fits (s.place out xl)
  · by_cases second : Fits (out.double (s.frequency + truncate (s.place out xl)))
    · simp [first, second]
    · simp [first, second]
  · simp [first]

/-- The callback's step for one xlater changes or adds its row. -/
theorem showXlater_eq (gtk : ∀ x, out.gint x = column x) (wid : Int) (xl : Xlater) :
    s.showXlater out wid xl =
      ((sync out s).put s.model (wid, xl)).map fun model => { s with model := model } := by
  rw [Shared.showXlater, Sync.put, Shared.find_wid]
  dsimp only
  have same : (fun row => decide ((sync out s).key row = wid)) =
      fun row : Row => decide (row.wid = wid) := rfl
  rw [same]
  cases found : s.model.findIdx? fun row => decide (row.wid = wid) with
  | none =>
      dsimp only
      rw [addXlater_eq s gtk]
      split <;> rfl
  | some i =>
      obtain ⟨inside, -⟩ := List.findIdx?_eq_some_iff_getElem.mp found
      dsimp only
      rw [setRow_eq s gtk inside wid]
      split <;> rfl

end Step

/-! ### All xlaters -/

section Loop

variable {out : Outside} (s : Shared)

theorem sync_model (model : List Row) : sync out { s with model := model } = sync out s := rfl

theorem foldlM_showXlater (gtk : ∀ x, out.gint x = column x) (entries : List (Int × Xlater))
    (model : List Row) :
    entries.foldlM (fun s entry => s.showXlater out entry.1 entry.2) { s with model := model } =
      ((sync out s).putAll model entries).map fun model => { s with model := model } := by
  induction entries generalizing model with
  | nil => rfl
  | cons entry rest ih =>
      rw [List.foldlM_cons, showXlater_eq _ gtk, Sync.putAll, List.foldlM_cons, sync_model]
      cases (sync out s).put model entry with
      | none => rfl
      | some next => exact ih next

end Loop

/-! ## Casts of sums -/

section Casts

variable {x : ℚ}

theorem truncate_of_nonpos (nonpos : x ≤ 0) : truncate x = ⌈x⌉ := by
  rcases nonpos.eq_or_lt with rfl | negative
  · rw [truncate, if_pos (le_refl _), Int.floor_zero, Int.ceil_zero]
  · rw [truncate, if_neg (not_le.mpr negative)]

theorem ceil_eq_succ (fractional : ¬ Whole x) : ⌈x⌉ = ⌊x⌋ + 1 := by
  refine le_antisymm (Int.ceil_le_floor_add_one x) (Int.lt_of_not_ge fun level => fractional ?_)
  have low : x ≤ ⌊x⌋ := (Int.le_ceil x).trans (Int.cast_le.mpr level)
  exact ⟨⌊x⌋, le_antisymm low (Int.floor_le x)⟩

/-- Casting after adding a whole number differs from casting before it when zero lies
between the two. -/
theorem truncate_add_iff (n : Int) :
    truncate (n + x) = n + truncate x ↔ Whole x ∨ SameSide x (n + x) := by
  by_cases whole : Whole x
  · refine iff_of_true ?_ (Or.inl whole)
    obtain ⟨m, rfl⟩ := whole
    rw [← Int.cast_add, truncate_intCast, truncate_intCast]
  · have ceil := ceil_eq_succ whole
    have nonzero : x ≠ 0 := fun zero => whole ⟨0, by rw [zero, Int.cast_zero]⟩
    have sum : (n + x : ℚ) ≠ 0 := fun zero => whole ⟨-n, by push_cast; linarith⟩
    rcases le_total 0 x with right | left <;> rcases le_total 0 (n + x : ℚ) with above | below
    · refine iff_of_true ?_ (Or.inr (Or.inl ⟨right, above⟩))
      rw [truncate_of_nonneg above, truncate_of_nonneg right, Int.floor_intCast_add]
    · refine iff_of_false ?_ ?_
      · rw [truncate_of_nonpos below, truncate_of_nonneg right, Int.ceil_intCast_add]
        omega
      · rintro (same | ⟨-, upper⟩ | ⟨lower, -⟩)
        · exact whole same
        · exact sum (le_antisymm below upper)
        · exact nonzero (le_antisymm lower right)
    · refine iff_of_false ?_ ?_
      · rw [truncate_of_nonneg above, truncate_of_nonpos left, Int.floor_intCast_add]
        omega
      · rintro (same | ⟨upper, -⟩ | ⟨-, lower⟩)
        · exact whole same
        · exact nonzero (le_antisymm left upper)
        · exact sum (le_antisymm lower above)
    · refine iff_of_true ?_ (Or.inr (Or.inr ⟨left, below⟩))
      rw [truncate_of_nonpos below, truncate_of_nonpos left, Int.ceil_intCast_add]

/-! ### Rounded sums -/

variable {double : ℚ → ℚ}

/-- What fits in a column has few digits. -/
theorem digits_of_fits (rounding : Rounding double) (fits : Fits (double x)) : |x| ≤ 2 ^ 53 := by
  have limits := INT32_range
  obtain ⟨low, high⟩ := fits
  refine rounding.digits_of_round (abs_lt.mpr ⟨lt_of_not_ge fun below => ?_,
    lt_of_not_ge fun above => ?_⟩)
  · have far : truncate (double x) ≤ -2 ^ 53 := truncate_le (by push_cast; exact below)
    omega
  · have far : 2 ^ 53 ≤ truncate (double x) := le_truncate (by push_cast; exact above)
    omega

/-- Rounding changes the whole part only by reaching the next whole number. -/
theorem truncate_double_iff (rounding : Rounding double) (digits : |x| ≤ 2 ^ 53)
    (fractional : ¬ Whole x) : truncate (double x) = truncate x ↔ ¬ Outward double x := by
  have ceil : (⌈x⌉ : ℚ) = ⌊x⌋ + 1 := by exact_mod_cast ceil_eq_succ fractional
  obtain ⟨low, high⟩ := rounding.between digits
  rw [Outward]
  rcases le_or_gt 0 x with right | left
  · have above : (0 : ℚ) ≤ double x :=
      le_trans (Int.cast_nonneg (Int.floor_nonneg.mpr right)) low
    rw [truncate_of_nonneg above, truncate_of_nonneg right, if_pos right, Int.floor_eq_iff, ← ceil]
    exact ⟨fun inside => ne_of_lt inside.2, fun other => ⟨low, lt_of_le_of_ne high other⟩⟩
  · have below : double x ≤ 0 := by
      have limit : ⌈x⌉ ≤ 0 := Int.ceil_le.mpr (by exact_mod_cast left.le)
      exact high.trans (Int.cast_nonpos.mpr limit)
    rw [truncate_of_nonpos below, truncate_of_nonpos left.le, if_neg (not_le.mpr left),
      Int.ceil_eq_iff, ceil, add_sub_cancel_right, ← ceil]
    exact ⟨fun inside => ne_of_gt inside.1, fun other => ⟨lt_of_le_of_ne low (Ne.symm other), high⟩⟩

/-- Casting after adding a whole number and rounding. -/
theorem truncate_double_add_iff (rounding : Rounding double) (n : Int)
    (digits : |n + x| ≤ 2 ^ 53) :
    truncate (double (n + x)) = n + truncate x ↔
      Whole x ∨ (SameSide x (n + x) ↔ ¬ Outward double (n + x)) := by
  by_cases whole : Whole x
  · refine iff_of_true ?_ (Or.inl whole)
    obtain ⟨m, rfl⟩ := whole
    have small : |n + m| ≤ 2 ^ 53 := by exact_mod_cast digits
    rw [← Int.cast_add, rounding.whole small, truncate_intCast, truncate_intCast]
  · have fractional : ¬ Whole (n + x : ℚ) := by
      rintro ⟨m, sum⟩
      exact whole ⟨m - n, by push_cast; linarith⟩
    have sides := truncate_add_iff (x := x) n
    have rounded := truncate_double_iff rounding digits fractional
    rw [or_iff_right whole] at sides ⊢
    rw [← sides, ← rounded]
    -- Each of the three is one of the two whole numbers around the sum.
    have next := ceil_eq_succ fractional
    obtain ⟨low, high⟩ := rounding.between digits
    have low₁ := le_truncate low
    have high₁ := truncate_le high
    have low₂ := le_truncate (Int.floor_le (n + x : ℚ))
    have high₂ := truncate_le (Int.le_ceil (n + x : ℚ))
    have low₃ := le_truncate (Int.floor_le x)
    have high₃ := truncate_le (Int.le_ceil x)
    rw [Int.floor_intCast_add] at *
    rw [Int.ceil_intCast_add] at *
    omega

/-- The frequency of a row that exists. -/
theorem cast_updated_iff (rounding : Rounding double) {frequency : ℚ} {n : Int}
    (fits : Fits (double (frequency + n))) :
    ((truncate (double (frequency + n)) : Int) : ℚ) = frequency + n ↔ Whole frequency := by
  constructor
  · intro same
    exact ⟨truncate (double (frequency + n)) - n, by push_cast; linarith⟩
  · rintro ⟨m, rfl⟩
    have digits := digits_of_fits rounding fits
    rw [← Int.cast_add] at digits ⊢
    rw [rounding.whole (by exact_mod_cast digits), truncate_intCast]

/-- The frequency of a new row. -/
theorem cast_created_iff (rounding : Rounding double) {frequency : ℚ}
    (fits : Fits (double (frequency + x))) :
    ((truncate (double (frequency + x)) : Int) : ℚ) = frequency + truncate x ↔
      Whole frequency ∧
        (Whole x ∨ (SameSide x (frequency + x) ↔ ¬ Outward double (frequency + x))) := by
  have digits := digits_of_fits rounding fits
  constructor
  · intro same
    have whole : Whole frequency :=
      ⟨truncate (double (frequency + x)) - truncate x, by push_cast; linarith⟩
    refine ⟨whole, ?_⟩
    obtain ⟨m, rfl⟩ := whole
    exact (truncate_double_add_iff rounding m digits).mp (by exact_mod_cast same)
  · rintro ⟨⟨m, rfl⟩, agree⟩
    exact_mod_cast (truncate_double_add_iff rounding m digits).mpr agree

end Casts

/-! ## The mirror -/

section Mirror

variable {out : Outside} {s : Shared}

/-- The rows that the first loop leaves. -/
def remaining (s : Shared) : List Row := s.model.filter fun row => !gone s row

theorem mem_remaining {row : Row} : row ∈ remaining s ↔
    row ∈ s.model ∧ (row.wid ∈ s.xlaters.map Prod.fst ∨ row.wid = -1) := by
  rw [remaining, List.mem_filter, gone, Bool.not_not, Bool.or_eq_true, decide_eq_true_eq,
    Sync.isSome_lookup]

/-- The first loop keeps the rows of the xlaters. -/
theorem mem_keys_remaining (out : Outside) {wid : Int} (listed : wid ∈ s.xlaters.map Prod.fst) :
    wid ∈ (sync out s).keys (remaining s) ↔ wid ∈ s.model.map Row.wid := by
  rw [Sync.mem_keys, List.mem_map]
  constructor
  · rintro ⟨row, member, same⟩
    exact ⟨row, (mem_remaining.mp member).1, same⟩
  · rintro ⟨row, member, rfl⟩
    exact ⟨row, mem_remaining.mpr ⟨member, Or.inl listed⟩, rfl⟩

theorem nodup_remaining (distinct : (s.model.map Row.wid).Nodup) :
    ((sync out s).keys (remaining s)).Nodup :=
  distinct.sublist (List.filter_sublist.map Row.wid)

/-- The callback as a whole. -/
theorem xlater_cb_synced (gtk : ∀ x, out.gint x = column x)
    (distinct : (s.model.map Row.wid).Nodup) (apart : (s.xlaters.map Prod.fst).Nodup)
    {rounds : Nat} (enough : s.model.length < rounds) :
    xlater_cb rounds out s =
      if s.xlaters.all ((sync out s).can (remaining s)) then
        some { s with model := (sync out s).synced (remaining s) s.xlaters }
      else none := by
  rw [xlater_cb, sweep_eq enough]
  refine (foldlM_showXlater s gtk s.xlaters (remaining s)).trans ?_
  rw [Sync.putAll_eq (nodup_remaining distinct) apart]
  split <;> rfl

theorem other_refresh (row : Row) :
    Row.other ((sync out s).refresh s.xlaters row) = Row.other row := by
  unfold Sync.refresh
  split <;> rfl

/-- The casts of one xlater's row agree. -/
def Agrees (out : Outside) (s : Shared) (wid : Int) (xl : Xlater) : Prop :=
  Whole s.frequency ∧ (wid ∈ s.model.map Row.wid ∨ CastsAgree out s xl)

theorem fits_present {entry : Int × Xlater} (present : entry.1 ∈ (sync out s).keys (remaining s))
    (can : (sync out s).can (remaining s) entry) :
    Fits (out.double (s.frequency + truncate (s.place out entry.2))) := by
  rw [Sync.can, if_pos present, sync, decide_eq_true_eq] at can
  exact can.2

theorem fits_absent {entry : Int × Xlater} (absent : entry.1 ∉ (sync out s).keys (remaining s))
    (can : (sync out s).can (remaining s) entry) :
    Fits (out.double (s.frequency + s.place out entry.2)) := by
  rw [Sync.can, if_neg absent, sync, decide_eq_true_eq] at can
  exact can.2.2.2.2.2

/-- The row of an xlater is at its place. -/
theorem places_of_agrees (rounding : Rounding out.double) (apart : (s.xlaters.map Prod.fst).Nodup)
    (can : ∀ entry ∈ s.xlaters, (sync out s).can (remaining s) entry)
    (agrees : ∀ entry ∈ s.xlaters, Agrees out s entry.1 entry.2) :
    ∀ row ∈ (sync out s).synced (remaining s) s.xlaters, ∀ xl,
      s.xlaters.lookup row.wid = some xl →
      row.offset = truncate (s.place out xl) ∧ (row.freq : ℚ) = s.frequency + row.offset := by
  intro row member xl found
  obtain ⟨before, after, parts, -⟩ := List.lookup_eq_some_iff.mp found
  have entry : (row.wid, xl) ∈ s.xlaters := by
    rw [parts]
    exact List.mem_append_right _ List.mem_cons_self
  obtain ⟨whole, casts⟩ := agrees _ entry
  rcases Sync.mem_synced apart member found with ⟨old, was, same, changed⟩ | ⟨absent, created⟩
  · have present : row.wid ∈ (sync out s).keys (remaining s) :=
      Sync.mem_keys.mpr ⟨old, was, same⟩
    rw [changed]
    exact ⟨rfl, (cast_updated_iff rounding (fits_present present (can _ entry))).mpr whole⟩
  · have listed : row.wid ∈ s.xlaters.map Prod.fst := List.mem_map_of_mem entry
    have missing : row.wid ∉ s.model.map Row.wid :=
      fun present => absent ((mem_keys_remaining out listed).mpr present)
    have agree := casts.resolve_left missing
    rw [created]
    exact ⟨rfl, (cast_created_iff rounding (fits_absent absent (can _ entry))).mpr ⟨whole, agree⟩⟩

theorem agrees_of_mirrors (rounding : Rounding out.double)
    (apart : (s.xlaters.map Prod.fst).Nodup)
    (can : ∀ entry ∈ s.xlaters, (sync out s).can (remaining s) entry)
    (mirrors : Mirrors out s { s with model := (sync out s).synced (remaining s) s.xlaters }) :
    ∀ entry ∈ s.xlaters, Agrees out s entry.1 entry.2 := by
  intro entry member
  have listed : entry.1 ∈ s.xlaters.map Prod.fst := List.mem_map_of_mem member
  have found := Sync.lookup_eq_some apart member
  rcases Sync.synced_of_mem (sync out s) (remaining s) apart member with
    ⟨old, was, same, shown⟩ | ⟨absent, shown⟩
  · have keyed : ((sync out s).change entry.1 entry.2 old).wid = entry.1 := same
    have fits := fits_present (Sync.mem_keys.mpr ⟨old, was, same⟩) (can entry member)
    obtain ⟨-, freq⟩ := mirrors.places _ shown entry.2 (keyed ▸ found)
    exact ⟨(cast_updated_iff rounding fits).mp freq,
      Or.inl (List.mem_map.mpr ⟨old, (mem_remaining.mp was).1, same⟩)⟩
  · have fits := fits_absent absent (can entry member)
    obtain ⟨-, freq⟩ := mirrors.places _ shown entry.2 found
    obtain ⟨whole, casts⟩ := (cast_created_iff rounding fits).mp freq
    exact ⟨whole, Or.inr casts⟩

/-- Everything but the places holds whenever the callback returns. -/
theorem mirrors_of_agrees (rounding : Rounding out.double)
    (distinct : (s.model.map Row.wid).Nodup) (apart : (s.xlaters.map Prod.fst).Nodup)
    (can : ∀ entry ∈ s.xlaters, (sync out s).can (remaining s) entry)
    (agrees : ∀ entry ∈ s.xlaters, Agrees out s entry.1 entry.2) :
    Mirrors out s { s with model := (sync out s).synced (remaining s) s.xlaters } where
  rest := rfl
  keys wid worker := by
    refine (Sync.mem_keys_synced (sync out s)).trans ⟨?_, Or.inr⟩
    rintro (kept | listed)
    · obtain ⟨row, member, rfl⟩ := Sync.mem_keys.mp kept
      exact (mem_remaining.mp member).2.resolve_right worker
    · exact listed
  once := Sync.nodup_keys_synced (sync out s) (nodup_remaining distinct) apart
  kept := by
    have same : (remaining s).map Row.other =
        ((remaining s).map ((sync out s).refresh s.xlaters)).map Row.other := by
      rw [List.map_map]
      exact List.map_congr_left fun row _ => (other_refresh row).symm
    rw [← remaining, same]
    exact Sync.prefix_synced.map Row.other
  places := places_of_agrees rounding apart can agrees

/-- Whether an xlater's row can be shown, by the original rows. -/
theorem can_iff (out : Outside) {entry : Int × Xlater} (listed : entry.1 ∈ s.xlaters.map Prod.fst) :
    (sync out s).can (remaining s) entry ∧ Agrees out s entry.1 entry.2 ↔
      Fit out s entry.1 entry.2 := by
  have present := mem_keys_remaining out listed
  rw [Sync.can, Agrees, Fit]
  by_cases shown : entry.1 ∈ s.model.map Row.wid
  · rw [if_pos (present.mpr shown), if_pos shown]
    simp only [sync, decide_eq_true_eq, shown, true_or, and_true]
    tauto
  · rw [if_neg (mt present.mp shown), if_neg shown]
    simp only [sync, decide_eq_true_eq, shown, false_or]
    tauto

theorem Shows.fit (rounding : Rounding out.double) (gtk : ∀ x, out.gint x = column x)
    (distinct : (s.model.map Row.wid).Nodup) (apart : (s.xlaters.map Prod.fst).Nodup)
    (mirrored : Shows out s) :
    ∀ entry ∈ s.xlaters, Fit out s entry.1 entry.2 := by
  obtain ⟨t, ends, mirrors⟩ := mirrored
  have returned := ends (s.model.length + 1) (Nat.lt_succ_self _)
  rw [xlater_cb_synced gtk distinct apart (Nat.lt_succ_self _)] at returned
  split at returned
  · rename_i all
    have can := List.all_eq_true.mp all
    obtain rfl := Option.some.inj returned
    intro entry member
    exact (can_iff out (List.mem_map_of_mem member)).mp
      ⟨can entry member, agrees_of_mirrors rounding apart can mirrors entry member⟩
  · cases returned

/-- The list mirrors the xlaters exactly when each of them fits. -/
theorem shows_iff (rounding : Rounding out.double) (gtk : ∀ x, out.gint x = column x)
    (distinct : (s.model.map Row.wid).Nodup) (apart : (s.xlaters.map Prod.fst).Nodup) :
    Shows out s ↔ ∀ entry ∈ s.xlaters, Fit out s entry.1 entry.2 := by
  refine ⟨Shows.fit rounding gtk distinct apart, fun fit => ?_⟩
  have both (entry : Int × Xlater) (member : entry ∈ s.xlaters) :=
    (can_iff out (List.mem_map_of_mem member)).mpr (fit entry member)
  have can (entry : Int × Xlater) (member : entry ∈ s.xlaters) := (both entry member).1
  refine ⟨_, fun rounds enough => ?_, mirrors_of_agrees rounding distinct apart can
    fun entry member => (both entry member).2⟩
  rw [xlater_cb_synced gtk distinct apart enough, if_pos (List.all_eq_true.mpr can)]

end Mirror

/-! ## Some lists -/

def gtk : Outside := { XlatersLock.outside with gint := column }

/-- One xlater, without its row. -/
def unlisted (samplerate : Int) (rotate : ℚ) (decimation : Int) : Shared :=
  { XlatersLock.oneXlater with
    samplerate := samplerate
    xlaters := [(0, ⟨rotate, decimation, none, some true, .new⟩)]
    model := [] }

/-- The row of a running xlater is kept, those of two others are deleted, and an xlater
above the centre is new. -/
def stale : Shared :=
  { XlatersLock.oneXlater with
    xlaters := [(0, ⟨0, 40, none, some true, .new⟩), (3, ⟨-1, 80, none, none, .new⟩)]
    model := [⟨5, 7, "hamming".toList, 2, 3, false, false, 9⟩,
      ⟨0, 1, "rcos".toList, 20, 25600, true, false, 100000001⟩,
      ⟨6, 7, "hamming".toList, 2, 3, false, false, 9⟩] }

theorem shows_stale : Shows gtk stale :=
  (shows_iff Doubles.rounding_nearest (fun _ => rfl) (by decide) (by decide)).mpr
    (by decide +kernel)

/-- An xlater that does not fit is not shown. -/
theorem not_shows {s : Shared} (distinct : (s.model.map Row.wid).Nodup)
    (apart : (s.xlaters.map Prod.fst).Nodup)
    (unfit : ¬ ∀ entry ∈ s.xlaters, Fit gtk s entry.1 entry.2) : ¬ Shows gtk s :=
  fun mirrored =>
    unfit (Shows.fit Doubles.rounding_nearest (fun _ => rfl) distinct apart mirrored)

/-- Half a hertz below the centre a new row has the offset 0 and one hertz less than the
centre frequency; an eighth of the rate above it the offset is 255999.99999999997, and the
frequency is rounded up; an announced decimation of 0 is an exception, and so is a
frequency above 2147 MHz. -/
theorem not_shows_half : ¬ Shows gtk (unlisted 2 (gtk.pi / 2) 1) ∧
    ¬ Shows gtk (unlisted 2048000 (-gtk.pi / 4) 40) ∧
    ¬ Shows gtk (unlisted 2048000 0 0) ∧
    ¬ Shows gtk { XlatersLock.oneXlater with frequency := 2400000000 } :=
  ⟨not_shows (by decide) (by decide) (by decide +kernel),
    not_shows (by decide) (by decide) (by decide +kernel),
    not_shows (by decide) (by decide) (by decide +kernel),
    not_shows (by decide) (by decide) (by decide +kernel)⟩

end Kukuruku.Clients.ListMirror
