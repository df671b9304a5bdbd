import Mathlib.Algebra.Order.Archimedean.Basic
import Mathlib.Tactic.NormNum
import Mathlib.Tactic.Positivity
import Kukuruku.Foundation.Doubles
import Kukuruku.Clients.XlaterPanel

/-!
# The length of a designed filter

`getfir` searches for a transition band that makes a Hamming window filter short
enough, and limits the length that it asks of a raised cosine filter.  The designs
themselves are those of GNU Radio.
-/

namespace Kukuruku.Clients.FilterDesign

open Kukuruku.Clients.XlaterPanel

/-- The least odd number that is not below `ntaps`. -/
def roundOdd (ntaps : ℚ) : Int := 2 * ⌈(ntaps - 1) / 2⌉ + 1

/-- What the designs are known to return. -/
structure Firdes (out : Outside) (samplerate : Int) (bw : ℚ) (maxtaps : Int) : Prop where
  low_pass : ∀ transition > 0, ∃ coefs, out.low_pass samplerate bw transition = some coefs
  short : ∃ bound, ∀ transition ≥ bound, ∀ coefs,
    out.low_pass samplerate bw transition = some coefs → (coefs.length : Int) < maxtaps
  root_raised_cosine : ∀ ntaps > 0, ∃ coefs,
    out.root_raised_cosine samplerate bw ntaps = some coefs ∧ (coefs.length : Int) = roundOdd ntaps

/-- The same filter after however many rounds from some number on, within the limit. -/
def Designs (out : Outside) (samplerate : Int) (filtertype : List Char) (bw transition : ℚ)
    (maxtaps : Int) : Prop :=
  ∃ rounds coefs, (coefs.length : Int) ≤ maxtaps ∧ ∀ more,
    getfir { out with rounds := rounds + more } samplerate filtertype bw transition maxtaps =
      some coefs

/-! ## The search -/

section Search

variable {out : Outside} {samplerate : Int} {bw : ℚ} {maxtaps : Int}

theorem lowPass_rounds (limit rounds : Nat) (transition : ℚ) :
    lowPass { out with rounds := limit } samplerate bw maxtaps rounds transition =
      lowPass out samplerate bw maxtaps rounds transition := by
  induction rounds generalizing transition with
  | zero => rfl
  | succ rounds ih => simp only [lowPass, ih]

/-- Every round widens the band by more than one. -/
theorem lowPass_ends (firdes : Firdes out samplerate bw maxtaps) {bound : ℚ}
    (short : ∀ transition ≥ bound, ∀ coefs,
      out.low_pass samplerate bw transition = some coefs → (coefs.length : Int) < maxtaps)
    (rounds : Nat) {transition : ℚ} (positive : 0 < transition)
    (near : bound ≤ transition + rounds) :
    ∃ coefs, lowPass out samplerate bw maxtaps (rounds + 1) transition = some coefs ∧
      (coefs.length : Int) < maxtaps := by
  induction rounds generalizing transition with
  | zero =>
      obtain ⟨coefs, designed⟩ := firdes.low_pass transition positive
      have enough := short transition (by rw [Nat.cast_zero, add_zero] at near; exact near)
        coefs designed
      refine ⟨coefs, ?_, enough⟩
      simp only [lowPass, designed, Option.bind_eq_bind, Option.bind_some, if_pos enough, pure]
  | succ rounds ih =>
      obtain ⟨coefs, designed⟩ := firdes.low_pass transition positive
      rw [lowPass, designed, Option.bind_eq_bind, Option.bind_some]
      split
      · rename_i enough
        exact ⟨coefs, rfl, enough⟩
      · refine ih (by positivity) ?_
        push_cast at near
        linarith

/-- The search ends, whatever the limit on its rounds, as long as it is large enough. -/
theorem designs_hamming (firdes : Firdes out samplerate bw maxtaps) {transition : ℚ}
    (positive : 0 < transition) :
    Designs out samplerate "hamming".toList bw transition maxtaps := by
  obtain ⟨bound, short⟩ := firdes.short
  obtain ⟨rounds, near⟩ := exists_nat_ge (bound - transition)
  obtain ⟨coefs, ended, enough⟩ :=
    lowPass_ends firdes short rounds positive (by linarith)
  refine ⟨rounds + 1, coefs, enough.le, fun more => ?_⟩
  rw [getfir, if_pos rfl, lowPass_rounds]
  exact lowPass_add out samplerate bw maxtaps ended more

end Search

/-! ## The limit -/

section Limit

variable {out : Outside} {samplerate : Int} {bw : ℚ} {maxtaps : Int}

theorem Firdes.maxtaps_pos (firdes : Firdes out samplerate bw maxtaps) : 0 < maxtaps := by
  obtain ⟨bound, short⟩ := firdes.short
  obtain ⟨coefs, designed⟩ := firdes.low_pass (max bound 1) (by positivity)
  have limited := short _ (le_max_left bound 1) coefs designed
  omega

theorem roundOdd_le_iff {ntaps : ℚ} {limit : Int} :
    roundOdd ntaps ≤ limit ↔ ntaps ≤ (if limit % 2 = 1 then limit else limit - 1 : Int) := by
  have half : roundOdd ntaps ≤ limit ↔ ⌈(ntaps - 1) / 2⌉ ≤ (limit - 1) / 2 := by
    rw [roundOdd]
    omega
  have bound : ((limit - 1) / 2 : Int) * 2 + 1 = if limit % 2 = 1 then limit else limit - 1 := by
    split <;> omega
  rw [half, Int.ceil_le, ← bound]
  push_cast
  constructor <;> intro below <;> linarith

/-- An even limit is exceeded by one when it is asked for. -/
theorem designs_rcos_iff (firdes : Firdes out samplerate bw maxtaps) {transition : ℚ}
    (positive : 0 < transition) : Designs out samplerate "rcos".toList bw transition maxtaps ↔
      maxtaps % 2 = 1 ∨ transition ≤ maxtaps - 1 := by
  have limited : 0 < min (maxtaps : ℚ) transition :=
    lt_min (Int.cast_pos.mpr firdes.maxtaps_pos) positive
  obtain ⟨coefs, designed, length⟩ := firdes.root_raised_cosine _ limited
  have result (rounds : Nat) : getfir { out with rounds := rounds } samplerate "rcos".toList bw
      transition maxtaps = some coefs := by
    rw [getfir, if_neg (by decide), if_pos rfl, ← min_def_lt]
    exact designed
  have fits : Designs out samplerate "rcos".toList bw transition maxtaps ↔
      (coefs.length : Int) ≤ maxtaps := by
    constructor
    · rintro ⟨rounds, found, short, same⟩
      obtain rfl := Option.some.inj ((result (rounds + 0)).symm.trans (same 0))
      exact short
    · exact fun short => ⟨0, coefs, short, fun more => result (0 + more)⟩
  rw [fits, length, roundOdd_le_iff, min_le_iff, Int.cast_le]
  split
  · rename_i odd
    exact iff_of_true (Or.inl (Int.le_refl _)) (Or.inl odd)
  · rename_i even
    push_cast
    exact or_congr (iff_of_false (by omega) even) Iff.rfl

end Limit

/-! ## All filter types -/

theorem not_designs_unknown (out : Outside) (samplerate : Int) {filtertype : List Char}
    (bw transition : ℚ) (maxtaps : Int)
    (unknown : filtertype ≠ "hamming".toList ∧ filtertype ≠ "rcos".toList) :
    ¬ Designs out samplerate filtertype bw transition maxtaps := by
  rintro ⟨rounds, coefs, -, designed⟩
  have raised := designed 0
  rw [getfir_unknown _ _ _ _ _ unknown] at raised
  cases raised

/-- `getfir` returns a filter within the limit exactly for the Hamming window, and for
the raised cosine unless it asks for an even limit. -/
theorem designs_iff {out : Outside} {samplerate : Int} {bw transition : ℚ} {maxtaps : Int}
    (firdes : Firdes out samplerate bw maxtaps) (positive : 0 < transition)
    (filtertype : List Char) :
    Designs out samplerate filtertype bw transition maxtaps ↔
      filtertype = "hamming".toList ∨ filtertype = "rcos".toList ∧
        (maxtaps % 2 = 1 ∨ transition ≤ maxtaps - 1) := by
  by_cases hamming : filtertype = "hamming".toList
  · subst hamming
    exact iff_of_true (designs_hamming firdes positive) (Or.inl rfl)
  · by_cases rcos : filtertype = "rcos".toList
    · subst rcos
      rw [designs_rcos_iff firdes positive]
      refine ⟨fun limit => Or.inr ⟨rfl, limit⟩, ?_⟩
      rintro (window | ⟨-, limit⟩)
      · exact absurd window hamming
      · exact limit
    · refine iff_of_false (not_designs_unknown out samplerate bw transition maxtaps
        ⟨hamming, rcos⟩) ?_
      rintro (window | ⟨cosine, -⟩)
      · exact hamming window
      · exact rcos cosine

/-! ## The lengths of GNU Radio -/

/-- A Hamming window has `53 / 22` taps for each transition band in the sampling rate,
and one more if that is even. -/
def windowLength (samplerate : Int) (transition : ℚ) : Nat :=
  ⌊53 * samplerate / (22 * transition)⌋.toNat / 2 * 2 + 1

/-- Filters of the documented lengths. -/
def documented : Outside where
  pi := 355 / 113
  double := Doubles.nearest
  int _ := none
  float _ := none
  str _ := []
  gint _ := none
  low_pass samplerate _ transition := some (List.replicate (windowLength samplerate transition) 0)
  root_raised_cosine _ _ ntaps := some (List.replicate (roundOdd ntaps).toNat 0)
  rounds := 0

theorem roundOdd_pos {ntaps : ℚ} (positive : 0 < ntaps) : 0 < roundOdd ntaps := by
  have above : -1 < ⌈(ntaps - 1) / 2⌉ := Int.lt_ceil.mpr (by push_cast; linarith)
  rw [roundOdd]
  omega

theorem firdes_documented {samplerate : Int} (rate : 0 < samplerate) (bw : ℚ) {maxtaps : Int}
    (limit : 1 < maxtaps) : Firdes documented samplerate bw maxtaps where
  low_pass transition _ := ⟨_, rfl⟩
  short := by
    refine ⟨53 * samplerate, fun transition wide coefs designed => ?_⟩
    have positive : (0 : ℚ) < samplerate := Int.cast_pos.mpr rate
    have none : ⌊53 * samplerate / (22 * transition)⌋ < 1 := by
      rw [Int.floor_lt, div_lt_iff₀ (by linarith)]
      push_cast
      linarith
    obtain rfl := Option.some.inj designed
    rw [List.length_replicate, windowLength]
    omega
  root_raised_cosine ntaps positive := by
    refine ⟨_, rfl, ?_⟩
    rw [List.length_replicate, Int.toNat_of_nonneg (roundOdd_pos positive).le]

/-- A Hamming window of 1 kHz, and the longest raised cosine that the server admits. -/
theorem designs_iff_documented :
    Designs documented 2048000 "hamming".toList 10000 1000 4096 ∧
      Designs documented 2048000 "rcos".toList 10000 4095 4096 := by
  have firdes : Firdes documented 2048000 10000 4096 :=
    firdes_documented (by decide) 10000 (by decide)
  exact ⟨(designs_iff firdes (by norm_num) _).mpr (Or.inl rfl),
    (designs_iff firdes (by norm_num) _).mpr (Or.inr ⟨rfl, Or.inr (by norm_num)⟩)⟩

/-- The limit itself gives one tap more; the type that the description calls `window`
is not known. -/
theorem not_designs_limit : ¬ Designs documented 2048000 "rcos".toList 10000 4096 4096 ∧
    ¬ Designs documented 2048000 "window".toList 10000 1000 4096 := by
  refine ⟨fun designs => ?_, not_designs_unknown _ _ _ _ _ (by decide)⟩
  have firdes : Firdes documented 2048000 10000 4096 :=
    firdes_documented (by decide) 10000 (by decide)
  rcases (designs_rcos_iff firdes (by norm_num)).mp designs with odd | short
  · exact absurd odd (by decide)
  · norm_num at short

end Kukuruku.Clients.FilterDesign
