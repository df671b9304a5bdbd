import Mathlib.Data.Int.Cast.Lemmas
import Mathlib.Data.List.Basic
import Mathlib.Data.Rat.Floor
import Mathlib.Tactic.Linarith
import Mathlib.Tactic.NormNum
import Kukuruku.Foundation.Truncate

/-!
# The gain of a frame

`compute_histogram` counts the numbers of a buffer, real and imaginary parts alike,
in 100 bins, and `update_and_set_gain` moves the gain of a frame by what it finds in
the upper ones.  Numbers are exact; those below zero fall into the lowest bin.
-/

namespace Kukuruku.Scanner.GainControl

variable {K : Type*} [Field K] [LinearOrder K] [FloorRing K]

/-! ## The functions -/

/-- `np.clip`, which lets the upper bound win. -/
def clip (x lower upper : Int) : Int := min (max x lower) upper

/-- The bin of a number. -/
def bin (x : K) : Int := clip (truncate (x * ((99 : Nat) : K))) 0 99

/-- Compute histogram with 100 bins (hardcoded for now). -/
def compute_histogram (buf : List K) : List Nat :=
  buf.foldl (fun acc x => acc.modify (bin x).toNat (· + 1)) (List.replicate 100 0)

/-- `diff`: the second test overrides the first one. -/
def diff (histo : List Nat) : Int :=
  if (histo.drop (histo.length - 50)).sum = 0 then 1
  else if 0 < (histo.drop (histo.length - 10)).sum then -1
  else 0

/-- The limits of the configuration. -/
structure Limits where
  mingain : Int
  maxgain : Int

variable (limits : Limits)

def update_and_set_gain (gain : Int) (histo : List Nat) : Int :=
  clip (gain + diff histo) limits.mingain limits.maxgain

/-- The gain of a frame after its buffers. -/
def gainAfter (gain : Int) (bufs : List (List K)) : Int :=
  bufs.foldl (fun gain buf => update_and_set_gain limits gain (compute_histogram buf)) gain

/-! ## What the histogram tells -/

/-- Some number of the buffer lies in the highest ten bins. -/
def Loud (buf : List K) : Prop := ∃ x ∈ buf, ((90 : Nat) : K) ≤ x * ((99 : Nat) : K)

/-- No number of the buffer lies in the upper half. -/
def Quiet (buf : List K) : Prop := ∀ x ∈ buf, x * ((99 : Nat) : K) < ((50 : Nat) : K)

instance (buf : List K) : Decidable (Loud buf) :=
  inferInstanceAs (Decidable (∃ x ∈ buf, ((90 : Nat) : K) ≤ x * ((99 : Nat) : K)))

instance (buf : List K) : Decidable (Quiet buf) :=
  inferInstanceAs (Decidable (∀ x ∈ buf, x * ((99 : Nat) : K) < ((50 : Nat) : K)))

section Clip

theorem clip_le (x lower upper : Int) : clip x lower upper ≤ upper := min_le_right _ _

theorem le_clip {lower upper : Int} (order : lower ≤ upper) (x : Int) :
    lower ≤ clip x lower upper :=
  le_min (le_max_right _ _) order

theorem clip_mono {x y : Int} (le : x ≤ y) (lower upper : Int) :
    clip x lower upper ≤ clip y lower upper :=
  min_le_min_right _ (max_le_max_right _ le)

theorem clip_of_mem {x lower upper : Int} (low : lower ≤ x) (high : x ≤ upper) :
    clip x lower upper = x := by
  rw [clip, max_eq_left low, min_eq_left high]

end Clip

/-- Number by number, one buffer is at most as loud as another. -/
def Softer (soft loud : List K) : Prop := List.Forall₂ (· ≤ ·) soft loud

section Softer

variable {K : Type*} [Field K] [LinearOrder K] [IsStrictOrderedRing K]

theorem Softer.loud {soft loud : List K} (softer : Softer soft loud) (high : Loud soft) :
    Loud loud := by
  induction softer with
  | nil => exact high
  | @cons x y soft loud le _ ih =>
      obtain ⟨z, member, above⟩ := high
      rcases List.mem_cons.mp member with rfl | later
      · have scaled := mul_le_mul_of_nonneg_right le (Nat.cast_nonneg (α := K) 99)
        exact ⟨y, List.mem_cons_self, above.trans scaled⟩
      · obtain ⟨w, other, high⟩ := ih ⟨z, later, above⟩
        exact ⟨w, List.mem_cons_of_mem y other, high⟩

theorem Softer.quiet {soft loud : List K} (softer : Softer soft loud) (quiet : Quiet loud) :
    Quiet soft := by
  induction softer with
  | nil => exact quiet
  | @cons x y soft loud le _ ih =>
      intro z member
      rcases List.mem_cons.mp member with rfl | later
      · have scaled := mul_le_mul_of_nonneg_right le (Nat.cast_nonneg (α := K) 99)
        exact scaled.trans_lt (quiet y List.mem_cons_self)
      · exact ih (fun w other => quiet w (List.mem_cons_of_mem y other)) z later

end Softer

section Count

/-- Counting one more number adds it to the sum from a place on, if it lies there. -/
theorem sum_drop_modify (counts : List Nat) {place : Nat} (inside : place < counts.length)
    (start : Nat) :
    ((counts.modify place (· + 1)).drop start).sum =
      (counts.drop start).sum + if start ≤ place then 1 else 0 := by
  induction counts generalizing place start with
  | nil => exact absurd inside (Nat.not_lt_zero place)
  | cons count counts ih =>
      cases start with
      | succ start =>
          cases place with
          | zero => simp
          | succ place =>
              have later := ih (Nat.lt_of_succ_lt_succ inside) start
              simpa using later
      | zero =>
          cases place with
          | zero => simp [Nat.add_right_comm]
          | succ place =>
              have later := ih (Nat.lt_of_succ_lt_succ inside) 0
              simp only [List.drop_zero, Nat.zero_le, if_true] at later
              simp [later, Nat.add_assoc]

theorem bin_range (x : K) : 0 ≤ bin x ∧ bin x ≤ 99 :=
  ⟨le_clip (by decide) _, clip_le _ _ _⟩

theorem length_compute_histogram (buf : List K) : (compute_histogram buf).length = 100 := by
  have counted : ∀ counts : List Nat,
      (buf.foldl (fun acc x => acc.modify (bin x).toNat (· + 1)) counts).length =
        counts.length := by
    induction buf with
    | nil => exact fun counts => rfl
    | cons x buf ih =>
        intro counts
        rw [List.foldl_cons, ih, List.length_modify]
  rw [compute_histogram, counted, List.length_replicate]

/-- The counters from a bin on count the numbers of these bins. -/
theorem sum_drop_histogram (buf : List K) (start : Nat) :
    ((compute_histogram buf).drop start).sum =
      buf.countP fun x => decide ((start : Int) ≤ bin x) := by
  have counted : ∀ counts : List Nat, counts.length = 100 →
      ((buf.foldl (fun acc x => acc.modify (bin x).toNat (· + 1)) counts).drop start).sum =
        (counts.drop start).sum + buf.countP fun x => decide ((start : Int) ≤ bin x) := by
    induction buf with
    | nil => exact fun counts _ => rfl
    | cons x buf ih =>
        intro counts hundred
        obtain ⟨low, high⟩ := bin_range x
        have inside : (bin x).toNat < counts.length := by omega
        have place : start ≤ (bin x).toNat ↔ (start : Int) ≤ bin x := by omega
        rw [List.foldl_cons, ih _ (by rw [List.length_modify, hundred]),
          sum_drop_modify counts inside, List.countP_cons]
        simp only [place, decide_eq_true_eq]
        omega
  have zeros : ((List.replicate 100 0).drop start).sum = 0 := by
    rw [List.drop_replicate, List.sum_replicate_nat, Nat.mul_zero]
  rw [compute_histogram, counted _ List.length_replicate, zeros, Nat.zero_add]

variable [IsStrictOrderedRing K]

theorem le_bin_iff (start : Nat) (positive : 0 < start) (below : start ≤ 99) (x : K) :
    (start : Int) ≤ bin x ↔ (start : K) ≤ x * ((99 : Nat) : K) := by
  have inner : (start : Int) ≤ bin x ↔ (start : Int) ≤ truncate (x * ((99 : Nat) : K)) := by
    simp only [bin, clip]
    omega
  rw [inner]
  rcases lt_or_ge (x * ((99 : Nat) : K)) 0 with negative | nonneg
  · have nonpos := truncate_le (k := 0) (x := x * ((99 : Nat) : K)) (by simpa using negative.le)
    have above : (0 : K) < start := Nat.cast_pos.mpr positive
    constructor
    · intro low
      omega
    · intro low
      exact absurd (above.trans_le low) (not_lt.mpr negative.le)
  · rw [truncate_of_nonneg nonneg, Int.le_floor, Int.cast_natCast]

theorem loud_iff (buf : List K) :
    0 < ((compute_histogram buf).drop 90).sum ↔ Loud buf := by
  rw [sum_drop_histogram, List.countP_pos_iff]
  simp only [decide_eq_true_eq, le_bin_iff 90 (by decide) (by decide), Loud]

theorem quiet_iff (buf : List K) :
    ((compute_histogram buf).drop 50).sum = 0 ↔ Quiet buf := by
  rw [sum_drop_histogram, List.countP_eq_zero]
  simp only [decide_eq_true_eq, le_bin_iff 50 (by decide) (by decide), Quiet, not_le]

theorem Loud.not_quiet {buf : List K} (loud : Loud buf) : ¬Quiet buf := by
  intro quiet
  obtain ⟨x, member, high⟩ := loud
  have ordered : ((50 : Nat) : K) ≤ ((90 : Nat) : K) := Nat.cast_le.mpr (by decide)
  exact absurd (quiet x member) (not_lt.mpr (ordered.trans high))

end Count

/-! ## One update -/

section Update

variable [IsStrictOrderedRing K] {limits}

theorem diff_of_loud {buf : List K} (loud : Loud buf) : diff (compute_histogram buf) = -1 := by
  rw [diff, length_compute_histogram, if_neg ((quiet_iff buf).not.mpr loud.not_quiet),
    if_pos ((loud_iff buf).mpr loud)]

theorem diff_of_quiet {buf : List K} (quiet : Quiet buf) : diff (compute_histogram buf) = 1 := by
  rw [diff, length_compute_histogram, if_pos ((quiet_iff buf).mpr quiet)]

theorem diff_of_between {buf : List K} (notLoud : ¬Loud buf) (notQuiet : ¬Quiet buf) :
    diff (compute_histogram buf) = 0 := by
  rw [diff, length_compute_histogram, if_neg ((quiet_iff buf).not.mpr notQuiet),
    if_neg ((loud_iff buf).not.mpr notLoud)]

/-- The louder buffer never asks for more gain. -/
theorem diff_antitone {soft loud : List K} (softer : Softer soft loud) :
    diff (compute_histogram loud) ≤ diff (compute_histogram soft) := by
  by_cases high : Loud loud
  · rw [diff_of_loud high]
    by_cases quiet : Quiet soft
    · rw [diff_of_quiet quiet]
      decide
    · by_cases other : Loud soft
      · rw [diff_of_loud other]
      · rw [diff_of_between other quiet]
        decide
  · by_cases quiet : Quiet loud
    · rw [diff_of_quiet quiet, diff_of_quiet (softer.quiet quiet)]
    · rw [diff_of_between high quiet]
      by_cases other : Quiet soft
      · rw [diff_of_quiet other]
        decide
      · rw [diff_of_between (fun above => high (softer.loud above)) other]

end Update

/-! ## The gain of a frame over its buffers -/

section Control

variable {limits}

/-- What the gain does from one buffer to the next and over many of them. -/
structure Follows (limits : Limits) (gain : Int) (bufs : List (List K)) : Prop where
  inside : bufs ≠ [] →
    limits.mingain ≤ gainAfter limits gain bufs ∧ gainAfter limits gain bufs ≤ limits.maxgain
  slow : limits.mingain ≤ gain → gain ≤ limits.maxgain →
    |gainAfter limits gain bufs - gain| ≤ bufs.length
  loud : limits.mingain ≤ gain → gain ≤ limits.maxgain → (∀ buf ∈ bufs, Loud buf) →
    gainAfter limits gain bufs = max limits.mingain (gain - bufs.length)
  quiet : limits.mingain ≤ gain → gain ≤ limits.maxgain → (∀ buf ∈ bufs, Quiet buf) →
    gainAfter limits gain bufs = min limits.maxgain (gain + bufs.length)
  between : limits.mingain ≤ gain → gain ≤ limits.maxgain →
    (∀ buf ∈ bufs, ¬Loud buf ∧ ¬Quiet buf) → gainAfter limits gain bufs = gain
  antitone : ∀ (other : Int) (others : List (List K)), other ≤ gain →
    List.Forall₂ Softer bufs others → gainAfter limits other others ≤ gainAfter limits gain bufs

theorem abs_diff_le (histo : List Nat) : |diff histo| ≤ 1 := by
  rw [diff]
  split_ifs <;> decide

theorem gainAfter_cons (limits : Limits) (gain : Int) (buf : List K) (bufs : List (List K)) :
    gainAfter limits gain (buf :: bufs) =
      gainAfter limits (update_and_set_gain limits gain (compute_histogram buf)) bufs := rfl

theorem update_inside (order : limits.mingain ≤ limits.maxgain) (gain : Int)
    (histo : List Nat) :
    limits.mingain ≤ update_and_set_gain limits gain histo ∧
      update_and_set_gain limits gain histo ≤ limits.maxgain :=
  ⟨le_clip order _, clip_le _ _ _⟩

theorem gainAfter_inside (order : limits.mingain ≤ limits.maxgain) {gain : Int}
    (low : limits.mingain ≤ gain) (high : gain ≤ limits.maxgain) (bufs : List (List K)) :
    limits.mingain ≤ gainAfter limits gain bufs ∧ gainAfter limits gain bufs ≤ limits.maxgain := by
  induction bufs generalizing gain with
  | nil => exact ⟨low, high⟩
  | cons buf bufs ih =>
      obtain ⟨low, high⟩ := update_inside order gain (compute_histogram buf)
      exact ih low high

theorem gainAfter_slow (order : limits.mingain ≤ limits.maxgain) {gain : Int}
    (low : limits.mingain ≤ gain) (high : gain ≤ limits.maxgain) (bufs : List (List K)) :
    |gainAfter limits gain bufs - gain| ≤ bufs.length := by
  induction bufs generalizing gain with
  | nil => simp [gainAfter]
  | cons buf bufs ih =>
      obtain ⟨lower, higher⟩ := update_inside order gain (compute_histogram buf)
      have later := abs_le.mp (ih lower higher)
      have step := abs_le.mp (abs_diff_le (compute_histogram buf))
      have near : |update_and_set_gain limits gain (compute_histogram buf) - gain| ≤ 1 := by
        rw [update_and_set_gain, clip, abs_le]
        omega
      have first := abs_le.mp near
      rw [gainAfter_cons, List.length_cons, abs_le]
      push_cast
      omega

variable [IsStrictOrderedRing K]

theorem gainAfter_loud (order : limits.mingain ≤ limits.maxgain) {gain : Int}
    (low : limits.mingain ≤ gain) (high : gain ≤ limits.maxgain) {bufs : List (List K)}
    (loud : ∀ buf ∈ bufs, Loud buf) :
    gainAfter limits gain bufs = max limits.mingain (gain - bufs.length) := by
  induction bufs generalizing gain with
  | nil => simp [gainAfter, low]
  | cons buf bufs ih =>
      obtain ⟨lower, higher⟩ := update_inside order gain (compute_histogram buf)
      rw [gainAfter_cons,
        ih lower higher fun other member => loud other (List.mem_cons_of_mem _ member),
        update_and_set_gain, diff_of_loud (loud buf List.mem_cons_self), clip, List.length_cons]
      push_cast
      omega

theorem gainAfter_quiet (order : limits.mingain ≤ limits.maxgain) {gain : Int}
    (low : limits.mingain ≤ gain) (high : gain ≤ limits.maxgain) {bufs : List (List K)}
    (quiet : ∀ buf ∈ bufs, Quiet buf) :
    gainAfter limits gain bufs = min limits.maxgain (gain + bufs.length) := by
  induction bufs generalizing gain with
  | nil => simp [gainAfter, high]
  | cons buf bufs ih =>
      obtain ⟨lower, higher⟩ := update_inside order gain (compute_histogram buf)
      rw [gainAfter_cons, ih lower higher fun other member =>
          quiet other (List.mem_cons_of_mem _ member),
        update_and_set_gain, diff_of_quiet (quiet buf List.mem_cons_self), clip, List.length_cons]
      push_cast
      omega

theorem gainAfter_between {gain : Int} (low : limits.mingain ≤ gain)
    (high : gain ≤ limits.maxgain) {bufs : List (List K)}
    (between : ∀ buf ∈ bufs, ¬Loud buf ∧ ¬Quiet buf) : gainAfter limits gain bufs = gain := by
  induction bufs with
  | nil => rfl
  | cons buf bufs ih =>
      obtain ⟨notLoud, notQuiet⟩ := between buf List.mem_cons_self
      rw [gainAfter_cons, update_and_set_gain, diff_of_between notLoud notQuiet, add_zero,
        clip_of_mem low high]
      exact ih fun other member => between other (List.mem_cons_of_mem _ member)

theorem gainAfter_antitone {gain other : Int} (le : other ≤ gain) {bufs others : List (List K)}
    (softer : List.Forall₂ Softer bufs others) :
    gainAfter limits other others ≤ gainAfter limits gain bufs := by
  induction softer generalizing gain other with
  | nil => exact le
  | cons first _ ih =>
      refine ih (clip_mono ?_ _ _)
      exact add_le_add le (diff_antitone first)

theorem gainAfter_follows (order : limits.mingain ≤ limits.maxgain) (gain : Int)
    (bufs : List (List K)) : Follows limits gain bufs where
  inside nonempty := by
    cases bufs with
    | nil => exact absurd rfl nonempty
    | cons buf bufs =>
        obtain ⟨low, high⟩ := update_inside order gain (compute_histogram buf)
        exact gainAfter_inside order low high bufs
  slow low high := gainAfter_slow order low high bufs
  loud low high all := gainAfter_loud order low high all
  quiet low high all := gainAfter_quiet order low high all
  between low high all := gainAfter_between low high all
  antitone _ _ le softer := gainAfter_antitone le softer

/-- Loud buffers lower the gain to its limit, quiet ones raise it to the other, and those
between leave it; from outside the limits it comes back at once. -/
theorem gainAfter_follows_runs :
    gainAfter ⟨10, 49⟩ 12 [[(1 : Rat), 0], [19 / 20, 1 / 2], [-1, 93 / 100]] = 10 ∧
    gainAfter ⟨10, 49⟩ 48 [[(0 : Rat), 1 / 4], [1 / 2, -1]] = 49 ∧
    gainAfter ⟨10, 49⟩ 30 [[(3 / 4 : Rat), 0], [0, 3 / 5]] = 30 ∧
    |gainAfter ⟨10, 49⟩ 30 [[(1 : Rat), 0], [0, 3 / 5]] - 30| ≤ 2 ∧
    gainAfter ⟨10, 49⟩ 60 [[(1 : Rat), 0], [1 / 2]] ≤ 49 ∧
    gainAfter ⟨10, 49⟩ 29 [[(1 : Rat), 3 / 5], [3 / 5]] ≤
      gainAfter ⟨10, 49⟩ 30 [[(3 / 4 : Rat), 0], [1 / 2]] := by
  have follows (gain : Int) (bufs : List (List Rat)) := gainAfter_follows
    (show (⟨10, 49⟩ : Limits).mingain ≤ (⟨10, 49⟩ : Limits).maxgain by decide) gain bufs
  refine ⟨(follows 12 _).loud (by decide) (by decide) (by decide +kernel),
    (follows 48 _).quiet (by decide) (by decide) (by decide +kernel),
    (follows 30 _).between (by decide) (by decide) (by decide +kernel),
    (follows 30 _).slow (by decide) (by decide), ((follows 60 _).inside (by simp)).2,
    (follows 30 _).antitone 29 _ (by decide) ?_⟩
  simp only [List.forall₂_cons, Softer, List.Forall₂.nil]
  norm_num

end Control

end Kukuruku.Scanner.GainControl
