import Mathlib.Algebra.BigOperators.Fin
import Mathlib.Algebra.BigOperators.Ring.Finset
import Mathlib.Algebra.Ring.Defs
import Mathlib.Tactic.Ring

/-!
# Exact finite impulse response kernels

Dot products, phase rotators and strided loops over an arbitrary commutative
ring of samples.  Rounding is outside the scope of this module: every sum and
product is the exact one.
-/

namespace Kukuruku.Fir

variable {C : Type*} [CommRing C]

/-! ## Dot products -/

/-- The exact dot product of the samples at `src` with the taps. -/
def dotProd (src : Nat → C) (taps : List C) : C :=
  ∑ i : Fin taps.length, src i * taps.get i

theorem dotProd_congr {left right : Nat → C} {taps : List C}
    (same : ∀ i < taps.length, left i = right i) :
    dotProd left taps = dotProd right taps :=
  Finset.sum_congr rfl fun i _ => by rw [same i i.isLt]

/-- A window that is zero except at one position picks out one tap. -/
theorem dotProd_single (value : C) {taps : List C} (i : Fin taps.length) :
    dotProd (fun n => if n = i then value else 0) taps = value * taps.get i := by
  unfold dotProd
  rw [Finset.sum_eq_single i]
  · simp
  · intro other _ different
    have apart : (other : Nat) ≠ i := fun same => different (Fin.ext same)
    simp [apart]
  · intro absent
    exact absurd (Finset.mem_univ i) absent

@[simp]
theorem dotProd_zero (taps : List C) : dotProd (fun _ => 0) taps = 0 := by
  simp [dotProd]

/-! ## Rotators -/

/-- Emit each sample times the current phase, then advance the phase. -/
def rotator (inc : C) : C → List C → List C × C
  | phase, [] => ([], phase)
  | phase, sample :: rest =>
      let tail := rotator inc (phase * inc) rest
      (sample * phase :: tail.1, tail.2)

@[simp]
theorem rotator_length (inc phase : C) (samples : List C) :
    (rotator inc phase samples).1.length = samples.length := by
  induction samples generalizing phase with
  | nil => rfl
  | cons sample rest ih => simp [rotator, ih]

theorem rotator_getElem? (inc phase : C) (samples : List C) (k : Nat) :
    (rotator inc phase samples).1[k]? =
      samples[k]?.map (· * (phase * inc ^ k)) := by
  induction samples generalizing phase k with
  | nil => simp [rotator]
  | cons sample rest ih =>
      cases k with
      | zero => simp [rotator]
      | succ k => simp [rotator, ih, pow_succ', mul_assoc]

/-- Cutting the samples and carrying the phase changes nothing. -/
theorem rotator_append (inc phase : C) (left right : List C) :
    rotator inc phase (left ++ right) =
      ((rotator inc phase left).1 ++
        (rotator inc (rotator inc phase left).2 right).1,
       (rotator inc (rotator inc phase left).2 right).2) := by
  induction left generalizing phase with
  | nil => rfl
  | cons sample rest ih => simp [rotator, ih]

/-- The phase after the samples. -/
theorem rotator_phase (inc phase : C) (samples : List C) :
    (rotator inc phase samples).2 = phase * inc ^ samples.length := by
  induction samples generalizing phase with
  | nil => simp [rotator]
  | cons sample rest ih =>
      rw [rotator, ih, List.length_cons, pow_succ']
      ring

/-! ## Strided loops -/

/-- The values of `i` in the body of `for (i = start; i < stop; i += decim)`.
A loop that does not advance has no value here. -/
def stride (decim stop start : Nat) : List Nat :=
  if start < stop ∧ 0 < decim then
    start :: stride decim stop (start + decim)
  else []
termination_by stop - start

/-- The value of `i` when that loop is left. -/
def strideExit (decim stop start : Nat) : Nat :=
  start + (stride decim stop start).length * decim

theorem stride_eq_map_range (decim stop start : Nat) :
    stride decim stop start =
      (List.range (stride decim stop start).length).map
        fun k => start + k * decim := by
  induction start using stride.induct decim stop with
  | case1 start go ih =>
      rw [stride, if_pos go, List.length_cons, List.range_succ_eq_map, ih]
      simp only [List.map_cons, List.map_map, Nat.zero_mul, Nat.add_zero,
        List.length_map, List.length_range, List.cons.injEq, true_and]
      apply List.map_congr_left
      intro k _
      simp only [Function.comp_apply, Nat.succ_eq_add_one]
      ring
  | case2 start stuck => rw [stride, if_neg stuck]; rfl

theorem mem_stride_lt {decim stop start i : Nat} (found : i ∈ stride decim stop start) :
    i < stop := by
  induction start using stride.induct decim stop with
  | case1 start go ih =>
      rw [stride, if_pos go] at found
      rcases List.mem_cons.mp found with rfl | later
      · exact go.1
      · exact ih later
  | case2 start stuck => rw [stride, if_neg stuck] at found; cases found

theorem le_strideExit {decim stop start : Nat} (advance : 0 < decim) :
    stop ≤ strideExit decim stop start := by
  induction start using stride.induct decim stop with
  | case1 start go ih =>
      rw [strideExit, stride, if_pos go, List.length_cons, Nat.succ_mul]
      rw [strideExit] at ih
      omega
  | case2 start stuck =>
      rw [strideExit]
      have past : stop ≤ start := by
        by_contra inside
        exact stuck ⟨by omega, advance⟩
      omega

/-- The `k`-th value lies below the bound exactly when the loop reaches it. -/
theorem lt_length_stride_iff {decim stop start k : Nat} (advance : 0 < decim) :
    k < (stride decim stop start).length ↔ start + k * decim < stop := by
  constructor
  · intro reached
    have visited : start + k * decim ∈ stride decim stop start := by
      rw [stride_eq_map_range]
      exact List.mem_map.mpr ⟨k, List.mem_range.mpr reached, rfl⟩
    exact mem_stride_lt visited
  · intro below
    by_contra missed
    have exit : stop ≤ strideExit decim stop start := le_strideExit advance
    have scaled : (stride decim stop start).length * decim ≤ k * decim :=
      Nat.mul_le_mul_right decim (by omega)
    rw [strideExit] at exit
    omega

theorem stride_getElem? {decim stop start k : Nat} (advance : 0 < decim)
    (below : start + k * decim < stop) :
    (stride decim stop start)[k]? = some (start + k * decim) := by
  have visited := (lt_length_stride_iff advance).mpr below
  rw [stride_eq_map_range, List.getElem?_map, List.getElem?_range visited]
  rfl

@[simp]
theorem stride_zero (decim start : Nat) : stride decim 0 start = [] := by
  rw [stride, if_neg fun go => absurd go.1 (Nat.not_lt_zero start)]

/-- A loop over whole steps from zero on. -/
theorem length_stride_mul {decim : Nat} (advance : 0 < decim) (n : Nat) :
    (stride decim (n * decim) 0).length = n := by
  refine eq_of_forall_lt_iff fun k => ?_
  rw [lt_length_stride_iff advance, Nat.zero_add]
  exact Nat.mul_lt_mul_right advance

theorem stride_cons {decim stop start : Nat} (go : start < stop ∧ 0 < decim) :
    stride decim stop start = start :: stride decim stop (start + decim) := by
  conv_lhs => rw [stride, if_pos go]

/-- A loop over a later part of the indices. -/
theorem stride_shift {decim : Nat} (n m start : Nat) :
    stride decim (n + m) (n + start) = (stride decim m start).map fun i => n + i := by
  induction start using stride.induct decim m with
  | case1 start go ih =>
      have later : n + start < n + m ∧ 0 < decim := ⟨by omega, go.2⟩
      rw [stride_cons go, stride_cons later, List.map_cons, ← ih, Nat.add_assoc]
  | case2 start stuck =>
      rw [stride, if_neg fun go => stuck ⟨by omega, go.2⟩, stride, if_neg stuck]
      rfl

/-- A loop over two consecutive blocks, the second of which starts where the first
has been left. -/
theorem stride_add {decim : Nat} (advance : 0 < decim) (n m start : Nat) :
    stride decim (n + m) start = stride decim n start ++
      (stride decim m (strideExit decim n start - n)).map fun i => n + i := by
  induction start using stride.induct decim n with
  | case1 start go ih =>
      have exit : strideExit decim n start = strideExit decim n (start + decim) := by
        rw [strideExit, stride_cons go, List.length_cons, Nat.succ_mul, strideExit]
        omega
      have longer : start < n + m ∧ 0 < decim := ⟨by omega, advance⟩
      rw [exit, stride_cons go, stride_cons longer, ih, List.cons_append]
  | case2 start stuck =>
      have past : n ≤ start := by
        by_contra inside
        exact stuck ⟨by omega, advance⟩
      have nothing : stride decim n start = [] := by rw [stride, if_neg stuck]
      rw [strideExit, nothing, List.nil_append, ← stride_shift]
      congr 1
      simp only [List.length_nil]
      omega

/-! ## Loops over consecutive blocks -/

/-- The absolute values of `i` of loops over consecutive blocks of the given lengths,
the first of which begins at `base`; what a loop overshoots its block by is where
the next one starts. -/
def blockPositions (decim : Nat) : Nat → Nat → List Nat → List Nat
  | _, _, [] => []
  | base, start, len :: rest =>
      ((stride decim len start).map fun i => base + i) ++
        blockPositions decim (base + len) (strideExit decim len start - len) rest

/-- They are the values of one loop over the whole. -/
theorem blockPositions_eq {decim : Nat} (advance : 0 < decim) (base start : Nat)
    (lens : List Nat) :
    blockPositions decim base start lens =
      (stride decim lens.sum start).map fun i => base + i := by
  induction lens generalizing base start with
  | nil => simp [blockPositions]
  | cons len rest ih =>
      rw [blockPositions, ih, List.sum_cons, stride_add advance, List.map_append, List.map_map]
      refine congrArg (_ ++ ·) (List.map_congr_left fun i _ => ?_)
      exact Nat.add_assoc base len i

/-- The `k`-th value of a loop from zero on. -/
theorem stride_zero_getElem? {decim : Nat} (advance : 0 < decim) (stop k : Nat) :
    (stride decim stop 0)[k]? = if k * decim < stop then some (k * decim) else none := by
  split
  · rename_i below
    have value : (stride decim stop 0)[k]? = some (0 + k * decim) :=
      stride_getElem? advance (by omega)
    rwa [Nat.zero_add] at value
  · rename_i past
    rw [List.getElem?_eq_none_iff]
    by_contra short
    have below := (lt_length_stride_iff advance).mp (Nat.lt_of_not_le short)
    omega

/-- A loop takes at most one value more than the quotient. -/
theorem length_stride_le {decim : Nat} (advance : 0 < decim) (stop start : Nat) :
    (stride decim stop start).length ≤ stop / decim + 1 := by
  by_contra long
  have last := (lt_length_stride_iff (k := stop / decim + 1) advance).mp
    (Nat.lt_of_not_le long)
  have below := Nat.lt_mul_div_succ stop advance
  rw [Nat.mul_comm] at below
  omega

end Kukuruku.Fir
