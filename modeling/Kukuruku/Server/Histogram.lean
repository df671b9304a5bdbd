import Mathlib.Algebra.BigOperators.Group.Finset.Piecewise
import Mathlib.Algebra.Order.Ring.Rat
import Mathlib.Data.Rat.Floor
import Kukuruku.Foundation.Truncate
import Kukuruku.Server.Messages
import Kukuruku.Server.XlateWorker

/-!
# The histogram of a packet

`calc_histogram` counts the magnitudes of the first floats of a packet in 16-bit
counters.  The conversion to `int` has no result outside the range of the type;
arithmetic on floats is exact.
-/

namespace Kukuruku.Server.Histogram

open Kukuruku.Server.XlateWorker (Floats)

variable {K : Type*} [Field K] [LinearOrder K] [FloorRing K]

/-! ## The function -/

def MIN (a b : Int) : Int := if a < b then a else b

def MAX (a b : Int) : Int := if b < a then a else b

def CLAMP (x lower upper : Int) : Int := MIN upper (MAX x lower)

/-- The conversion of a `double` to `int`; `none` is undefined behaviour. -/
def toInt (x : K) : Option Int :=
  if INT32_MIN ≤ truncate x ∧ truncate x ≤ INT32_MAX then some (truncate x) else none

/-- The local `sample`, after the clamp. -/
def clampedSample (x : K) : Option Int :=
  (toInt (|x| * (HISTOGRAM_RES : K))).map fun sample => CLAMP sample 0 (HISTOGRAM_RES - 1)

theorem length_zeros : (List.replicate HISTOGRAM_RES (0 : UInt16)).length = HISTOGRAM_RES :=
  List.length_replicate

/-- After `memset`. -/
def cleared : Messages.Histogram := ⟨List.replicate HISTOGRAM_RES 0, length_zeros⟩

/-- `pkt->histo[sample]++`. -/
def increment (histo : Messages.Histogram) (sample : Int) : Messages.Histogram :=
  ⟨histo.val.modify sample.toNat (· + 1), by rw [List.length_modify, histo.property]⟩

/-- The body of the loop. -/
def countSample (data : Floats K) (histo : Messages.Histogram) (i : Nat) :
    Option Messages.Histogram :=
  (clampedSample (data i)).map (increment histo)

/-- Histogram of the first `npoints` floats. -/
def calc_histogram (data : Floats K) (npoints : Nat) : Option Messages.Histogram :=
  (List.range npoints).foldlM (countSample data) cleared

/-! ## What it should count -/

def counter (histo : Messages.Histogram) (bin : Nat) : Nat := (histo.val.getD bin 0).toNat

/-- The bin of a value. -/
def binOf (x : K) : Nat := min ⌊|x| * (HISTOGRAM_RES : K)⌋.toNat (HISTOGRAM_RES - 1)

/-- How many of the first `npoints` values lie in a bin. -/
def valuesIn (data : Floats K) (npoints bin : Nat) : Nat :=
  ((List.range npoints).map data).countP fun x => binOf x = bin

/-- The bins count the values, each once; on the way no counter is full when it is
incremented; and any other order of the values gives the same counters. -/
structure Conserved (data : Floats K) (npoints : Nat) (histo : Messages.Histogram) : Prop where
  total : (histo.val.map UInt16.toNat).sum = npoints
  bins : ∀ bin < HISTOGRAM_RES, counter histo bin = valuesIn data npoints bin
  unwrapped : ∀ n < npoints, ∃ before sample, calc_histogram data n = some before ∧
    clampedSample (data n) = some sample ∧ counter before sample.toNat + 1 < 2 ^ 16
  unordered : ∀ other : Floats K,
    ((List.range npoints).map other).Perm ((List.range npoints).map data) →
      calc_histogram other npoints = some histo

/-! ## One value -/

section Value

variable [IsStrictOrderedRing K] {x : K}

omit [IsStrictOrderedRing K] in
theorem binOf_lt (x : K) : binOf x < HISTOGRAM_RES :=
  Nat.lt_of_le_of_lt (Nat.min_le_right _ _) (by decide)

/-- The clamp finds the bin. -/
theorem CLAMP_eq {sample : Int} (nonneg : 0 ≤ sample) :
    CLAMP sample 0 (HISTOGRAM_RES - 1) = (min sample.toNat (HISTOGRAM_RES - 1) : Nat) := by
  have positive : MAX sample 0 = sample := by
    unfold MAX
    split <;> omega
  have last : ((HISTOGRAM_RES : Nat) : Int) = 256 := rfl
  rw [CLAMP, positive, MIN]
  split <;> omega

theorem clampedSample_eq (small : |x| < 2 ^ 23) : clampedSample x = some (binOf x : Int) := by
  have nonneg : 0 ≤ |x| * (HISTOGRAM_RES : K) := mul_nonneg (abs_nonneg x) (Nat.cast_nonneg _)
  have below : |x| * (HISTOGRAM_RES : K) < ((2 ^ 31 : Nat) : K) := by
    have scaled := mul_lt_mul_of_pos_right small
      (show (0 : K) < (HISTOGRAM_RES : K) from Nat.cast_pos.mpr (by decide))
    refine scaled.trans_eq ?_
    rw [HISTOGRAM_RES]
    norm_num
  obtain ⟨low, high⟩ := truncate_bounds nonneg below
  have range := INT32_range
  have converted : toInt (|x| * (HISTOGRAM_RES : K)) = some ⌊|x| * (HISTOGRAM_RES : K)⌋ := by
    rw [toInt, if_pos (by omega), truncate_of_nonneg nonneg]
  rw [clampedSample, converted, Option.map_some, CLAMP_eq (Int.floor_nonneg.mpr nonneg), binOf]

end Value

/-! ## The loop -/

section Loop

omit [Field K] [LinearOrder K] [FloorRing K]

theorem counter_cleared (bin : Nat) : counter cleared bin = 0 := by
  rw [counter, cleared, List.getD_eq_getElem?_getD, List.getElem?_replicate]
  split <;> rfl

/-- One increment, modulo the width of the counters. -/
theorem counter_increment (histo : Messages.Histogram) {bin place : Nat}
    (inside : place < HISTOGRAM_RES) :
    counter (increment histo place) bin =
      (counter histo bin + if place = bin then 1 else 0) % 2 ^ 16 := by
  have bounded : counter histo bin < 2 ^ 16 := UInt16.toNat_lt _
  simp only [counter, increment, List.getD_eq_getElem?_getD, Int.toNat_natCast,
    List.getElem?_modify, Option.map_eq_map] at bounded ⊢
  by_cases same : place = bin
  · subst same
    obtain ⟨count, found⟩ : ∃ count, histo.val[place]? = some count :=
      ⟨_, List.getElem?_eq_getElem (histo.property.symm ▸ inside)⟩
    simp only [found, if_true, Option.map_some, Option.getD_some]
    exact UInt16.toNat_add _ 1
  · simp only [same, if_false, Option.map_id_fun', id_eq, Nat.add_zero]
    exact (Nat.mod_eq_of_lt bounded).symm

theorem map_toNat_eq (histo : Messages.Histogram) :
    histo.val.map UInt16.toNat = (List.range HISTOGRAM_RES).map (counter histo) := by
  refine List.ext_getElem ?_ fun bin inside _ => ?_
  · rw [List.length_map, List.length_map, List.length_range, histo.property]
  · rw [List.length_map] at inside
    rw [List.getElem_map, List.getElem_map, List.getElem_range, counter,
      List.getD_eq_getElem?_getD, List.getElem?_eq_getElem inside, Option.getD_some]

/-- The counters are all of a histogram. -/
theorem eq_of_counter {histo other : Messages.Histogram}
    (same : ∀ bin < HISTOGRAM_RES, counter histo bin = counter other bin) : histo = other := by
  refine Subtype.ext (List.map_injective_iff.mpr (fun _ _ => UInt16.toNat.inj) ?_)
  rw [map_toNat_eq, map_toNat_eq]
  exact List.map_congr_left fun bin inside => same bin (List.mem_range.mp inside)

end Loop

section Counts

variable [IsStrictOrderedRing K]

omit [IsStrictOrderedRing K] in
theorem valuesIn_succ (data : Floats K) (n bin : Nat) : valuesIn data (n + 1) bin =
    valuesIn data n bin + if binOf (data n) = bin then 1 else 0 := by
  rw [valuesIn, List.range_succ, List.map_append, List.countP_append, List.map_singleton,
    List.countP_singleton]
  simp only [decide_eq_true_eq]
  rfl

/-- However many values there are, a counter is their number modulo its width. -/
theorem calc_histogram_spec (data : Floats K) (npoints : Nat)
    (small : ∀ i < npoints, |data i| < 2 ^ 23) :
    ∃ histo, calc_histogram data npoints = some histo ∧
      ∀ bin, counter histo bin = valuesIn data npoints bin % 2 ^ 16 := by
  induction npoints with
  | zero => exact ⟨cleared, rfl, counter_cleared⟩
  | succ n ih =>
      obtain ⟨histo, counted, counters⟩ := ih fun i earlier => small i (Nat.lt_succ_of_lt earlier)
      have sample := clampedSample_eq (small n (Nat.lt_succ_self n))
      refine ⟨increment histo (binOf (data n)), ?_, fun bin => ?_⟩
      · rw [calc_histogram] at counted ⊢
        rw [List.range_succ, List.foldlM_append, counted]
        simp only [Option.bind_eq_bind, Option.bind_some, List.foldlM_cons, List.foldlM_nil,
          countSample, sample, Option.map_some, pure]
      · rw [counter_increment histo (binOf_lt _), counters, valuesIn_succ, Nat.mod_add_mod]

omit [IsStrictOrderedRing K] in
theorem valuesIn_le (data : Floats K) (n bin : Nat) : valuesIn data n bin ≤ n := by
  refine List.countP_le_length.trans_eq ?_
  rw [List.length_map, List.length_range]

omit [IsStrictOrderedRing K] in
/-- Every value lies in one bin. -/
theorem sum_valuesIn (data : Floats K) (n : Nat) :
    ((List.range HISTOGRAM_RES).map (valuesIn data n)).sum = n := by
  have summed : ((List.range HISTOGRAM_RES).map (valuesIn data n)).sum =
      ∑ bin ∈ Finset.range HISTOGRAM_RES, valuesIn data n bin := rfl
  rw [summed]
  clear summed
  induction n with
  | zero => exact Finset.sum_eq_zero fun bin _ => rfl
  | succ n ih =>
      simp only [valuesIn_succ, Finset.sum_add_distrib, ih, Finset.sum_ite_eq, Finset.mem_range,
        binOf_lt, if_true]

end Counts

/-! ## Conservation -/

section Conservation

variable [IsStrictOrderedRing K] {data : Floats K} {npoints : Nat}

/-- At most 65535 values below `2 ^ 23` are counted exactly. -/
theorem calc_histogram_conserves (few : npoints ≤ 65535)
    (small : ∀ i < npoints, |data i| < 2 ^ 23) :
    ∃ histo, calc_histogram data npoints = some histo ∧ Conserved data npoints histo := by
  have exactly {n bin : Nat} (enough : n ≤ npoints) :
      valuesIn data n bin % 2 ^ 16 = valuesIn data n bin := by
    have bound := valuesIn_le data n bin
    exact Nat.mod_eq_of_lt (by omega)
  obtain ⟨histo, counted, counters⟩ := calc_histogram_spec data npoints small
  refine ⟨histo, counted, ?_, fun bin _ => ?_, fun n earlier => ?_, fun other perm => ?_⟩
  · rw [map_toNat_eq, ← sum_valuesIn data npoints]
    refine congrArg List.sum (List.map_congr_left fun bin _ => ?_)
    rw [counters, exactly (Nat.le_refl npoints)]
  · rw [counters, exactly (Nat.le_refl npoints)]
  · obtain ⟨before, found, sums⟩ :=
      calc_histogram_spec data n fun i inside => small i (inside.trans earlier)
    refine ⟨before, _, found, clampedSample_eq (small n earlier), ?_⟩
    have bound := valuesIn_le data n (binOf (data n))
    rw [Int.toNat_natCast, sums, exactly earlier.le]
    omega
  · have similar : ∀ i < npoints, |other i| < 2 ^ 23 := by
      intro i inside
      have shared := perm.subset (List.mem_map_of_mem (List.mem_range.mpr inside))
      obtain ⟨j, within, same⟩ := List.mem_map.mp shared
      rw [← same]
      exact small j (List.mem_range.mp within)
    obtain ⟨histo', counted', counters'⟩ := calc_histogram_spec other npoints similar
    rw [counted']
    refine congrArg some (eq_of_counter fun bin _ => ?_)
    rw [counters', counters, valuesIn, valuesIn, perm.countP_eq]

/-- One value more could fill a counter: all values in one bin. -/
theorem calc_histogram_full {x : K} (small : |x| < 2 ^ 23) :
    ∃ histo, calc_histogram (fun _ => x) 65536 = some histo ∧ ∀ bin, counter histo bin = 0 := by
  obtain ⟨histo, counted, counters⟩ :=
    calc_histogram_spec (fun _ => x) 65536 fun _ _ => small
  refine ⟨histo, counted, fun bin => ?_⟩
  rw [counters, valuesIn, List.map_const', List.length_range, List.countP_replicate]
  split <;> rfl

/-- The server's own call, on silence. -/
theorem calc_histogram_conserves_silence :
    ∃ histo, calc_histogram (fun _ => (0 : ℚ)) 65535 = some histo ∧
      Conserved (fun _ => (0 : ℚ)) 65535 histo :=
  calc_histogram_conserves (Nat.le_refl 65535) fun _ _ => by norm_num

end Conservation

end Kukuruku.Server.Histogram
