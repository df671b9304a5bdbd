import Kukuruku.Foundation.Fir

/-!
# Carriers and filters

A carrier is a geometric sequence, and a signal is the sum of some carriers.  A filter
scales each carrier by its response at the carrier's step; rotating, advancing and
decimating a signal do the same to its carriers.
-/

namespace Kukuruku.Carriers

open Kukuruku.Fir

variable {C : Type*} [CommRing C]

/-- A sequence with a constant ratio between a sample and the one before. -/
structure Carrier (C : Type*) where
  amplitude : C
  step : C

/-- What a filter makes of a carrier with the given step. -/
def response (taps : List C) (step : C) : C :=
  ∑ i : Fin taps.length, taps.get i * step ^ (i : Nat)

namespace Carrier

def sample (carrier : Carrier C) (n : Nat) : C := carrier.amplitude * carrier.step ^ n

def filtered (taps : List C) (carrier : Carrier C) : Carrier C where
  amplitude := carrier.amplitude * response taps carrier.step
  step := carrier.step

def rotated (u : C) (carrier : Carrier C) : Carrier C where
  amplitude := carrier.amplitude
  step := carrier.step * u

def decimated (decim : Nat) (carrier : Carrier C) : Carrier C where
  amplitude := carrier.amplitude
  step := carrier.step ^ decim

def advanced (n : Nat) (carrier : Carrier C) : Carrier C where
  amplitude := carrier.amplitude * carrier.step ^ n
  step := carrier.step

end Carrier

/-- The sum of some carriers. -/
def signal (carriers : List (Carrier C)) (n : Nat) : C :=
  (carriers.map fun carrier => carrier.sample n).sum

/-- Carriers that are changed one by one, where the samples change by a factor. -/
theorem signal_map {carriers : List (Carrier C)} {change : Carrier C → Carrier C} {n m : Nat}
    {factor : C} (changed : ∀ carrier ∈ carriers,
      (change carrier).sample m = carrier.sample n * factor) :
    signal (carriers.map change) m = signal carriers n * factor := by
  induction carriers with
  | nil => exact (zero_mul factor).symm
  | cons carrier rest ih =>
      have later := ih fun other member => changed other (List.mem_cons_of_mem carrier member)
      simp only [signal, List.map_cons, List.sum_cons] at later ⊢
      rw [later, changed carrier List.mem_cons_self, add_mul]

theorem signal_rotated (u : C) (carriers : List (Carrier C)) (n : Nat) :
    signal (carriers.map (Carrier.rotated u)) n = signal carriers n * u ^ n := by
  refine signal_map fun carrier _ => ?_
  rw [Carrier.sample, Carrier.rotated, mul_pow, ← mul_assoc]
  rfl

theorem signal_decimated (decim : Nat) (carriers : List (Carrier C)) (k : Nat) :
    signal (carriers.map (Carrier.decimated decim)) k = signal carriers (k * decim) := by
  rw [← mul_one (signal carriers _)]
  refine signal_map fun carrier _ => ?_
  rw [Carrier.sample, Carrier.decimated, ← pow_mul, mul_comm decim, mul_one]
  rfl

theorem signal_advanced (n : Nat) (carriers : List (Carrier C)) (m : Nat) :
    signal (carriers.map (Carrier.advanced n)) m = signal carriers (n + m) := by
  rw [← mul_one (signal carriers _)]
  refine signal_map fun carrier _ => ?_
  rw [Carrier.sample, Carrier.advanced, mul_assoc, ← pow_add, mul_one]
  rfl

/-- A filter on one carrier. -/
theorem dotProd_sample (carrier : Carrier C) (taps : List C) (n : Nat) :
    dotProd (fun i => carrier.sample (n + i)) taps = (carrier.filtered taps).sample n := by
  simp only [dotProd, Carrier.sample, Carrier.filtered, response, Finset.mul_sum, Finset.sum_mul]
  refine Finset.sum_congr rfl fun i _ => ?_
  rw [pow_add]
  ring

/-- A filter scales each carrier by its response. -/
theorem dotProd_signal (carriers : List (Carrier C)) (taps : List C) (n : Nat) :
    dotProd (fun i => signal carriers (n + i)) taps =
      signal (carriers.map (Carrier.filtered taps)) n := by
  induction carriers with
  | nil => exact dotProd_zero taps
  | cons carrier rest ih =>
      have split : dotProd (fun i => signal (carrier :: rest) (n + i)) taps =
          dotProd (fun i => carrier.sample (n + i)) taps +
            dotProd (fun i => signal rest (n + i)) taps := by
        simp only [dotProd, ← Finset.sum_add_distrib, ← add_mul]
        rfl
      rw [split, ih, dotProd_sample]
      rfl

/-- A rotated filter responds as the plain one does to the rotated carrier. -/
theorem response_rotated (u : C) (taps : List C) (step : C) :
    response (taps.mapIdx fun i tap => tap * u ^ i) step = response taps (step * u) := by
  refine Fintype.sum_equiv (finCongr (List.length_mapIdx)) _ _ fun i => ?_
  simp only [List.get_eq_getElem, List.getElem_mapIdx, finCongr_apply, Fin.val_cast, mul_pow]
  ring

end Kukuruku.Carriers
