import Kukuruku.Foundation.Fir
import Kukuruku.Server.Constants

/-!
# The scanner's plain channel extraction

`xdump` rotates every input sample, the carried ones first, and filters the
result with the real taps at stride `decim`.  Lengths and offsets below count
floats where the source counts bytes.  The floats live in `R` and the samples
in a ring `C`; `FloatPair` says how two floats make a sample.
-/

namespace Kukuruku.Scanner.Xlater

open Kukuruku.Fir
open Kukuruku.Server (COMPLEX COMPLEX_eq)

variable {R C : Type*}

/-- How a complex sample is stored as two consecutive floats. -/
structure FloatPair (R C : Type*) where
  cmake : R → R → C
  re : C → R
  im : C → R
  cmake_re_im : ∀ sample, cmake (re sample) (im sample) = sample

/-- The `count` complex samples stored from `mem` on. -/
def loadSamples (pair : FloatPair R C) (mem : Nat → R) (count : Nat) : List C :=
  (List.range count).map fun n => pair.cmake (mem (COMPLEX * n)) (mem (COMPLEX * n + 1))

theorem length_loadSamples (pair : FloatPair R C) (mem : Nat → R) (count : Nat) :
    (loadSamples pair mem count).length = count := by
  rw [loadSamples, List.length_map, List.length_range]

theorem loadSamples_getElem? (pair : FloatPair R C) (mem : Nat → R) {count n : Nat}
    (inside : n < count) : (loadSamples pair mem count)[n]? =
      some (pair.cmake (mem (COMPLEX * n)) (mem (COMPLEX * n + 1))) := by
  rw [loadSamples, List.getElem?_map, List.getElem?_range inside]
  rfl

variable [CommRing C]

/-- Store complex samples from the float offset `offset` on. -/
def storeSamples (pair : FloatPair R C) (mem : Nat → R) (offset : Nat)
    (samples : List C) : Nat → R := fun j =>
  if offset ≤ j ∧ j < offset + COMPLEX * samples.length then
    let sample := samples.getD ((j - offset) / COMPLEX) 0
    if (j - offset) % COMPLEX = 0 then pair.re sample else pair.im sample
  else mem j

/-- What one call leaves to its caller. -/
structure Dumped (C : Type*) where
  out : List C
  rotpos : C
  firpos : Nat

/-- One call of `xdump`; `malloc` is the uninitialised allocation. -/
def xdump (pair : FloatPair R C) (malloc : Nat → R) (buf : Nat → R) (buflen : Nat)
    (carry : Nat → R) (carrylen : Nat) (taps : List C) (decim : Nat)
    (phase_inc rotpos : C) (firpos : Nat) : Dumped C :=
  let nsamples := buflen / COMPLEX
  let carried := rotator phase_inc rotpos (loadSamples pair carry (carrylen / COMPLEX))
  let rotated := rotator phase_inc carried.2 (loadSamples pair buf nsamples)
  let alldata := storeSamples pair (storeSamples pair malloc 0 carried.1) carrylen rotated.1
  { out := (stride decim nsamples firpos).map fun i =>
      dotProd (fun k => pair.cmake (alldata (COMPLEX * (i + k)))
        (alldata (COMPLEX * (i + k) + 1))) taps
    rotpos := rotated.2
    firpos := strideExit decim nsamples firpos - nsamples }

/-- A stored sample is read back from its place. -/
theorem cmake_storeSamples (pair : FloatPair R C) (mem : Nat → R) {samples : List C}
    {n : Nat} {sample : C} (found : samples[n]? = some sample) :
    pair.cmake (storeSamples pair mem 0 samples (COMPLEX * n))
      (storeSamples pair mem 0 samples (COMPLEX * n + 1)) = sample := by
  obtain ⟨inside, same⟩ := List.getElem?_eq_some_iff.mp found
  have value : samples.getD n 0 = sample := by simp [List.getD_eq_getElem?_getD, found]
  simp only [storeSamples]
  rw [COMPLEX_eq, if_pos (by omega), if_pos (by omega), if_pos (by omega), if_neg (by omega),
    show (2 * n - 0) / 2 = n by omega, show (2 * n + 1 - 0) / 2 = n by omega, value]
  exact pair.cmake_re_im sample

/-- Samples stored behind others. -/
theorem storeSamples_append (pair : FloatPair R C) (mem : Nat → R) (first second : List C) :
    storeSamples pair (storeSamples pair mem 0 first) (COMPLEX * first.length) second =
      storeSamples pair mem 0 (first ++ second) := by
  funext j
  simp only [storeSamples, List.length_append]
  rw [COMPLEX_eq]
  by_cases early : j < 2 * first.length
  · have value : (first ++ second).getD ((j - 0) / 2) 0 = first.getD ((j - 0) / 2) 0 := by
      rw [List.getD_eq_getElem?_getD, List.getElem?_append_left (by omega),
        List.getD_eq_getElem?_getD]
    rw [if_neg (show ¬(2 * first.length ≤ j ∧ j < 2 * first.length + 2 * second.length) by omega),
      if_pos (show 0 ≤ j ∧ j < 0 + 2 * first.length by omega),
      if_pos (show 0 ≤ j ∧ j < 0 + 2 * (first.length + second.length) by omega), value]
  · by_cases late : j < 2 * first.length + 2 * second.length
    · have value : (first ++ second).getD ((j - 0) / 2) 0 =
          second.getD ((j - 2 * first.length) / 2) 0 := by
        rw [List.getD_eq_getElem?_getD, List.getElem?_append_right (by omega),
          List.getD_eq_getElem?_getD, show (j - 0) / 2 - first.length =
            (j - 2 * first.length) / 2 by omega]
      rw [if_pos (show 2 * first.length ≤ j ∧ j < 2 * first.length + 2 * second.length by omega),
        if_pos (show 0 ≤ j ∧ j < 0 + 2 * (first.length + second.length) by omega), value]
      by_cases even : (j - 0) % 2 = 0
      · rw [if_pos even, if_pos (show (j - 2 * first.length) % 2 = 0 by omega)]
      · rw [if_neg even, if_neg (show ¬(j - 2 * first.length) % 2 = 0 by omega)]
    · rw [if_neg (show ¬(2 * first.length ≤ j ∧ j < 2 * first.length + 2 * second.length) by omega),
        if_neg (show ¬(0 ≤ j ∧ j < 0 + 2 * first.length) by omega),
        if_neg (show ¬(0 ≤ j ∧ j < 0 + 2 * (first.length + second.length)) by omega)]

/-- With whole samples in `carry`, `alldata` holds the rotated samples of `carry` and
`buf` one after the other. -/
theorem xdump_whole (pair : FloatPair R C) (malloc buf carry : Nat → R) (carried buflen : Nat)
    (taps : List C) (decim : Nat) (u rotpos : C) (firpos : Nat) :
    let samples := loadSamples pair carry carried ++ loadSamples pair buf (buflen / COMPLEX)
    let alldata := storeSamples pair malloc 0 (rotator u rotpos samples).1
    xdump pair malloc buf buflen carry (COMPLEX * carried) taps decim u rotpos firpos =
      { out := (stride decim (buflen / COMPLEX) firpos).map fun i =>
          dotProd (fun k => pair.cmake (alldata (COMPLEX * (i + k)))
            (alldata (COMPLEX * (i + k) + 1))) taps
        rotpos := (rotator u rotpos samples).2
        firpos := strideExit decim (buflen / COMPLEX) firpos - buflen / COMPLEX } := by
  have half : COMPLEX * carried / COMPLEX = carried := Nat.mul_div_cancel_left _ (by decide)
  have stored := storeSamples_append pair malloc
    (rotator u rotpos (loadSamples pair carry carried)).1
    (rotator u (rotator u rotpos (loadSamples pair carry carried)).2
      (loadSamples pair buf (buflen / COMPLEX))).1
  rw [rotator_length, length_loadSamples] at stored
  simp only [xdump, half, rotator_append, stored]

/-- On one contiguous buffer, every window that lies in it is filtered after
rotation of each of its samples. -/
theorem xdump_contiguous (pair : FloatPair R C) (malloc buf carry : Nat → R)
    (taps : List C) {decim : Nat} (advance : 0 < decim) (u : C) {buflen k : Nat}
    (evaluated : k * decim < buflen / COMPLEX)
    (whole : k * decim + taps.length ≤ buflen / COMPLEX) :
    (xdump pair malloc buf buflen carry 0 taps decim u 1 0).out[k]? =
      some (dotProd (fun i => pair.cmake (buf (COMPLEX * (k * decim + i)))
        (buf (COMPLEX * (k * decim + i) + 1)) * u ^ (k * decim + i)) taps) := by
  simp only [xdump, Nat.zero_div]
  rw [List.getElem?_map, stride_getElem? advance (by omega)]
  simp only [Option.map_some, Option.some.injEq, Nat.zero_add]
  apply dotProd_congr
  intro i inTaps
  apply cmake_storeSamples
  have loaded := loadSamples_getElem? pair buf (show k * decim + i < buflen / COMPLEX by omega)
  rw [rotator_getElem?, loaded]
  simp [loadSamples, rotator]

end Kukuruku.Scanner.Xlater
