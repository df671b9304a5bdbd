import Mathlib.Analysis.Real.Pi.Bounds
import Mathlib.Data.List.Sort
import Mathlib.Order.MinMax
import Kukuruku.Foundation.PythonList
import Kukuruku.Foundation.Truncate

/-!
# The squelch decision

`sql_cb` compares the largest value of the last spectrum over the bins of a
channel with a percentile.  A loop that skips the bins outside the spectrum comes
first, and a slice, which does not skip them, comes after.  Numbers are exact.
-/

namespace Kukuruku.Clients.SquelchDecision

open Kukuruku.PythonList

variable {K : Type*} [Field K] [LinearOrder K] [FloorRing K]

/-- The configuration that `sql_cb` reads. -/
structure Conf (K : Type*) where
  fftw : Nat
  sqltrim : K
  sqldelta : K

/-! ## The function -/

def centerbin (pi : K) (fftw : Nat) (rotation : K) : Int :=
  truncate (-rotation * fftw / (((2 : Nat) : K) * pi) + fftw / ((2 : Nat) : K))

def rangebins (fftw : Nat) (decimation : K) : Int := truncate (fftw / decimation / ((2 : Nat) : K))

/-- The first bin of the channel. -/
def startbin (pi : K) (fftw : Nat) (rotation decimation : K) : Int :=
  centerbin pi fftw rotation - rangebins fftw decimation

/-- The bin after the last one. -/
def stopbin (pi : K) (fftw : Nat) (rotation decimation : K) : Int :=
  centerbin pi fftw rotation + rangebins fftw decimation

variable (conf : Conf K) (lastfft : List K)

def cutoff : Option K := index? lastfft.mergeSort (truncate (conf.sqltrim * conf.fftw))

/-- One round of the loop, over `ave` and `items`. -/
def addBin (sums : K × Nat) (i : Int) : Option (K × Nat) :=
  if i < 0 ∨ (conf.fftw : Int) - 1 < i then some sums
  else (index? lastfft i).map fun power => (sums.1 + power, sums.2 + 1)

def average (start stop : Int) : Option K :=
  ((range start stop).foldlM (addBin conf lastfft) (0, 0)).bind fun sums =>
    if sums.2 = 0 then none else some (sums.1 / sums.2)

/-- The decision once the bins are known. -/
def decideBins (start stop : Int) : Option Bool :=
  (cutoff conf lastfft).bind fun cutoff =>
    (average conf lastfft start stop).bind fun _ =>
      let relevant := slice lastfft start stop
      if relevant = [] then some true
      else relevant.max?.map fun ave => decide (cutoff < ave - conf.sqldelta)

/-- An exception is `none`. -/
def sql_cb (pi : K) (lastfft : Option (List K)) (rotation decimation : K) : Option Bool :=
  match lastfft with
  | none => some true
  | some lastfft =>
      if lastfft = [] then some true
      else if decimation = 0 then none
      else decideBins conf lastfft (startbin pi conf.fftw rotation decimation)
        (stopbin pi conf.fftw rotation decimation)

/-! ## The decision that is meant -/

/-- A bin of the channel that lies in the spectrum. -/
def Inside (fftw : Nat) (start stop i : Int) : Prop :=
  (start ≤ i ∧ i < stop) ∧ InBounds fftw i

instance (fftw : Nat) (start stop i : Int) : Decidable (Inside fftw start stop i) :=
  inferInstanceAs (Decidable (_ ∧ _))

section Loop

variable {K : Type*} [Field K] {conf : Conf K} {lastfft : List K}

end Loop

/-! ## The percentile -/

section Percentile

variable {conf : Conf K} {lastfft : List K}

variable [IsStrictOrderedRing K]

end Percentile

/-! ## The slice -/

section Slice

variable {K : Type*} {fftw : Nat} {lastfft : List K} {start stop : Int}

end Slice

section Decision

variable {conf : Conf K} {lastfft : List K} {start stop : Int}

end Decision

/-! ## Channels at the edge -/

section Edge

variable {fftw : Nat} {start stop : Int}

variable [IsStrictOrderedRing K]

end Edge

/-! ## When the decision is right -/

section Main

variable [IsStrictOrderedRing K]

end Main

end Kukuruku.Clients.SquelchDecision
