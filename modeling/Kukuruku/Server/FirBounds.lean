import Kukuruku.Foundation.Machine
import Kukuruku.Server.XlateWorker

/-!
# Bounds of the filter loop

The worker of `xlate_worker.c` with the machine integers and the sizes of its
buffers, for any decimation and any number of taps a request may carry.  A step
that leaves a buffer, overflows an `int` or divides by zero is a fault.  Neither
the handlers nor the worker check what a request asks for.
-/

namespace Kukuruku.Server.FirBounds

open Fir XlateWorker

inductive Fault where
  | division
  | allocation
  | write
  | read
  | overflow
deriving DecidableEq

/-- The numbers in a worker that its loop depends on.  `newtaps` says that the
pointer is set; `handler` is the count a handler of `MODIFY_XLATER` has yet to
store. -/
structure Ctx where
  decim : Int
  tapslen : Nat
  newtaps : Bool
  newtapslen : Nat
  handler : Option Nat
  maxoutsize : Int
  fir_offset : Int
deriving DecidableEq

/-- Eight bytes for each complex sample.  A negative size is, as a `size_t`,
more than an allocation can give. -/
def create_xlate_worker (decim : Int) (tapslen : Nat) : Except Fault Ctx :=
  if decim = 0 then .error .division
  else
    let maxoutsize := 8 * ((SDRPACKETSIZE : Int).tdiv decim + 1)
    if maxoutsize < 0 then .error .allocation
    else .ok ⟨decim, tapslen, false, 0, none, maxoutsize, 0⟩

/-- The loop that evaluates the filter; the value of `i` at its end and the
number of samples. -/
def firLoop (decim : Int) (tapslen : Nat) (maxoutsize i outsample : Int) :
    Except Fault (Int × Int) :=
  if i < SDRPACKETSIZE then
    if maxoutsize < 8 * (outsample + 1) then .error .write
    else if 0 < tapslen ∧ (i < 0 ∨ SDRPACKETSIZE + MAXTAPS < i + tapslen) then .error .read
    else if i + decim < INT32_MIN ∨ INT32_MAX < i + decim then .error .overflow
    else firLoop decim tapslen maxoutsize (i + decim) (outsample + 1)
  else .ok (i, outsample)
termination_by (maxoutsize - 8 * outsample).toNat

/-- A frame, and the new taps if there are some. -/
def frame (ctx : Ctx) : Except Fault Ctx :=
  (firLoop ctx.decim ctx.tapslen ctx.maxoutsize ctx.fir_offset 0).map fun done =>
    { ctx with
      fir_offset := done.1 - SDRPACKETSIZE
      tapslen := if ctx.newtaps then ctx.newtapslen else ctx.tapslen
      newtaps := false }

inductive Act where
  | modify (tapslen : Nat)
  | store
  | frame
deriving DecidableEq

/-- The worker beside the handlers, which hold a mutex of their own: `modify` sets
the pointer, `store` the count. -/
def step? : Except Fault Ctx → Act → Option (Except Fault Ctx)
  | .error _, _ => none
  | .ok ctx, .modify tapslen =>
      if ctx.handler.isSome then none
      else if tapslen ≠ 0 then
        some (.ok { ctx with newtaps := true, handler := some tapslen })
      else some (.ok ctx)
  | .ok ctx, .store =>
      ctx.handler.map fun tapslen => .ok { ctx with newtapslen := tapslen, handler := none }
  | .ok ctx, .frame => some (FirBounds.frame ctx)

/-- A worker created with some decimation and number of taps. -/
def worker (decim : Int) (tapslen : Nat) : Machine (Except Fault Ctx) Act where
  Initial state := state = create_xlate_worker decim tapslen
  step? := step?

/-- The numbers of taps in the requests that follow are among `requests`. -/
def Among (requests : Nat → Prop) (_ : Except Fault Ctx) : Act → Prop
  | .modify tapslen => requests tapslen
  | _ => True

/-- Whatever the order of frames and requests, there is no fault. -/
def InBounds (decim : Int) (tapslen : Nat) (requests : Nat → Prop) : Prop :=
  ∀ state, (worker decim tapslen).Reachable (Among requests) state → ∃ ctx, state = .ok ctx

/-- The distance of the positions at which the filter is evaluated, modulo the
size of a frame. -/
def grid (decim : Int) : Nat := Int.gcd decim SDRPACKETSIZE

/-- The last position in a frame leaves room for the taps and for the next one. -/
structure Bounded (decim : Int) (tapslen : Nat) (requests : Nat → Prop) : Prop where
  advance : 1 ≤ decim
  next : SDRPACKETSIZE - grid decim + decim ≤ INT32_MAX
  created : tapslen ≤ MAXTAPS + grid decim
  modified : ∀ count, requests count → count ≤ MAXTAPS + grid decim

/-! ## The loop -/

/-- What one turn of the loop has passed when the loop ends without a fault. -/
theorem firLoop_turn {decim : Int} {tapslen : Nat} {maxoutsize i outsample : Int}
    {done : Int × Int} (inside : i < SDRPACKETSIZE)
    (finished : firLoop decim tapslen maxoutsize i outsample = .ok done) :
    8 * (outsample + 1) ≤ maxoutsize ∧
      (0 < tapslen → 0 ≤ i ∧ i + tapslen ≤ SDRPACKETSIZE + MAXTAPS) ∧
      i + decim ≤ INT32_MAX ∧
      firLoop decim tapslen maxoutsize (i + decim) (outsample + 1) = .ok done := by
  rw [firLoop, if_pos inside] at finished
  split at finished
  · cases finished
  · next room =>
    split at finished
    · cases finished
    · next reads =>
      split at finished
      · cases finished
      · next range =>
        refine ⟨by omega, fun some_taps => ?_, by omega, finished⟩
        have within := fun outside => reads ⟨some_taps, outside⟩
        omega

/-- A loop that does not advance ends with a fault. -/
theorem firLoop_stuck {decim : Int} (stuck : decim ≤ 0) {tapslen : Nat} {maxoutsize : Int}
    {i outsample : Int} (inside : i < SDRPACKETSIZE) (done : Int × Int) :
    firLoop decim tapslen maxoutsize i outsample ≠ .ok done := by
  intro finished
  obtain ⟨left, bound⟩ : ∃ left : Nat, maxoutsize - 8 * outsample ≤ left :=
    ⟨_, Int.self_le_toNat _⟩
  induction left generalizing i outsample with
  | zero =>
      have room := (firLoop_turn inside finished).1
      omega
  | succ left ih =>
      have rest := (firLoop_turn inside finished).2.2.2
      exact ih (by omega) rest (by omega)

theorem strideExit_cons {decim stop start : Nat} (go : start < stop ∧ 0 < decim) :
    strideExit decim stop start = strideExit decim stop (start + decim) := by
  rw [strideExit, strideExit, stride, if_pos go, List.length_cons]
  ring

/-- Within the bounds the loop takes the values of `stride`. -/
theorem firLoop_of_bounds {d tapslen : Nat} (advance : 0 < d) {maxoutsize : Int} {i : Nat}
    {outsample : Int}
    (reads : ∀ j ∈ stride d SDRPACKETSIZE i, j + tapslen ≤ SDRPACKETSIZE + MAXTAPS)
    (next : ∀ j ∈ stride d SDRPACKETSIZE i, (j + d : Int) ≤ INT32_MAX)
    (room : 8 * (outsample + (stride d SDRPACKETSIZE i).length) ≤ maxoutsize) :
    ∃ samples, firLoop d tapslen maxoutsize i outsample =
      .ok (strideExit d SDRPACKETSIZE i, samples) := by
  induction i using stride.induct d SDRPACKETSIZE generalizing outsample with
  | case1 i go ih =>
      rw [stride, if_pos go] at reads next room
      have here := reads i List.mem_cons_self
      have after := next i List.mem_cons_self
      have lowest : INT32_MIN ≤ 0 := by decide
      rw [List.length_cons] at room
      have left : 8 * (outsample + 1 + (stride d SDRPACKETSIZE (i + d)).length) ≤ maxoutsize := by
        push_cast at room
        omega
      obtain ⟨samples, rest⟩ := ih
        (fun j later => reads j (List.mem_cons_of_mem i later))
        (fun j later => next j (List.mem_cons_of_mem i later)) left
      refine ⟨samples, ?_⟩
      rw [firLoop, if_pos (by omega), if_neg (by omega), if_neg (by omega),
        if_neg (by omega), strideExit_cons go, ← rest]
      push_cast
      rfl
  | case2 i stuck =>
      refine ⟨outsample, ?_⟩
      rw [firLoop, if_neg (by omega), strideExit, stride, if_neg stuck]
      simp

/-- A loop without a fault stays within the bounds. -/
theorem bounds_of_firLoop {d tapslen : Nat} {maxoutsize : Int} {i : Nat} {outsample : Int}
    {done : Int × Int}
    (finished : firLoop d tapslen maxoutsize i outsample = .ok done) :
    (0 < d → done.1 = strideExit d SDRPACKETSIZE i) ∧
      ∀ j ∈ stride d SDRPACKETSIZE i,
        j + tapslen ≤ SDRPACKETSIZE + MAXTAPS ∧ (j + d : Int) ≤ INT32_MAX := by
  induction i using stride.induct d SDRPACKETSIZE generalizing outsample with
  | case1 i go ih =>
      obtain ⟨-, reads, next, rest⟩ := firLoop_turn (by omega) finished
      obtain ⟨exit, later⟩ := ih (by exact_mod_cast rest)
      refine ⟨fun advance => by rw [exit advance, strideExit_cons go], ?_⟩
      intro j visited
      rw [stride, if_pos go] at visited
      rcases List.mem_cons.mp visited with rfl | visited
      · refine ⟨?_, next⟩
        rcases Nat.eq_zero_or_pos tapslen with none | positive
        · omega
        · have within := reads positive
          omega
      · exact later j visited
  | case2 i stuck =>
      refine ⟨fun advance => ?_, fun j visited => ?_⟩
      · rw [firLoop, if_neg (by omega)] at finished
        cases finished
        rw [strideExit, stride, if_neg stuck]
        simp
      · rw [stride, if_neg stuck] at visited
        cases visited

/-! ## Within the bounds -/

/-- A frame has room for the values of its loop. -/
theorem length_stride_le {d : Nat} (advance : 0 < d) (i : Nat) :
    (stride d SDRPACKETSIZE i).length ≤ SDRPACKETSIZE / d + 1 := by
  by_contra more
  have inside := (lt_length_stride_iff advance).mp (Nat.lt_of_not_le more)
  have past := Nat.lt_mul_div_succ SDRPACKETSIZE advance
  rw [Nat.mul_comm] at past
  omega

/-- What bounded requests leave in the worker. -/
structure Sized (d : Nat) (ctx : Ctx) : Prop where
  decim : ctx.decim = d
  room : ctx.maxoutsize = 8 * ((SDRPACKETSIZE / d : Nat) + 1)
  tapslen : ctx.tapslen ≤ MAXTAPS + grid d
  newtapslen : ctx.newtapslen ≤ MAXTAPS + grid d
  handler : ∀ count, ctx.handler = some count → count ≤ MAXTAPS + grid d
  position : ∃ offset : Nat, ctx.fir_offset = offset ∧ grid d ∣ offset

/-- Every position in a frame is a multiple of the grid. -/
theorem le_of_mem_stride {d offset j : Nat} (aligned : grid d ∣ offset)
    (visited : j ∈ stride d SDRPACKETSIZE offset) : j + grid d ≤ SDRPACKETSIZE := by
  have inside := mem_stride_lt visited
  rw [stride_eq_map_range] at visited
  obtain ⟨k, -, rfl⟩ := List.mem_map.mp visited
  have dvd_d : grid d ∣ d := Nat.gcd_dvd_left d SDRPACKETSIZE
  have dvd_size : grid d ∣ SDRPACKETSIZE := Nat.gcd_dvd_right d SDRPACKETSIZE
  have divides : grid d ∣ SDRPACKETSIZE - (offset + k * d) :=
    Nat.dvd_sub dvd_size (Nat.dvd_add aligned (Dvd.dvd.mul_left dvd_d k))
  have bound := Nat.le_of_dvd (by omega) divides
  omega

theorem Sized.frame {d : Nat} (advance : 0 < d)
    (next : (SDRPACKETSIZE - grid d + d : Int) ≤ INT32_MAX) {ctx : Ctx} (sized : Sized d ctx) :
    ∃ after, FirBounds.frame ctx = .ok after ∧ Sized d after := by
  obtain ⟨offset, placed, aligned⟩ := sized.position
  have reads : ∀ j ∈ stride d SDRPACKETSIZE offset,
      j + ctx.tapslen ≤ SDRPACKETSIZE + MAXTAPS := by
    intro j visited
    have last := le_of_mem_stride aligned visited
    have few := sized.tapslen
    omega
  have wraps : ∀ j ∈ stride d SDRPACKETSIZE offset, (j + d : Int) ≤ INT32_MAX := by
    intro j visited
    have last := le_of_mem_stride aligned visited
    omega
  have room : 8 * (0 + ((stride d SDRPACKETSIZE offset).length : Int)) ≤ ctx.maxoutsize := by
    have few := length_stride_le advance offset
    rw [sized.room]
    omega
  obtain ⟨samples, loop⟩ := firLoop_of_bounds advance reads wraps room
  rw [FirBounds.frame, sized.decim, placed, loop]
  refine ⟨_, rfl, rfl, sized.room, ?_, sized.newtapslen, sized.handler, ?_⟩
  · dsimp only
    split
    · exact sized.newtapslen
    · exact sized.tapslen
  · have exit : SDRPACKETSIZE ≤ strideExit d SDRPACKETSIZE offset := le_strideExit advance
    refine ⟨strideExit d SDRPACKETSIZE offset - SDRPACKETSIZE, by simp only; omega, ?_⟩
    have dvd_d : grid d ∣ d := Nat.gcd_dvd_left d SDRPACKETSIZE
    exact Nat.dvd_sub (Nat.dvd_add aligned (Dvd.dvd.mul_left dvd_d _))
      (Nat.gcd_dvd_right d SDRPACKETSIZE)

theorem Sized.create {d tapslen : Nat} (advance : 0 < d) (few : tapslen ≤ MAXTAPS + grid d) :
    ∃ ctx, create_xlate_worker d tapslen = .ok ctx ∧ Sized d ctx := by
  have quotient : (SDRPACKETSIZE : Int).tdiv d = (SDRPACKETSIZE / d : Nat) := rfl
  have nonneg := Int.natCast_nonneg (SDRPACKETSIZE / d)
  rw [create_xlate_worker, if_neg (by omega), quotient]
  simp only
  rw [if_neg (by omega)]
  refine ⟨_, rfl, rfl, rfl, few, Nat.zero_le _, ?_, 0, rfl, Nat.dvd_zero _⟩
  rintro _ ⟨⟩

/-- No fault so far, and the worker within its bounds. -/
def Fine (d : Nat) (state : Except Fault Ctx) : Prop := ∃ ctx, state = .ok ctx ∧ Sized d ctx

/-- Bounded requests meet no fault in any run. -/
theorem inBounds_of_bounded {decim : Int} {tapslen : Nat} {requests : Nat → Prop}
    (bounded : Bounded decim tapslen requests) : InBounds decim tapslen requests := by
  obtain ⟨d, rfl⟩ := Int.eq_ofNat_of_zero_le (Int.le_of_lt bounded.advance)
  have advance : 0 < d := by exact_mod_cast bounded.advance
  intro state reach
  have fine : Fine d state := by
    refine reach.invariant ?_ ?_
    · rintro _ rfl
      exact Sized.create advance bounded.created
    · rintro _ act next ⟨ctx, rfl, sized⟩ among step
      cases act with
      | modify count =>
          simp only [worker, step?] at step
          split at step
          · cases step
          · split at step
            · cases step
              refine ⟨_, rfl, sized.decim, sized.room, sized.tapslen, sized.newtapslen, ?_,
                sized.position⟩
              rintro _ ⟨⟩
              exact bounded.modified count among
            · cases step
              exact ⟨ctx, rfl, sized⟩
      | store =>
          obtain ⟨count, pending, rfl⟩ := Option.map_eq_some_iff.mp step
          refine ⟨_, rfl, sized.decim, sized.room, sized.tapslen, sized.handler count pending, ?_,
            sized.position⟩
          rintro _ ⟨⟩
      | frame =>
          obtain ⟨after, finished, later⟩ := sized.frame advance bounded.next
          cases step
          exact ⟨after, finished, later⟩
  obtain ⟨ctx, rfl, -⟩ := fine
  exact ⟨ctx, rfl⟩

/-! ## Beyond the bounds -/

/-- The position after `n` frames: the first evaluation that is not in them. -/
def Located (d n : Nat) (fir_offset : Int) : Prop :=
  ∃ offset : Nat, fir_offset = offset ∧
    offset + n * SDRPACKETSIZE = outputCount d (n * SDRPACKETSIZE) * d

theorem Located.start {d : Nat} (advance : 0 < d) : Located d 0 0 := by
  have nothing : outputCount d 0 = 0 := Nat.div_eq_of_lt (by omega)
  exact ⟨0, rfl, by rw [Nat.zero_mul, nothing, Nat.zero_mul]⟩

/-- A frame without a fault, by its loop. -/
theorem of_frame {ctx after : Ctx} (finished : FirBounds.frame ctx = .ok after) :
    ∃ done, firLoop ctx.decim ctx.tapslen ctx.maxoutsize ctx.fir_offset 0 = .ok done ∧
      after = { ctx with
        fir_offset := done.1 - SDRPACKETSIZE
        tapslen := if ctx.newtaps then ctx.newtapslen else ctx.tapslen
        newtaps := false } := by
  rw [FirBounds.frame] at finished
  cases loop : firLoop ctx.decim ctx.tapslen ctx.maxoutsize ctx.fir_offset 0 with
  | error fault =>
      rw [loop] at finished
      cases finished
  | ok done =>
      rw [loop] at finished
      exact ⟨done, rfl, (Except.ok.inj finished).symm⟩

/-- A frame without a fault goes on to the next, and stayed within its bounds
wherever the filter is evaluated in it. -/
theorem frame_located {d n : Nat} (advance : 0 < d) {ctx after : Ctx} (decim : ctx.decim = d)
    (located : Located d n ctx.fir_offset) (finished : FirBounds.frame ctx = .ok after) :
    Located d (n + 1) after.fir_offset ∧
      ∀ k j, k * d = n * SDRPACKETSIZE + j → j < SDRPACKETSIZE →
        j + ctx.tapslen ≤ SDRPACKETSIZE + MAXTAPS ∧ (j + d : Int) ≤ INT32_MAX := by
  obtain ⟨offset, placed, grid⟩ := located
  obtain ⟨done, loop, rfl⟩ := of_frame finished
  rw [decim, placed] at loop
  obtain ⟨exit, bounds⟩ := bounds_of_firLoop loop
  constructor
  · have past : SDRPACKETSIZE ≤ strideExit d SDRPACKETSIZE offset := le_strideExit advance
    refine ⟨strideExit d SDRPACKETSIZE offset - SDRPACKETSIZE, ?_, ?_⟩
    · simp only [exit advance]
      omega
    · rw [outputCount_succ advance grid, Nat.add_mul (outputCount _ _), ← grid, Nat.add_mul n,
        Nat.one_mul]
      rw [strideExit] at past ⊢
      omega
  · intro k j place inside
    have reached : outputCount d (n * SDRPACKETSIZE) ≤ k := by
      by_contra early
      have before := (lt_outputCount_iff advance).mp (Nat.lt_of_not_le early)
      omega
    obtain ⟨m, rfl⟩ := Nat.exists_eq_add_of_le reached
    rw [Nat.add_mul, ← grid] at place
    have visited : m < (stride d SDRPACKETSIZE offset).length :=
      (lt_length_stride_iff advance).mpr (by omega)
    apply bounds
    rw [stride_eq_map_range]
    exact List.mem_map.mpr ⟨m, List.mem_range.mpr visited, by omega⟩

/-- The filter is evaluated at the last position of the grid in frames as late
as one likes. -/
theorem exists_last_position {d : Nat} (advance : 0 < d) (late : Nat) :
    ∃ k n, late ≤ n ∧ k * d = n * SDRPACKETSIZE + (SDRPACKETSIZE - grid d) := by
  have bezout : (grid d : Int) = d * Nat.gcdA d SDRPACKETSIZE + SDRPACKETSIZE *
      Nat.gcdB d SDRPACKETSIZE := Nat.gcd_eq_gcd_ab d SDRPACKETSIZE
  have small : grid d ≤ SDRPACKETSIZE := Nat.gcd_le_right d (by decide)
  have size : (1 : Int) ≤ SDRPACKETSIZE := by decide
  generalize Nat.gcdA d SDRPACKETSIZE = a at bezout
  generalize Nat.gcdB d SDRPACKETSIZE = b at bezout
  -- far enough for the number of evaluations and of frames to be positive
  obtain ⟨far, enough⟩ : ∃ far : Nat, (late : Int) + 1 + a ≤ far ∧ (late : Int) + 1 ≤ far :=
    ⟨late + 1 + a.toNat, by omega⟩
  have evaluations : (SDRPACKETSIZE : Int) * (late + 1) ≤ SDRPACKETSIZE * far - a := by
    nlinarith
  obtain ⟨k, counted⟩ : ∃ k : Nat, (k : Int) = SDRPACKETSIZE * far - a :=
    ⟨(SDRPACKETSIZE * far - a : Int).toNat, Int.toNat_of_nonneg (by nlinarith)⟩
  have place : (k : Int) * d = SDRPACKETSIZE * (far * d + b - 1) + (SDRPACKETSIZE - grid d) := by
    rw [counted, bezout]
    ring
  have frames : (late : Int) ≤ far * d + b - 1 := by
    have once : (k : Int) ≤ k * d := by exact_mod_cast Nat.le_mul_of_pos_right k advance
    have scaled : (SDRPACKETSIZE : Int) * late ≤ SDRPACKETSIZE * (far * d + b - 1) := by
      linarith
    exact Int.le_of_mul_le_mul_left scaled (by omega)
  obtain ⟨n, numbered⟩ : ∃ n : Nat, (n : Int) = far * d + b - 1 :=
    ⟨(far * d + b - 1 : Int).toNat, Int.toNat_of_nonneg (by omega)⟩
  refine ⟨k, n, by omega, ?_⟩
  zify [small]
  rw [place, numbered]
  ring

section

variable {d tapslen : Nat} {requests : Nat → Prop}

/-- A worker that has taken over its last taps, `n` frames on its way. -/
structure Waiting (d tapslen : Nat) (requests : Nat → Prop) (taps n : Nat) (ctx : Ctx) :
    Prop where
  reach : (worker d tapslen).Reachable (Among requests) (.ok ctx)
  decim : ctx.decim = d
  tapslen : ctx.tapslen = taps
  newtaps : ctx.newtaps = false
  located : Located d n ctx.fir_offset

/-- What a frame without a fault does to the taps. -/
theorem taps_of_frame {ctx after : Ctx} (finished : FirBounds.frame ctx = .ok after) :
    after.decim = ctx.decim ∧
      after.tapslen = (if ctx.newtaps then ctx.newtapslen else ctx.tapslen) ∧
      after.newtaps = false := by
  obtain ⟨done, _, rfl⟩ := of_frame finished
  exact ⟨rfl, rfl, rfl⟩

/-- Where there are no faults, the next frame is finished. -/
theorem exists_frame {decim : Int} (safe : InBounds decim tapslen requests) {ctx : Ctx}
    (reach : (worker decim tapslen).Reachable (Among requests) (.ok ctx)) :
    ∃ after, FirBounds.frame ctx = .ok after ∧
      (worker decim tapslen).Reachable (Among requests) (.ok after) := by
  have next : (worker decim tapslen).Reachable (Among requests) (FirBounds.frame ctx) :=
    reach.step (show Among requests (.ok ctx) .frame from trivial) rfl
  obtain ⟨after, finished⟩ := safe _ next
  rw [finished] at next
  exact ⟨after, finished, next⟩

theorem Waiting.frame (advance : 0 < d) (safe : InBounds d tapslen requests) {taps n : Nat}
    {ctx : Ctx} (waiting : Waiting d tapslen requests taps n ctx) :
    ∃ after, FirBounds.frame ctx = .ok after ∧ Waiting d tapslen requests taps (n + 1) after := by
  obtain ⟨after, finished, reach⟩ := exists_frame safe waiting.reach
  obtain ⟨decim, count, newtaps⟩ := taps_of_frame finished
  rw [waiting.newtaps, waiting.tapslen] at count
  exact ⟨after, finished, reach, decim.trans waiting.decim, count, newtaps,
    (frame_located advance waiting.decim waiting.located finished).1⟩

theorem Waiting.frames (advance : 0 < d) (safe : InBounds d tapslen requests) {taps n : Nat}
    {ctx : Ctx} (waiting : Waiting d tapslen requests taps n ctx) (m : Nat) :
    ∃ after, Waiting d tapslen requests taps (n + m) after := by
  induction m with
  | zero => exact ⟨ctx, waiting⟩
  | succ m ih =>
      obtain ⟨before, later⟩ := ih
      obtain ⟨after, -, last⟩ := later.frame advance safe
      exact ⟨after, last⟩

/-- Some later frame reaches the last position of the grid. -/
theorem Waiting.bounds (advance : 0 < d) (safe : InBounds d tapslen requests) {taps n : Nat}
    {ctx : Ctx} (waiting : Waiting d tapslen requests taps n ctx) :
    taps ≤ MAXTAPS + grid d ∧ (SDRPACKETSIZE - grid d + d : Int) ≤ INT32_MAX := by
  obtain ⟨k, later, le, place⟩ := exists_last_position advance n
  obtain ⟨m, rfl⟩ := Nat.exists_eq_add_of_le le
  obtain ⟨before, arrived⟩ := waiting.frames advance safe m
  obtain ⟨after, finished, -⟩ := arrived.frame advance safe
  have positive : 0 < grid d := Nat.gcd_pos_of_pos_left SDRPACKETSIZE advance
  have small : grid d ≤ SDRPACKETSIZE := Nat.gcd_le_right d (by decide)
  obtain ⟨reads, next⟩ :=
    (frame_located advance arrived.decim arrived.located finished).2 k _ place (by omega)
  rw [arrived.tapslen] at reads
  omega

/-- A request that the first frame takes over. -/
theorem Waiting.modified (advance : 0 < d) (safe : InBounds d tapslen requests) {taps : Nat}
    {ctx : Ctx} (waiting : Waiting d tapslen requests taps 0 ctx) (free : ctx.handler = none)
    {count : Nat} (asked : requests count) (some_taps : count ≠ 0) :
    ∃ after, Waiting d tapslen requests count 1 after := by
  have pointer : (worker d tapslen).Reachable (Among requests)
      (.ok { ctx with newtaps := true, handler := some count }) := by
    refine waiting.reach.step (show Among requests (.ok ctx) (.modify count) from asked) ?_
    simp [worker, step?, free, some_taps]
  have stored : (worker d tapslen).Reachable (Among requests)
      (.ok { ctx with newtaps := true, newtapslen := count, handler := none }) :=
    pointer.step (show Among requests _ .store from trivial) rfl
  obtain ⟨after, finished, reach⟩ := exists_frame safe stored
  obtain ⟨decim, taken, newtaps⟩ := taps_of_frame finished
  exact ⟨after, reach, decim.trans waiting.decim, taken, newtaps,
    (frame_located advance (by exact waiting.decim) (by exact waiting.located) finished).1⟩

end

/-- What a worker starts with. -/
theorem of_create {decim : Int} {tapslen : Nat} {ctx : Ctx}
    (created : create_xlate_worker decim tapslen = .ok ctx) :
    decim ≠ 0 ∧ ctx.decim = decim ∧ ctx.tapslen = tapslen ∧ ctx.newtaps = false ∧
      ctx.handler = none ∧ ctx.fir_offset = 0 := by
  rw [create_xlate_worker] at created
  split at created
  · cases created
  · next nonzero =>
    simp only at created
    split at created
    · cases created
    · cases created
      exact ⟨nonzero, rfl, rfl, rfl, rfl, rfl⟩

/-- A created worker is safe from then on exactly when its requests are bounded. -/
theorem inBounds_iff_bounded (decim : Int) (tapslen : Nat) (requests : Nat → Prop) :
    InBounds decim tapslen requests ↔ Bounded decim tapslen requests := by
  refine ⟨fun safe => ?_, inBounds_of_bounded⟩
  have reach : (worker decim tapslen).Reachable (Among requests)
      (create_xlate_worker decim tapslen) := ⟨_, [], rfl, .nil _⟩
  obtain ⟨ctx, created⟩ := safe _ reach
  rw [created] at reach
  obtain ⟨nonzero, same, taps, newtaps, free, offset⟩ := of_create created
  have advance : 1 ≤ decim := by
    by_contra stuck
    obtain ⟨after, finished, -⟩ := exists_frame safe reach
    obtain ⟨done, loop, _⟩ := of_frame finished
    rw [offset] at loop
    exact firLoop_stuck (by omega) (by decide) done loop
  obtain ⟨d, rfl⟩ := Int.eq_ofNat_of_zero_le (Int.le_of_lt advance)
  have positive : 0 < d := by exact_mod_cast advance
  have waiting : Waiting d tapslen requests tapslen 0 ctx :=
    ⟨reach, same, taps, newtaps, offset ▸ Located.start positive⟩
  obtain ⟨few, next⟩ := waiting.bounds positive safe
  refine ⟨advance, next, few, fun count asked => ?_⟩
  rcases Nat.eq_zero_or_pos count with rfl | some_taps
  · exact Nat.zero_le _
  · obtain ⟨after, later⟩ :=
      waiting.modified positive safe free asked (Nat.ne_of_gt some_taps)
    exact (later.bounds positive safe).1

/-- A decimation of zero, and a filter of 140000 taps, for which 1 MiB has room. -/
theorem not_inBounds_requests :
    ¬InBounds 0 0 (fun _ => False) ∧ ¬InBounds 131072 140000 (fun _ => False) := by
  constructor
  · intro safe
    obtain ⟨ctx, created⟩ := safe (create_xlate_worker 0 0) ⟨_, [], rfl, .nil _⟩
    cases created
  · intro safe
    have reach : (worker 131072 140000).Reachable (Among fun _ => False)
        (create_xlate_worker 131072 140000) := ⟨_, [], rfl, .nil _⟩
    obtain ⟨ctx, created⟩ := safe _ reach
    rw [created] at reach
    obtain ⟨after, finished, -⟩ := exists_frame safe reach
    cases created
    obtain ⟨done, loop, _⟩ := of_frame finished
    have first := (firLoop_turn (by decide) loop).2.2.2
    have second := (firLoop_turn (by decide) first).2.2.2
    have third := (firLoop_turn (by decide) second).2.2.2
    have last := (firLoop_turn (by decide) third).2.1 (by decide)
    exact absurd last.2 (by decide)

end Kukuruku.Server.FirBounds
