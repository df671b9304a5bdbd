import Kukuruku.Server.Spectrum

/-!
# What the power spectrum reads

The loops of `calc_spectrum` with the sample indices that they read from
`pkt->data`.  `base` goes on from line to line, while the bound of the loop over
`j` is that of one line.
-/

namespace Kukuruku.Server.SpectrumReads

open Kukuruku.Fir
open Kukuruku.Server.XlateWorker (Floats lt_outputCount_iff)
open Kukuruku.Server.Spectrum

variable {K : Type*} [Field K]

/-- The loop over `k`. -/
def transformReads (fftsize : Nat) (acc : Accum K) : List Nat :=
  (List.range fftsize).map fun k => acc.base + k

/-- The loop over `j`. -/
def lineReads (L : Nat → Nat → K) (fftsize spp fftskip base : Nat) : Accum K × List Nat :=
  (lineSteps fftsize spp fftskip).foldl
    (fun state _ => (state.1.transform L fftsize fftskip,
      state.2 ++ transformReads fftsize state.1)) (⟨base, 0, fun _ => 0⟩, [])

/-- The loop over `i`, with `base`.  It goes on after a division by zero. -/
def packetReads (L : Nat → Nat → K) (fftsize spp fftskip : Nat) : Nat × List Nat :=
  (List.range spp).foldl
    (fun state _ =>
      let line := lineReads L fftsize spp fftskip state.1
      (line.1.base, state.2 ++ line.2)) (0, [])

/-! ## The loops without their reads -/

section Loops

variable (L : Nat → Nat → K) (fftsize spp fftskip : Nat)

theorem foldl_reads (steps : List Nat) (acc : Accum K) (before : List Nat) :
    let after := steps.foldl (fun state _ => (state.1.transform L fftsize fftskip,
      state.2 ++ transformReads fftsize state.1)) (acc, before)
    after.1 = steps.foldl (fun acc _ => acc.transform L fftsize fftskip) acc ∧
      ∀ index, index ∈ after.2 ↔ index ∈ before ∨
        ∃ t < steps.length, ∃ k < fftsize, index = acc.base + t * fftskip + k := by
  induction steps generalizing acc before with
  | nil =>
      refine ⟨rfl, fun index => ⟨Or.inl, ?_⟩⟩
      rintro (found | ⟨t, none, -⟩)
      · exact found
      · exact absurd none (Nat.not_lt_zero t)
  | cons step rest ih =>
      obtain ⟨same, reads⟩ :=
        ih (acc.transform L fftsize fftskip) (before ++ transformReads fftsize acc)
      refine ⟨same, fun index => (reads index).trans ?_⟩
      rw [transform_base, List.mem_append, or_assoc]
      refine or_congr_right ?_
      rw [transformReads, List.mem_map]
      constructor
      · rintro (⟨k, inside, rfl⟩ | ⟨t, earlier, k, inside, rfl⟩)
        · exact ⟨0, Nat.succ_pos _, k, List.mem_range.mp inside, by omega⟩
        · exact ⟨t + 1, Nat.succ_lt_succ earlier, k, inside, by rw [Nat.succ_mul]; omega⟩
      · rintro ⟨t, earlier, k, inside, rfl⟩
        cases t with
        | zero => exact Or.inl ⟨k, List.mem_range.mpr inside, by omega⟩
        | succ t =>
            exact Or.inr ⟨t, Nat.lt_of_succ_lt_succ earlier, k, inside, by rw [Nat.succ_mul]; omega⟩

/-- The sums of a line do not depend on the record of its reads. -/
theorem lineReads_fst (base : Nat) :
    (lineReads L fftsize spp fftskip base).1 = accumulate L fftsize spp fftskip base :=
  (foldl_reads L fftsize fftskip _ _ []).1

theorem mem_lineReads {base index : Nat} : index ∈ (lineReads L fftsize spp fftskip base).2 ↔
    ∃ t < transforms fftsize spp fftskip, ∃ k < fftsize, index = base + t * fftskip + k := by
  refine ((foldl_reads L fftsize fftskip _ _ []).2 index).trans ?_
  simp only [List.not_mem_nil, false_or]
  rfl

theorem lineReads_base (i : Nat) :
    (lineReads L fftsize spp fftskip (i * transforms fftsize spp fftskip * fftskip)).1.base =
      (i + 1) * transforms fftsize spp fftskip * fftskip := by
  rw [lineReads_fst]
  exact (accumulate_spec L fftsize fftskip spp i).1

/-- `base` after the first `n` lines, and what they read. -/
theorem foldl_lines (n : Nat) :
    let after := (List.range n).foldl
      (fun state _ =>
        let line := lineReads L fftsize spp fftskip state.1
        (line.1.base, state.2 ++ line.2)) (0, [])
    after.1 = n * transforms fftsize spp fftskip * fftskip ∧
      ∀ index, index ∈ after.2 ↔ ∃ i < n, ∃ t < transforms fftsize spp fftskip,
        ∃ k < fftsize, index = (i * transforms fftsize spp fftskip + t) * fftskip + k := by
  induction n with
  | zero => simp
  | succ n ih =>
      obtain ⟨base, reads⟩ := ih
      rw [List.range_succ, List.foldl_concat]
      dsimp only
      rw [base, lineReads_base]
      refine ⟨rfl, fun index => ?_⟩
      rw [List.mem_append, reads, mem_lineReads]
      constructor
      · rintro (⟨i, earlier, found⟩ | ⟨t, inLine, k, inside, rfl⟩)
        · exact ⟨i, by omega, found⟩
        · exact ⟨n, Nat.lt_succ_self n, t, inLine, k, inside, by rw [Nat.add_mul]⟩
      · rintro ⟨i, earlier, t, inLine, k, inside, rfl⟩
        rcases Nat.lt_succ_iff_lt_or_eq.mp earlier with before | rfl
        · exact Or.inl ⟨i, before, t, inLine, k, inside, rfl⟩
        · exact Or.inr ⟨t, inLine, k, inside, by rw [Nat.add_mul]⟩

theorem mem_packetReads {index : Nat} : index ∈ (packetReads L fftsize spp fftskip).2 ↔
    ∃ i < spp, ∃ t < transforms fftsize spp fftskip, ∃ k < fftsize,
      index = (i * transforms fftsize spp fftskip + t) * fftskip + k :=
  (foldl_lines L fftsize spp fftskip spp).2 index

end Loops

/-! ## The bounds -/

section Bounds

variable {fftsize spp fftskip : Nat}

/-- A line that has a transform has room for all its steps and one more transform. -/
theorem line_room (advance : 1 ≤ fftskip) (fits : Fits fftsize spp fftskip)
    (some : 0 < transforms fftsize spp fftskip) :
    transforms fftsize spp fftskip * fftskip + fftsize < SDRPACKETSIZE / spp := by
  obtain ⟨last, count⟩ := Nat.exists_eq_succ_of_ne_zero (Nat.ne_of_gt some)
  have inside : last < transforms fftsize spp fftskip := by omega
  rw [transforms_eq advance fits, lt_outputCount_iff advance] at inside
  rw [count, Nat.succ_mul]
  omega

/-- Transform `t` of line `i` lies in the packet. -/
theorem transform_inside (advance : 1 ≤ fftskip) (fits : Fits fftsize spp fftskip)
    {i t k : Nat} (line : i < spp)
    (inLine : t < transforms fftsize spp fftskip) (inside : k < fftsize) :
    (i * transforms fftsize spp fftskip + t) * fftskip + k < SDRPACKETSIZE := by
  have room := line_room advance fits (Nat.zero_lt_of_lt inLine)
  have before : i * transforms fftsize spp fftskip + t ≤ spp * transforms fftsize spp fftskip := by
    have whole := Nat.mul_le_mul_right (transforms fftsize spp fftskip) (Nat.succ_le_of_lt line)
    rw [Nat.succ_mul] at whole
    omega
  calc (i * transforms fftsize spp fftskip + t) * fftskip + k
      < spp * transforms fftsize spp fftskip * fftskip + spp * fftsize := by
        refine Nat.add_lt_add_of_le_of_lt (Nat.mul_le_mul_right fftskip before) ?_
        exact inside.trans_le (Nat.le_mul_of_pos_left fftsize (Nat.zero_lt_of_lt line))
    _ = spp * (transforms fftsize spp fftskip * fftskip + fftsize) := by
        rw [Nat.mul_add, Nat.mul_assoc]
    _ ≤ spp * (SDRPACKETSIZE / spp) := Nat.mul_le_mul_left spp room.le
    _ ≤ SDRPACKETSIZE := Nat.mul_div_le SDRPACKETSIZE spp

/-- Unless the bound of a line overflows, every sample that is read lies in the packet, and
so do its two floats. -/
theorem reads_inside (L : Nat → Nat → K) (advance : 1 ≤ fftskip)
    (fits : Fits fftsize spp fftskip) :
    ∀ index ∈ (packetReads L fftsize spp fftskip).2,
      index < SDRPACKETSIZE ∧ index * COMPLEX + 1 < SDRPACKETSIZE * COMPLEX := by
  intro index read
  obtain ⟨i, line, t, inLine, k, inside, rfl⟩ := (mem_packetReads L fftsize spp fftskip).mp read
  have bound := transform_inside advance fits line inLine inside
  refine ⟨bound, ?_⟩
  rw [COMPLEX_eq]
  omega

/-- The last sample of the server's last transform. -/
theorem reads_inside_server :
    62 * (SDRPACKETSIZE / 64) + 1023 ∈
        (packetReads (fun _ _ => (1 : ℚ)) 1024 1 (SDRPACKETSIZE / 64)).2 ∧
      62 * (SDRPACKETSIZE / 64) + 1023 < SDRPACKETSIZE ∧
      (62 * (SDRPACKETSIZE / 64) + 1023) * COMPLEX + 1 < SDRPACKETSIZE * COMPLEX := by
  have count : transforms 1024 1 (SDRPACKETSIZE / 64) = 63 :=
    (transforms_of_room (by decide) (by decide)).trans (by decide)
  have read : 62 * (SDRPACKETSIZE / 64) + 1023 ∈
      (packetReads (fun _ _ => (1 : ℚ)) 1024 1 (SDRPACKETSIZE / 64)).2 := by
    refine (mem_packetReads _ _ _ _).mpr ⟨0, by decide, 62, ?_, 1023, by decide, ?_⟩
    · rw [count]
      decide
    · rw [Nat.zero_mul, Nat.zero_add]
  exact ⟨read, reads_inside _ (by decide) (by decide) _ read⟩

/-- With a step of INT_MAX the bound of the one line wraps around to INT_MAX, and a
transform that is longer than the packet is done. -/
theorem not_reads_inside_overflow :
    SDRPACKETSIZE + 1 ∈ (packetReads (fun _ _ => (1 : ℚ)) (SDRPACKETSIZE + 2) 1 (2 ^ 31 - 1)).2 ∧
      ¬ SDRPACKETSIZE + 1 < SDRPACKETSIZE := by
  have some : 0 < transforms (SDRPACKETSIZE + 2) 1 (2 ^ 31 - 1) := by
    rw [transforms, lineSteps, lt_length_stride_iff (by decide)]
    decide
  exact ⟨(mem_packetReads _ _ _ _).mpr
    ⟨0, by decide, 0, some, SDRPACKETSIZE + 1, by decide, by omega⟩, by decide⟩

end Bounds

/-! ## Nothing else is read -/

section Dependence

variable {L other : Nat → Nat → K} {fftsize spp fftskip : Nat}

/-- Two log powers that agree on the transforms of the packet. -/
def Agree (L other : Nat → Nat → K) (fftsize spp fftskip : Nat) : Prop :=
  ∀ i < spp, ∀ t < transforms fftsize spp fftskip, ∀ k,
    L ((i * transforms fftsize spp fftskip + t) * fftskip) k =
      other ((i * transforms fftsize spp fftskip + t) * fftskip) k

theorem transform_congr {acc : Accum K} (same : ∀ k, L acc.base k = other acc.base k) :
    acc.transform L fftsize fftskip = acc.transform other fftsize fftskip := by
  simp only [Accum.transform, same]

theorem foldl_transform_congr (steps : List Nat) (acc : Accum K)
    (same : ∀ t < steps.length, ∀ k,
      L (acc.base + t * fftskip) k = other (acc.base + t * fftskip) k) :
    steps.foldl (fun acc _ => acc.transform L fftsize fftskip) acc =
      steps.foldl (fun acc _ => acc.transform other fftsize fftskip) acc := by
  induction steps generalizing acc with
  | nil => rfl
  | cons step rest ih =>
      have first := same 0 (Nat.succ_pos _)
      rw [Nat.zero_mul, Nat.add_zero] at first
      rw [List.foldl_cons, List.foldl_cons, transform_congr first]
      refine ih _ fun t earlier k => ?_
      have later := same (t + 1) (Nat.succ_lt_succ earlier) k
      rw [Nat.succ_mul, Nat.add_comm _ fftskip, ← Nat.add_assoc] at later
      exact later

theorem accumulate_congr (agree : Agree L other fftsize spp fftskip) {i : Nat} (line : i < spp) :
    accumulate L fftsize spp fftskip (i * transforms fftsize spp fftskip * fftskip) =
      accumulate other fftsize spp fftskip (i * transforms fftsize spp fftskip * fftskip) := by
  refine foldl_transform_congr _ _ fun t inLine k => ?_
  have same := agree i line t inLine k
  rw [Nat.add_mul] at same
  exact same

/-- The lines before line `n` come out the same, with the same `base`. -/
theorem foldlM_line_congr (agree : Agree L other fftsize spp fftskip) (spectrum : Floats K)
    {n : Nat} (enough : n ≤ spp) :
    (List.range n).foldlM (line L fftsize spp fftskip) ⟨0, spectrum⟩ =
        (List.range n).foldlM (line other fftsize spp fftskip) ⟨0, spectrum⟩ ∧
      ∀ lines, (List.range n).foldlM (line L fftsize spp fftskip) ⟨0, spectrum⟩ = some lines →
        lines.base = n * transforms fftsize spp fftskip * fftskip := by
  induction n with
  | zero =>
      refine ⟨rfl, ?_⟩
      rintro lines ⟨⟩
      simp
  | succ n ih =>
      obtain ⟨same, base⟩ := ih (Nat.le_of_succ_le enough)
      rw [List.range_succ, List.foldlM_append, List.foldlM_append, ← same]
      cases found : (List.range n).foldlM (line L fftsize spp fftskip) ⟨0, spectrum⟩ with
      | none => exact ⟨rfl, nofun⟩
      | some lines =>
          have place := base lines found
          have sums := accumulate_congr agree enough
          rw [← place] at sums
          have after := (accumulate_spec L fftsize fftskip spp n).1
          rw [← place] at after
          simp only [Option.bind_eq_bind, Option.bind_some, List.foldlM_cons, List.foldlM_nil]
          refine ⟨by simp only [line, sums], fun next reached => ?_⟩
          obtain ⟨_, step, ⟨⟩⟩ := Option.bind_eq_some_iff.mp reached
          rw [line] at step
          obtain ⟨_, _, rfl⟩ := Option.map_eq_some_iff.mp step
          exact after

/-- The spectrum depends on no float but those of the samples in the record. -/
theorem calc_spectrum_reads (fftw : Fftw K) (junk : Floats K) (pkt : SdrPacket K)
    {data : Floats K}
    (same : ∀ index ∈ (packetReads (logPower fftw fftsize data) fftsize spp fftskip).2,
      data (index * COMPLEX) = pkt.data (index * COMPLEX) ∧
        data (index * COMPLEX + 1) = pkt.data (index * COMPLEX + 1)) :
    calc_spectrum (logPower fftw fftsize data) fftsize junk pkt spp fftskip =
      calc_spectrum (logPower fftw fftsize pkt.data) fftsize junk pkt spp fftskip := by
  have agree : Agree (logPower fftw fftsize data) (logPower fftw fftsize pkt.data)
      fftsize spp fftskip := by
    intro i line t inLine bin
    refine logPower_congr fftw (fun k inside => ?_) bin
    exact same _ ((mem_packetReads _ _ _ _).mpr ⟨i, line, t, inLine, k, inside, rfl⟩)
  rw [calc_spectrum, (foldlM_line_congr agree _ (Nat.le_refl spp)).1]
  rfl

end Dependence

end Kukuruku.Server.SpectrumReads
