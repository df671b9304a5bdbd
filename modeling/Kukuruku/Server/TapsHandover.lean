import Mathlib.Analysis.SpecialFunctions.Trigonometric.Basic
import Mathlib.Data.List.GetD
import Kukuruku.Foundation.Machine
import Kukuruku.Server.ChannelChain

/-!
# New taps and rotation for a running worker

The handler of `MODIFY_XLATER` stores `newtaps`, `newtapslen` and `rotate`, one
after the other and without `datamutex`.  The worker computes `phase_inc` from
`rotate` at the beginning of a frame and takes new taps over at its end, reading
each of the three as it comes to them, `newtaps` and `newtapslen` more than once.
The arguments of a call are read in any order.  `adopted` is history: the real
taps that were rotated last.
-/

namespace Kukuruku.Server.TapsHandover

open XlateWorker ChannelChain

variable {R : Type*} [CommRing R]

/-- One assignment of the handler. -/
inductive Store (R : Type*) where
  | newtaps (taps : List R)
  | newtapslen (len : Nat)
  | rotate (value : R)

/-- The assignments of `MODIFY_XLATER` to the worker it has found. -/
def MODIFY_XLATER (rotate : R) (newtaps : List R) : List (Store R) :=
  if newtaps.length ≠ 0 then
    [.newtaps newtaps, .newtapslen newtaps.length, .rotate rotate]
  else [.rotate rotate]

/-- Where the worker is.  `cos` has read `rotate` for the real part of `phase_inc`,
`frame` for both parts.  The others are the section at the end of a frame, where
new taps were found: two calls with what has been read for them, the assignment of
`tapslen` between these, and the end of the new taps. -/
inductive Pc (R : Type*) where
  | wait
  | cos (re : R)
  | frame (re im : R)
  | get_complex_taps (newtaps : Option (List R)) (newtapslen : Option Nat) (rotate : Option R)
  | tapslen
  | calc_max_amplitude (newtaps : Option (List R)) (newtapslen : Option Nat)
  | free

/-- The worker holds `datamutex` for the section at the end of a frame. -/
def Pc.section : Pc R → Bool
  | .wait | .cos _ | .frame _ _ => false
  | _ => true

structure Ctx (R : Type*) [CommRing R] where
  rotate : R
  decim : Int
  taps : List (lv_32fc_t R)
  tapslen : Nat
  newtaps : Option (List R)
  newtapslen : Nat
  handler : List (Store R)
  pc : Pc R
  adopted : List R

/-- `junk` is what lies behind an array. -/
inductive Act (R : Type*) where
  | modify (rotate : R) (newtaps : List R)
  | store
  | cos
  | sin
  | test
  | newtaps
  | newtapslen
  | rotate
  | get_complex_taps (junk : Nat → R)
  | tapslen
  | calc_max_amplitude
  | free

/-- The first `len` entries of an array. -/
def entries (array : List R) (len : Nat) (junk : Nat → R) : List R :=
  (List.range len).map fun i => array.getD i (junk i)

namespace Ctx

variable (trig : Trig R)

def create (rotate : R) (decim : Int) (taps : List R) : Ctx R where
  rotate := rotate
  decim := decim
  taps := trig.get_complex_taps taps rotate
  tapslen := taps.length
  newtaps := none
  newtapslen := 0
  handler := []
  pc := .wait
  adopted := taps

def assign (s : Ctx R) : Store R → Ctx R
  | .newtaps taps => { s with newtaps := some taps }
  | .newtapslen len => { s with newtapslen := len }
  | .rotate value => { s with rotate := value }

/-- Handlers hold `llmutex`, so one of them ends before the next begins. -/
def step? (s : Ctx R) : Act R → Option (Ctx R)
  | .modify rotate newtaps =>
      match s.handler with
      | [] => some { s with handler := MODIFY_XLATER rotate newtaps }
      | _ :: _ => none
  | .store =>
      match s.handler with
      | [] => none
      | assignment :: rest => some { s.assign assignment with handler := rest }
  | .cos =>
      match s.pc with
      | .wait => some { s with pc := .cos s.rotate }
      | _ => none
  | .sin =>
      match s.pc with
      | .cos re => some { s with pc := .frame re s.rotate }
      | _ => none
  | .test =>
      match s.pc with
      | .frame _ _ =>
          some { s with
            pc := if s.newtaps.isSome then .get_complex_taps none none none else .wait }
      | _ => none
  | .newtaps =>
      match s.pc with
      | .get_complex_taps none len rotate =>
          some { s with pc := .get_complex_taps s.newtaps len rotate }
      | .calc_max_amplitude none len => some { s with pc := .calc_max_amplitude s.newtaps len }
      | _ => none
  | .newtapslen =>
      match s.pc with
      | .get_complex_taps array none rotate =>
          some { s with pc := .get_complex_taps array (some s.newtapslen) rotate }
      | .calc_max_amplitude array none =>
          some { s with pc := .calc_max_amplitude array (some s.newtapslen) }
      | _ => none
  | .rotate =>
      match s.pc with
      | .get_complex_taps array len none =>
          some { s with pc := .get_complex_taps array len (some s.rotate) }
      | _ => none
  | .get_complex_taps junk =>
      match s.pc with
      | .get_complex_taps (some array) (some len) (some rotate) =>
          some { s with
            taps := trig.get_complex_taps (entries array len junk) rotate
            adopted := entries array len junk
            pc := .tapslen }
      | _ => none
  | .tapslen =>
      match s.pc with
      | .tapslen => some { s with tapslen := s.newtapslen, pc := .calc_max_amplitude none none }
      | _ => none
  | .calc_max_amplitude =>
      match s.pc with
      | .calc_max_amplitude (some _) (some _) => some { s with pc := .free }
      | _ => none
  | .free =>
      match s.pc with
      | .free => some { s with newtaps := none, pc := .wait }
      | _ => none

/-- The rotation of the outputs of a frame. -/
def phase_inc (s : Ctx R) (re im : R) : lv_32fc_t R :=
  lv_cmake (trig.cos (re * s.decim)) (trig.sin (im * s.decim))

end Ctx

/-- One worker from its creation on, and the requests that modify it. -/
def worker (trig : Trig R) : Machine (Ctx R) (Act R) where
  Initial s := ∃ rotate decim taps, s = .create trig rotate decim taps
  step? := Ctx.step? trig

/-- In a frame, `phase_inc` and the taps, all of them, come from one value of `rotate`. -/
def Agree (trig : Trig R) (s : Ctx R) : Prop :=
  ∀ re im, s.pc = .frame re im →
    s.phase_inc trig re im = trig.expj (re * s.decim) ∧ re = im ∧
      s.taps = trig.get_complex_taps s.adopted re ∧ s.tapslen = s.adopted.length

/-- Where `rotate` may change: `phase_inc` is computed, and the taps, if there are
new ones, are not yet rotated. -/
inductive Pc.Open : Pc R → Prop where
  | frame (re im : R) : Pc.Open (.frame re im)
  | call (newtaps : Option (List R)) (newtapslen : Option Nat) :
      Pc.Open (.get_complex_taps newtaps newtapslen none)

/-- `newtapslen` has been read for the taps, and not yet for their number. -/
inductive Pc.Sized : Pc R → Prop where
  | call (newtaps : Option (List R)) (len : Nat) (rotate : Option R) :
      Pc.Sized (.get_complex_taps newtaps (some len) rotate)
  | tapslen : Pc.Sized .tapslen

/-- No call reads behind the new taps. -/
def Pc.Inside : Pc R → Prop
  | .get_complex_taps (some array) (some len) _ | .calc_max_amplitude (some array) (some len) =>
      len ≤ array.length
  | _ => True

/-- A handler changes `rotate` only while the worker is inside a frame, and a frame
during which it has changed ends with new taps to take over.  It does not change
`newtapslen` between the taps and their number, and nothing is read behind the taps. -/
def Together (s : Ctx R) : Act R → Prop
  | .store =>
      (∀ value rest, s.handler = .rotate value :: rest → value = s.rotate ∨ s.pc.Open) ∧
        ∀ len rest, s.handler = .newtapslen len :: rest → len = s.newtapslen ∨ ¬ s.pc.Sized
  | .test => ∀ re im, s.pc = .frame re im → s.newtaps ≠ none ∨ s.rotate = re
  | .get_complex_taps _ | .calc_max_amplitude => s.pc.Inside
  | _ => True

/-! ## Arrays -/

omit [CommRing R] in
theorem length_entries (array : List R) (len : Nat) (junk : Nat → R) :
    (entries array len junk).length = len := by
  rw [entries, List.length_map, List.length_range]

omit [CommRing R] in
/-- Nothing is read behind the array. -/
theorem entries_eq_take {array : List R} {len : Nat} (inside : len ≤ array.length)
    (junk : Nat → R) : entries array len junk = array.take len := by
  apply List.ext_getElem
  · rw [length_entries, List.length_take, Nat.min_eq_left inside]
  · intro i read _
    have below : i < array.length := by
      rw [length_entries] at read
      omega
    simp only [entries, List.getElem_map, List.getElem_range, List.getElem_take,
      List.getD_eq_getElem _ _ below]

/-! ## The invariant -/

/-- The taps belong to the rotation that the next frame will use, or that this
frame uses; in the section at its end, to what has been read so far. -/
def Tuned (trig : Trig R) (s : Ctx R) : Prop :=
  match s.pc with
  | .wait | .calc_max_amplitude _ _ | .free =>
      s.taps = trig.get_complex_taps s.adopted s.rotate ∧ s.tapslen = s.adopted.length
  | .cos re =>
      re = s.rotate ∧ s.taps = trig.get_complex_taps s.adopted re ∧
        s.tapslen = s.adopted.length
  | .frame re im =>
      re = im ∧ s.taps = trig.get_complex_taps s.adopted re ∧ s.tapslen = s.adopted.length
  | .get_complex_taps _ len rotate =>
      (∀ read, len = some read → read = s.newtapslen) ∧ ∀ read, rotate = some read → read = s.rotate
  | .tapslen =>
      s.taps = trig.get_complex_taps s.adopted s.rotate ∧ s.newtapslen = s.adopted.length

section Steps

variable {trig : Trig R} {s t : Ctx R}

theorem Tuned.store (tuned : Tuned trig s) (together : Together s .store)
    (step : s.step? trig .store = some t) : Tuned trig t := by
  obtain ⟨turned, sized⟩ := together
  cases pending : s.handler with
  | nil =>
      simp only [Ctx.step?, pending] at step
      cases step
  | cons assignment rest =>
      simp only [Ctx.step?, pending] at step
      cases step
      cases assignment with
      | newtaps => exact tuned
      | newtapslen len =>
          rcases sized len rest pending with same | apart
          · have kept : s.assign (.newtapslen len) = s := by rw [Ctx.assign, same]
            rw [kept]
            exact tuned
          · cases place : s.pc with
            | tapslen => exact absurd (place ▸ .tapslen) apart
            | get_complex_taps array read rotate =>
                rw [Tuned, place] at tuned
                simp only [Tuned, Ctx.assign, place]
                refine ⟨fun old known => ?_, tuned.2⟩
                subst known
                exact absurd (place ▸ .call array old rotate) apart
            | _ =>
                rw [Tuned, place] at tuned
                simp only [Tuned, Ctx.assign, place]
                exact tuned
      | rotate value =>
          rcases turned value rest pending with same | inside
          · have kept : s.assign (.rotate value) = s := by rw [Ctx.assign, same]
            rw [kept]
            exact tuned
          · cases place : s.pc with
            | frame re im =>
                rw [Tuned, place] at tuned
                simp only [Tuned, Ctx.assign, place]
                exact tuned
            | get_complex_taps array read rotate =>
                rw [Tuned, place] at tuned
                rw [place] at inside
                cases inside
                simp only [Tuned, Ctx.assign, place]
                exact ⟨tuned.1, nofun⟩
            | _ =>
                rw [place] at inside
                cases inside

/-- A frame that ends without new taps has kept its rotation. -/
theorem Tuned.test (tuned : Tuned trig s) (together : Together s .test)
    (step : s.step? trig .test = some t) : Tuned trig t := by
  rw [Ctx.step?] at step
  split at step
  · rename_i re im inside
    obtain rfl := Option.some.inj step
    rw [Tuned, inside] at tuned
    cases fresh : s.newtaps with
    | none =>
        have same : s.rotate = re :=
          (together re im inside).resolve_left fun pending => pending fresh
        simp only [Tuned, Option.isSome_none, Bool.false_eq_true, if_false, same]
        exact tuned.2
    | some array =>
        simp only [Tuned, Option.isSome_some, if_true]
        exact ⟨nofun, nofun⟩
  · cases step

/-- The section's readings, while what they read stays as it is. -/
theorem Tuned.read {act : Act R} (tuned : Tuned trig s)
    (reads : act = .newtaps ∨ act = .newtapslen ∨ act = .rotate)
    (step : s.step? trig act = some t) : Tuned trig t := by
  rcases reads with rfl | rfl | rfl
  all_goals
    rw [Ctx.step?] at step
    split at step
    all_goals first
      | cases step; done
      | obtain rfl := Option.some.inj step
        rename_i place
        rw [Tuned, place] at tuned
        simp only [Tuned, Option.some.injEq, forall_eq', true_and, and_true, reduceCtorEq,
          false_implies, implies_true] at tuned ⊢
        exact tuned

theorem Tuned.call {junk : Nat → R} (tuned : Tuned trig s)
    (step : s.step? trig (.get_complex_taps junk) = some t) : Tuned trig t := by
  rw [Ctx.step?] at step
  split at step
  · rename_i array len rotate place
    obtain rfl := Option.some.inj step
    rw [Tuned, place] at tuned
    obtain ⟨sized, turned⟩ := tuned
    obtain rfl := sized len rfl
    obtain rfl := turned rotate rfl
    exact ⟨rfl, (length_entries _ _ _).symm⟩
  · cases step

theorem Tuned.step {act : Act R} (tuned : Tuned trig s) (together : Together s act)
    (step : s.step? trig act = some t) : Tuned trig t := by
  cases act with
  | store => exact tuned.store together step
  | test => exact tuned.test together step
  | newtaps => exact tuned.read (.inl rfl) step
  | newtapslen => exact tuned.read (.inr (.inl rfl)) step
  | rotate => exact tuned.read (.inr (.inr rfl)) step
  | get_complex_taps junk => exact tuned.call step
  | modify rotate newtaps =>
      rw [Ctx.step?] at step
      split at step
      · cases step
        exact tuned
      · cases step
  | cos =>
      rw [Ctx.step?] at step
      split at step
      · rename_i place
        cases step
        rw [Tuned, place] at tuned
        exact ⟨rfl, tuned⟩
      · cases step
  | sin =>
      rw [Ctx.step?] at step
      split at step
      · rename_i place
        cases step
        rw [Tuned, place] at tuned
        exact tuned
      · cases step
  | tapslen | calc_max_amplitude | free =>
      rw [Ctx.step?] at step
      split at step
      · rename_i place
        cases step
        rw [Tuned, place] at tuned
        exact tuned
      · cases step

end Steps

/-- While rotation and taps change together, every frame is filtered and rotated
for one channel. -/
theorem agree_of_together (trig : Trig R) {s : Ctx R}
    (reach : (worker trig).Reachable Together s) : Agree trig s := by
  have tuned : Tuned trig s := by
    refine reach.invariant ?_ ?_
    · rintro s ⟨rotate, decim, taps, rfl⟩
      exact ⟨rfl, rfl⟩
    · intro s act t tuned together step
      exact tuned.step together step
  intro re im inside
  rw [Tuned, inside] at tuned
  obtain ⟨rfl, taps⟩ := tuned
  exact ⟨rfl, rfl, taps⟩

/-! ## Real angles -/

noncomputable def Trig.real : Trig ℝ where
  cos := Real.cos
  sin := Real.sin
  cos_zero := Real.cos_zero
  sin_zero := Real.sin_zero
  cos_add := Real.cos_add
  sin_add := Real.sin_add

/-- A request with new taps that is handled while the worker is inside a frame, the
rotation when the end of the frame has read the other two. -/
theorem agree_of_together_new_taps :
    ∃ s, (worker Trig.real).Reachable Together s ∧ s.pc = .frame Real.pi Real.pi ∧
      s.adopted = [1, 1] ∧ Agree Trig.real s := by
  obtain ⟨s, run, inside, taken⟩ : ∃ s,
      (worker Trig.real).Run Together (.create Trig.real 0 1 [1])
        [.cos, .sin, .modify Real.pi [1, 1], .store, .store, .test, .newtapslen, .newtaps,
          .store, .rotate, .get_complex_taps fun _ => 0, .tapslen, .newtaps, .newtapslen,
          .calc_max_amplitude, .free, .cos, .sin] s ∧
        s.pc = .frame Real.pi Real.pi ∧ s.adopted = [1, 1] := by
    refine ⟨_, .cons trivial rfl <| .cons trivial rfl <| .cons trivial rfl <| .cons ?_ rfl <|
      .cons ?_ rfl <| .cons ?_ rfl <| .cons trivial rfl <| .cons trivial rfl <| .cons ?_ rfl <|
      .cons trivial rfl <| .cons ?_ rfl <| .cons trivial rfl <| .cons trivial rfl <|
      .cons trivial rfl <| .cons ?_ rfl <| .cons trivial rfl <| .cons trivial rfl <|
      .cons trivial rfl <| .nil _, rfl, rfl⟩
    · exact ⟨nofun, nofun⟩
    · exact ⟨nofun, fun _ _ _ => Or.inr nofun⟩
    · exact fun _ _ _ => Or.inl (Option.some_ne_none _)
    · exact ⟨fun _ _ _ => Or.inr (.call _ _), nofun⟩
    · exact Nat.le_refl 2
    · exact Nat.le_refl 2
  have reach : (worker Trig.real).Reachable Together s := ⟨_, _, ⟨0, 1, [1], rfl⟩, run⟩
  exact ⟨s, reach, inside, taken, agree_of_together Trig.real reach⟩

/-- A request that carries only a rotation, as the frequency control of the
client sends it: the next frame is rotated by it but filtered for the old one. -/
theorem not_agree_rotate_only :
    ¬∀ s, (worker Trig.real).Reachable Machine.Any s → Agree Trig.real s := by
  intro agree
  obtain ⟨s, run, inside, taps, adopted⟩ : ∃ s,
      (worker Trig.real).run? (.create Trig.real 0 1 [1, 1])
        [.modify Real.pi [], .store, .cos, .sin] = some s ∧
      s.pc = .frame Real.pi Real.pi ∧ s.taps = Trig.real.get_complex_taps [1, 1] 0 ∧
      s.adopted = [1, 1] := ⟨_, rfl, rfl, rfl, rfl⟩
  have same := (agree s ⟨_, _, ⟨0, 1, [1, 1], rfl⟩, .of_run? run⟩ _ _ inside).2.2.1
  rw [taps, adopted] at same
  have second := congrArg (fun taps => (taps[1]?).map QuadraticAlgebra.re) same
  simp [Trig.get_complex_taps, Trig.real, lv_cmake] at second
  norm_num at second

end Kukuruku.Server.TapsHandover
