import Kukuruku.Server.TapsHandover

/-!
# Whole requests of new taps

The handler of `MODIFY_XLATER` publishes an array and its length in two stores,
and the worker takes both at the end of a frame, in a section of `datamutex` that is
one step here.  `worker.h` asks for `datamutex` around the stores; the handler holds
`llmutex`.  The recorder adds the requests that carried taps and the pairs that the
worker has used.
-/

namespace Kukuruku.Server.NewTaps

open TapsHandover XlateWorker ChannelChain

variable {R : Type*} [CommRing R]

/-- The section at the end of a frame is `finish`; `junk` is what lies behind an array. -/
inductive Act (R : Type*) where
  | modify (rotate : R) (newtaps : List R)
  | store
  | cos
  | sin
  | finish (junk : Nat → R)

/-- What the section does, without a break. -/
def endOfFrame (s : Ctx R) (junk : Nat → R) : List (TapsHandover.Act R) :=
  .test ::
    if s.newtaps.isSome then
      [.newtaps, .newtapslen, .rotate, .get_complex_taps junk, .tapslen, .newtaps, .newtapslen,
        .calc_max_amplitude, .free]
    else []

def step? (trig : Trig R) (s : Ctx R) : Act R → Option (Ctx R)
  | .modify rotate newtaps => s.step? trig (.modify rotate newtaps)
  | .store => s.step? trig .store
  | .cos => s.step? trig .cos
  | .sin => s.step? trig .sin
  | .finish junk => (worker trig).run? s (endOfFrame s junk)

structure Hist (R : Type*) [CommRing R] where
  ctx : Ctx R
  created : List R
  requests : List (List R)
  replaced : List (List R × Nat)

namespace Hist

variable (trig : Trig R)

def create (rotate : R) (decim : Int) (taps : List R) : Hist R :=
  ⟨.create trig rotate decim taps, taps, [], []⟩

/-- The taps of the last request that carried any. -/
def asked (s : Hist R) : List R := s.requests.getLastD s.created

/-- What a request adds to the history. -/
def carried : Act R → List (List R)
  | .modify _ newtaps => if newtaps.length ≠ 0 then [newtaps] else []
  | _ => []

/-- The array and the length that the end of a frame takes over. -/
def used (s : Hist R) : Act R → List (List R × Nat)
  | .finish _ => (s.ctx.newtaps.map fun array => (array, s.ctx.newtapslen)).toList
  | _ => []

def step? (s : Hist R) (act : Act R) : Option (Hist R) :=
  (NewTaps.step? trig s.ctx act).map fun ctx =>
    ⟨ctx, s.created, s.requests ++ carried act, s.replaced ++ s.used act⟩

end Hist

/-- The worker of `TapsHandover` with its history. -/
def recorder (trig : Trig R) : Machine (Hist R) (Act R) where
  Initial s := ∃ rotate decim taps, s = .create trig rotate decim taps
  step? := Hist.step? trig

/-- No further request. -/
def NoRequest (_ : Hist R) : Act R → Prop
  | .modify _ _ => False
  | _ => True

/-- Every array was used with its own length, and once the requests have been
handled, the end of a frame leaves the worker with the last one's taps. -/
def Intact (trig : Trig R) (s : Hist R) : Prop :=
  (∀ pair ∈ s.replaced, pair.1 ∈ s.requests ∧ pair.2 = pair.1.length) ∧
    (s.ctx.handler = [] → ∀ acts t junk, (recorder trig).Run NoRequest s acts t →
      .finish junk ∈ acts →
      t.ctx.adopted = s.asked ∧ ∃ rotate, t.ctx.taps = trig.get_complex_taps s.asked rotate)

/-- A frame does not end between the two stores, unless the length stays as it is. -/
def Whole (s : Hist R) : Act R → Prop
  | .finish _ => ∀ len rest, s.ctx.handler = .newtapslen len :: rest → len = s.ctx.newtapslen
  | _ => True

/-! ## The section -/

/-- What the section leaves where new taps were found. -/
def adopt (trig : Trig R) (s : Ctx R) (array : List R) (junk : Nat → R) : Ctx R :=
  { s with
    taps := trig.get_complex_taps (entries array s.newtapslen junk) s.rotate
    tapslen := s.newtapslen
    newtaps := none
    pc := .wait
    adopted := entries array s.newtapslen junk }

theorem finish_cases {trig : Trig R} {s t : Ctx R} {junk : Nat → R}
    (step : step? trig s (.finish junk) = some t) :
    (s.newtaps = none ∧ t = { s with pc := .wait }) ∨
      ∃ array, s.newtaps = some array ∧ t = adopt trig s array junk := by
  obtain ⟨rotate, decim, taps, tapslen, newtaps, newtapslen, handler, pc, adopted⟩ := s
  cases pc with
  | frame re im =>
      cases newtaps with
      | none => exact .inl ⟨rfl, (Option.some.inj step).symm⟩
      | some array => exact .inr ⟨array, rfl, (Option.some.inj step).symm⟩
  | _ => cases step

/-! ## The invariant -/

/-- Nothing of the last request is left to store but its rotation. -/
def Settled (s : Hist R) : Prop :=
  (s.ctx.newtaps = some s.asked ∧ s.ctx.newtapslen = s.asked.length ∧ s.asked ∈ s.requests) ∨
    (s.ctx.newtaps = none ∧ s.ctx.adopted = s.asked)

/-- How far the handler is, by the assignments that it still has to make. -/
inductive Phase (s : Hist R) : List (Store R) → Prop where
  | fresh {value : R} (member : s.asked ∈ s.requests)
      (older : ∀ array, s.ctx.newtaps = some array →
        array ∈ s.requests ∧ s.ctx.newtapslen = array.length) :
      Phase s [.newtaps s.asked, .newtapslen s.asked.length, .rotate value]
  | between {value : R} (member : s.asked ∈ s.requests)
      (stored : s.ctx.newtaps = some s.asked ∨ s.ctx.newtaps = none ∧
        s.ctx.adopted = s.asked ∧ s.ctx.newtapslen = s.asked.length) :
      Phase s [.newtapslen s.asked.length, .rotate value]
  | rotate {value : R} (settled : Settled s) : Phase s [.rotate value]
  | idle (settled : Settled s) : Phase s []

structure Inv (trig : Trig R) (s : Hist R) : Prop where
  phase : Phase s s.ctx.handler
  pairs : ∀ pair ∈ s.replaced, pair.1 ∈ s.requests ∧ pair.2 = pair.1.length
  tuned : ∃ rotate, s.ctx.taps = trig.get_complex_taps s.ctx.adopted rotate

section Invariant

variable {trig : Trig R} {s t : Hist R}

theorem Inv.create (rotate : R) (decim : Int) (taps : List R) :
    Inv trig (.create trig rotate decim taps) where
  phase := .idle (.inr ⟨rfl, rfl⟩)
  pairs := fun _ member => absurd member List.not_mem_nil
  tuned := ⟨rotate, rfl⟩

/-- A phase depends on these fields alone. -/
theorem Phase.frame {todo : List (Store R)} (phase : Phase s todo)
    (newtaps : t.ctx.newtaps = s.ctx.newtaps) (newtapslen : t.ctx.newtapslen = s.ctx.newtapslen)
    (adopted : t.ctx.adopted = s.ctx.adopted) (asked : t.asked = s.asked)
    (requests : t.requests = s.requests) : Phase t todo := by
  have settled (before : Settled s) : Settled t := by
    rw [Settled, newtaps, newtapslen, adopted, asked, requests]
    exact before
  cases phase with
  | fresh member older =>
      rw [← asked] at member ⊢
      rw [← requests] at member
      refine .fresh member ?_
      rw [newtaps, newtapslen, requests]
      exact older
  | between member stored =>
      rw [← asked] at member stored ⊢
      rw [← requests] at member
      refine .between member ?_
      rw [newtaps, newtapslen, adopted]
      exact stored
  | rotate before => exact .rotate (settled before)
  | idle before => exact .idle (settled before)

/-- A request with taps begins. -/
theorem Phase.request {taps : List R} {value : R} (phase : Phase s [])
    (newtaps : t.ctx.newtaps = s.ctx.newtaps) (newtapslen : t.ctx.newtapslen = s.ctx.newtapslen)
    (asked : t.asked = taps) (requests : t.requests = s.requests ++ [taps]) :
    Phase t [.newtaps taps, .newtapslen taps.length, .rotate value] := by
  subst asked
  have last : t.asked ∈ t.requests := by
    rw [requests]
    exact List.mem_concat_self
  cases phase with
  | idle settled =>
      refine .fresh last fun array pending => ?_
      rw [newtaps] at pending
      rw [newtapslen, requests]
      rcases settled with ⟨waiting, len, member⟩ | ⟨none, _⟩
      · obtain rfl := Option.some.inj (waiting.symm.trans pending)
        exact ⟨List.mem_append_left _ member, len⟩
      · rw [none] at pending
        cases pending

/-- One assignment. -/
theorem Phase.store {assignment : Store R} {rest : List (Store R)}
    (phase : Phase s (assignment :: rest)) :
    Phase ⟨{ s.ctx.assign assignment with handler := rest }, s.created, s.requests, s.replaced⟩
      rest := by
  cases phase with
  | fresh member older => exact .between member (.inl rfl)
  | between member stored =>
      rcases stored with pending | ⟨none, adopted, _⟩
      · exact .rotate (.inl ⟨pending, rfl, member⟩)
      · exact .rotate (.inr ⟨none, adopted⟩)
  | rotate settled => exact .idle settled

/-- What waits to be taken over at the end of a frame is one whole request. -/
theorem Phase.pending {todo : List (Store R)} (phase : Phase s todo)
    (whole : ∀ len rest, todo = .newtapslen len :: rest → len = s.ctx.newtapslen)
    {array : List R} (pending : s.ctx.newtaps = some array) :
    array ∈ s.requests ∧ s.ctx.newtapslen = array.length := by
  cases phase with
  | fresh _ older => exact older array pending
  | between member stored =>
      rcases stored with asked | ⟨none, _⟩
      · obtain rfl := Option.some.inj (asked.symm.trans pending)
        exact ⟨member, (whole _ _ rfl).symm⟩
      · rw [none] at pending
        cases pending
  | rotate settled | idle settled =>
      rcases settled with ⟨asked, len, member⟩ | ⟨none, _⟩
      · obtain rfl := Option.some.inj (asked.symm.trans pending)
        exact ⟨member, len⟩
      · rw [none] at pending
        cases pending

/-- After the end of a frame. -/
theorem Phase.adopt {todo : List (Store R)} (phase : Phase s todo) {array : List R}
    (pending : s.ctx.newtaps = some array) (len : s.ctx.newtapslen = array.length)
    (none : t.ctx.newtaps = none) (newtapslen : t.ctx.newtapslen = s.ctx.newtapslen)
    (adopted : t.ctx.adopted = array) (asked : t.asked = s.asked)
    (requests : t.requests = s.requests) : Phase t todo := by
  cases phase with
  | fresh member older =>
      rw [← asked] at member ⊢
      rw [← requests] at member
      refine .fresh member fun other still => ?_
      rw [none] at still
      cases still
  | between member stored =>
      have same : array = s.asked := by
        rcases stored with waiting | ⟨nothing, _⟩
        · exact Option.some.inj (pending.symm.trans waiting)
        · rw [nothing] at pending
          cases pending
      rw [← asked] at member same ⊢
      rw [← requests] at member
      exact .between member (.inr ⟨none, adopted.trans same, by rw [newtapslen, len, same]⟩)
  | rotate settled | idle settled =>
      have same : array = s.asked := by
        rcases settled with ⟨waiting, _⟩ | ⟨nothing, _⟩
        · exact Option.some.inj (pending.symm.trans waiting)
        · rw [nothing] at pending
          cases pending
      have after : Settled t := .inr ⟨none, by rw [adopted, asked, same]⟩
      constructor
      exact after

/-- A request begins. -/
theorem Inv.modify (inv : Inv trig s) (idle : s.ctx.handler = []) (value : R)
    (newtaps : List R) :
    Inv trig ⟨{ s.ctx with handler := MODIFY_XLATER value newtaps }, s.created,
      s.requests ++ Hist.carried (.modify value newtaps), s.replaced ++ []⟩ := by
  have phase := inv.phase
  rw [idle] at phase
  rw [List.append_nil]
  by_cases carries : newtaps.length ≠ 0
  · have todo : MODIFY_XLATER value newtaps =
        [.newtaps newtaps, .newtapslen newtaps.length, .rotate value] := if_pos carries
    have carried : Hist.carried (.modify value newtaps) = [newtaps] := if_pos carries
    rw [todo, carried]
    exact ⟨phase.request rfl rfl (List.getLastD_concat ..) rfl,
      fun pair member => ⟨List.mem_append_left _ (inv.pairs pair member).1,
        (inv.pairs pair member).2⟩, inv.tuned⟩
  · have todo : MODIFY_XLATER value newtaps = [.rotate value] := if_neg carries
    have carried : Hist.carried (.modify value newtaps) = [] := if_neg carries
    rw [todo, carried, List.append_nil]
    cases phase with
    | idle settled => exact ⟨.rotate settled, inv.pairs, inv.tuned⟩

theorem Inv.step {act : Act R} (inv : Inv trig s) (whole : Whole s act)
    (step : s.step? trig act = some t) : Inv trig t := by
  obtain ⟨ctx, taken, rfl⟩ := Option.map_eq_some_iff.mp step
  cases act with
  | modify value newtaps =>
      rw [NewTaps.step?, Ctx.step?] at taken
      split at taken
      · rename_i idle
        obtain rfl := Option.some.inj taken
        exact inv.modify idle value newtaps
      · cases taken
  | store =>
      rw [NewTaps.step?, Ctx.step?] at taken
      split at taken
      · cases taken
      · rename_i assignment rest handler
        obtain rfl := Option.some.inj taken
        have phase := inv.phase
        rw [handler] at phase
        have pairs := inv.pairs
        have tuned := inv.tuned
        simp only [Hist.carried, Hist.used, List.append_nil]
        refine ⟨phase.store, pairs, ?_⟩
        cases assignment <;> exact tuned
  | cos | sin =>
      rw [NewTaps.step?, Ctx.step?] at taken
      split at taken
      · obtain rfl := Option.some.inj taken
        simp only [Hist.carried, Hist.used, List.append_nil]
        exact ⟨inv.phase.frame rfl rfl rfl rfl rfl, inv.pairs, inv.tuned⟩
      · cases taken
  | finish junk =>
      rcases finish_cases taken with ⟨nothing, rfl⟩ | ⟨array, pending, rfl⟩
      · simp only [Hist.carried, Hist.used, nothing, Option.map_none, Option.toList_none,
          List.append_nil]
        exact ⟨inv.phase.frame nothing.symm rfl rfl rfl rfl, inv.pairs, inv.tuned⟩
      · obtain ⟨member, len⟩ := inv.phase.pending whole pending
        have all : entries array s.ctx.newtapslen junk = array := by
          rw [entries_eq_take len.le, len, List.take_length]
        simp only [Hist.carried, Hist.used, pending, Option.map_some, Option.toList_some,
          List.append_nil]
        refine ⟨inv.phase.adopt pending len rfl rfl all rfl rfl, fun pair used => ?_, _, rfl⟩
        rcases List.mem_append.mp used with before | new
        · exact inv.pairs pair before
        · obtain rfl := List.mem_singleton.mp new
          exact ⟨member, len⟩

end Invariant

/-! ## Runs -/

section Runs

variable {trig : Trig R} {s t : Hist R}

theorem carried_of_noRequest {act : Act R} (quiet : NoRequest s act) : Hist.carried act = [] := by
  cases act with
  | modify value newtaps => exact quiet.elim
  | _ => rfl

/-- A step between two requests. -/
theorem quiet_step {act : Act R} (idle : s.ctx.handler = []) (quiet : NoRequest s act)
    (step : s.step? trig act = some t) :
    t.ctx.handler = [] ∧ t.asked = s.asked ∧
      ((s.ctx.newtaps = none ∨ ∃ junk, act = .finish junk) → t.ctx.newtaps = none) := by
  obtain ⟨ctx, taken, rfl⟩ := Option.map_eq_some_iff.mp step
  rw [carried_of_noRequest quiet, List.append_nil]
  suffices ctx.handler = [] ∧
      ((s.ctx.newtaps = none ∨ ∃ junk, act = .finish junk) → ctx.newtaps = none) from
    ⟨this.1, rfl, this.2⟩
  cases act with
  | modify value newtaps => exact quiet.elim
  | store =>
      rw [NewTaps.step?, Ctx.step?, idle] at taken
      cases taken
  | cos | sin =>
      rw [NewTaps.step?, Ctx.step?] at taken
      split at taken
      · obtain rfl := Option.some.inj taken
        refine ⟨idle, ?_⟩
        rintro (none | ⟨junk, other⟩)
        · exact none
        · cases other
      · cases taken
  | finish junk =>
      rcases finish_cases taken with ⟨nothing, rfl⟩ | ⟨array, -, rfl⟩
      · exact ⟨idle, fun _ => nothing⟩
      · exact ⟨idle, fun _ => rfl⟩

theorem quiet_run {acts : List (Act R)} (run : (recorder trig).Run NoRequest s acts t)
    (inv : Inv trig s) (idle : s.ctx.handler = []) :
    Inv trig t ∧ t.ctx.handler = [] ∧ t.asked = s.asked ∧
      ((s.ctx.newtaps = none ∨ ∃ junk, .finish junk ∈ acts) → t.ctx.newtaps = none) := by
  induction run with
  | nil s =>
      refine ⟨inv, idle, rfl, ?_⟩
      rintro (none | ⟨junk, member⟩)
      · exact none
      · cases member
  | @cons first next last act rest admitted step tail ih =>
      obtain ⟨still, asked, none⟩ := quiet_step idle admitted step
      have whole : Whole first act := by
        cases act with
        | finish junk =>
            intro len rest handler
            rw [idle] at handler
            cases handler
        | _ => trivial
      obtain ⟨after, done, same, taken⟩ := ih (inv.step whole step) still
      refine ⟨after, done, same.trans asked, ?_⟩
      rintro (before | ⟨junk, member⟩)
      · exact taken (.inl (none (.inl before)))
      · rcases List.mem_cons.mp member with rfl | later
        · exact taken (.inl (none (.inr ⟨junk, rfl⟩)))
        · exact taken (.inr ⟨junk, later⟩)

theorem Inv.intact (inv : Inv trig s) : Intact trig s := by
  refine ⟨inv.pairs, fun idle acts t junk run member => ?_⟩
  obtain ⟨after, done, asked, taken⟩ := quiet_run run inv idle
  have phase := after.phase
  have nothing := taken (.inr ⟨junk, member⟩)
  rw [done] at phase
  cases phase with
  | idle settled =>
      rcases settled with ⟨waiting, _⟩ | ⟨_, adopted⟩
      · rw [nothing] at waiting
        cases waiting
      · obtain ⟨rotate, taps⟩ := after.tuned
        rw [adopted, asked] at taps
        exact ⟨adopted.trans asked, rotate, taps⟩

/-- The history of what was used only grows. -/
theorem replaced_run {ok : Hist R → Act R → Prop} {acts : List (Act R)}
    (run : (recorder trig).Run ok s acts t) : s.replaced ⊆ t.replaced := by
  induction run with
  | nil s => exact List.Subset.refl _
  | cons _ step _ ih =>
      obtain ⟨ctx, _, rfl⟩ := Option.map_eq_some_iff.mp step
      exact List.Subset.trans (List.subset_append_left _ _) ih

/-- A frame that ends between the stores uses the new array with the old length. -/
theorem whole_of_paired {act : Act R} (inv : Inv trig s) (step : s.step? trig act = some t)
    (paired : ∀ pair ∈ t.replaced, pair.2 = pair.1.length) : Whole s act := by
  cases act with
  | finish junk =>
      intro len rest handler
      have phase := inv.phase
      rw [handler] at phase
      cases phase with
      | between member stored =>
          rcases stored with waiting | ⟨_, _, same⟩
          · obtain ⟨ctx, _, rfl⟩ := Option.map_eq_some_iff.mp step
            have used : (s.asked, s.ctx.newtapslen) ∈ s.used (.finish junk) := by
              rw [Hist.used, waiting]
              exact List.mem_singleton_self _
            exact (paired _ (List.mem_append_right _ used)).symm
          · exact same.symm
  | _ => trivial

theorem whole_run {acts : List (Act R)} (run : (recorder trig).Run Machine.Any s acts t)
    (inv : Inv trig s) (paired : ∀ pair ∈ t.replaced, pair.2 = pair.1.length) :
    (recorder trig).Run Whole s acts t := by
  induction run with
  | nil s => exact .nil s
  | cons _ step tail ih =>
      have whole := whole_of_paired inv step fun pair used => paired pair (replaced_run tail used)
      exact .cons whole step (ih (inv.step whole step) paired)

/-- A run keeps all requests whole exactly if none of its frames ends between the
two stores while the length is about to change. -/
theorem whole_iff_intact (trig : Trig R) {first last : Hist R} {acts : List (Act R)}
    (start : (recorder trig).Initial first)
    (run : (recorder trig).Run Machine.Any first acts last) :
    (recorder trig).Run Whole first acts last ↔ Intact trig last := by
  obtain ⟨rotate, decim, taps, rfl⟩ := start
  constructor
  · intro guarded
    exact (guarded.invariant (fun _ _ _ inv whole step => inv.step whole step)
      (Inv.create rotate decim taps)).intact
  · exact fun intact => whole_run run (.create rotate decim taps)
      fun pair used => (intact.1 pair used).2

end Runs

/-- A request with more taps, taken over after both stores. -/
theorem whole_iff_intact_longer :
    ∃ s, (recorder Trig.real).Run Whole (.create Trig.real 0 1 [1])
        [.cos, .sin, .modify 0 [1, 1], .store, .store, .finish fun _ => 0] s ∧
      s.replaced = [([1, 1], 2)] ∧ Intact Trig.real s := by
  let acts : List (Act ℝ) := [.cos, .sin, .modify 0 [1, 1], .store, .store, .finish fun _ => 0]
  obtain ⟨s, run, replaced⟩ : ∃ s,
      (recorder Trig.real).run? (.create Trig.real 0 1 [1]) acts = some s ∧
        s.replaced = [([1, 1], 2)] := ⟨_, rfl, rfl⟩
  have found : (recorder Trig.real).Run Machine.Any (.create Trig.real 0 1 [1]) acts s :=
    .of_run? run
  have inv : Inv Trig.real (.create Trig.real 0 1 [1]) := .create 0 1 [1]
  have guarded := whole_run found inv fun pair used => by
    rw [replaced] at used
    rw [List.mem_singleton.mp used]
    rfl
  exact ⟨s, guarded, replaced, (whole_iff_intact Trig.real ⟨0, 1, [1], rfl⟩ found).mp guarded⟩

/-- A frame ends between the two stores: the new array is used with the length 0
that the worker was created with. -/
theorem not_intact_between_stores :
    ¬∀ s, (recorder Trig.real).Reachable Machine.Any s → Intact Trig.real s := by
  intro intact
  obtain ⟨s, run, replaced⟩ : ∃ s,
      (recorder Trig.real).run? (.create Trig.real 0 1 [1])
        [.cos, .sin, .modify 0 [1, 1], .store, .finish fun _ => 0] = some s ∧
      s.replaced = [([1, 1], 0)] := ⟨_, rfl, rfl⟩
  have pairs := (intact s ⟨_, _, ⟨0, 1, [1], rfl⟩, .of_run? run⟩).1
  rw [replaced] at pairs
  have len : 0 = [1, 1].length := (pairs _ (List.mem_singleton_self _)).2
  cases len

end Kukuruku.Server.NewTaps
