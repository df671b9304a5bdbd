import Mathlib.Data.List.Basic

/-!
# Labelled machines and guarded runs

A machine is a partial step function.  Its labels carry every choice of the
scheduler and of the environment, so one label list determines at most one run.
Runs are indexed by a guard on the state before each step: the unrestricted
runs use the guard `Any`, and a theorem about a guarded run speaks about
exactly those executions all of whose steps meet the guard.
-/

namespace Kukuruku

universe u v w

/-- A machine whose labels resolve all nondeterminism. -/
structure Machine (State : Type u) (Act : Type v) where
  Initial : State → Prop
  step? : State → Act → Option State

namespace Machine

variable {State : Type u} {Act : Type v}

/-- The guard that admits every step. -/
def Any (_ : State) (_ : Act) : Prop := True

instance (state : State) (act : Act) : Decidable (Any state act) :=
  inferInstanceAs (Decidable True)

/-- `Run ok s acts t`: the labels `acts` lead from `s` to `t`, and the guard
`ok` holds of each of them in the state it is taken from. -/
inductive Run (M : Machine State Act) (ok : State → Act → Prop) :
    State → List Act → State → Prop where
  | nil (state : State) : Run M ok state [] state
  | cons {first next last : State} {act : Act} {rest : List Act}
      (admitted : ok first act) (step : M.step? first act = some next)
      (tail : Run M ok next rest last) : Run M ok first (act :: rest) last

/-- The states that guarded runs reach from an initial state. -/
def Reachable (M : Machine State Act) (ok : State → Act → Prop)
    (state : State) : Prop :=
  ∃ first acts, M.Initial first ∧ M.Run ok first acts state

/-- Executable runs, with the guard checked at each step. -/
def runIf? (M : Machine State Act) (ok : State → Act → Prop)
    [∀ state act, Decidable (ok state act)] :
    State → List Act → Option State
  | state, [] => some state
  | state, act :: rest =>
      if ok state act then
        (M.step? state act).bind fun next => runIf? M ok next rest
      else none

/-- Executable unrestricted runs. -/
def run? (M : Machine State Act) : State → List Act → Option State :=
  M.runIf? Any

variable {M : Machine State Act} {ok : State → Act → Prop}

theorem Run.of_runIf? [∀ state act, Decidable (ok state act)]
    {acts : List Act} {first last : State}
    (found : M.runIf? ok first acts = some last) : M.Run ok first acts last := by
  induction acts generalizing first with
  | nil =>
      obtain rfl : first = last := Option.some.inj found
      exact .nil first
  | cons act rest ih =>
      rw [runIf?] at found
      split at found
      · rename_i admitted
        obtain ⟨next, step, tail⟩ := Option.bind_eq_some_iff.mp found
        exact .cons admitted step (ih tail)
      · cases found

theorem Run.of_run? {acts : List Act} {first last : State}
    (found : M.run? first acts = some last) : M.Run Any first acts last :=
  Run.of_runIf? found

/-- What every admitted step preserves, every guarded run preserves. -/
theorem Run.invariant {Inv : State → Prop}
    (preserve : ∀ state act next, Inv state → ok state act →
      M.step? state act = some next → Inv next)
    {first last : State} {acts : List Act} (run : M.Run ok first acts last)
    (start : Inv first) : Inv last := by
  induction run with
  | nil => exact start
  | cons admitted step _ ih => exact ih (preserve _ _ _ start admitted step)

/-- A run under a guard is a run under every guard that it implies, given what its steps
preserve. -/
theorem Run.weaken {ok' : State → Act → Prop} {Inv : State → Prop}
    (preserve : ∀ state act next, Inv state → ok state act →
      M.step? state act = some next → Inv next)
    (weaker : ∀ state act, Inv state → ok state act → ok' state act)
    {first last : State} {acts : List Act} (run : M.Run ok first acts last)
    (start : Inv first) : M.Run ok' first acts last := by
  induction run with
  | nil state => exact .nil state
  | cons admitted step _ ih =>
      exact .cons (weaker _ _ start admitted) step (ih (preserve _ _ _ start admitted step))

theorem Run.concat {first last next : State} {acts : List Act} {act : Act}
    (run : M.Run ok first acts last) (admitted : ok last act)
    (step : M.step? last act = some next) : M.Run ok first (acts ++ [act]) next := by
  induction run with
  | nil => exact .cons admitted step (.nil next)
  | cons before taken _ ih => exact .cons before taken (ih admitted step)

/-- If steps that look alike match each other from states that look alike, so do
whole runs. -/
theorem Run.matched {Alike : State → State → Prop} {Like : Act → Act → Prop}
    (matching : ∀ state other act act' next, Alike state other → Like act act' →
      ok state act → M.step? state act = some next →
      ∃ next', M.step? other act' = some next' ∧ Alike next next')
    {first last first' : State} {acts acts' : List Act} (run : M.Run ok first acts last)
    (start : Alike first first') (like : List.Forall₂ Like acts acts') :
    ∃ last', M.Run Any first' acts' last' ∧ Alike last last' := by
  induction run generalizing first' acts' with
  | nil =>
      cases like
      exact ⟨first', .nil first', start⟩
  | cons admitted step _ ih =>
      cases like with
      | cons same later =>
          obtain ⟨next, taken, alike⟩ := matching _ _ _ _ _ start same admitted step
          obtain ⟨last', rest, alike⟩ := ih alike later
          exact ⟨last', .cons trivial taken rest, alike⟩

/-- What an abstract machine does for one step: nothing, or a step of its own. -/
def Answers {State' Act' : Type*} (N : Machine State' Act') (Related : State → State' → Prop)
    (next : State) (other : State') : Option Act' → Prop
  | none => Related next other
  | some act => ∃ next', N.step? other act = some next' ∧ Related next next'

/-- If an abstract machine has an answer to every admitted step, it follows every
guarded run. -/
theorem Run.simulated {State' Act' : Type*} {N : Machine State' Act'}
    {Related : State → State' → Prop} {abstract : Act → Option Act'}
    (answers : ∀ state other act next, Related state other → ok state act →
      M.step? state act = some next → N.Answers Related next other (abstract act))
    {first last : State} {other : State'} {acts : List Act} (run : M.Run ok first acts last)
    (start : Related first other) :
    ∃ last', N.Run Any other (acts.filterMap abstract) last' ∧ Related last last' := by
  induction run generalizing other with
  | nil => exact ⟨other, .nil other, start⟩
  | @cons first next _ act _ admitted step _ ih =>
      have answer := answers _ _ _ _ start admitted step
      cases named : abstract act with
      | none =>
          rw [named] at answer
          rw [List.filterMap_cons_none named]
          exact ih answer
      | some own =>
          rw [named] at answer
          obtain ⟨next', taken, related⟩ := answer
          obtain ⟨last', rest, ended⟩ := ih related
          rw [List.filterMap_cons_some named]
          exact ⟨last', .cons trivial taken rest, ended⟩

/-- One more admitted step reaches a state. -/
theorem Reachable.step {state next : State} {act : Act} (reach : M.Reachable ok state)
    (admitted : ok state act) (taken : M.step? state act = some next) :
    M.Reachable ok next := by
  obtain ⟨first, acts, start, run⟩ := reach
  exact ⟨first, acts ++ [act], start, run.concat admitted taken⟩

/-- The invariant rule for reachable states. -/
theorem Reachable.invariant {Inv : State → Prop}
    (initial : ∀ state, M.Initial state → Inv state)
    (preserve : ∀ state act next, Inv state → ok state act →
      M.step? state act = some next → Inv next)
    {state : State} (reach : M.Reachable ok state) : Inv state := by
  obtain ⟨first, acts, start, run⟩ := reach
  exact run.invariant preserve (initial first start)

/-! ## What can be reached from a state -/

/-- Some admitted run leads from one state to the other. -/
def Leads (M : Machine State Act) (ok : State → Act → Prop) (first last : State) : Prop :=
  ∃ acts, M.Run ok first acts last

theorem Leads.refl (state : State) : M.Leads ok state state := ⟨[], .nil state⟩

theorem Leads.head {first next last : State} {act : Act} (step : M.step? first act = some next)
    (admitted : ok first act) (rest : M.Leads ok next last) : M.Leads ok first last := by
  obtain ⟨acts, run⟩ := rest
  exact ⟨act :: acts, .cons admitted step run⟩

theorem Leads.step {first next : State} {act : Act} (step : M.step? first act = some next)
    (admitted : ok first act) : M.Leads ok first next :=
  .head step admitted (.refl next)

theorem Leads.trans {first middle last : State} (before : M.Leads ok first middle)
    (after : M.Leads ok middle last) : M.Leads ok first last := by
  obtain ⟨acts, run⟩ := before
  induction run with
  | nil => exact after
  | cons admitted step _ ih => exact .head step admitted (ih after)

/-- The progress rule: if from every state of a kind that has not arrived some run
leads to a state of the kind with a smaller measure, some run arrives. -/
theorem leads_of_measure {Kind Arrived : State → Prop} (measure : State → Nat)
    (progress : ∀ state, Kind state → ¬ Arrived state →
      ∃ next, M.Leads ok state next ∧ Kind next ∧ measure next < measure state)
    {first : State} (start : Kind first) :
    ∃ last, M.Leads ok first last ∧ Kind last ∧ Arrived last := by
  induction size : measure first using Nat.strongRecOn generalizing first with
  | ind n ih =>
      by_cases arrived : Arrived first
      · exact ⟨first, .refl first, start, arrived⟩
      · obtain ⟨next, before, kind, smaller⟩ := progress first start arrived
        obtain ⟨last, after, rest⟩ := ih _ (size ▸ smaller) kind rfl
        exact ⟨last, before.trans after, rest⟩

end Machine

end Kukuruku
