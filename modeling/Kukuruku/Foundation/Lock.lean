import Mathlib.Logic.Basic

/-!
# Procedures around a lock

A procedure ends with a value or with an exception, and what it has done to a lock
stays done in both cases.  Code that does not touch the lock is any partial function
of what the lock guards.
-/

namespace Kukuruku.Lock

universe u

/-- What a lock guards, and the lock.  `again` is history: the lock was asked for by
the thread that holds it. -/
structure Guarded (S : Type u) where
  held : Bool
  again : Bool
  shared : S

/-- Nobody holds the lock, and nobody waits for itself. -/
structure Guarded.Free {S : Type u} (s : Guarded S) : Prop where
  released : s.held = false
  once : s.again = false

def Guarded.start {S : Type u} (shared : S) : Guarded S := ⟨false, false, shared⟩

/-- A procedure; `none` is an exception. -/
def Proc (S : Type u) (α : Type) := Guarded S → Option α × Guarded S

variable {S : Type u} {α β : Type}

instance : Monad (Proc S) where
  pure a s := (some a, s)
  bind m f s :=
    match m s with
    | (some a, s) => f a s
    | (none, s) => (none, s)

namespace Proc

/-- A thread that asks for the lock which it holds waits forever. -/
def acquire : Proc S Unit := fun s =>
  if s.held then (none, { s with again := true }) else (some (), { s with held := true })

def release : Proc S Unit := fun s =>
  if s.held then (some (), { s with held := false }) else (none, s)

/-- Code without the lock.  What it does before it raises an exception is left out. -/
def inside (f : S → Option (α × S)) : Proc S α := fun s =>
  match f s.shared with
  | some (a, shared) => (some a, { s with shared := shared })
  | none => (none, s)

/-- Code that only reads. -/
def look (f : S → Option α) : Proc S α := inside fun s => (f s).map fun a => (a, s)

/-- Code that only writes. -/
def act (f : S → Option S) : Proc S Unit := inside fun s => (f s).map fun next => ((), next)

end Proc

/-! ## What is left of the lock -/

section Rules

open Proc

variable (shared : S)

/-- The procedure is entered without the lock, and leaves it free. -/
def Leaves (m : Proc S α) : Prop := (m ⟨false, false, shared⟩).2.Free

/-- The procedure is entered with the lock held, and leaves it free. -/
def Releases (m : Proc S α) : Prop := (m ⟨true, false, shared⟩).2.Free

theorem leaves_pure (a : α) : Leaves shared (pure a : Proc S α) := ⟨rfl, rfl⟩

theorem not_releases_pure (a : α) : ¬ Releases shared (pure a : Proc S α) :=
  fun free => nomatch free.released

theorem releases_release : Releases shared (release : Proc S Unit) := ⟨rfl, rfl⟩

theorem leaves_acquire (k : Unit → Proc S β) :
    Leaves shared (acquire >>= k) ↔ Releases shared (k ()) := Iff.rfl

theorem releases_release_bind (k : Unit → Proc S β) :
    Releases shared (release >>= k) ↔ Leaves shared (k ()) := Iff.rfl

/-- An exception keeps the lock. -/
theorem releases_inside (f : S → Option (α × S)) (k : α → Proc S β) :
    Releases shared (inside f >>= k) ↔
      ∃ a next, f shared = some (a, next) ∧ Releases next (k a) := by
  unfold Releases
  cases result : f shared with
  | none =>
      have ends : (inside f >>= k) ⟨true, false, shared⟩ = (none, ⟨true, false, shared⟩) := by
        simp only [bind, inside, result]
      rw [ends]
      exact iff_of_false (fun free => nomatch free.released) fun ⟨_, _, found, _⟩ => nomatch found
  | some pair =>
      obtain ⟨a, next⟩ := pair
      have goes : (inside f >>= k) ⟨true, false, shared⟩ = k a ⟨true, false, next⟩ := by
        simp only [bind, inside, result]
      rw [goes]
      constructor
      · exact fun free => ⟨a, next, rfl, free⟩
      · rintro ⟨_, _, ⟨⟩, free⟩
        exact free

/-- Without the lock an exception does no harm. -/
theorem leaves_inside (f : S → Option (α × S)) (k : α → Proc S β) :
    Leaves shared (inside f >>= k) ↔
      ∀ a next, f shared = some (a, next) → Leaves next (k a) := by
  unfold Leaves
  cases result : f shared with
  | none =>
      have ends : (inside f >>= k) ⟨false, false, shared⟩ = (none, ⟨false, false, shared⟩) := by
        simp only [bind, inside, result]
      rw [ends]
      exact iff_of_true ⟨rfl, rfl⟩ fun _ _ found => nomatch found
  | some pair =>
      obtain ⟨a, next⟩ := pair
      have goes : (inside f >>= k) ⟨false, false, shared⟩ = k a ⟨false, false, next⟩ := by
        simp only [bind, inside, result]
      rw [goes]
      constructor
      · rintro free _ _ ⟨⟩
        exact free
      · exact fun all => all a next rfl

theorem releases_look (f : S → Option α) (k : α → Proc S β) :
    Releases shared (look f >>= k) ↔ ∃ a, f shared = some a ∧ Releases shared (k a) := by
  rw [look, releases_inside]
  constructor
  · rintro ⟨a, next, found, releases⟩
    obtain ⟨_, value, ⟨⟩⟩ := Option.map_eq_some_iff.mp found
    exact ⟨a, value, releases⟩
  · rintro ⟨a, found, releases⟩
    exact ⟨a, shared, by rw [found, Option.map_some], releases⟩

theorem releases_act (f : S → Option S) (k : Unit → Proc S β) :
    Releases shared (act f >>= k) ↔ ∃ next, f shared = some next ∧ Releases next (k ()) := by
  rw [act, releases_inside]
  constructor
  · rintro ⟨_, next, found, releases⟩
    obtain ⟨_, value, ⟨⟩⟩ := Option.map_eq_some_iff.mp found
    exact ⟨next, value, releases⟩
  · rintro ⟨next, found, releases⟩
    exact ⟨(), next, by rw [found, Option.map_some], releases⟩

theorem leaves_look (f : S → Option α) (k : α → Proc S β) :
    Leaves shared (look f >>= k) ↔ ∀ a, f shared = some a → Leaves shared (k a) := by
  rw [look, leaves_inside]
  constructor
  · exact fun all a found => all a shared (by rw [found, Option.map_some])
  · intro all a next found
    obtain ⟨_, value, ⟨⟩⟩ := Option.map_eq_some_iff.mp found
    exact all a value

theorem leaves_act_bind (f : S → Option S) (k : Unit → Proc S β) :
    Leaves shared (act f >>= k) ↔ ∀ next, f shared = some next → Leaves next (k ()) := by
  rw [act, leaves_inside]
  constructor
  · exact fun all next found => all () next (by rw [found, Option.map_some])
  · intro all _ next found
    obtain ⟨_, value, ⟨⟩⟩ := Option.map_eq_some_iff.mp found
    exact all next value

theorem leaves_act (f : S → Option S) : Leaves shared (act f) := by
  unfold Leaves act inside
  dsimp only
  cases f shared <;> exact ⟨rfl, rfl⟩

/-- The plain case: one piece of code between taking the lock and giving it back. -/
theorem releases_act_release (f : S → Option S) :
    Releases shared (act f >>= fun _ => release) ↔ (f shared).isSome := by
  rw [releases_act, Option.isSome_iff_exists]
  simp only [releases_release, and_true]

end Rules

end Kukuruku.Lock
