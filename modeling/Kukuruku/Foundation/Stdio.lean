import Mathlib.Data.List.Induction
import Mathlib.Data.Nat.ModEq

/-!
# Buffered streams on a shared descriptor

A stream keeps the bytes written to it until its buffer is full.  Each stream on a
descriptor has a buffer of its own, and what the buffers still hold when the
descriptor is closed never reaches it.
-/

namespace Kukuruku.Stdio

variable {β : Type*}

/-! ## One stream -/

/-- The size of a buffer, and whether a full one is written at once (`eager`) or only
when the next byte needs its place. -/
structure Buffering where
  size : Nat
  positive : 0 < size
  eager : Bool

namespace Buffering

variable (b : Buffering)

/-- One byte goes to a stream that holds `held`: what reaches the descriptor, and what
the stream holds then. -/
def fputc (held : List β) (byte : β) : List β × List β :=
  if held.length < b.size then
    if b.eager = true ∧ held.length + 1 = b.size then (held ++ [byte], [])
    else ([], held ++ [byte])
  else (held, [byte])

def fwrite (held : List β) : List β → List β × List β
  | [] => ([], held)
  | byte :: rest =>
      let later := fwrite (b.fputc held byte).2 rest
      ((b.fputc held byte).1 ++ later.1, later.2)

theorem fputc_conserves (held : List β) (byte : β) :
    (b.fputc held byte).1 ++ (b.fputc held byte).2 = held ++ [byte] := by
  rw [fputc]
  split
  · split
    · exact List.append_nil _
    · rfl
  · rfl

/-- What has reached the descriptor and what is held are the bytes in their order. -/
theorem fwrite_conserves (held bytes : List β) :
    (b.fwrite held bytes).1 ++ (b.fwrite held bytes).2 = held ++ bytes := by
  induction bytes generalizing held with
  | nil => exact (List.append_nil held).symm
  | cons byte rest ih =>
      rw [fwrite, List.append_assoc, ih, ← List.append_assoc, fputc_conserves, List.append_assoc]
      rfl

theorem fwrite_append (held first second : List β) :
    b.fwrite held (first ++ second) =
      ((b.fwrite held first).1 ++ (b.fwrite (b.fwrite held first).2 second).1,
        (b.fwrite (b.fwrite held first).2 second).2) := by
  induction first generalizing held with
  | nil => rfl
  | cons byte rest ih =>
      rw [List.cons_append, fwrite, ih, fwrite]
      simp only [List.append_assoc]

/-- How many bytes a stream holds after the first `n`. -/
def left (n : Nat) : Nat :=
  if b.eager = true then n % b.size else if n = 0 then 0 else (n - 1) % b.size + 1

/-- Counting on modulo `size`. -/
theorem succ_mod (n : Nat) :
    (n + 1) % b.size = if n % b.size + 1 = b.size then 0 else n % b.size + 1 := by
  have below := Nat.mod_lt n b.positive
  rw [← Nat.mod_add_mod]
  split
  · rename_i full
    rw [full, Nat.mod_self]
  · rename_i room
    exact Nat.mod_eq_of_lt (by omega)

theorem left_eager (eager : b.eager = true) (n : Nat) : b.left n = n % b.size := if_pos eager

theorem left_lazy_zero (lazy : ¬b.eager = true) : b.left 0 = 0 := if_neg lazy

theorem left_lazy_succ (lazy : ¬b.eager = true) (n : Nat) : b.left (n + 1) = n % b.size + 1 := by
  rw [left, if_neg lazy, if_neg (Nat.succ_ne_zero n), Nat.add_sub_cancel]

theorem left_succ (n : Nat) :
    b.left (n + 1) = if b.left n < b.size then
      if b.eager = true ∧ b.left n + 1 = b.size then 0 else b.left n + 1 else 1 := by
  by_cases eager : b.eager = true
  · rw [b.left_eager eager, b.left_eager eager, if_pos (Nat.mod_lt n b.positive), succ_mod]
    by_cases full : n % b.size + 1 = b.size
    · rw [if_pos full, if_pos ⟨eager, full⟩]
    · rw [if_neg full, if_neg fun both => full both.2]
  · cases n with
    | zero =>
        rw [b.left_lazy_succ eager, b.left_lazy_zero eager, if_pos b.positive,
          if_neg fun both => eager both.1, Nat.zero_mod]
    | succ n =>
        have below := Nat.mod_lt n b.positive
        rw [b.left_lazy_succ eager, b.left_lazy_succ eager, succ_mod]
        by_cases full : n % b.size + 1 = b.size
        · rw [if_pos full, if_neg (by omega)]
        · rw [if_neg full, if_pos (by omega), if_neg fun both => eager both.1]

/-- A fresh stream holds as many. -/
theorem length_fwrite (bytes : List β) : (b.fwrite [] bytes).2.length = b.left bytes.length := by
  induction bytes using List.reverseRecOn with
  | nil => simp [fwrite, left]
  | append_singleton bytes byte ih =>
      have held := b.left_succ bytes.length
      rw [← ih] at held
      rw [fwrite_append, List.length_append, List.length_singleton, held]
      simp only [fwrite, fputc]
      split
      · split
        · rfl
        · exact List.length_append
      · rfl

/-- Nothing is held of `n` bytes. -/
def Drains (n : Nat) : Prop := if b.eager = true then b.size ∣ n else n = 0

instance (n : Nat) : Decidable (b.Drains n) := by
  unfold Drains
  infer_instance

theorem left_eq_zero_iff (n : Nat) : b.left n = 0 ↔ b.Drains n := by
  rw [left, Drains]
  split
  · exact Nat.dvd_iff_mod_eq_zero.symm
  · split
    · rename_i none
      exact ⟨fun _ => none, fun _ => rfl⟩
    · rename_i some
      exact ⟨fun held => absurd held (Nat.succ_ne_zero _), fun none => absurd none some⟩

/-- All bytes have reached the descriptor just when the buffer is empty. -/
theorem fwrite_reached_iff (bytes : List β) :
    (b.fwrite [] bytes).1 = bytes ↔ b.Drains bytes.length := by
  have conserved := b.fwrite_conserves [] bytes
  rw [List.nil_append] at conserved
  rw [← left_eq_zero_iff, ← length_fwrite, List.length_eq_zero_iff]
  constructor
  · intro all
    rw [all] at conserved
    exact List.append_right_eq_self.mp conserved
  · intro none
    rwa [none, List.append_nil] at conserved

theorem length_fwrite_le (bytes : List β) : (b.fwrite [] bytes).1.length ≤ bytes.length := by
  have conserved := congrArg List.length (b.fwrite_conserves [] bytes)
  rw [List.length_append, List.nil_append] at conserved
  omega

end Buffering

/-! ## The descriptor -/

/-- What has reached a descriptor, what the streams on it hold (the newest first), and
whether it is still open. -/
structure Descriptor (β : Type*) where
  reached : List β
  streams : List (List β)
  isOpen : Bool

namespace Descriptor

/-- A descriptor on which nothing has been written. -/
def fresh : Descriptor β := ⟨[], [], true⟩

/-- A closed descriptor takes nothing. -/
def write (d : Descriptor β) (bytes : List β) : Descriptor β :=
  if d.isOpen = true then { d with reached := d.reached ++ bytes } else d

/-- A new stream with a buffer of its own, when the descriptor is open. -/
def fdopen (d : Descriptor β) : Option (Descriptor β) :=
  if d.isOpen = true then some { d with streams := [] :: d.streams } else none

/-- The stream opened last is written to. -/
def fwrite (b : Buffering) (d : Descriptor β) (bytes : List β) : Descriptor β :=
  match d.streams with
  | [] => d
  | held :: others =>
      { d.write (b.fwrite held bytes).1 with streams := (b.fwrite held bytes).2 :: others }

def close (d : Descriptor β) : Descriptor β := { d with isOpen := false }

/-- The end of the process flushes every stream. -/
def exit (d : Descriptor β) : Descriptor β :=
  { d.write d.streams.flatten with streams := [] }

/-- Too late for a descriptor that is closed. -/
theorem reached_exit_close (d : Descriptor β) : d.close.exit.reached = d.reached := rfl

/-- Items written one by one are written as one string. -/
theorem foldl_fwrite (b : Buffering) {d : Descriptor β} (isOpen : d.isOpen = true)
    (held : List β) (others : List (List β)) (items : List (List β)) :
    items.foldl (fwrite b) { d with streams := held :: others } =
      { d with
        reached := d.reached ++ (b.fwrite held items.flatten).1
        streams := (b.fwrite held items.flatten).2 :: others } := by
  induction items generalizing d held with
  | nil => simp [Buffering.fwrite]
  | cons item rest ih =>
      have first : fwrite b { d with streams := held :: others } item =
          { d with
            reached := d.reached ++ (b.fwrite held item).1
            streams := (b.fwrite held item).2 :: others } := by
        simp [fwrite, write, isOpen]
      rw [List.foldl_cons, first, ih (d := { d with reached := d.reached ++ _ }) isOpen,
        List.flatten_cons, Buffering.fwrite_append, List.append_assoc]

/-- A stream is opened, the items are written, and it is left as it is. -/
def leak (b : Buffering) (d : Descriptor β) (items : List (List β)) : Descriptor β :=
  match d.fdopen with
  | none => d
  | some opened => items.foldl (fwrite b) opened

theorem leak_eq (b : Buffering) {d : Descriptor β} (isOpen : d.isOpen = true)
    (items : List (List β)) : d.leak b items =
      { d with
        reached := d.reached ++ (b.fwrite [] items.flatten).1
        streams := (b.fwrite [] items.flatten).2 :: d.streams } := by
  rw [leak, fdopen, if_pos isOpen]
  exact foldl_fwrite b isOpen [] d.streams items

/-- Each leaked stream adds what its own buffer has let through. -/
theorem foldl_leak_reached (b : Buffering) {d : Descriptor β} (isOpen : d.isOpen = true)
    (sessions : List (List (List β))) :
    (sessions.foldl (leak b) d).reached =
      d.reached ++ sessions.flatMap fun items => (b.fwrite [] items.flatten).1 := by
  induction sessions generalizing d with
  | nil => exact (List.append_nil _).symm
  | cons items rest ih =>
      have stillOpen : (d.leak b items).isOpen = true := by
        rw [leak_eq b isOpen]
        exact isOpen
      rw [List.foldl_cons, ih stillOpen, leak_eq b isOpen, List.flatMap_cons, List.append_assoc]

theorem length_flatMap_fwrite_le (b : Buffering) (sessions : List (List (List β))) :
    (sessions.flatMap fun items => (b.fwrite [] items.flatten).1).length ≤
      (sessions.flatMap List.flatten).length := by
  induction sessions with
  | nil => exact Nat.le_refl 0
  | cons items rest ih =>
      rw [List.flatMap_cons, List.flatMap_cons, List.length_append, List.length_append]
      exact Nat.add_le_add (b.length_fwrite_le items.flatten) ih

/-- Everything arrives in order just when every stream drains. -/
theorem foldl_leak_fresh_iff (b : Buffering) (sessions : List (List (List β))) :
    (sessions.foldl (leak b) fresh).reached = sessions.flatMap List.flatten ↔
      ∀ items ∈ sessions, b.Drains items.flatten.length := by
  rw [foldl_leak_reached b rfl, fresh, List.nil_append]
  induction sessions with
  | nil => exact iff_of_true rfl fun _ mem => absurd mem List.not_mem_nil
  | cons items rest ih =>
      rw [List.flatMap_cons, List.flatMap_cons, List.forall_mem_cons, ← ih,
        ← Buffering.fwrite_reached_iff]
      constructor
      · intro all
        -- no stream lets through more than was written to it, so the lengths agree part by part
        have first := b.length_fwrite_le items.flatten
        have later := length_flatMap_fwrite_le b rest
        have lengths := congrArg List.length all
        rw [List.length_append, List.length_append] at lengths
        exact List.append_inj all (by omega)
      · rintro ⟨first, later⟩
        rw [first, later]

end Descriptor

end Kukuruku.Stdio
