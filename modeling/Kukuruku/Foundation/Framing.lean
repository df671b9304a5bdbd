import Mathlib.Data.List.Basic
import Mathlib.Data.List.Infix

/-!
# Length-prefixed frames on a stream

A sender writes before every body a header of fixed width that tells the length
of the body.  `split` recovers the bodies from a stream that may end anywhere,
and `contained` says which bodies a prefix of the stream contains.  The stream
arrives in nonempty chunks; `read` returns a part of the first one.
-/

namespace Kukuruku.Framing

variable {α : Type*}

/-! ## Chunks -/

/-- A nonempty piece of a stream. -/
abbrev Chunk (α : Type*) := { piece : List α // piece ≠ [] }

/-- The stream that was cut into chunks. -/
def joined (chunks : List (Chunk α)) : List α := chunks.flatMap Subtype.val

@[simp] theorem joined_cons (chunk : Chunk α) (rest : List (Chunk α)) :
    joined (chunk :: rest) = chunk.val ++ joined rest := by
  simp [joined]

/-- What one call that asks for at most `count` items returns, and the chunks
that are left. -/
def read (count : Nat) : List (Chunk α) → List α × List (Chunk α)
  | [] => ([], [])
  | chunk :: rest =>
      if more : count < chunk.val.length then
        (chunk.val.take count,
          ⟨chunk.val.drop count, by
            rw [← List.length_pos_iff_ne_nil, List.length_drop]
            exact Nat.sub_pos_of_lt more⟩ :: rest)
      else (chunk.val, rest)

theorem read_append (count : Nat) (chunks : List (Chunk α)) :
    (read count chunks).1 ++ joined (read count chunks).2 = joined chunks := by
  cases chunks with
  | nil => rfl
  | cons chunk rest =>
      rw [read]
      split
      · rw [joined_cons, ← List.append_assoc, List.take_append_drop, joined_cons]
      · rw [joined_cons]

theorem length_read_le (count : Nat) (chunks : List (Chunk α)) :
    (read count chunks).1.length ≤ count := by
  cases chunks with
  | nil => exact Nat.zero_le count
  | cons chunk rest =>
      rw [read]
      split
      · exact List.length_take_le count chunk.val
      · next fits => exact Nat.not_lt.mp fits

/-- Before its end a stream gives something to whoever asks for something. -/
theorem read_ne_nil {count : Nat} (asked : 0 < count) {chunks : List (Chunk α)}
    (left : joined chunks ≠ []) : (read count chunks).1 ≠ [] := by
  cases chunks with
  | nil => exact absurd rfl left
  | cons chunk rest =>
      rw [read]
      split
      · rw [← List.length_pos_iff_ne_nil, List.length_take]
        have nonempty := List.length_pos_iff_ne_nil.mpr chunk.property
        omega
      · exact chunk.property

/-! ## Frames -/

/-- A header that tells the length of the body after it. -/
structure Format (α : Type*) where
  width : Nat
  positive : 0 < width
  /-- The header before a body of some length. -/
  header : Nat → List α
  length_header : ∀ length, (header length).length = width
  /-- The length that a header tells, unless the receiver refuses it. -/
  announced : List α → Option Nat

namespace Format

variable (format : Format α)

/-- The stream of one message. -/
def frame (body : List α) : List α := format.header body.length ++ body

/-- The stream of several messages. -/
def wire (bodies : List (List α)) : List α := bodies.flatMap format.frame

/-- The bodies at the front of a stream, up to the first that is refused or
incomplete. -/
def split (stream : List α) : List (List α) :=
  if _enough : format.width ≤ stream.length then
    match format.announced (stream.take format.width) with
    | none => []
    | some length =>
        if length ≤ (stream.drop format.width).length then
          (stream.drop format.width).take length ::
            split ((stream.drop format.width).drop length)
        else []
  else []
termination_by stream.length
decreasing_by
  have positive := format.positive
  simp only [List.length_drop]
  omega

section

variable {format} {stream : List α} {length : Nat}

theorem split_short (short : stream.length < format.width) : format.split stream = [] := by
  rw [split, dif_neg (Nat.not_le.mpr short)]

theorem split_refused (refused : format.announced (stream.take format.width) = none) :
    format.split stream = [] := by
  rw [split]
  split
  · rw [refused]
  · rfl

theorem split_partial (told : format.announced (stream.take format.width) = some length)
    (missing : (stream.drop format.width).length < length) : format.split stream = [] := by
  rw [split]
  split
  · rw [told]
    exact if_neg (Nat.not_le.mpr missing)
  · rfl

theorem split_complete (enough : format.width ≤ stream.length)
    (told : format.announced (stream.take format.width) = some length)
    (complete : length ≤ (stream.drop format.width).length) :
    format.split stream =
      (stream.drop format.width).take length ::
        format.split ((stream.drop format.width).drop length) := by
  rw [split, dif_pos enough, told]
  exact if_pos complete

end

/-- The bodies whose frames lie within the first `count` items of a stream. -/
def contained : List (List α) → Nat → List (List α)
  | [], _ => []
  | body :: rest, count =>
      if format.width + body.length ≤ count then
        body :: contained rest (count - (format.width + body.length))
      else []

theorem length_frame (body : List α) :
    (format.frame body).length = format.width + body.length := by
  rw [frame, List.length_append, format.length_header]

@[simp] theorem wire_cons (body : List α) (rest : List (List α)) :
    format.wire (body :: rest) = format.frame body ++ format.wire rest := by
  simp [wire]

/-- The whole stream contains every body. -/
theorem contained_wire (bodies : List (List α)) :
    format.contained bodies (format.wire bodies).length = bodies := by
  induction bodies with
  | nil => rfl
  | cons body rest ih =>
      rw [contained, wire_cons, List.length_append, length_frame, if_pos (Nat.le_add_right ..),
        Nat.add_sub_cancel_left, ih]

/-- What has arrived of a frame and its successors, once the frame is complete. -/
theorem eq_frame_append {stream body : List α} {rest : List (List α)}
    (arrived : stream <+: format.wire (body :: rest))
    (fits : format.width + body.length ≤ stream.length) :
    ∃ tail, stream = format.frame body ++ tail ∧ tail <+: format.wire rest := by
  rw [wire_cons] at arrived
  have whole : format.frame body <+: stream :=
    List.prefix_of_prefix_length_le (List.prefix_append _ _) arrived
      (by rw [length_frame]; exact fits)
  obtain ⟨tail, rfl⟩ := whole
  exact ⟨tail, rfl, (List.prefix_append_right_inj _).mp arrived⟩

/-- From any prefix of a stream of acceptable bodies the receiver recovers
exactly those that the prefix contains. -/
theorem split_eq_contained {bodies : List (List α)}
    (accepted : ∀ body ∈ bodies, format.announced (format.header body.length) =
      some body.length)
    {stream : List α} (arrived : stream <+: format.wire bodies) :
    format.split stream = format.contained bodies stream.length := by
  induction bodies generalizing stream with
  | nil =>
      have empty : stream = [] := List.prefix_nil.mp arrived
      have positive := format.positive
      rw [split, dif_neg (by rw [empty, List.length_nil]; omega), contained]
  | cons body rest ih =>
      rw [contained]
      split
      · next fits =>
        obtain ⟨tail, rfl, later⟩ := format.eq_frame_append arrived fits
        have front : (format.frame body ++ tail).take format.width =
            format.header body.length := by
          rw [frame, List.append_assoc]
          exact List.take_left' (format.length_header _)
        have back : (format.frame body ++ tail).drop format.width = body ++ tail := by
          rw [frame, List.append_assoc]
          exact List.drop_left' (format.length_header _)
        have told := accepted body (List.mem_cons_self ..)
        rw [← front] at told
        rw [split_complete (by omega) told (by rw [back, List.length_append]; omega), back,
          List.take_left, List.drop_left,
          ih (fun other member => accepted other (List.mem_cons_of_mem _ member)) later,
          List.length_append, length_frame, Nat.add_sub_cancel_left]
      · next partly =>
        by_cases enough : format.width ≤ stream.length
        · have front : stream.take format.width = format.header body.length := by
            rw [wire_cons, frame, List.append_assoc] at arrived
            rw [List.prefix_iff_eq_take.mp arrived, List.take_take, min_eq_left enough]
            exact List.take_left' (format.length_header _)
          have told := accepted body (List.mem_cons_self ..)
          rw [← front] at told
          exact split_partial told (by rw [List.length_drop]; omega)
        · exact split_short (Nat.lt_of_not_le enough)

/-- The receiver takes acceptable bodies off the front of any stream. -/
theorem split_wire_append {bodies : List (List α)}
    (accepted : ∀ body ∈ bodies, format.announced (format.header body.length) =
      some body.length) (tail : List α) :
    format.split (format.wire bodies ++ tail) = bodies ++ format.split tail := by
  induction bodies with
  | nil => rfl
  | cons body rest ih =>
      have front : (format.wire (body :: rest) ++ tail).take format.width =
          format.header body.length := by
        rw [wire_cons, frame, List.append_assoc, List.append_assoc]
        exact List.take_left' (format.length_header _)
      have back : (format.wire (body :: rest) ++ tail).drop format.width =
          body ++ (format.wire rest ++ tail) := by
        rw [wire_cons, frame, List.append_assoc, List.append_assoc,
          List.drop_left' (format.length_header _)]
      have enough : format.width ≤ (format.wire (body :: rest) ++ tail).length := by
        rw [wire_cons, List.length_append, List.length_append, length_frame]
        omega
      have told := accepted body List.mem_cons_self
      rw [← front] at told
      have complete : body.length ≤
          ((format.wire (body :: rest) ++ tail).drop format.width).length := by
        rw [back, List.length_append]
        exact Nat.le_add_right _ _
      rw [split_complete enough told complete, back, List.take_left, List.drop_left,
        ih fun other member => accepted other (List.mem_cons_of_mem _ member), List.cons_append]

theorem contained_of_le {bodies : List (List α)} {count : Nat}
    (whole : (format.wire bodies).length ≤ count) : format.contained bodies count = bodies := by
  induction bodies generalizing count with
  | nil => rfl
  | cons body rest ih =>
      rw [wire_cons, List.length_append, length_frame] at whole
      rw [contained, if_pos (by omega), ih (by omega)]

/-- A body that the receiver refuses is the end of the stream for it. -/
theorem split_eq_contained_of_refused {bodies after : List (List α)} {refused : List α}
    (accepted : ∀ body ∈ bodies, format.announced (format.header body.length) =
      some body.length)
    (none : format.announced (format.header refused.length) = none) {stream : List α}
    (arrived : stream <+: format.wire (bodies ++ refused :: after)) :
    format.split stream = format.contained bodies stream.length := by
  rw [wire, List.flatMap_append, ← wire, ← wire] at arrived
  rcases Nat.le_total stream.length (format.wire bodies).length with inside | beyond
  · exact format.split_eq_contained accepted
      (List.prefix_of_prefix_length_le arrived (List.prefix_append _ _) inside)
  · obtain ⟨tail, rfl⟩ :=
      List.prefix_of_prefix_length_le (List.prefix_append _ _) arrived beyond
    have left : tail <+: format.wire (refused :: after) :=
      (List.prefix_append_right_inj _).mp arrived
    have nothing : format.split tail = [] := by
      by_cases enough : format.width ≤ tail.length
      · have front : tail.take format.width = format.header refused.length := by
          rw [wire_cons, frame, List.append_assoc] at left
          rw [List.prefix_iff_eq_take.mp left, List.take_take, min_eq_left enough]
          exact List.take_left' (format.length_header _)
        exact split_refused (front ▸ none)
      · exact split_short (Nat.lt_of_not_le enough)
    rw [format.split_wire_append accepted, nothing, List.append_nil, format.contained_of_le beyond]

end Format

end Kukuruku.Framing
