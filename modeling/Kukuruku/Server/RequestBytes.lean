import Kukuruku.Server.Endian
import Kukuruku.Server.Subscriptions

/-!
# Bodies of requests

`parse_client_req` from the bytes that `client_read_thr` hands to it up to the
handler that runs.  The load of the type and the use of an unpacked message may
fault; `Unpack` stands for the generated unpacking functions.  The handlers
check neither the length of the body nor what the unpacking functions return.
-/

namespace Kukuruku.Server.RequestBytes

open Messages Endian ClientParser
open Subscriptions (outcome)

/-- Reading behind the body, or through the `NULL` of a failed unpacking. -/
inductive Fault where
  | outside
  | null
deriving DecidableEq

/-- The types with a handler. -/
inductive Command where
  | RECORD_START
  | RECORD_STOP
  | CREATE_XLATER
  | LIST_XLATERS
  | DESTROY_XLATER
  | ENABLE_XLATER
  | DISABLE_XLATER
  | SET_GAIN
  | RETUNE
  | SET_PPM
  | ENABLE_SPECTRUM
  | ENABLE_HISTO
  | GET_INFO
  | MODIFY_XLATER
deriving DecidableEq

/-- The values of `command_type` that the tests of `parse_client_req` name. -/
def commands : List (Int × Command) :=
  [(3, .CREATE_XLATER), (6, .ENABLE_XLATER), (7, .DISABLE_XLATER), (18, .MODIFY_XLATER),
    (4, .LIST_XLATERS), (5, .DESTROY_XLATER), (17, .GET_INFO), (2, .RECORD_START),
    (19, .RECORD_STOP), (13, .ENABLE_SPECTRUM), (15, .ENABLE_HISTO), (8, .SET_GAIN), (9, .RETUNE),
    (10, .SET_PPM)]

/-- The unpacking functions; `none` is `NULL`.  `frees_null` tells whether the
function that frees a message accepts `NULL`, which depends on the version. -/
structure Unpack where
  create_xlater : List UInt8 → Option (Int × Float32Bits × Int × Int × List Float32Bits)
  enable_xlater : List UInt8 → Option (Int × SampleType)
  disable_xlater : List UInt8 → Option Int
  modify_xlater : List UInt8 → Option (Int × Float32Bits × List Float32Bits)
  destroy_xlater : List UInt8 → Option Int
  record_start : List UInt8 → Option (Int × Int)
  set_gain : List UInt8 → Option Gain
  retune : List UInt8 → Option Int
  set_ppm : List UInt8 → Option Int
  frees_null : Bool

/-- The first load through a pointer. -/
def deref {α : Type} : Option α → Except Fault α
  | none => .error .null
  | some s => .ok s

/-- `((int*)buf2)[0]`. -/
def loadType (body : List UInt8) : Except Fault Int :=
  if body.length < 4 then .error .outside else .ok (signed (body.take 4))

section

variable (unpack : Unpack) (workers : List WorkerEntry) (me : Nat) (now : Int)

/-- The branch of a type, on the payload `buf` and with the workers that are
listed while it holds the mutex.  `DISABLE_XLATER` reads the message only when it
compares the id of a worker with it. -/
def branch (buf : List UInt8) : Command → Except Fault (List Instr)
  | .CREATE_XLATER =>
      (deref (unpack.create_xlater buf)).map fun s =>
        ClientParser.parse_client_req me now
          (.CREATE_XLATER s.1 s.2.1 s.2.2.1 s.2.2.2.1 s.2.2.2.2)
  | .ENABLE_XLATER =>
      (deref (unpack.enable_xlater buf)).map fun s =>
        ClientParser.parse_client_req me now (.ENABLE_XLATER s.1 s.2)
  | .DISABLE_XLATER =>
      match unpack.disable_xlater buf with
      | some id => .ok (ClientParser.parse_client_req me now (.DISABLE_XLATER id))
      | none =>
          if workers.isEmpty && unpack.frees_null then .ok [.lock, .unlock] else .error .null
  | .MODIFY_XLATER =>
      (deref (unpack.modify_xlater buf)).map fun s =>
        ClientParser.parse_client_req me now (.MODIFY_XLATER s.1 s.2.1 s.2.2)
  | .LIST_XLATERS => .ok (ClientParser.parse_client_req me now .LIST_XLATERS)
  | .DESTROY_XLATER =>
      (deref (unpack.destroy_xlater buf)).map fun id =>
        ClientParser.parse_client_req me now (.DESTROY_XLATER id)
  | .GET_INFO => .ok (ClientParser.parse_client_req me now .GET_INFO)
  | .RECORD_START =>
      (deref (unpack.record_start buf)).map fun s =>
        ClientParser.parse_client_req me now (.RECORD_START s.1 s.2)
  | .RECORD_STOP => .ok (ClientParser.parse_client_req me now .RECORD_STOP)
  | .ENABLE_SPECTRUM => .ok (ClientParser.parse_client_req me now .ENABLE_SPECTRUM)
  | .ENABLE_HISTO => .ok (ClientParser.parse_client_req me now .ENABLE_HISTO)
  | .SET_GAIN =>
      (deref (unpack.set_gain buf)).map fun gain =>
        ClientParser.parse_client_req me now (.SET_GAIN gain)
  | .RETUNE =>
      (deref (unpack.retune buf)).map fun freq =>
        ClientParser.parse_client_req me now (.RETUNE freq)
  | .SET_PPM =>
      (deref (unpack.set_ppm buf)).map fun ppm =>
        ClientParser.parse_client_req me now (.SET_PPM ppm)

/-- What the call does with a body: the program that the thread runs. -/
def parse_client_req (body : List UInt8) : Except Fault (List Instr) :=
  (loadType body).bind fun type =>
    match commands.lookup type with
    | some command => branch unpack workers me now (body.drop 4) command
    | none => .ok (ClientParser.parse_client_req me now (.unknown type))

end

/-- The payload is a message of its type; types without a message have none that
could be malformed. -/
def Unpack.accepts (unpack : Unpack) (buf : List UInt8) : Command → Bool
  | .CREATE_XLATER => (unpack.create_xlater buf).isSome
  | .ENABLE_XLATER => (unpack.enable_xlater buf).isSome
  | .DISABLE_XLATER => (unpack.disable_xlater buf).isSome
  | .MODIFY_XLATER => (unpack.modify_xlater buf).isSome
  | .DESTROY_XLATER => (unpack.destroy_xlater buf).isSome
  | .RECORD_START => (unpack.record_start buf).isSome
  | .SET_GAIN => (unpack.set_gain buf).isSome
  | .RETUNE => (unpack.retune buf).isSome
  | .SET_PPM => (unpack.set_ppm buf).isSome
  | .LIST_XLATERS | .GET_INFO | .RECORD_STOP | .ENABLE_SPECTRUM | .ENABLE_HISTO => true

/-- The handler's type, if the body has one. -/
def command? (body : List UInt8) : Option Command := commands.lookup (signed (body.take 4))

/-- A type with a handler, and a payload that unpacks. -/
def Valid (unpack : Unpack) (body : List UInt8) : Prop :=
  4 ≤ body.length ∧ ∃ command, command? body = some command ∧
    unpack.accepts (body.drop 4) command = true

/-- No fault, and nothing changes unless the body is a valid message. -/
def Harmless (pack : Protobuf) (unpack : Unpack) (s : Server) (me : Nat) (now : Int)
    (body : List UInt8) : Prop :=
  ∃ prog, parse_client_req unpack s.worker_head me now body = .ok prog ∧
    (¬Valid unpack body → ∀ junk, outcome pack junk s prog = s)

/-- The one branch that gets along without its message: there is no worker to
compare it with. -/
def Unread (unpack : Unpack) (workers : List WorkerEntry) (command : Command) : Prop :=
  command = .DISABLE_XLATER ∧ (workers.isEmpty && unpack.frees_null) = true

section

variable {unpack : Unpack} {workers : List WorkerEntry} {me : Nat} {now : Int}
  {buf : List UInt8} {command : Command}

theorem deref_map {α β : Type} {s : Option α} {run : α → β} (found : s.isSome = true) :
    ∃ result, (deref s).map run = .ok result := by
  obtain ⟨value, rfl⟩ := Option.isSome_iff_exists.mp found
  exact ⟨run value, rfl⟩

theorem deref_map_null {α β : Type} {s : Option α} {run : α → β} (failed : s.isSome = false) :
    (deref s).map run = .error .null := by
  obtain rfl := Option.isSome_eq_false_iff.mp failed |> Option.isNone_iff_eq_none.mp
  rfl

theorem branch_of_accepts (accepted : unpack.accepts buf command = true) :
    ∃ prog, branch unpack workers me now buf command = .ok prog := by
  cases command with
  | LIST_XLATERS | GET_INFO | RECORD_STOP | ENABLE_SPECTRUM | ENABLE_HISTO => exact ⟨_, rfl⟩
  | DISABLE_XLATER =>
      obtain ⟨id, found⟩ := Option.isSome_iff_exists.mp accepted
      rw [branch, found]
      exact ⟨_, rfl⟩
  | _ => exact deref_map accepted

/-- Without its message a branch faults, or locks and unlocks. -/
theorem branch_of_refused (refused : unpack.accepts buf command = false) :
    (Unread unpack workers command ∧
        branch unpack workers me now buf command = .ok [.lock, .unlock]) ∨
      (¬Unread unpack workers command ∧
        branch unpack workers me now buf command = .error .null) := by
  cases command with
  | LIST_XLATERS | GET_INFO | RECORD_STOP | ENABLE_SPECTRUM | ENABLE_HISTO => cases refused
  | DISABLE_XLATER =>
      have null : unpack.disable_xlater buf = none := by
        simpa [Unpack.accepts] using refused
      rw [branch, null]
      by_cases unread : (workers.isEmpty && unpack.frees_null) = true
      · exact .inl ⟨⟨rfl, unread⟩, if_pos unread⟩
      · exact .inr ⟨fun other => unread other.2, if_neg unread⟩
  | _ =>
      refine .inr ⟨?_, deref_map_null refused⟩
      rintro ⟨⟨⟩, _⟩

end

/-- With its type inside the body, the call is the branch of its type. -/
theorem parse_client_req_eq (unpack : Unpack) (workers : List WorkerEntry) (me : Nat) (now : Int)
    {body : List UInt8} (typed : 4 ≤ body.length) :
    parse_client_req unpack workers me now body =
      match command? body with
      | some command => branch unpack workers me now (body.drop 4) command
      | none => .ok [] := by
  rw [parse_client_req, loadType, if_neg (Nat.not_lt.mpr typed)]
  simp only [Except.bind, command?]
  split <;> rfl

/-- A body is handled without harm exactly when its type lies within it and its
payload, if the type has one, unpacks or is never looked at. -/
theorem harmless_iff (pack : Protobuf) (unpack : Unpack) (s : Server) (me : Nat) (now : Int)
    (body : List UInt8) :
    Harmless pack unpack s me now body ↔
      4 ≤ body.length ∧ ∀ command, command? body = some command →
        unpack.accepts (body.drop 4) command = true ∨ Unread unpack s.worker_head command := by
  by_cases typed : 4 ≤ body.length
  · rw [Harmless, parse_client_req_eq unpack s.worker_head me now typed]
    cases found : command? body with
    | none =>
        refine ⟨fun _ => ⟨typed, fun command same => by cases same⟩, fun _ => ⟨[], rfl, ?_⟩⟩
        intro _ junk
        rfl
    | some command =>
        cases accepted : unpack.accepts (body.drop 4) command with
        | true =>
            obtain ⟨prog, runs⟩ := branch_of_accepts accepted
            refine ⟨fun _ => ⟨typed, ?_⟩, fun _ => ⟨prog, runs, ?_⟩⟩
            · rintro _ ⟨⟩
              exact .inl accepted
            · intro invalid
              exact absurd ⟨typed, command, found, accepted⟩ invalid
        | false =>
            rcases branch_of_refused accepted with ⟨unread, runs⟩ | ⟨touched, faults⟩
            · refine ⟨fun _ => ⟨typed, ?_⟩, fun _ => ⟨_, runs, fun _ junk => rfl⟩⟩
              rintro _ ⟨⟩
              exact .inr unread
            · constructor
              · rintro ⟨prog, runs, -⟩
                cases runs.symm.trans faults
              · rintro ⟨-, checked⟩
                rcases checked command rfl with ok | unread
                · cases accepted.symm.trans ok
                · exact absurd unread touched
  · constructor
    · rintro ⟨prog, runs, -⟩
      rw [parse_client_req, loadType, if_pos (Nat.lt_of_not_le typed)] at runs
      cases runs
    · rintro ⟨typed', -⟩
      exact absurd typed' typed

/-- Unpacking functions on bytes that are no message. -/
def Unpack.refusing : Unpack where
  create_xlater _ := none
  enable_xlater _ := none
  disable_xlater _ := none
  modify_xlater _ := none
  destroy_xlater _ := none
  record_start _ := none
  set_gain _ := none
  retune _ := none
  set_ppm _ := none
  frees_null := true

/-- A body of one byte, and a `CREATE_XLATER` that ends inside its first field. -/
theorem not_harmless_truncated :
    ¬Harmless .documented .refusing Threads.idleServer 0 0 [3] ∧
      ¬Harmless .documented .refusing Threads.idleServer 0 0 [3, 0, 0, 0, 8] := by
  constructor
  · rintro ⟨prog, runs, -⟩
    cases runs
  · rintro ⟨prog, runs, -⟩
    have create : command? [3, 0, 0, 0, 8] = some .CREATE_XLATER := by decide +kernel
    rw [parse_client_req_eq _ _ _ _ (by decide), create] at runs
    cases runs

end Kukuruku.Server.RequestBytes
