import Kukuruku.Foundation.Preprocessor
import Kukuruku.Server.Endian

/-!
# The byte order of the messages

`LE32` and `LE16` exist in two versions in `bits.c`, and `server.c` writes its arrays in
one of two ways; the preprocessor decides which of them are compiled.  The guard of
`bits.c` has the same name as that of `bits.h`.
-/

namespace Kukuruku.Server.Bits

open Kukuruku.Preprocessor
open Kukuruku.Server.Messages
open Kukuruku.Server.Endian

/-! ## The sources -/

/-- The byte orders that `endian.h` knows. -/
inductive ByteOrder where
  | little
  | big
  | pdp
deriving DecidableEq

inductive Macro where
  | BITS_H
  | OUR_ENDIAN
  | TARGET_ENDIAN
  | _ENDIAN_H
  | __LITTLE_ENDIAN
  | __BIG_ENDIAN
  | __PDP_ENDIAN
  | __BYTE_ORDER
  | other (index : Nat)
deriving DecidableEq

inductive File where
  | endian_h
  | bits_h
  | others
deriving DecidableEq

/-- The arrays that `socket_write_thr` writes. -/
inductive Site where
  | F32
  | spectrum
  | histo
deriving DecidableEq

/-- What the preprocessor leaves of the functions concerned. -/
inductive Text where
  | LE32_declared
  | LE16_declared
  | LE32_htole32
  | LE16_htole16
  | LE32_empty
  | LE16_empty
  /-- One write of the array as it lies in memory. -/
  | whole (site : Site)
  /-- A loop that converts and writes one sample at a time. -/
  | single (site : Site)
deriving DecidableEq

abbrev Source := List (Line Macro File Text)

/-- The compiling host: its byte order, and the macros of all other headers. -/
structure Host where
  order : ByteOrder
  others : List (Nat × Body Macro)

def ByteOrder.macro : ByteOrder → Macro
  | .little => .__LITTLE_ENDIAN
  | .big => .__BIG_ENDIAN
  | .pdp => .__PDP_ENDIAN

/-- The numbers of the byte orders. -/
def ByteOrder.number : ByteOrder → Int
  | .little => 1234
  | .big => 4321
  | .pdp => 3412

def endian_h (order : ByteOrder) : Source :=
  [.cond (.ndef ._ENDIAN_H),
    .define ._ENDIAN_H .empty,
    .define .__LITTLE_ENDIAN (.number 1234),
    .define .__BIG_ENDIAN (.number 4321),
    .define .__PDP_ENDIAN (.number 3412),
    .define .__BYTE_ORDER (.name order.macro),
    .endif]

def bits_h : Source :=
  [.cond (.ndef .BITS_H),
    .define .BITS_H .empty,
    .includes .endian_h,
    .define .OUR_ENDIAN (.name .__BYTE_ORDER),
    .define .TARGET_ENDIAN (.name .__LITTLE_ENDIAN),
    .text .LE32_declared,
    .text .LE16_declared,
    .endif]

def bits_c : Source :=
  [.cond (.ndef .BITS_H),
    .define .BITS_H .empty,
    .includes .bits_h,
    .includes .others,
    .cond (.ne .OUR_ENDIAN .TARGET_ENDIAN),
    .text .LE32_htole32,
    .text .LE16_htole16,
    .otherwise,
    .text .LE32_empty,
    .text .LE16_empty,
    .endif,
    .endif]

/-- The choice that `server.c` makes at each array. -/
def arraySource (site : Site) : Source :=
  [.cond (.eq .TARGET_ENDIAN .OUR_ENDIAN),
    .text (.whole site),
    .otherwise,
    .text (.single site),
    .endif]

def server_c : Source :=
  .includes .others :: .includes .endian_h :: .includes .bits_h ::
    (arraySource .F32 ++ (arraySource .spectrum ++ arraySource .histo))

namespace Host

variable (host : Host)

/-- The other headers define names of their own. -/
def defined : List (Macro × Body Macro) := host.others.map fun entry => (.other entry.1, entry.2)

def files : File → Source
  | .endian_h => endian_h host.order
  | .bits_h => bits_h
  | .others => host.defined.map fun entry => .define entry.1 entry.2

/-- An inclusion in the file that is compiled. -/
def enter (file : File) : State Macro Text → State Macro Text := run host.files 2 (host.files file)

/-- What is compiled of a file. -/
def preprocess (source : Source) : List Text := (source.foldl (step host.enter) ⟨[], [], []⟩).out

/-! ## What is compiled -/

theorem lookup_defined (before : List (Macro × Body Macro)) {name : Macro}
    (own : ∀ index, name ≠ .other index) :
    (host.defined.reverse ++ before).lookup name = before.lookup name := by
  rw [List.lookup_append, List.lookup_eq_none_iff.mpr, Option.none_or]
  intro entry mem
  obtain ⟨source, _, rfl⟩ := List.mem_map.mp (List.mem_reverse.mp mem)
  exact bne_iff_ne.mpr (own source.1)

/-- A second inclusion of `bits.h`, or one where something else has taken its guard. -/
theorem run_bits_h (depth : Nat) {s : State Macro Text}
    (defined : s.macros.lookup .BITS_H ≠ none) :
    run host.files (depth + 1) bits_h s = s :=
  foldl_guarded (.define _ _ (.includes _ (.define _ _ (.define _ _ (.text _ (.text _ .nil))))))
    defined

theorem run_endian_h (depth : Nat) {s : State Macro Text}
    (defined : s.macros.lookup ._ENDIAN_H ≠ none) :
    run host.files (depth + 1) (endian_h host.order) s = s :=
  foldl_guarded (.define _ _ (.define _ _ (.define _ _ (.define _ _ (.define _ _ .nil)))))
    defined

theorem run_others (depth : Nat) {s : State Macro Text} (active : s.active = true) :
    run host.files (depth + 1) (host.files .others) s =
      { s with macros := host.defined.reverse ++ s.macros } :=
  foldl_define host.defined active

/-- The macros that the conditions of `bits.c` see. -/
def seenBy_bits_c : List (Macro × Body Macro) :=
  host.defined.reverse ++ [(Macro.BITS_H, Body.empty)]

/-- In `bits.c` the header is included under a guard that is already defined, so that
neither macro exists and the empty functions are compiled. -/
theorem preprocess_bits_c :
    host.preprocess bits_c = [Text.LE32_empty, Text.LE16_empty] := by
  let start : State Macro Text := ⟨[], [], []⟩
  let guarded : State Macro Text := ⟨[(.BITS_H, .empty)], [true], []⟩
  let prepared : State Macro Text := ⟨host.seenBy_bits_c, [true], []⟩
  let ending : Source := [.endif]
  have split : bits_c = .cond (.ndef .BITS_H) :: .define .BITS_H .empty :: .includes .bits_h ::
      .includes .others :: (choice (.ne .OUR_ENDIAN .TARGET_ENDIAN)
        [.LE32_htole32, .LE16_htole16] [.LE32_empty, .LE16_empty] ++ ending) := rfl
  have opened : step host.enter (step host.enter start (.cond (.ndef .BITS_H)))
      (.define .BITS_H .empty) = guarded := rfl
  have header : step host.enter guarded (.includes .bits_h) = guarded :=
    host.run_bits_h 1 (s := guarded) (Option.some_ne_none _)
  have others : step host.enter guarded (.includes .others) = prepared :=
    host.run_others 1 (s := guarded) rfl
  have our : host.seenBy_bits_c.lookup .OUR_ENDIAN = none :=
    host.lookup_defined _ fun _ => nofun
  have target : host.seenBy_bits_c.lookup .TARGET_ENDIAN = none :=
    host.lookup_defined _ fun _ => nofun
  have differ := not_ne_undefined our target
  rw [preprocess, split, List.foldl_cons, List.foldl_cons, opened, List.foldl_cons, header,
    List.foldl_cons, others, List.foldl_append, foldl_choice _ _ _ rfl,
    if_neg (Bool.eq_false_iff.mp differ)]
  rfl

/-- The macros of `endian.h` before those of the other headers. -/
def afterEndian_h : List (Macro × Body Macro) :=
  (.__BYTE_ORDER, .name host.order.macro) :: (.__PDP_ENDIAN, .number 3412) ::
    (.__BIG_ENDIAN, .number 4321) :: (.__LITTLE_ENDIAN, .number 1234) :: (._ENDIAN_H, .empty) ::
      host.defined.reverse

/-- The macros that the conditions of `server.c` see. -/
def seenBy_server_c : List (Macro × Body Macro) :=
  (.TARGET_ENDIAN, .name .__LITTLE_ENDIAN) :: (.OUR_ENDIAN, .name .__BYTE_ORDER) ::
    (.BITS_H, .empty) :: host.afterEndian_h

/-- What `bits.h` leaves in a file that includes it. -/
def declarations : List Text := [.LE32_declared, .LE16_declared]

theorem enter_endian_h :
    host.enter .endian_h ⟨host.defined.reverse, [], []⟩ = ⟨host.afterEndian_h, [], []⟩ := by
  have undefined : host.defined.reverse.lookup ._ENDIAN_H = none := by
    rw [← List.append_nil host.defined.reverse, host.lookup_defined _ (by simp)]
    rfl
  let defines : Source := [.define ._ENDIAN_H .empty, .define .__LITTLE_ENDIAN (.number 1234),
    .define .__BIG_ENDIAN (.number 4321), .define .__PDP_ENDIAN (.number 3412),
    .define .__BYTE_ORDER (.name host.order.macro)]
  have lines : host.files .endian_h = .cond (.ndef ._ENDIAN_H) :: (defines ++ [.endif]) := rfl
  rw [enter, run, lines, foldl_unguarded _ undefined]
  rfl

theorem enter_bits_h : host.enter .bits_h ⟨host.afterEndian_h, [], []⟩ =
    ⟨host.seenBy_server_c, [], declarations⟩ := by
  have undefined : host.afterEndian_h.lookup .BITS_H = none := by
    have absent := host.lookup_defined [] (show ∀ index, Macro.BITS_H ≠ .other index by simp)
    rw [List.append_nil] at absent
    exact absent
  let rest : Source := [.define .OUR_ENDIAN (.name .__BYTE_ORDER),
    .define .TARGET_ENDIAN (.name .__LITTLE_ENDIAN), .text .LE32_declared, .text .LE16_declared]
  let included : State Macro Text := ⟨(.BITS_H, .empty) :: host.afterEndian_h, [true], []⟩
  have lines : host.files .bits_h = .cond (.ndef .BITS_H) ::
      ((.define .BITS_H .empty :: .includes .endian_h :: rest) ++ [.endif]) := rfl
  have defined : step (fun file => run host.files 1 (host.files file))
      ⟨host.afterEndian_h, [true], []⟩ (.define .BITS_H .empty) = included := rfl
  have again : step (fun file => run host.files 1 (host.files file)) included
      (.includes .endian_h) = included :=
    host.run_endian_h 0 (s := included) (Option.some_ne_none _)
  rw [enter, run, lines, foldl_unguarded _ undefined, List.foldl_cons, List.foldl_cons, defined,
    again]
  rfl

theorem value_TARGET_ENDIAN : value host.seenBy_server_c .TARGET_ENDIAN = 1234 :=
  (valueIn_name rfl _).trans (valueIn_number rfl (host.defined.reverse.length + 7))

theorem value_OUR_ENDIAN : value host.seenBy_server_c .OUR_ENDIAN = host.order.number := by
  have target : host.seenBy_server_c.lookup host.order.macro =
      some (.number host.order.number) := by
    cases order : host.order <;> rfl
  exact (valueIn_name rfl _).trans ((valueIn_name rfl _).trans
    (valueIn_number target (host.defined.reverse.length + 6)))

theorem server_c_condition :
    (Cond.eq Macro.TARGET_ENDIAN .OUR_ENDIAN).holds host.seenBy_server_c =
      decide (host.order = .little) := by
  rw [Cond.holds, value_TARGET_ENDIAN, value_OUR_ENDIAN]
  cases host.order <;> rfl

/-- The text of one array. -/
def arrayText (site : Site) : List Text :=
  if host.order = .little then [.whole site] else [.single site]

theorem foldl_arraySource (site : Site) (out : List Text) :
    (arraySource site).foldl (step host.enter) ⟨host.seenBy_server_c, [], out⟩ =
      ⟨host.seenBy_server_c, [], out ++ host.arrayText site⟩ := by
  have lines : arraySource site =
      choice (.eq .TARGET_ENDIAN .OUR_ENDIAN) [.whole site] [.single site] := rfl
  rw [lines, foldl_choice _ _ _ rfl, server_c_condition]
  simp only [decide_eq_true_eq, arrayText]

/-- In `server.c` the macros exist: arrays are written as they lie in memory on
little-endian hosts. -/
theorem preprocess_server_c : host.preprocess server_c =
    declarations ++ host.arrayText .F32 ++ host.arrayText .spectrum ++ host.arrayText .histo := by
  let start : State Macro Text := ⟨[], [], []⟩
  have others : step host.enter start (.includes .others) =
      ⟨host.defined.reverse ++ [], [], []⟩ := host.run_others 1 (s := start) rfl
  rw [List.append_nil] at others
  have endian : step host.enter ⟨host.defined.reverse, [], []⟩ (.includes .endian_h) =
      ⟨host.afterEndian_h, [], []⟩ := host.enter_endian_h
  have bits : step host.enter ⟨host.afterEndian_h, [], []⟩ (.includes .bits_h) =
      ⟨host.seenBy_server_c, [], declarations⟩ := host.enter_bits_h
  rw [preprocess, server_c, List.foldl_cons, others, List.foldl_cons, endian, List.foldl_cons,
    bits, List.foldl_append, List.foldl_append, foldl_arraySource, foldl_arraySource,
    foldl_arraySource]

end Host

end Kukuruku.Server.Bits
