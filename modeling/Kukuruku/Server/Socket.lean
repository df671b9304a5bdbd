import Kukuruku.Foundation.Framing
import Kukuruku.Server.Endian

/-!
# Reading from a client

`read` of the system, `readn` of `util.c` and `client_read_thr` of `socket.c`.  A
socket is the chunks in which `read` hands out what the client has sent.  The
messages a client thread hands to `parse_client_req` are those that `split`
finds in the whole of it.
-/

namespace Kukuruku.Server.Socket

open Framing Messages Endian

/-- A connected socket, and what `read` returns once everything has been read: 0
at the end of the stream, a negative value on an error. -/
structure Fd where
  chunks : List (Chunk UInt8)
  stop : Int
  stop_le : stop ≤ 0

/-- What has arrived and was not read. -/
def Fd.pending (fd : Fd) : List UInt8 := joined fd.chunks

/-- The value returned, the bytes stored into the buffer, and the socket after. -/
structure Received where
  ret : Int
  buf : List UInt8
  fd : Fd

def read (fd : Fd) (count : Nat) : Received :=
  let got := Framing.read count fd.chunks
  { ret := if got.1 = [] then fd.stop else got.1.length
    buf := got.1
    fd := { fd with chunks := got.2 } }

/-- The loop of `readn`; `buf` is what earlier calls of `read` have stored. -/
def readnLoop (n pos : Nat) (buf : List UInt8) (fd : Fd) : Received :=
  if pos < n then
    let part := read fd (n - pos)
    if part.ret ≤ 0 then { part with buf := buf ++ part.buf }
    else readnLoop n (pos + part.ret.toNat) (buf ++ part.buf) part.fd
  else ⟨pos, buf, fd⟩
termination_by n - pos
decreasing_by
  show n - (pos + part.ret.toNat) < n - pos
  omega

def readn (fd : Fd) (n : Nat) : Received := readnLoop n 0 [] fd

/-! ## Short reads -/

/-- A positive result counts the bytes stored, which leave the socket. -/
theorem read_positive {fd : Fd} {count : Nat} (got : ¬(read fd count).ret ≤ 0) :
    (read fd count).ret = (read fd count).buf.length ∧
      fd.pending = (read fd count).buf ++ (read fd count).fd.pending := by
  refine ⟨?_, (read_append count fd.chunks).symm⟩
  by_cases empty : (Framing.read count fd.chunks).1 = []
  · refine absurd ?_ got
    simpa only [read, empty, if_true] using fd.stop_le
  · simp only [read, empty, if_false]

theorem read_failed {fd : Fd} {count : Nat} (asked : 0 < count)
    (failed : (read fd count).ret ≤ 0) : fd.pending = [] := by
  by_contra left
  have some_read := read_ne_nil asked left
  simp only [read, some_read, if_false] at failed
  exact some_read (List.length_eq_zero_iff.mp (by omega))

/-- The bytes asked for, however `read` cuts them. -/
theorem readnLoop_complete {n pos : Nat} (le : pos ≤ n) (buf : List UInt8) {fd : Fd}
    (enough : n - pos ≤ fd.pending.length) :
    (readnLoop n pos buf fd).ret = n ∧
      (readnLoop n pos buf fd).buf = buf ++ fd.pending.take (n - pos) ∧
      (readnLoop n pos buf fd).fd.pending = fd.pending.drop (n - pos) := by
  induction pos, buf, fd using readnLoop.induct n with
  | case1 pos buf fd more part failed =>
      have empty := read_failed (Nat.sub_pos_of_lt more) failed
      rw [empty, List.length_nil] at enough
      omega
  | case2 pos buf fd more part got ih =>
      obtain ⟨counted, cut⟩ :
          part.ret = part.buf.length ∧ fd.pending = part.buf ++ part.fd.pending :=
        read_positive got
      have short : part.buf.length ≤ n - pos := length_read_le (n - pos) fd.chunks
      have advance : part.ret.toNat = part.buf.length := by
        rw [counted, Int.toNat_natCast]
      rw [cut, List.length_append] at enough
      rw [readnLoop, if_pos more, if_neg got]
      rw [advance] at ih ⊢
      obtain ⟨ret, stored, left⟩ := ih (by omega) (by omega)
      have rest : n - (pos + part.buf.length) = n - pos - part.buf.length := by omega
      refine ⟨ret, ?_, ?_⟩
      · rw [stored, cut, List.append_assoc, List.take_append, rest,
          List.take_of_length_le short]
      · rw [left, cut, List.drop_append, rest, List.drop_of_length_le short, List.nil_append]
  | case3 pos buf fd done =>
      rw [readnLoop, if_neg done, show n - pos = 0 by omega]
      exact ⟨by simp only; omega, (List.append_nil buf).symm, rfl⟩

/-- When the stream ends first, the value of the last `read` is returned. -/
theorem readnLoop_short {n pos : Nat} (buf : List UInt8) {fd : Fd}
    (short : fd.pending.length < n - pos) : (readnLoop n pos buf fd).ret ≤ 0 := by
  induction pos, buf, fd using readnLoop.induct n with
  | case1 pos buf fd more part failed =>
      rw [readnLoop, if_pos more, if_pos failed]
      exact failed
  | case2 pos buf fd more part got ih =>
      obtain ⟨counted, cut⟩ :
          part.ret = part.buf.length ∧ fd.pending = part.buf ++ part.fd.pending :=
        read_positive got
      rw [readnLoop, if_pos more, if_neg got]
      apply ih
      rw [cut, List.length_append] at short
      have advance : part.ret.toNat = part.buf.length := by
        rw [counted, Int.toNat_natCast]
      omega
  | case3 pos buf fd done => omega

theorem readn_complete {fd : Fd} {n : Nat} (enough : n ≤ fd.pending.length) :
    (readn fd n).ret = n ∧ (readn fd n).buf = fd.pending.take n ∧
      (readn fd n).fd.pending = fd.pending.drop n := by
  have complete := readnLoop_complete (Nat.zero_le n) [] (show n - 0 ≤ fd.pending.length by omega)
  simpa [readn] using complete

theorem readn_short {fd : Fd} {n : Nat} (short : fd.pending.length < n) :
    (readn fd n).ret ≤ 0 :=
  readnLoop_short [] (by omega)

/-- Success takes the bytes off the socket. -/
theorem readn_pending_lt {fd : Fd} {n : Nat} (positive : 0 < n)
    (success : ¬(readn fd n).ret ≤ 0) :
    (readn fd n).fd.pending.length < fd.pending.length := by
  have enough : n ≤ fd.pending.length := by
    by_contra short
    exact success (readn_short (by omega))
  rw [(readn_complete enough).2.2, List.length_drop]
  omega

/-! ## The client thread -/

/-- The value of `parse_client_req`: every path through it ends in `return 0`. -/
def parse_client_req_ret (_buf : List UInt8) : Int := 0

/-- The bodies that `client_read_thr` hands to `parse_client_req`. -/
def client_read_thr (fd : Fd) : List (List UInt8) :=
  let head := readn fd 4
  if _closed : head.ret ≤ 0 then []
  else
    let size := signed head.buf
    if _garbage : size ≤ 0 ∨ size > 1024 * 1024 then []
    else
      let body := readn head.fd size.toNat
      if _partial : body.ret < size then []
      else
        body.buf ::
          if parse_client_req_ret body.buf < 0 then [] else client_read_thr body.fd
termination_by fd.pending.length
decreasing_by
  have first : (readn fd 4).fd.pending.length < fd.pending.length :=
    readn_pending_lt (by decide) _closed
  have second : body.fd.pending.length < head.fd.pending.length :=
    readn_pending_lt (by omega) (show ¬body.ret ≤ 0 by omega)
  exact Nat.lt_trans second first

/-- The frames of a client: an `int32_t` that tells the length of the body, which
is neither empty nor above 1 MiB. -/
def requests : Format UInt8 where
  width := 4
  positive := by decide
  header length := LE32 length
  length_header _ := length_LE32 _
  announced head :=
    if signed head ≤ 0 ∨ signed head > 1024 * 1024 then none else some (signed head).toNat

theorem complete_of_positive {fd : Fd} {n : Nat} (success : ¬(readn fd n).ret ≤ 0) :
    n ≤ fd.pending.length := by
  by_contra short
  exact success (readn_short (Nat.lt_of_not_le short))

/-- The thread hands over what `split` finds in the whole stream, however `read`
cuts it. -/
theorem client_read_thr_eq_split (fd : Fd) :
    client_read_thr fd = requests.split fd.pending := by
  induction fd using client_read_thr.induct with
  | case1 fd head closed =>
      have short : fd.pending.length < requests.width := by
        by_contra enough
        have counted : head.ret = 4 := (readn_complete (Nat.le_of_not_lt enough)).1
        omega
      rw [client_read_thr, dif_pos closed, Format.split_short short]
  | case2 fd head opened size garbage =>
      have stored : head.buf = fd.pending.take 4 :=
        (readn_complete (complete_of_positive opened)).2.1
      have refused : requests.announced (fd.pending.take 4) = none := by
        rw [← stored]
        exact if_pos garbage
      rw [client_read_thr, dif_neg opened, Format.split_refused refused]
      exact dif_pos garbage
  | case3 fd head opened size sensible body cut =>
      obtain ⟨-, stored, left⟩ := readn_complete (complete_of_positive opened)
      have told : requests.announced (fd.pending.take 4) = some size.toNat := by
        rw [← stored]
        exact if_neg sensible
      have missing : (fd.pending.drop 4).length < size.toNat := by
        rw [← left]
        by_contra enough
        have counted : body.ret = size.toNat := (readn_complete (Nat.le_of_not_lt enough)).1
        omega
      rw [client_read_thr, dif_neg opened, Format.split_partial told missing]
      exact (dif_neg sensible).trans (dif_pos cut)
  | case4 fd head opened size sensible body complete ih =>
      obtain ⟨-, stored, left⟩ := readn_complete (complete_of_positive opened)
      have told : requests.announced (fd.pending.take 4) = some size.toNat := by
        rw [← stored]
        exact if_neg sensible
      have enough : size.toNat ≤ head.fd.pending.length :=
        complete_of_positive (show ¬body.ret ≤ 0 by omega)
      obtain ⟨-, bytes, rest⟩ := readn_complete enough
      rw [left] at enough bytes rest
      rw [show body.fd.pending = _ from rest] at ih
      rw [Format.split_complete (complete_of_positive opened) told enough, client_read_thr,
        dif_neg opened]
      refine (dif_neg sensible).trans ((dif_neg complete).trans ?_)
      exact congrArg₂ List.cons bytes ih

end Kukuruku.Server.Socket
