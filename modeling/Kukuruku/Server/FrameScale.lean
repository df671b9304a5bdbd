import Kukuruku.Server.Amplitude
import Kukuruku.Server.WorkerThread

/-!
# The scale of queued frames

A worker has one `maxval`, which the end of a frame replaces after the taps, from
another reading of `newtaps` and `newtapslen`.  `socket_write_thr` reads it when it
converts a frame, which may be long after the frame was computed.  The requests hold
`llmutex` while they store new taps, and so does a pass of the socket writer; the
worker does not.  The fields from `scaled` on are history, and so are the taps kept
with a frame.
-/

namespace Kukuruku.Server.FrameScale

open TapsHandover ChannelChain
open Kukuruku.Server.Amplitude (calc_max_amplitude)
open Kukuruku.Server.WorkerThread (Worker.startCursor)

variable {K : Type*} [Field K] [LinearOrder K]

/-- What a slot of `outbuf` holds: a frame, and the array of taps and their number that
it was computed with. -/
structure Computed (K : Type*) where
  mypos : Int
  taps : List K
  tapslen : Nat
deriving DecidableEq

/-- A frame that was converted to integers up to `largest`, with the factor used. -/
structure Conversion (K : Type*) where
  largest : Int
  frame : Option (Computed K)
  scale : K
deriving DecidableEq

/-- The taps that `maxval` was last set for, and the frame at whose end this was. -/
structure Scaled (K : Type*) where
  mypos : Int
  taps : List K

/-- One worker and the socket writer, with its locals `_last_written` and `_send_cptr`
during a pass. -/
structure Xlater (K : Type*) [Field K] where
  ctx : Ctx K
  maxval : K
  sdr_cptr : Int
  last_written : Int
  send_cptr : Int
  mypos : Int
  filled : Bool
  outbuf : Ring.Cells (Computed K)
  writer : Option (Int × Int)
  scaled : Scaled K
  converted : List (Conversion K)

inductive Act (K : Type*) where
  | modify (rotate : K) (newtaps : List K)
  | store
  | sdr
  | cos
  | sin
  | fill
  | test
  | newtaps
  | newtapslen
  | rotate
  | get_complex_taps (junk : Nat → K)
  | tapslen
  | calc_max_amplitude (junk : Nat → K)
  | free
  | snapshot
  | convert (largest : Int)
  | next
  | publish

namespace Xlater

variable (trig : Trig K)

def create (rotate : K) (decim history sdr_cptr : Int) (taps : List K) : Xlater K where
  ctx := .create trig rotate decim taps
  maxval := calc_max_amplitude taps
  sdr_cptr := sdr_cptr
  last_written := Worker.startCursor history sdr_cptr
  send_cptr := Worker.startCursor history sdr_cptr
  mypos := Worker.startCursor history sdr_cptr + 1
  filled := false
  outbuf := fun _ => none
  writer := none
  scaled := ⟨Worker.startCursor history sdr_cptr, taps⟩
  converted := []

/-- The rotator has written the outputs of the frame. -/
def fill (s : Xlater K) : Xlater K :=
  { s with
    filled := true
    outbuf := Function.update s.outbuf (s.mypos.tmod BUFSIZE)
      (some ⟨s.mypos, s.ctx.adopted, s.ctx.tapslen⟩) }

/-- What a call reads of the new taps. -/
def readings (s : Xlater K) (junk : Nat → K) : List K :=
  match s.ctx.pc with
  | .calc_max_amplitude (some array) (some len) => entries array len junk
  | _ => []

/-- The new `maxval`, for the taps that have just been taken over. -/
def scale (s : Xlater K) (ctx : Ctx K) (junk : Nat → K) : Xlater K :=
  { s with
    ctx := ctx
    maxval := calc_max_amplitude (s.readings junk)
    scaled := ⟨s.mypos, s.ctx.adopted⟩ }

/-- The section at the end of a frame is over: it goes to the socket writer. -/
def ended (s : Xlater K) (ctx : Ctx K) : Xlater K :=
  { s with ctx := ctx, filled := false, last_written := s.mypos, mypos := s.mypos + 1 }

/-- The slot that the socket writer reads when its cursor is at `cptr`. -/
def slot (s : Xlater K) (cptr : Int) : Option (Computed K) := s.outbuf ((cptr + 1).tmod BUFSIZE)

/-- One client's copy of the frame after `cptr`. -/
def convert (s : Xlater K) (largest cptr : Int) : Xlater K :=
  { s with converted := s.converted ++ [⟨largest, s.slot cptr, (largest : K) / s.maxval⟩] }

/-- A step of requests and worker that leaves all else as it is. -/
def turn (s : Xlater K) (act : TapsHandover.Act K) : Option (Xlater K) :=
  (s.ctx.step? trig act).map fun ctx => { s with ctx := ctx }

def step? (s : Xlater K) : Act K → Option (Xlater K)
  | .modify rotate newtaps =>
      if s.writer.isNone then s.turn trig (.modify rotate newtaps) else none
  | .store => s.turn trig .store
  | .sdr => if s.ctx.pc.section then none else some { s with sdr_cptr := s.sdr_cptr + 1 }
  | .cos =>
      if s.sdr_cptr ≤ s.mypos ∨ s.send_cptr ≤ s.mypos - BUFSIZE then none
      else s.turn trig .cos
  | .sin => s.turn trig .sin
  | .fill =>
      match s.ctx.pc with
      | .frame _ _ => some s.fill
      | _ => none
  | .test =>
      if s.filled then
        (s.ctx.step? trig .test).map fun ctx =>
          if ctx.pc.section then { s with ctx := ctx } else s.ended ctx
      else none
  | .newtaps => s.turn trig .newtaps
  | .newtapslen => s.turn trig .newtapslen
  | .rotate => s.turn trig .rotate
  | .get_complex_taps junk => s.turn trig (.get_complex_taps junk)
  | .tapslen => s.turn trig .tapslen
  | .calc_max_amplitude junk =>
      (s.ctx.step? trig .calc_max_amplitude).map fun ctx => s.scale ctx junk
  | .free => (s.ctx.step? trig .free).map fun ctx => s.ended ctx
  | .snapshot =>
      if s.writer.isNone ∧ s.ctx.handler.isEmpty ∧ ¬ s.ctx.pc.section then
        some { s with writer := some (s.last_written, s.send_cptr) }
      else none
  | .convert largest =>
      s.writer.bind fun pass =>
        if pass.2 < pass.1 then some (s.convert largest pass.2) else none
  | .next =>
      s.writer.bind fun pass =>
        if pass.2 < pass.1 then some { s with writer := some (pass.1, pass.2 + 1) } else none
  | .publish =>
      s.writer.bind fun pass =>
        if pass.2 < pass.1 ∨ s.ctx.pc.section then none
        else some { s with send_cptr := pass.2, writer := none }

end Xlater

/-- One worker and the socket writer, with the requests that modify the worker. -/
def xlater (trig : Trig K) : Machine (Xlater K) (Act K) where
  Initial s := ∃ rotate decim history sdr_cptr taps,
    s = .create trig rotate decim history sdr_cptr taps
  step? := Xlater.step? trig

/-- Every frame was computed with taps inside their array, and scaled with the sum of
the magnitudes of these. -/
def OwnScale (s : Xlater K) : Prop :=
  ∀ conversion ∈ s.converted, ∀ frame, conversion.frame = some frame →
    frame.tapslen ≤ frame.taps.length ∧
      conversion.scale =
        (conversion.largest : K) / calc_max_amplitude (frame.taps.take frame.tapslen)

/-- The array of the new taps is read a second time, for `maxval`. -/
def again (pc : Pc K) : Bool :=
  match pc with
  | .get_complex_taps (some _) _ _ | .tapslen | .calc_max_amplitude none _ => true
  | _ => false

/-- The number of the new taps is read a second and a third time. -/
def sizedAgain (pc : Pc K) : Bool :=
  match pc with
  | .get_complex_taps _ (some _) _ | .tapslen | .calc_max_amplitude _ none => true
  | _ => false

/-- An assignment that leaves what is read again as it was. -/
def Kept (s : Ctx K) : Store K → Prop
  | .newtaps taps => s.newtaps = some taps ∨ again s.pc = false
  | .newtapslen len => len = s.newtapslen ∨ sizedAgain s.pc = false
  | .rotate _ => True

/-- New taps are not replaced between the readings of them, nor read beyond their array. -/
def Steady (s : Ctx K) : TapsHandover.Act K → Prop
  | .store => ∀ assignment ∈ s.handler.head?, Kept s assignment
  | .get_complex_taps _ => s.pc.Inside
  | _ => True

/-- The new taps are steady, and a frame is converted only when `maxval` has not been set
at its end or later, or when the taps it was set for have the same sum of magnitudes as
its own. -/
def Unscaled (s : Xlater K) : Act K → Prop
  | .store => Steady s.ctx .store
  | .get_complex_taps junk => Steady s.ctx (.get_complex_taps junk)
  | .convert _ => ∀ pass ∈ s.writer, ∀ frame ∈ s.slot pass.2, frame.mypos ≤ s.scaled.mypos →
      calc_max_amplitude s.scaled.taps = calc_max_amplitude frame.taps
  | _ => True

instance (s : Ctx K) (assignment : Store K) : Decidable (Kept s assignment) := by
  cases assignment <;> unfold Kept <;> infer_instance

instance : (pc : Pc K) → Decidable pc.Inside
  | .get_complex_taps (some array) (some len) _ | .calc_max_amplitude (some array) (some len) =>
      inferInstanceAs (Decidable (len ≤ array.length))
  | .get_complex_taps none _ _ | .get_complex_taps (some _) none _ => .isTrue trivial
  | .calc_max_amplitude none _ | .calc_max_amplitude (some _) none => .isTrue trivial
  | .wait | .cos _ | .frame _ _ | .tapslen | .free => .isTrue trivial

instance (s : Ctx K) (act : TapsHandover.Act K) : Decidable (Steady s act) := by
  cases act <;> unfold Steady <;> infer_instance

instance (s : Xlater K) (act : Act K) : Decidable (Unscaled s act) := by
  cases act <;> unfold Unscaled <;> infer_instance

/-! ## The new taps -/

/-- What is known of the new taps, and of those that `maxval` was set for. -/
def Gathered (scaled : List K) (s : Ctx K) : Prop :=
  match s.pc with
  | .wait | .cos _ | .frame _ _ | .free => scaled = s.adopted ∧ s.tapslen = s.adopted.length
  | .get_complex_taps array len _ =>
      (∀ read, array = some read → s.newtaps = some read) ∧
        ∀ read, len = some read → s.newtapslen = read
  | .tapslen =>
      ∃ all, s.newtaps = some all ∧ s.newtapslen ≤ all.length ∧
        s.adopted = all.take s.newtapslen
  | .calc_max_amplitude array len =>
      s.tapslen = s.adopted.length ∧ ∃ all, array.or s.newtaps = some all ∧
        len.getD s.newtapslen ≤ all.length ∧ s.adopted = all.take (len.getD s.newtapslen)

section Gathered

omit [LinearOrder K]

variable {trig : Trig K} {scaled : List K} {s t : Ctx K}

/-- A new array that is not read in the middle. -/
theorem Gathered.newtaps (gathered : Gathered scaled s) (apart : again s.pc = false)
    (taps : List K) : Gathered scaled { s with newtaps := some taps } := by
  cases place : s.pc with
  | get_complex_taps array len rotate =>
      cases array with
      | none =>
          rw [Gathered, place] at gathered
          exact ⟨nofun, gathered.2⟩
      | some array =>
          rw [place] at apart
          cases apart
  | tapslen =>
      rw [place] at apart
      cases apart
  | calc_max_amplitude array len =>
      cases array with
      | none =>
          rw [place] at apart
          cases apart
      | some array =>
          rw [Gathered, place] at gathered
          exact gathered
  | _ =>
      rw [Gathered, place] at gathered
      exact gathered

/-- A new number that is not read in the middle. -/
theorem Gathered.newtapslen (gathered : Gathered scaled s) (apart : sizedAgain s.pc = false)
    (count : Nat) : Gathered scaled { s with newtapslen := count } := by
  cases place : s.pc with
  | get_complex_taps array len rotate =>
      cases len with
      | none =>
          rw [Gathered, place] at gathered
          exact ⟨gathered.1, nofun⟩
      | some len =>
          rw [place] at apart
          cases apart
  | tapslen =>
      rw [place] at apart
      cases apart
  | calc_max_amplitude array len =>
      cases len with
      | none =>
          rw [place] at apart
          cases apart
      | some len =>
          rw [Gathered, place] at gathered
          exact gathered
  | _ =>
      rw [Gathered, place] at gathered
      exact gathered

theorem Gathered.store (gathered : Gathered scaled s) (steady : Steady s .store)
    (step : s.step? trig .store = some t) : Gathered scaled t := by
  rw [Ctx.step?] at step
  split at step
  · cases step
  · rename_i assignment rest pending
    obtain rfl := Option.some.inj step
    have kept : Kept s assignment := steady assignment (by rw [pending]; exact rfl)
    cases assignment with
    | rotate value => exact gathered
    | newtaps taps =>
        rcases kept with same | apart
        · have kept : s.assign (.newtaps taps) = s := by rw [Ctx.assign, ← same]
          rw [kept]
          exact gathered
        · exact gathered.newtaps apart taps
    | newtapslen count =>
        rcases kept with same | apart
        · have kept : s.assign (.newtapslen count) = s := by rw [Ctx.assign, same]
          rw [kept]
          exact gathered
        · exact gathered.newtapslen apart count

theorem Gathered.read (gathered : Gathered scaled s) {act : TapsHandover.Act K}
    (reads : act = .newtaps ∨ act = .newtapslen ∨ act = .rotate)
    (step : s.step? trig act = some t) : Gathered scaled t := by
  rcases reads with rfl | rfl | rfl
  all_goals
    rw [Ctx.step?] at step
    split at step
    all_goals first
      | cases step; done
      | obtain rfl := Option.some.inj step
        rename_i place
        rw [Gathered, place] at gathered
        simp only [Gathered, Option.some.injEq, forall_eq', Option.none_or, Option.or_self,
          Option.getD_none, Option.getD_some, and_true] at gathered ⊢
        tauto

theorem Gathered.call {junk : Nat → K} (gathered : Gathered scaled s)
    (steady : Steady s (.get_complex_taps junk))
    (step : s.step? trig (.get_complex_taps junk) = some t) : Gathered scaled t := by
  rw [Ctx.step?] at step
  split at step
  · rename_i array len rotate place
    obtain rfl := Option.some.inj step
    rw [Gathered, place] at gathered
    rw [Steady, place] at steady
    have inside : len ≤ array.length := steady
    have all : s.newtaps = some array := gathered.1 array rfl
    obtain rfl : s.newtapslen = len := gathered.2 len rfl
    exact ⟨array, all, inside, entries_eq_take inside junk⟩
  · cases step

theorem Gathered.step {act : TapsHandover.Act K} (gathered : Gathered scaled s)
    (steady : Steady s act) (call : act ≠ .calc_max_amplitude)
    (step : s.step? trig act = some t) : Gathered scaled t := by
  cases act with
  | calc_max_amplitude => exact absurd rfl call
  | store => exact gathered.store steady step
  | newtaps => exact gathered.read (.inl rfl) step
  | newtapslen => exact gathered.read (.inr (.inl rfl)) step
  | rotate => exact gathered.read (.inr (.inr rfl)) step
  | get_complex_taps junk => exact gathered.call steady step
  | modify rotate newtaps =>
      rw [Ctx.step?] at step
      split at step
      · obtain rfl := Option.some.inj step
        exact gathered
      · cases step
  | test =>
      rw [Ctx.step?] at step
      split at step
      · rename_i place
        obtain rfl := Option.some.inj step
        rw [Gathered, place] at gathered
        cases s.newtaps with
        | none => exact gathered
        | some array =>
            constructor
            · rintro _ ⟨⟩
            · rintro _ ⟨⟩
      · cases step
  | tapslen =>
      rw [Ctx.step?] at step
      split at step
      · rename_i place
        obtain rfl := Option.some.inj step
        rw [Gathered, place] at gathered
        obtain ⟨all, waiting, inside, adopted⟩ := gathered
        refine ⟨?_, all, waiting, inside, adopted⟩
        rw [adopted, List.length_take, Nat.min_eq_left inside]
      · cases step
  | cos | sin | free =>
      rw [Ctx.step?] at step
      split at step
      · rename_i place
        obtain rfl := Option.some.inj step
        rw [Gathered, place] at gathered
        exact gathered
      · cases step

/-- The second reading gives the taps that are in use. -/
theorem Gathered.readings {s : Xlater K} {ctx : Ctx K} (gathered : Gathered scaled s.ctx)
    (step : s.ctx.step? trig .calc_max_amplitude = some ctx) (junk : Nat → K) :
    s.readings junk = s.ctx.adopted ∧ Gathered s.ctx.adopted ctx := by
  rw [Ctx.step?] at step
  split at step
  · rename_i array len place
    obtain rfl := Option.some.inj step
    rw [Gathered, place] at gathered
    obtain ⟨tapslen, all, same, inside, adopted⟩ := gathered
    obtain rfl : array = all := Option.some.inj same
    rw [Xlater.readings, place]
    exact ⟨(entries_eq_take inside junk).trans adopted.symm, rfl, tapslen⟩
  · cases step

end Gathered

/-! ## The invariant -/

structure Inv (s : Xlater K) : Prop where
  gathered : Gathered s.scaled.taps s.ctx
  current : s.maxval = calc_max_amplitude s.scaled.taps
  queued : ∀ cell frame, s.outbuf cell = some frame → frame.mypos ≤ s.mypos ∧
    frame.tapslen = frame.taps.length ∧
    (s.scaled.mypos < frame.mypos → frame.taps = s.scaled.taps)
  own : OwnScale s

namespace Inv

variable {trig : Trig K} {s t : Xlater K}

theorem create (rotate : K) (decim history sdr_cptr : Int) (taps : List K) :
    Inv (.create trig rotate decim history sdr_cptr taps) where
  gathered := ⟨rfl, rfl⟩
  current := rfl
  queued := by
    rintro cell frame ⟨⟩
  own := fun conversion member => absurd member List.not_mem_nil

theorem fill (inv : Inv s) {re im : K} (inside : s.ctx.pc = .frame re im) : Inv s.fill := by
  refine ⟨inv.gathered, inv.current, fun cell frame found => ?_, inv.own⟩
  have gathered := inv.gathered
  rw [Gathered, inside] at gathered
  simp only [Xlater.fill, Function.update_apply] at found
  split at found
  · obtain rfl := Option.some.inj found
    exact ⟨Int.le_refl _, gathered.2, fun _ => gathered.1.symm⟩
  · exact inv.queued cell frame found

/-- A new `maxval`: every frame so far is at most as new. -/
theorem scale (inv : Inv s) {ctx : Ctx K}
    (step : s.ctx.step? trig .calc_max_amplitude = some ctx) (junk : Nat → K) :
    Inv (s.scale ctx junk) := by
  obtain ⟨readings, gathered⟩ := inv.gathered.readings step junk
  refine ⟨gathered, ?_, fun cell frame found => ?_, inv.own⟩
  · rw [Xlater.scale, readings]
  · obtain ⟨before, len, -⟩ := inv.queued cell frame found
    exact ⟨before, len, fun later => absurd later (Int.not_lt.mpr before)⟩

/-- A conversion under the condition. -/
theorem convert (inv : Inv s) {largest : Int} {pass : Int × Int} (writer : s.writer = some pass)
    (unscaled : Unscaled s (.convert largest)) : Inv (s.convert largest pass.2) := by
  refine ⟨inv.gathered, inv.current, inv.queued, fun conversion member frame found => ?_⟩
  rcases List.mem_append.mp member with before | new
  · exact inv.own conversion before frame found
  · obtain rfl := List.mem_singleton.mp new
    obtain ⟨-, len, newer⟩ := inv.queued _ frame found
    have same : calc_max_amplitude s.scaled.taps = calc_max_amplitude frame.taps := by
      rcases lt_or_ge s.scaled.mypos frame.mypos with later | older
      · rw [newer later]
      · exact unscaled pass writer frame found older
    refine ⟨len.le, ?_⟩
    dsimp only
    rw [inv.current, same, len, List.take_length]

/-- A step of requests and worker that leaves the frames and `maxval` alone. -/
theorem turn (inv : Inv s) {act : TapsHandover.Act K} (step : s.turn trig act = some t)
    (steady : Steady s.ctx act) (call : act ≠ .calc_max_amplitude) : Inv t := by
  obtain ⟨ctx, taken, rfl⟩ := Option.map_eq_some_iff.mp step
  exact ⟨inv.gathered.step steady call taken, inv.current, inv.queued, inv.own⟩

theorem ended (inv : Inv s) {act : TapsHandover.Act K} {ctx : Ctx K}
    (step : s.ctx.step? trig act = some ctx) (steady : Steady s.ctx act)
    (call : act ≠ .calc_max_amplitude) : Inv (s.ended ctx) := by
  refine ⟨inv.gathered.step steady call step, inv.current, fun cell frame found => ?_, inv.own⟩
  obtain ⟨before, rest⟩ := inv.queued cell frame found
  exact ⟨before.trans (Int.le_add_one le_rfl), rest⟩

theorem step {act : Act K} (inv : Inv s) (unscaled : Unscaled s act)
    (step : s.step? trig act = some t) : Inv t := by
  cases act with
  | modify rotate newtaps =>
      rw [Xlater.step?] at step
      split at step
      · exact inv.turn step trivial nofun
      · cases step
  | store | get_complex_taps => exact inv.turn step unscaled nofun
  | sin | newtaps | newtapslen | rotate | tapslen => exact inv.turn step trivial nofun
  | sdr =>
      rw [Xlater.step?] at step
      split at step
      · cases step
      · obtain rfl := Option.some.inj step
        exact ⟨inv.gathered, inv.current, inv.queued, inv.own⟩
  | cos =>
      rw [Xlater.step?] at step
      split at step
      · cases step
      · exact inv.turn step trivial nofun
  | fill =>
      rw [Xlater.step?] at step
      split at step
      · rename_i inside
        obtain rfl := Option.some.inj step
        exact inv.fill inside
      · cases step
  | test =>
      rw [Xlater.step?] at step
      split at step
      · obtain ⟨ctx, taken, rfl⟩ := Option.map_eq_some_iff.mp step
        split
        · exact inv.turn (congrArg (Option.map _) taken) trivial nofun
        · exact inv.ended taken trivial nofun
      · cases step
  | calc_max_amplitude junk =>
      obtain ⟨ctx, taken, rfl⟩ := Option.map_eq_some_iff.mp step
      exact inv.scale taken junk
  | free =>
      obtain ⟨ctx, taken, rfl⟩ := Option.map_eq_some_iff.mp step
      exact inv.ended taken trivial nofun
  | snapshot =>
      rw [Xlater.step?] at step
      split at step
      · obtain rfl := Option.some.inj step
        exact ⟨inv.gathered, inv.current, inv.queued, inv.own⟩
      · cases step
  | convert largest =>
      obtain ⟨pass, writer, step⟩ := Option.bind_eq_some_iff.mp step
      split at step
      · obtain rfl := Option.some.inj step
        exact inv.convert writer unscaled
      · cases step
  | next | publish =>
      obtain ⟨pass, -, step⟩ := Option.bind_eq_some_iff.mp step
      split at step
      all_goals first
        | cases step; done
        | obtain rfl := Option.some.inj step
          exact ⟨inv.gathered, inv.current, inv.queued, inv.own⟩

end Inv

/-- Every frame that was converted was scaled by its own taps, if `maxval` was never set
for taps with another sum of magnitudes between a frame and its conversion, and new taps
stayed as they were while they were read. -/
theorem ownScale_of_unscaled {trig : Trig K} {s : Xlater K}
    (reach : (xlater trig).Reachable Unscaled s) : OwnScale s := by
  have inv : Inv s := by
    refine reach.invariant ?_ ?_
    · rintro s ⟨rotate, decim, history, sdr_cptr, taps, rfl⟩
      exact .create rotate decim history sdr_cptr taps
    · intro s act t inv unscaled step
      exact inv.step unscaled step
  exact inv.own

/-! ## Two frames -/

/-- No rotation at all. -/
def still : Trig ℚ where
  cos _ := 1
  sin _ := 0
  cos_zero := rfl
  sin_zero := rfl
  cos_add _ _ := by simp
  sin_add _ _ := by simp

/-- The end of a frame with new taps. -/
def takeOver : List (Act ℚ) :=
  [.test, .newtaps, .newtapslen, .rotate, .get_complex_taps fun _ => 0, .tapslen, .newtapslen,
    .newtaps, .calc_max_amplitude fun _ => 0, .free]

/-- New taps arrive while frame 0 is computed and are taken over at its end. -/
def retap : List (Act ℚ) :=
  [.sdr, .sdr, .sdr, .cos, .sin, .modify 0 [2], .store, .store, .store, .fill] ++ takeOver

/-- Frame 1 is computed with the new taps and scaled by them. -/
theorem ownScale_second_frame : ∃ s : Xlater ℚ, (xlater still).Reachable Unscaled s ∧
    s.converted = [⟨32767, some ⟨1, [2], 1⟩, 32767 / 2⟩] ∧ OwnScale s := by
  have run : ((xlater still).runIf? Unscaled (.create still 0 1 (-1) (-1) [1])
      (retap ++ [.cos, .sin, .fill, .test, .snapshot, .next, .convert 32767])).any
      (fun s => decide (s.converted = [⟨32767, some ⟨1, [2], 1⟩, 32767 / 2⟩])) = true := by
    decide +kernel
  obtain ⟨s, reached, converted⟩ := (Option.any_eq_true _ _).mp run
  have reach : (xlater still).Reachable Unscaled s :=
    ⟨_, _, ⟨0, 1, -1, -1, [1], rfl⟩, .of_runIf? reached⟩
  exact ⟨s, reach, of_decide_eq_true converted, ownScale_of_unscaled reach⟩

/-- Frame 0, computed with the old taps, is sent at half its scale. -/
theorem not_ownScale_first_frame : ∃ s : Xlater ℚ, (xlater still).Reachable Machine.Any s ∧
    s.converted = [⟨32767, some ⟨0, [1], 1⟩, 32767 / 2⟩] ∧ ¬ OwnScale s := by
  have run : ((xlater still).run? (.create still 0 1 (-1) (-1) [1])
      (retap ++ [.snapshot, .convert 32767])).any
      (fun s => decide (s.converted = [⟨32767, some ⟨0, [1], 1⟩, 32767 / 2⟩])) = true := by
    decide +kernel
  obtain ⟨s, reached, converted⟩ := (Option.any_eq_true _ _).mp run
  have once := of_decide_eq_true converted
  refine ⟨s, ⟨_, _, ⟨0, 1, -1, -1, [1], rfl⟩, .of_run? reached⟩, once, fun own => ?_⟩
  have scale := (own ⟨32767, some ⟨0, [1], 1⟩, 32767 / 2⟩ (once ▸ List.mem_singleton_self _) _
    rfl).2
  norm_num [calc_max_amplitude] at scale

end Kukuruku.Server.FrameScale
