import Kukuruku.Clients.XlatersLock
import Kukuruku.Server.ChannelSignal

/-!
# Tuning to a station

A click on the waterfall, or a change of a row in the list, becomes a rotation and a
filter for a worker of the server.  The worker moves the place that was chosen to 0 Hz:
a station that is some Hz away from it is heard as many Hz away from 0 Hz, at the sample
rate of the channel.  A turn is the `2*math.pi` of the program, and here its arithmetic is
exact.
-/

namespace Kukuruku.Clients.Tuning

open Kukuruku.Carriers
open Kukuruku.Doubles (roundEven)
open Kukuruku.Server
open Kukuruku.Server.XlateWorker
open Kukuruku.Server.ChannelSignal (Tone Carries outputs)
open Kukuruku.Server.TapsHandover (Trig.real)
open Kukuruku.Clients.XlaterPanel
open Kukuruku.Clients.XlatersLock

/-! ## Stations -/

/-- A station that transmits `freq` Hz above the centre of the radio's band. -/
structure Station where
  freq : ℝ
  amplitude : lv_32fc_t ℝ

variable (out : Outside)

/-- A whole turn. -/
def turn : ℚ := 2 * out.pi

/-- The angle between two samples, of `rate` a second. -/
noncomputable def angle (rate freq : ℝ) : ℝ := freq / rate * turn out

noncomputable def Station.tone (samplerate : ℝ) (station : Station) : Tone ℝ where
  amplitude := station.amplitude
  angle := angle out samplerate station.freq

/-- A station in a channel around `offset`. -/
noncomputable def Station.heard (samplerate : ℝ) (taps : List ℝ) (offset : ℝ) (decim : Nat)
    (station : Station) : Carrier (lv_32fc_t ℝ) where
  amplitude := station.amplitude *
    Trig.real.expj (-(angle out samplerate station.freq * HISTORY)) *
      response (taps.map fun tap => lv_cmake tap 0)
        (Trig.real.expj (angle out samplerate (station.freq - offset)))
  step := Trig.real.expj (angle out (samplerate / decim) (station.freq - offset))

/-- The phase that all stations have in common. -/
noncomputable def common (rotate : ℝ) (decim : Nat) (before : List (Floats ℝ))
    (locals : Locals ℝ) : lv_32fc_t ℝ :=
  locals.phase *
    Trig.real.expj (-(rotate * decim * outputCount decim (before.length * SDRPACKETSIZE)))

/-- A worker that is told this rotation and these taps, whatever it did before, stores
the stations around `offset`. -/
def Tuned (samplerate : Int) (offset rotate : ℝ) (taps : List ℝ) : Prop :=
  ∀ (stations : List Station) (decim : Nat), 0 < decim → taps.length ≤ HISTORY + 1 →
    ∀ (before later : List (Floats ℝ)) (locals : Locals ℝ), FilterState decim before locals →
      Carries Trig.real (stations.map (Station.tone out samplerate)) (before ++ later) →
        ∀ j k, k = outputCount decim (before.length * SDRPACKETSIZE) + j →
          HISTORY ≤ k * decim → k * decim < (before ++ later).length * SDRPACKETSIZE →
            (outputs Trig.real taps rotate decim locals later)[j]? =
              some (common rotate decim before locals *
                signal (stations.map (Station.heard out samplerate taps offset decim)) k)

/-- The rotation that the GUI asks for. -/
def rotation (samplerate : Int) (offset : ℚ) : ℚ := -(offset / samplerate) * 2 * out.pi

variable {out} in
theorem rotation_eq (exact : ∀ x, out.double x = x) (s : Shared) (offset : ℚ) :
    s.rotation out offset = rotation out s.samplerate offset := by
  rw [Shared.rotation, rotation, exact, exact, exact]

variable {out} {samplerate : Int}

theorem angle_rotation (freq : ℝ) (offset : ℚ) :
    angle out samplerate freq + (rotation out samplerate offset : ℝ) =
      angle out samplerate (freq - offset) := by
  rw [angle, angle, rotation, turn]
  push_cast
  ring

theorem angle_mul (rate freq : ℝ) (decim : Nat) :
    angle out rate freq * decim = angle out (rate / decim) freq := by
  rw [angle, angle, div_div_eq_mul_div]
  ring

/-- The rotation moves every station by the offset. -/
theorem heard_tone (taps : List ℝ) (offset : ℚ) (decim : Nat) (station : Station) :
    (station.tone out samplerate).heard Trig.real taps (rotation out samplerate offset) decim =
      station.heard out samplerate taps offset decim := by
  rw [Tone.heard, Station.heard, Station.tone]
  simp only [angle_rotation]
  rw [angle_mul _ (station.freq - offset)]

theorem tuned_rotation (offset : ℚ) (taps : List ℝ) :
    Tuned out samplerate offset (rotation out samplerate offset) taps := by
  intro stations decim advance short before later locals state carries j k place past received
  have moved : (stations.map (Station.tone out samplerate)).map
      (Tone.heard Trig.real taps (rotation out samplerate offset) decim) =
        stations.map (Station.heard out samplerate taps offset decim) := by
    rw [List.map_map]
    exact List.map_congr_left fun station _ => heard_tone taps offset decim station
  rw [ChannelSignal.outputs_heard Trig.real short _ advance state carries place past received,
    moved]
  rfl

/-! ## What the GUI sends -/

/-- The panel shows the xlater at the offset that was asked for. -/
theorem place_rotation (exact : ∀ x, out.double x = x) (pi : out.pi ≠ 0) {s : Shared}
    (rate : s.samplerate ≠ 0) {xl : Xlater}
    {offset : ℚ} (rotate : xl.rotate = rotation out s.samplerate offset) :
    s.place out xl = offset := by
  have rate' : (s.samplerate : ℚ) ≠ 0 := Int.cast_ne_zero.mpr rate
  rw [Shared.place, exact, exact, exact, rotate, rotation]
  field_simp

/-- A new xlater is chosen for the frequency of the click. -/
theorem chooseNew_offset {s : Shared} {mode : Mode} {control : Bool} {chosen : Chosen}
    (chose : chooseNew out s mode control = some chosen) :
    s.pixel2freq out s.wf_click_x = some chosen.offset := by
  obtain ⟨offset, place, chose⟩ := Option.bind_eq_some_iff.mp chose
  have built (startframe : Int) (allowed : Bool)
      (chose : (if mode.rate = 0 then none
        else if roundEven (out.double ((s.samplerate : ℚ) / mode.rate)) = 0 then none
        else some (⟨allowed, offset, startframe,
          roundEven (out.double ((s.samplerate : ℚ) / mode.rate))⟩ : Chosen)) = some chosen) :
      s.pixel2freq out s.wf_click_x = some chosen.offset := by
    split_ifs at chose
    obtain rfl := Option.some.inj chose
    exact place
  cases control with
  | false => exact built (-1) _ chose
  | true =>
      obtain ⟨startframe, -, chose⟩ := Option.bind_eq_some_iff.mp chose
      exact built startframe _ chose

theorem createNew_msgq {s t : Shared} {mode : Mode} {chosen : Chosen} {spawned : Bool}
    (created : createNew out s mode chosen spawned = some t) :
    s.samplerate ≠ 0 ∧ ∃ taps, t.msgq = s.msgq ++ [.CREATE_XLATER s.xln
      (s.rotation out chosen.offset) chosen.decimation chosen.startframe taps] := by
  rw [createNew] at created
  split at created
  · cases created
  · rename_i rate
    obtain ⟨taps, -, created⟩ := Option.bind_eq_some_iff.mp created
    split at created
    · obtain rfl := Option.some.inj created
      exact ⟨rate, taps, rfl⟩
    · cases created

theorem make_panel_msgq {s t : Shared} {wid : Int} {offset bw transition : ℚ}
    {filtertype : List Char} {sql afc : Bool}
    (made : s.make_panel out wid offset bw filtertype transition sql afc = some t) :
    t.msgq = s.msgq := by
  obtain ⟨_, -, made⟩ := Option.bind_eq_some_iff.mp made
  obtain ⟨_, -, made⟩ := Option.bind_eq_some_iff.mp made
  obtain ⟨_, -, made⟩ := Option.bind_eq_some_iff.mp made
  obtain ⟨_, -, made⟩ := Option.bind_eq_some_iff.mp made
  obtain ⟨_, -, made⟩ := Option.bind_eq_some_iff.mp made
  obtain rfl := Option.some.inj made
  rfl

theorem showXlater_msgq {s t : Shared} {wid : Int} {xl : Xlater}
    (shown : s.showXlater out wid xl = some t) : t.msgq = s.msgq := by
  rw [Shared.showXlater] at shown
  split at shown
  · rw [Shared.addXlater] at shown
    split at shown
    · cases shown
    · exact make_panel_msgq shown
  · obtain ⟨old, -, shown⟩ := Option.bind_eq_some_iff.mp shown
    obtain ⟨new, -, shown⟩ := Option.bind_eq_some_iff.mp shown
    obtain rfl := Option.some.inj shown
    rfl

/-- The list view is no reason for a message. -/
theorem xlater_callback_msgq {s t : Shared} (called : s.xlater_callback out = some t) :
    t.msgq = s.msgq := by
  have shows (entries : Dict Xlater) {s t : Shared}
      (shown : entries.foldlM (fun s entry => s.showXlater out entry.1 entry.2) s = some t) :
      t.msgq = s.msgq := by
    induction entries generalizing s with
    | nil =>
        obtain rfl := Option.some.inj shown
        rfl
    | cons entry rest ih =>
        obtain ⟨next, first, later⟩ := Option.bind_eq_some_iff.mp shown
        exact (ih later).trans (showXlater_msgq first)
  rw [Shared.xlater_callback] at called
  split at called
  · have same := shows s.xlaters called
    exact same
  · obtain rfl := Option.some.inj called
    rfl

theorem commit_xlater_msgq {s t : Shared} {row : Nat} {old : Row} (found : s.model[row]? = some old)
    (committed : s.commit_xlater out row = some t) :
    s.samplerate ≠ 0 ∧ ∃ taps, t.msgq = s.msgq ++ [.MODIFY_XLATER old.wid
      (s.rotation out old.offset) taps] := by
  rw [Shared.commit_xlater, found, Option.bind_eq_bind, Option.bind_some] at committed
  split at committed
  · cases committed
  · rename_i rate
    obtain ⟨taps, -, modified⟩ := Option.bind_eq_some_iff.mp committed
    obtain ⟨xl, -, called⟩ := Option.bind_eq_some_iff.mp modified
    exact ⟨rate, taps, xlater_callback_msgq called⟩

/-! ## What a click finds -/

variable (out) in
/-- The decimation leaves a frequency where it is: it turns by less than a half from
sample to sample of the channel. -/
def Unfolded (s : Shared) (xl : Xlater) (f : ℚ) : Prop :=
  |angle out (s.samplerate / xl.decimation) (f - s.place out xl)| < out.pi

theorem unfolded_iff (pi : 0 < out.pi) {s : Shared} (rate : 0 < s.samplerate) {xl : Xlater}
    (decimates : 0 < xl.decimation) (f : ℚ) :
    Unfolded out s xl f ↔ |s.place out xl - f| < (s.samplerate : ℚ) / xl.decimation / 2 := by
  have width : (0 : ℚ) < (s.samplerate : ℚ) / xl.decimation :=
    div_pos (Int.cast_pos.mpr rate) (Int.cast_pos.mpr decimates)
  have cast : angle out (s.samplerate / xl.decimation) (f - s.place out xl) =
      (((f - s.place out xl) / ((s.samplerate : ℚ) / xl.decimation) * (2 * out.pi) : ℚ) : ℝ) := by
    rw [angle, turn]
    push_cast
    rfl
  rw [Unfolded, cast, ← Rat.cast_abs, Rat.cast_lt, abs_mul, abs_div, abs_of_pos width,
    abs_of_pos (show 0 < 2 * out.pi by linarith), abs_sub_comm f, ← mul_assoc,
    mul_lt_iff_lt_one_left pi, div_mul_eq_mul_div, div_lt_one width,
    lt_div_iff₀ (two_pos : (0 : ℚ) < 2)]

open scoped Classical in
/-- A click finds the first xlater that hears the place of the click unfolded. -/
theorem pixel2xlater_eq (exact : ∀ x, out.double x = x) (pi : 0 < out.pi) {s : Shared}
    (rate : 0 < s.samplerate) (decimates : ∀ entry ∈ s.xlaters, 0 < entry.2.decimation)
    {pixpos f : ℚ} (place : s.pixel2freq out pixpos = some f) :
    s.pixel2xlater out pixpos =
      some ((s.xlaters.find? fun entry => Unfolded out s entry.2 f).map Prod.fst) := by
  have finds (entries : Dict Xlater) (positive : ∀ entry ∈ entries, 0 < entry.2.decimation) :
      s.xlaterAt out f entries =
        some ((entries.find? fun entry => Unfolded out s entry.2 f).map Prod.fst) := by
    induction entries with
    | nil => rfl
    | cons entry rest ih =>
        obtain ⟨key, xl⟩ := entry
        have first : 0 < xl.decimation := positive (key, xl) List.mem_cons_self
        have later := ih fun entry member => positive entry (List.mem_cons_of_mem _ member)
        simp only [Shared.xlaterAt, if_neg (ne_of_gt first), List.find?_cons, exact]
        by_cases near : Unfolded out s xl f
        · rw [if_pos ((unfolded_iff pi rate first f).mp near), decide_eq_true near]
          rfl
        · rw [if_neg fun within => near ((unfolded_iff pi rate first f).mpr within),
            decide_eq_false near]
          exact later
  rw [Shared.pixel2xlater, place]
  exact finds s.xlaters decimates

/-! ## What the user hears -/

variable (out) in
/-- A rotation and taps that the GUI sends, for an offset. -/
structure Moves (s : Shared) (offset rotate : ℚ) (taps : List ℚ) : Prop where
  shown : ∀ xl : Xlater, xl.rotate = rotate → s.place out xl = offset
  heard : Tuned out s.samplerate offset rotate (taps.map (↑))

theorem moves_rotation (exact : ∀ x, out.double x = x) (pi : 0 < out.pi) {s : Shared}
    (rate : s.samplerate ≠ 0) (offset : ℚ) (taps : List ℚ) :
    Moves out s offset (s.rotation out offset) taps := by
  rw [rotation_eq exact]
  exact ⟨fun _ rotate => place_rotation exact (ne_of_gt pi) rate rotate, tuned_rotation offset _⟩

open scoped Classical in
/-- A new xlater is tuned to the frequency of the click, and a changed one to the offset of
its row: that is where the list shows it, and what its worker hears at 0 Hz.  A click finds
the first xlater that hears the place of the click unfolded. -/
theorem moves_of_mouse (exact : ∀ x, out.double x = x) (pi : 0 < out.pi) (s : Shared) :
    (∀ mode control chosen spawned t, chooseNew out s mode control = some chosen →
      createNew out s mode chosen spawned = some t →
        s.pixel2freq out s.wf_click_x = some chosen.offset ∧ ∃ rotate taps,
          t.msgq = s.msgq ++
            [.CREATE_XLATER s.xln rotate chosen.decimation chosen.startframe taps] ∧
          Moves out s chosen.offset rotate taps) ∧
    (∀ row old t, s.model[row]? = some old → s.commit_xlater out row = some t →
      ∃ rotate taps, t.msgq = s.msgq ++ [.MODIFY_XLATER old.wid rotate taps] ∧
        Moves out s old.offset rotate taps) ∧
    (0 < s.samplerate → (∀ entry ∈ s.xlaters, 0 < entry.2.decimation) →
      ∀ pixpos f, s.pixel2freq out pixpos = some f → s.pixel2xlater out pixpos =
        some ((s.xlaters.find? fun entry => Unfolded out s entry.2 f).map Prod.fst)) := by
  refine ⟨?_, ?_, fun rate decimates pixpos f => pixel2xlater_eq exact pi rate decimates⟩
  · intro mode control chosen spawned t chose created
    obtain ⟨rate, taps, sent⟩ := createNew_msgq created
    exact ⟨chooseNew_offset chose, _, taps, sent, moves_rotation exact pi rate chosen.offset taps⟩
  · intro row old t found committed
    obtain ⟨rate, taps, sent⟩ := commit_xlater_msgq found committed
    exact ⟨_, taps, sent, moves_rotation exact pi rate old.offset taps⟩

/-- A click at three quarters of the waterfall. -/
def clicked : Shared := { oneXlater with xlaters := [], model := [], wf_click_x := 848 }

def fm : Mode := ⟨51200, 25600, 2560, "hamming".toList, 0, false⟩

/-- The taps of the messages in a queue. -/
def filters (msgq : List Msg) : List (List ℚ) :=
  msgq.map fun msg =>
    match msg with
    | .CREATE_XLATER _ _ _ _ taps => taps
    | _ => []

/-- What is outside of the program, without rounding. -/
def unrounded : Outside := { outside with double := id }

/-- The station under the click is heard as a constant. -/
theorem moves_of_mouse_click : ∃ t chosen, chooseNew unrounded clicked fm false = some chosen ∧
    createNew unrounded clicked fm chosen true = some t ∧
    ∃ rotate taps, t.msgq = [.CREATE_XLATER 0 rotate 40 (-1) taps] ∧
      ∀ k, 52 ≤ k → k < 13108 →
        (outputs Trig.real (taps.map (↑)) rotate 40 Locals.start
            (Amplitude.framesOf (signal
              [(Station.tone unrounded 2048000 ⟨512000, 1⟩).carrier Trig.real]) 1))[k]? =
          some (Trig.real.expj (-(angle unrounded 2048000 512000 * HISTORY))) := by
  have chose : (chooseNew unrounded clicked fm false).map
      (fun chosen => (chosen.allowed, chosen.offset, chosen.startframe, chosen.decimation)) =
        some (true, 512000, -1, 40) := by decide +kernel
  obtain ⟨⟨allowed, offset, startframe, decimation⟩, chose, fields⟩ :=
    Option.map_eq_some_iff.mp chose
  obtain ⟨rfl, rfl, rfl, rfl⟩ : allowed = true ∧ offset = 512000 ∧ startframe = -1 ∧
      decimation = 40 := by simpa using fields
  have created : (createNew unrounded clicked fm ⟨true, 512000, -1, 40⟩ true).map
      (fun t => filters t.msgq) = some [[1]] := by decide +kernel
  obtain ⟨t, created, filter⟩ := Option.map_eq_some_iff.mp created
  have pi : 0 < unrounded.pi := by decide +kernel
  obtain ⟨-, rotate, taps, sent, moves⟩ :=
    (moves_of_mouse (fun _ => rfl) pi clicked).1 fm false _ true t chose created
  have one : taps = [1] := by
    rw [sent] at filter
    exact (List.cons.inj filter).1
  subst one
  refine ⟨t, _, chose, created, rotate, [1], sent, fun k past received => ?_⟩
  have size := SDRPACKETSIZE_eq
  have frame : ([] ++ Amplitude.framesOf (signal
      [(Station.tone unrounded 2048000 ⟨512000, 1⟩).carrier Trig.real]) 1).length = 1 := rfl
  have carries : Carries Trig.real ([(⟨512000, 1⟩ : Station)].map
      (Station.tone unrounded clicked.samplerate)) ([] ++ Amplitude.framesOf (signal
        [(Station.tone unrounded 2048000 ⟨512000, 1⟩).carrier Trig.real]) 1) := by
    intro n inside
    rw [frame] at inside
    exact Amplitude.streamAt_framesOf _ inside
  have none : outputCount 40 (([] : List (Floats ℝ)).length * SDRPACKETSIZE) = 0 := rfl
  have heard := moves.heard [⟨512000, 1⟩] 40 (by decide) (by decide) [] _ Locals.start
    (BlockFilter.filterState_start 40) carries k k (by rw [none, Nat.zero_add])
    (by rw [HISTORY_eq]; omega) (by rw [frame]; omega)
  have start : common rotate 40 [] Locals.start = 1 := by
    rw [common, none, Nat.cast_zero, mul_zero, neg_zero, ChannelSignal.expj_zero, mul_one]
    rfl
  have still (rate : ℝ) : Trig.real.expj (angle unrounded rate (512000 - (512000 : ℚ))) = 1 := by
    rw [angle]
    norm_num
    exact ChannelSignal.expj_zero Trig.real
  have flat : response (([((1 : ℚ) : ℝ)] : List ℝ).map fun tap => lv_cmake tap 0) 1 = 1 := by
    simp [response]
    rfl
  rw [start, one_mul] at heard
  refine heard.trans (congrArg some ?_)
  simp only [List.map_cons, List.map_nil, signal, List.sum_cons, List.sum_nil, add_zero,
    Carrier.sample, Station.heard, still]
  rw [one_pow, mul_one, one_mul]
  exact (congrArg _ flat).trans (mul_one _)

end Kukuruku.Clients.Tuning
