import Kukuruku.Server.Listener

/-!
# Uninitialised memory and the sockets

A `SRV_PAYLOAD_HEADER` is a local variable of which each branch of
`socket_write_thr` sets some of the fields, and the record of a client comes
from `malloc`.  `blank` removes everything from a state that such memory has
determined.
-/

namespace Kukuruku.Server.Uninitialised

open Kukuruku.Server.Messages
open Kukuruku.Server.ClientParser
open Kukuruku.Server.Threads
open Kukuruku.Server.Listener

/-! ## Without the contents of the memory -/

def blankJunk (junk : Junk) : Junk := { junk with time := 0, frameno := 0, type := 0 }

def blankAct : Act → Act
  | .exec t junk => .exec t (blankJunk junk)
  | act => act

/-- An event without what the memory of a header or of a new record holds. -/
def blankEvent : Event → Event
  | .accept _ _ _ => .accept false false []
  | .client_read_thr cli => .client_read_thr cli
  | .thread act => .thread (blankAct act)

def blankClient (raw : List Nat) (client : TcpCli) : TcpCli :=
  ⟨client.cli, false, false, if client.cli ∈ raw then [] else client.req_frames_head⟩

def blankServer (raw : List Nat) (s : Server) : Server :=
  { s with tcp_cli_head := s.tcp_cli_head.map (blankClient raw) }

def blankSys (raw : List Nat) (s : Sys) : Sys := { s with srv := blankServer raw s.srv }

def blank (s : State) : State := ⟨blankSys s.raw s.sys, s.raw⟩

section Server

variable {raw : List Nat} {s : Server}

@[simp] theorem blankClient_blankClient (client : TcpCli) :
    blankClient raw (blankClient raw client) = blankClient raw client := by
  simp only [blankClient, TcpCli.mk.injEq, true_and]
  split <;> rfl

theorem blankServer_blankServer (raw : List Nat) (s : Server) :
    blankServer raw (blankServer raw s) = blankServer raw s := by
  simp [blankServer]

theorem worker?_blankServer (wid : Int) : (blankServer raw s).worker? wid = s.worker? wid := rfl

theorem client?_blankServer (cli : Nat) :
    (blankServer raw s).client? cli = (s.client? cli).map (blankClient raw) := by
  unfold Server.client? blankServer
  rw [List.find?_map]
  rfl

theorem clis_blankServer :
    (blankServer raw s).tcp_cli_head.map TcpCli.cli = s.tcp_cli_head.map TcpCli.cli := by
  simp [blankServer, blankClient, Function.comp_def]

theorem nextClient_blankServer (rest : List Nat) :
    nextClient (blankServer raw s) rest = nextClient s rest := by
  simp only [nextClient, blankServer, List.any_map]
  rfl

/-- Changes of one client's record that do not read what `blankClient` removes. -/
theorem blankServer_setClient (me : Nat) {change : TcpCli → TcpCli}
    (blind : ∀ client, blankClient raw (change (blankClient raw client)) =
      blankClient raw (change client)) :
    blankServer raw ((blankServer raw s).setClient me change) =
      blankServer raw (s.setClient me change) := by
  simp only [blankServer, Server.setClient, List.map_map]
  congr 1
  refine List.map_congr_left fun client _ => ?_
  simp only [Function.comp_apply]
  by_cases own : client.cli = me
  · rw [if_pos own, if_pos (show (blankClient raw client).cli = me from own), blind]
  · rw [if_neg own, if_neg (show ¬(blankClient raw client).cli = me from own),
      blankClient_blankClient]

theorem blankServer_unsubscribeAll (raw : List Nat) (s : Server) (id : Int) :
    blankServer raw ((blankServer raw s).unsubscribeAll id) =
      blankServer raw (s.unsubscribeAll id) := by
  have same : (blankServer raw s).worker_head = s.worker_head := rfl
  unfold Server.unsubscribeAll
  rw [same]
  split
  · simp only [blankServer, List.map_map]
    congr 1
    refine List.map_congr_left fun client _ => ?_
    simp only [Function.comp_apply, blankClient]
    split <;> rfl
  · exact blankServer_blankServer raw s

/-- No instruction makes a difference out of what the memory held. -/
theorem blankServer_effect (pack : Protobuf) (raw : List Nat) (s : Server) (junk : Junk)
    (i : Instr) :
    blankServer raw (effect pack (blankJunk junk) (blankServer raw s) i) =
      blankServer raw (effect pack junk s i) := by
  have again := blankServer_blankServer raw (effect pack junk s i)
  cases i with
  | enable me id type =>
      refine blankServer_setClient me fun client => ?_
      simp only [blankClient]
      split <;> rfl
  | spectrum me | histo me =>
      refine blankServer_setClient me fun client => ?_
      simp only [blankClient]
      split <;> rfl
  | disable id => exact blankServer_unsubscribeAll raw s id
  | destroy id =>
      have unsubscribed := blankServer_unsubscribeAll raw s id
      exact congrArg (fun before => before.setWorker id fun worker =>
        { worker with enabled := false }) unsubscribed
  | close me =>
      simp only [effect, blankServer, List.filter_map, List.map_map]
      congr 1
      refine List.map_congr_left fun client _ => ?_
      exact blankClient_blankClient client
  | walk rest =>
      cases rest with
      | nil => exact again
      | cons wid rest =>
          have same : effect pack (blankJunk junk) (blankServer raw s) (.walk (wid :: rest)) =
            effect pack junk (blankServer raw s) (.walk (wid :: rest)) := rfl
          rw [same]
          simp only [effect, worker?_blankServer]
          split
          · split
            · exact blankServer_blankServer raw (s.setWorker wid fun worker =>
                { worker with ready := [] })
            · split
              · exact blankServer_blankServer raw { s with
                  worker_head := s.worker_head.filter fun worker => worker.wid ≠ wid }
              · exact blankServer_blankServer raw s
          · exact blankServer_blankServer raw s
  | _ => exact again

end Server

/-! ## What is sent -/

/-- What the instruction sends, and whether it does, is decided by initialised
memory: no frame is due to a client whose list is still raw or who has subscribed
to the worker, no spectrum and no histogram to a connected client. -/
def Decided (raw : List Nat) (s : Server) : Instr → Prop
  | .frame wid _ => (s.worker? wid).isSome → ∀ client ∈ s.tcp_cli_head, client.cli ∉ raw ∧
      ∀ frm ∈ client.req_frames_head, frm.wid = wid → ∃ value, frm.sampletype = .other value
  | .spectrumTo cli _ | .histoTo cli _ => s.client? cli = none
  | _ => True

section Expand

variable {raw : List Nat} {s : Server}

theorem payloads_eq_nil (junk : Junk) {wid : Int} (samples : Samples)
    (unsubscribed : (s.worker? wid).isSome → ∀ client ∈ s.tcp_cli_head,
      ∀ frm ∈ client.req_frames_head, frm.wid = wid → ∃ value, frm.sampletype = .other value) :
    payloads junk s wid samples = [] := by
  unfold payloads
  split
  · rfl
  · rename_i worker found
    rw [found] at unsubscribed
    refine List.flatMap_eq_nil_iff.mpr fun client connected => ?_
    refine List.flatMap_eq_nil_iff.mpr fun frm mem => ?_
    obtain ⟨listed, own⟩ := List.mem_filter.mp mem
    obtain ⟨value, format⟩ := unsubscribed rfl client connected frm listed (of_decide_eq_true own)
    rw [format]

/-- A decided instruction expands to the same instructions. -/
theorem expand_blankServer (junk : Junk) {i : Instr} (decided : Decided raw s i) :
    expand (blankJunk junk) (blankServer raw s) i = expand junk s i := by
  cases i with
  | broadcast msg skip =>
      simp only [expand, clis_blankServer]
  | foreach msg skip current rest =>
      simp only [expand, nextClient_blankServer, client?_blankServer, Option.isNone_map]
  | metaFrame packet =>
      simp only [expand, blankServer, List.flatMap_map]
      rfl
  | frame wid samples =>
      have nothing := payloads_eq_nil junk samples fun found client connected =>
        (decided found client connected).2
      have nothing' : payloads (blankJunk junk) (blankServer raw s) wid samples = [] := by
        refine payloads_eq_nil _ samples fun found client connected => ?_
        obtain ⟨before, earlier, rfl⟩ := List.mem_map.mp connected
        obtain ⟨started, unsubscribed⟩ := decided found before earlier
        rw [blankClient, if_neg started]
        exact unsubscribed
      simp only [expand, nothing, nothing']
  | spectrumTo cli packet | histoTo cli packet =>
      have gone : s.client? cli = none := decided
      simp only [expand, client?_blankServer, gone]
      rfl
  | serverInfo me => cases me <;> rfl
  | walk rest => cases rest <;> rfl
  | _ => rfl

end Expand

/-! ## Steps -/

section Steps

variable {pack : Protobuf} {raw : List Nat} {s : Sys} {t : Tid}

theorem blankSys_apply (pack : Protobuf) (raw : List Nat) (s : Sys) (t : Tid) (junk : Junk)
    (i : Instr) (new rest : List Instr) :
    blankSys raw ((blankSys raw s).apply pack (blankJunk junk) t i new rest) =
      blankSys raw (s.apply pack junk t i new rest) := by
  have lists := blankServer_effect pack raw s.srv junk i
  simp only [blankSys, Sys.apply, Sys.setProg, lists]
  rfl

theorem blankSys_blankSys (raw : List Nat) (s : Sys) :
    blankSys raw (blankSys raw s) = blankSys raw s := by
  simp only [blankSys, blankServer_blankServer]

/-- An instruction does the same whatever the memory holds. -/
theorem exec?_blankSys (junk : Junk) (decided : ∀ i ∈ (s.prog t).head?, Decided raw s.srv i) :
    ((blankSys raw s).exec? pack t (blankJunk junk)).map (blankSys raw) =
      (s.exec? pack t junk).map (blankSys raw) := by
  have prog : (blankSys raw s).prog t = s.prog t := rfl
  unfold Sys.exec?
  rw [prog]
  cases first : s.prog t with
  | nil => rfl
  | cons i rest =>
      rw [first] at decided
      have expands := expand_blankServer junk (decided i rfl)
      have applies := fun new => blankSys_apply pack raw s t junk i new rest
      have mutex : (blankSys raw s).llmutex = s.llmutex := rfl
      cases i with
      | lock =>
          simp only [mutex]
          split
          · exact congrArg some (blankSys_blankSys raw { s.setProg t rest with llmutex := some t })
          · rfl
      | unlock =>
          simp only [mutex]
          split
          · exact congrArg some (blankSys_blankSys raw { s.setProg t rest with llmutex := none })
          · rfl
      | send cli msg => exact congrArg some (blankSys_blankSys raw (s.send pack t cli msg rest))
      | cont cli writes =>
          cases writes with
          | nil => exact congrArg some (blankSys_blankSys raw (s.setProg t rest))
          | cons piece more =>
              exact congrArg some (blankSys_blankSys raw (s.cont t cli piece more rest))
      | _ =>
          simp only [Option.map_map]
          rw [show (blankSys raw s).srv = blankServer raw s.srv from rfl, expands]
          exact Option.map_congr fun new _ => applies new

/-- No instruction that is run depends on the memory. -/
def Settled (s : State) : Event → Prop
  | .thread (.exec t _) => ∀ i ∈ (s.sys.prog t).head?, Decided s.raw s.sys.srv i
  | _ => True

theorem step?_blankSys {act : Act} (published : ∀ spectrum histo, act ≠ .connect spectrum histo)
    (settled : Settled ⟨s, raw⟩ (.thread act)) :
    ((blankSys raw s).step? pack (blankAct act)).map (blankSys raw) =
      (s.step? pack act).map (blankSys raw) := by
  have known : ∀ cli, ((blankSys raw s).srv.client? cli).isSome = (s.srv.client? cli).isSome := by
    intro cli
    rw [blankSys, client?_blankServer, Option.isSome_map]
  have prog : (blankSys raw s).prog = s.prog := rfl
  cases act with
  | connect spectrum histo => exact absurd rfl (published spectrum histo)
  | exec t junk => exact exec?_blankSys junk settled
  | request cli now msg =>
      simp only [blankAct, Sys.step?, known, prog]
      split
      · exact congrArg some
          (blankSys_blankSys raw (s.setProg (.client cli) (parse_client_req cli now msg)))
      · rfl
  | hangup cli =>
      simp only [blankAct, Sys.step?, known, prog]
      split
      · exact congrArg some (blankSys_blankSys raw (s.setProg (.client cli) (disconnect cli)))
      · rfl
  | pass =>
      simp only [blankAct, Sys.step?, prog]
      split
      · exact congrArg some (blankSys_blankSys raw (s.setProg .writer socket_write_pass))
      · rfl
  | produce wid samples =>
      have worker : (blankSys raw s).srv.worker? wid = s.srv.worker? wid := rfl
      simp only [blankAct, Sys.step?, worker]
      split
      · exact congrArg some (blankSys_blankSys raw (s.produce pack wid samples))
      · rfl
  | exit wid =>
      exact congrArg some (blankSys_blankSys raw { s with
        srv := s.srv.setWorker wid fun worker => { worker with exited := true } })
  | metadata packet =>
      exact congrArg some (blankSys_blankSys raw { s with
        srv := { s.srv with
          metadata := s.srv.metadata ++ [packet]
          sdr_cptr := s.srv.sdr_cptr + 1 } })

end Steps

/-! ## Runs -/

section Runs

variable {pack : Protobuf}

theorem blankClient_of_subset {raw more : List Nat} {client : TcpCli}
    (subset : client.cli ∈ raw → client.cli ∈ more) :
    blankClient more (blankClient raw client) = blankClient more client := by
  by_cases within : client.cli ∈ raw
  · simp [blankClient, within, subset within]
  · simp [blankClient, within]

theorem blank_accept (s : State) (spectrum histo : Bool) (req_frames_head : List ReqFrames) :
    blank ((blank s).accept false false []) = blank (s.accept spectrum histo req_frames_head) := by
  have others : (s.sys.srv.tcp_cli_head.map (blankClient s.raw)).map
      (blankClient (s.sys.connections :: s.raw)) =
        s.sys.srv.tcp_cli_head.map (blankClient (s.sys.connections :: s.raw)) := by
    rw [List.map_map]
    exact List.map_congr_left fun client _ => blankClient_of_subset (List.mem_cons_of_mem _)
  simp only [blank, blankSys, blankServer, State.accept, List.map_cons, others]
  simp [blankClient]

theorem blank_client_read_thr (s : State) (cli : Nat) :
    blank ((blank s).client_read_thr cli) = blank (s.client_read_thr cli) := by
  have lists : blankServer (s.raw.filter fun other => other ≠ cli)
      ((blankServer s.raw s.sys.srv).setClient cli fun client =>
        { client with req_frames_head := [] }) =
      blankServer (s.raw.filter fun other => other ≠ cli)
        (s.sys.srv.setClient cli fun client => { client with req_frames_head := [] }) := by
    simp only [blankServer, Server.setClient, List.map_map]
    congr 1
    refine List.map_congr_left fun client _ => ?_
    simp only [Function.comp_apply]
    by_cases own : client.cli = cli
    · rw [if_pos own, if_pos (show (blankClient s.raw client).cli = cli from own)]
      rfl
    · rw [if_neg own, if_neg (show ¬(blankClient s.raw client).cli = cli from own)]
      refine blankClient_of_subset fun within => ?_
      exact List.mem_filter.mpr ⟨within, decide_eq_true own⟩
  simp only [blank, blankSys, State.client_read_thr, lists]

/-- An event does the same whatever the memory holds. -/
theorem step?_blank (s : State) {event : Event} (settled : Settled s event) :
    ((blank s).step? pack (blankEvent event)).map blank = (s.step? pack event).map blank := by
  have mutex : (blank s).sys.llmutex = s.sys.llmutex := rfl
  have raw : (blank s).raw = s.raw := rfl
  cases event with
  | accept spectrum histo req_frames_head =>
      simp only [State.step?, blankEvent, mutex]
      split
      · exact congrArg some (blank_accept s spectrum histo req_frames_head)
      · rfl
  | client_read_thr cli =>
      simp only [State.step?, blankEvent, raw]
      split
      · exact congrArg some (blank_client_read_thr s cli)
      · rfl
  | thread act =>
      have started : (blank s).started (blankAct act) = s.started act := by
        cases act <;> rfl
      simp only [State.step?, blankEvent, started, raw]
      split
      · rename_i admitted
        have published : ∀ spectrum histo, act ≠ .connect spectrum histo := by
          rintro spectrum histo rfl
          cases admitted
        have same := congrArg (Option.map fun sys => State.mk sys s.raw)
          (@step?_blankSys pack s.raw s.sys act published settled)
        simp only [Option.map_map] at same ⊢
        exact same
      · rfl

theorem decided_blankServer (raw : List Nat) (s : Server) (i : Instr) :
    Decided raw (blankServer raw s) i ↔ Decided raw s i := by
  cases i with
  | frame wid samples =>
      refine forall_congr' fun _ => ?_
      constructor
      · intro decided client connected
        obtain ⟨started, unsubscribed⟩ := decided _ (List.mem_map_of_mem connected)
        rw [blankClient, if_neg (show client.cli ∉ raw from started)] at unsubscribed
        exact ⟨started, unsubscribed⟩
      · intro decided client connected
        obtain ⟨before, earlier, rfl⟩ := List.mem_map.mp connected
        obtain ⟨started, unsubscribed⟩ := decided before earlier
        rw [blankClient, if_neg started]
        exact ⟨started, unsubscribed⟩
  | spectrumTo | histoTo =>
      simp only [Decided, client?_blankServer, Option.map_eq_none_iff]
  | _ => exact Iff.rfl

theorem settled_blank (s : State) (event : Event) :
    Settled (blank s) (blankEvent event) ↔ Settled s event := by
  cases event with
  | thread act =>
      cases act with
      | exec t junk => exact forall₂_congr fun i _ => decided_blankServer s.raw s.sys.srv i
      | _ => exact Iff.rfl
  | _ => exact Iff.rfl

/-- The states differ in the contents of the memory alone. -/
def Alike (s other : State) : Prop := blank s = blank other

def AlikeEvents (event event' : Event) : Prop := blankEvent event = blankEvent event'

theorem step?_alike (s other : State) (event event' : Event) (next : State)
    (alike : Alike s other) (like : AlikeEvents event event') (settled : Settled s event)
    (step : s.step? pack event = some next) :
    ∃ next', other.step? pack event' = some next' ∧ Alike next next' := by
  rw [Alike] at alike
  rw [AlikeEvents] at like
  have settled' : Settled other event' := by
    rw [← settled_blank, ← alike, ← like, settled_blank]
    exact settled
  have same : (other.step? pack event').map blank = some (blank next) := by
    rw [← step?_blank other settled', ← alike, ← like, step?_blank s settled, step, Option.map_some]
  obtain ⟨next', taken, equal⟩ := Option.map_eq_some_iff.mp same
  exact ⟨next', taken, equal.symm⟩

theorem sock_blank (s : State) : (blank s).sys.sock = s.sys.sock := rfl

/-- In a run whose steps depend on no uninitialised memory, the sockets receive
the same bytes whatever that memory holds. -/
theorem sockets_determined {first last : State} {events events' : List Event}
    (run : (listener pack).Run Settled first events last)
    (alike : List.Forall₂ AlikeEvents events events') :
    ∃ last', (listener pack).Run Machine.Any first events' last' ∧
      last'.sys.sock = last.sys.sock := by
  obtain ⟨last', run', same⟩ := run.matched step?_alike (show Alike first first from rfl) alike
  refine ⟨last', run', ?_⟩
  rw [← sock_blank last', ← (show blank last = blank last' from same), sock_blank]

end Runs

/-- A client asks for the parameters while its record has its flags by chance. -/
theorem sockets_determined_get_info :
    let events (flag : Bool) (junk : Junk) : List Event :=
      [.accept flag flag [⟨0, .F32⟩], .client_read_thr 0, .thread (.request 0 0 .GET_INFO),
        .thread (.exec (.client 0) junk), .thread (.exec (.client 0) junk),
        .thread (.exec (.client 0) junk)]
    ∃ last last', (listener .documented).Run Settled (State.start idleServer)
        (events true Junk.zero) last ∧
      (listener .documented).Run Machine.Any (State.start idleServer)
        (events false { Junk.zero with type := 7 }) last' ∧
      last'.sys.sock = last.sys.sock := by
  intro events
  have run : ∃ last, (listener .documented).Run Settled (State.start idleServer)
      (events true Junk.zero) last := by
    refine ⟨_, .cons trivial rfl (.cons trivial rfl (.cons trivial rfl
      (.cons ?_ rfl (.cons ?_ rfl (.cons ?_ rfl (.nil _))))))⟩ <;>
    · rintro _ ⟨⟩
      trivial
  obtain ⟨last, run⟩ := run
  have alike : List.Forall₂ AlikeEvents (events true Junk.zero)
      (events false { Junk.zero with type := 7 }) :=
    .cons rfl (.cons rfl (.cons rfl (.cons rfl (.cons rfl (.cons rfl .nil)))))
  obtain ⟨last', run', same⟩ := sockets_determined run alike
  exact ⟨last, last', run, run', same⟩

/-- The type of a spectrum is what the memory of its header holds. -/
theorem not_sockets_determined_spectrum :
    ¬ ∀ first, (listener .documented).Initial first → ∀ events events' : List Event,
      List.Forall₂ AlikeEvents events events' → ∀ last last',
        (listener .documented).Run Machine.Any first events last →
        (listener .documented).Run Machine.Any first events' last' →
        last.sys.sock = last'.sys.sock := by
  intro determined
  let packet : Metadata := ⟨⟨[], by decide⟩, ⟨List.replicate HISTOGRAM_RES 0, by simp⟩, 0, 0⟩
  let events (type : Int) : List Event :=
    [.accept false false [], .client_read_thr 0, .thread (.request 0 0 .ENABLE_SPECTRUM),
      .thread (.exec (.client 0) Junk.zero), .thread (.metadata packet), .thread .pass] ++
      List.replicate 7 (.thread (.exec .writer { Junk.zero with type := type }))
  obtain ⟨last, run, sent⟩ : ∃ last, (listener .documented).run? (State.start idleServer)
      (events 0) = some last ∧ last.sys.sock 0 = LE32 20 ++ PayloadHeader.bytes ⟨-1, 0, 0, 0⟩ :=
    ⟨_, rfl, rfl⟩
  obtain ⟨last', run', sent'⟩ : ∃ last, (listener .documented).run? (State.start idleServer)
      (events 1) = some last ∧ last.sys.sock 0 = LE32 20 ++ PayloadHeader.bytes ⟨-1, 0, 0, 1⟩ :=
    ⟨_, rfl, rfl⟩
  have alike : List.Forall₂ AlikeEvents (events 0) (events 1) := by
    repeat refine .cons rfl ?_
    exact .nil
  have same := congrFun (determined _ ⟨idleServer, by decide, rfl⟩ _ _ alike _ _
    (.of_run? run) (.of_run? run')) 0
  rw [sent, sent'] at same
  exact absurd same (by decide)

end Kukuruku.Server.Uninitialised
