import Kukuruku.Server.Messages
import Kukuruku.Server.SdrReader

/-!
# Requests and the lists they work on

The handlers of `parse_client_req` and the passes of `socket_write_thr` are
programs over the server's lists.  An instruction is one section under a mutex,
one read of shared memory or one write to a socket; `effect` is what it does to
the lists and `expand` what remains to be done in its place.  Frames that a
worker has ready wait in a queue of the worker, spectra and histograms in one
of the server.
-/

namespace Kukuruku.Server.ClientParser

open Kukuruku.Server.Messages
open Kukuruku.Server.SdrReader (RecControl)

/-! ## The lists -/

/-- One subscription of a client. -/
structure ReqFrames where
  wid : Int
  sampletype : SampleType
deriving DecidableEq

/-- One connected client; `cli` numbers the connections. -/
structure TcpCli where
  cli : Nat
  spectrum : Bool
  histo : Bool
  req_frames_head : List ReqFrames
deriving DecidableEq

/-- One worker in `worker_head`; `exited` says that its thread has ended. -/
structure WorkerEntry where
  wid : Int
  enabled : Bool
  exited : Bool
  rotate : Float32Bits
  decim : Int
  maxval : Float32Bits
  newtaps : Option (List Float32Bits)
  remoteid : Int
  ready : List Samples
deriving DecidableEq

/-- Spectrum and histogram of one SDR frame. -/
structure Metadata where
  spectrum : Samples
  histo : Histogram
  timestamp : Int
  frameno : Int
deriving DecidableEq

structure Server where
  tcp_cli_head : List TcpCli
  worker_head : List WorkerEntry
  widx : Int
  samplerate : Int
  frequency : Int
  ppm : Int
  fftw : Int
  gain : Gain
  sdr_cmd : List UInt8
  record : RecControl
  sdr_cptr : Int
  metadata : List Metadata
deriving DecidableEq

namespace Server

def client? (s : Server) (cli : Nat) : Option TcpCli :=
  s.tcp_cli_head.find? fun client => client.cli = cli

def worker? (s : Server) (wid : Int) : Option WorkerEntry :=
  s.worker_head.find? fun worker => worker.wid = wid

/-- Change the entry of one client in place. -/
def setClient (s : Server) (cli : Nat) (change : TcpCli → TcpCli) : Server :=
  { s with
    tcp_cli_head := s.tcp_cli_head.map fun client =>
      if client.cli = cli then change client else client }

/-- Change the workers with a given id in place. -/
def setWorker (s : Server) (wid : Int) (change : WorkerEntry → WorkerEntry) : Server :=
  { s with
    worker_head := s.worker_head.map fun worker =>
      if worker.wid = wid then change worker else worker }

/-- The loop of `DISABLE_XLATER` and `DESTROY_XLATER` over the subscriptions of a client.
`SLIST_FOREACH` reads `next` of an entry that the round before has freed: `none`. -/
def unsubscribe? (id : Int) : List ReqFrames → Option (List ReqFrames)
  | [] => some []
  | frm :: rest => if frm.wid = id then none else (unsubscribe? id rest).map (frm :: ·)

/-- The loops over the workers and the clients around it. -/
def unsubscribeAll? (s : Server) (id : Int) : Option Server :=
  if s.worker_head.any fun worker => worker.wid = id then
    (s.tcp_cli_head.mapM fun client =>
      (unsubscribe? id client.req_frames_head).map fun req_frames_head =>
        { client with req_frames_head := req_frames_head }).map fun tcp_cli_head =>
          { s with tcp_cli_head := tcp_cli_head }
  else some s

/-- They find something to free: a subscription of a worker that is known. -/
def Removes (s : Server) (id : Int) : Prop :=
  (∃ worker ∈ s.worker_head, worker.wid = id) ∧
    ∃ client ∈ s.tcp_cli_head, ∃ frm ∈ client.req_frames_head, frm.wid = id

instance (s : Server) (id : Int) : Decidable (s.Removes id) :=
  inferInstanceAs (Decidable (_ ∧ _))

/-- What these loops remove where a freed entry still reads as before: if there is such
a worker, every client loses its subscriptions of it. -/
def unsubscribeAll (s : Server) (id : Int) : Server :=
  if s.worker_head.any fun worker => worker.wid = id then
    { s with
      tcp_cli_head := s.tcp_cli_head.map fun client =>
        { client with
          req_frames_head := client.req_frames_head.filter fun frm => frm.wid ≠ id } }
  else s

def info (s : Server) : SRV_INFO :=
  ⟨s.samplerate, s.frequency, s.ppm, s.fftw, s.gain, SDRPACKETSIZE, BUFSIZE, MAXTAPS⟩

end Server

/-- What uninitialised and freed memory happens to hold at a step, and what
`pthread_kill` answers. -/
structure Junk where
  running : SRV_RUNNING_XLATER
  time : Int
  frameno : Int
  type : Int
  esrch : Bool

/-- Memory that holds zeroes. -/
def Junk.zero : Junk := ⟨⟨0, 0, 0, 0⟩, 0, 0, 0, false⟩

/-! ## Programs -/

inductive Instr where
  | lock
  | unlock
  | create (me : Nat) (remoteid : Int) (rotate : Float32Bits) (decimation startframe : Int)
      (taps : List Float32Bits)
  | enable (me : Nat) (id : Int) (type : SampleType)
  | disable (id : Int)
  | modify (me : Nat) (localid : Int) (rotate : Float32Bits) (newtaps : List Float32Bits)
  | list (me : Nat)
  | destroy (id : Int)
  | destroyed (id : Int)
  | serverInfo (me : Option Nat)
  | recordStart (startframe stopframe now : Int)
  | recordStop
  | spectrum (me : Nat)
  | histo (me : Nat)
  | setGain (gain : Gain)
  | retune (freq : Int)
  | setPpm (ppm : Int)
  | close (me : Nat)
  | announce (me : Nat) (wid : Int)
  | broadcast (msg : SrvMsg) (skip : Option Nat)
  | foreach (msg : SrvMsg) (skip : Option Nat) (current : Option Nat) (rest : List Nat)
  | send (cli : Nat) (msg : SrvMsg)
  | cont (cli : Nat) (writes : List (List UInt8))
  | pass
  | walk (rest : List Int)
  | frame (wid : Int) (samples : Samples)
  | metaFrame (packet : Metadata)
  | spectrumTo (cli : Nat) (packet : Metadata)
  | histoTo (cli : Nat) (packet : Metadata)
deriving DecidableEq

/-- The handler of each message, for the client `me` at time `now`. -/
def parse_client_req (me : Nat) (now : Int) : CliMsg → List Instr
  | .CREATE_XLATER remoteid rotate decimation startframe taps =>
      [.lock, .create me remoteid rotate decimation startframe taps, .unlock]
  | .ENABLE_XLATER id type => [.lock, .enable me id type, .unlock]
  | .DISABLE_XLATER id => [.lock, .disable id, .unlock]
  | .MODIFY_XLATER localid rotate newtaps => [.lock, .modify me localid rotate newtaps]
  | .LIST_XLATERS => [.lock, .list me, .unlock]
  | .DESTROY_XLATER id => [.lock, .destroy id]
  | .GET_INFO => [.lock, .serverInfo (some me), .unlock]
  | .RECORD_START startframe stopframe => [.recordStart startframe stopframe now]
  | .RECORD_STOP => [.recordStop]
  | .ENABLE_SPECTRUM => [.spectrum me]
  | .ENABLE_HISTO => [.histo me]
  | .SET_GAIN gain => [.lock, .setGain gain, .unlock, .lock, .serverInfo none, .unlock]
  | .RETUNE freq => [.lock, .retune freq, .unlock, .lock, .serverInfo none, .unlock]
  | .SET_PPM ppm => [.lock, .setPpm ppm, .unlock, .lock, .serverInfo none, .unlock]
  | .unknown _ => []

/-- The end of `client_read_thr`. -/
def disconnect (me : Nat) : List Instr := [.lock, .close me, .unlock]

/-- One pass of `socket_write_thr`. -/
def socket_write_pass : List Instr := [.lock, .pass]

/-! ## Instructions -/

section Semantics

variable (pack : Protobuf) (junk : Junk) (s : Server)

/-- The new worker of `CREATE_XLATER`. -/
def newWorker (remoteid : Int) (rotate : Float32Bits) (decimation : Int)
    (taps : List Float32Bits) : WorkerEntry where
  wid := s.widx
  enabled := true
  exited := false
  rotate := rotate
  decim := decimation
  maxval := pack.calc_max_amplitude taps
  newtaps := none
  remoteid := remoteid
  ready := []

/-- `MODIFY_XLATER` on the worker it has found. -/
def WorkerEntry.modify (worker : WorkerEntry) (rotate : Float32Bits)
    (newtaps : List Float32Bits) : WorkerEntry :=
  { worker with
    newtaps := if newtaps.length ≠ 0 then some newtaps else worker.newtaps
    rotate := rotate }

/-- What an instruction does to the server's lists and globals. -/
def effect : Instr → Server
  | .create _ remoteid rotate decimation _ taps =>
      { s with
        worker_head := newWorker pack s remoteid rotate decimation taps :: s.worker_head
        widx := s.widx + 1 }
  | .enable me id type =>
      s.setClient me fun client =>
        { client with req_frames_head := ⟨id, type⟩ :: client.req_frames_head }
  | .disable id => s.unsubscribeAll id
  | .modify _ localid rotate newtaps =>
      s.setWorker localid fun worker => worker.modify rotate newtaps
  | .destroy id => (s.unsubscribeAll id).setWorker id fun worker => { worker with enabled := false }
  | .recordStart startframe stopframe now =>
      { s with record := .start startframe stopframe s.sdr_cptr now s.samplerate }
  | .recordStop => { s with record := s.record.stop }
  | .spectrum me => s.setClient me fun client => { client with spectrum := true }
  | .histo me => s.setClient me fun client => { client with histo := true }
  | .setGain gain =>
      { s with
        sdr_cmd := s.sdr_cmd ++ littleEndian 1 3 ++ LE32 gain.autogain ++ LE32 gain.global_gain ++
          LE32 gain.if_gain ++ LE32 gain.bb_gain
        gain := gain }
  | .retune freq =>
      { s with
        sdr_cmd := s.sdr_cmd ++ littleEndian 1 1 ++ littleEndian 8 freq
        frequency := freq }
  | .setPpm ppm =>
      { s with sdr_cmd := s.sdr_cmd ++ littleEndian 1 2 ++ LE32 ppm, ppm := ppm }
  | .close me =>
      { s with tcp_cli_head := s.tcp_cli_head.filter fun client => client.cli ≠ me }
  | .walk [] => { s with metadata := [] }
  | .walk (wid :: _) =>
      match s.worker? wid with
      | some worker =>
          if worker.enabled then s.setWorker wid fun worker => { worker with ready := [] }
          else if junk.esrch ∧ worker.exited then
            { s with worker_head := s.worker_head.filter fun worker => worker.wid ≠ wid }
          else s
      | none => s
  | _ => s

/-- The first client of a loop's remaining ones that is still connected. -/
def nextClient (rest : List Nat) : List Nat :=
  rest.filter fun cli => s.tcp_cli_head.any fun client => client.cli = cli

/-- The subscriptions of a worker's frame, as messages. -/
def payloads (wid : Int) (samples : Samples) : List Instr :=
  match s.worker? wid with
  | none => []
  | some worker =>
      s.tcp_cli_head.flatMap fun client =>
        (client.req_frames_head.filter fun frm => frm.wid = wid).flatMap fun frm =>
          match frm.sampletype with
          | .other _ => []
          | format => [.send client.cli (.payload
              ⟨wid, junk.time, junk.frameno, format.code⟩ format worker.maxval samples)]

/-- What `msg_running_xlater` reads of a worker, which may have been freed. -/
def told (wid : Int) : SRV_RUNNING_XLATER :=
  match s.worker? wid with
  | some worker => ⟨worker.remoteid, worker.wid, worker.rotate, worker.decim⟩
  | none => junk.running

/-- The instructions that take an instruction's place, read off the state before
its effect; none where the source's behaviour is undefined: a loop over the
clients that stands on one that has been freed. -/
def expand : Instr → Option (List Instr)
  | .create me _ _ _ _ _ => some [.announce me s.widx]
  | .modify me localid _ _ =>
      some (.unlock ::
        match s.worker? localid with
        | some _ => [.announce me localid]
        | none => [])
  | .list me => some (s.worker_head.map fun worker => .announce me worker.wid)
  | .destroy id => some [.unlock, .lock, .destroyed id, .unlock]
  | .destroyed id => some [.broadcast (.destroyed id) none]
  | .serverInfo (some me) => some [.send me (.info s.info)]
  | .serverInfo none => some [.broadcast (.info s.info) none]
  | .announce me wid =>
      let msg := told junk s wid
      some [.send me (.running msg), .broadcast (.running { msg with remoteid := -1 }) (some me)]
  | .broadcast msg skip =>
      some [.foreach msg skip none (s.tcp_cli_head.map TcpCli.cli)]
  | .foreach msg skip current rest =>
      if current.any fun cli => (s.client? cli).isNone then none
      else match nextClient s rest with
        | [] => some []
        | cli :: later =>
            let again := Instr.foreach msg skip (some cli) later
            some (if skip = some cli then [again] else [.send cli msg, again])
  | .pass => some [.walk (s.worker_head.map WorkerEntry.wid)]
  | .walk [] => some (s.metadata.map Instr.metaFrame ++ [.unlock])
  | .walk (wid :: rest) =>
      match s.worker? wid with
      | some worker =>
          if worker.enabled then some (worker.ready.map (Instr.frame wid) ++ [.walk rest])
          else if junk.esrch ∧ worker.exited then some [.unlock]
          else some [.walk rest]
      | none => some [.walk rest]
  | .frame wid samples => some (payloads junk s wid samples)
  | .metaFrame packet =>
      some (s.tcp_cli_head.flatMap fun client =>
        [.spectrumTo client.cli packet, .histoTo client.cli packet])
  | .spectrumTo cli packet =>
      some (if (s.client? cli).any TcpCli.spectrum then
        [.send cli (.spectrum ⟨-1, packet.timestamp, packet.frameno, junk.type⟩ packet.spectrum)]
      else [])
  | .histoTo cli packet =>
      some (if (s.client? cli).any TcpCli.histo then
        [.send cli (.histo ⟨-2, packet.timestamp, junk.frameno, junk.type⟩ packet.histo)]
      else [])
  | _ => some []

end Semantics

end Kukuruku.Server.ClientParser
