import Cronova.Concurrency.Machine
import Cronova.Remote.Worker

/-! The log of one attempt on its way to the hub within a session: the pump of the worker,
which reads the spool and sends it in chunks, the hub, which appends and acknowledges them,
and the worker's reader, which follows the acknowledgements. -/
namespace Cronova.Remote
open Cronova.Concurrency

/-- Where `pumpLogs` stands in its loop. -/
inductive PumpPhase where
  | top
  /-- It has looked whether the hub demanded a restart. -/
  | checked
  /-- It has read some bytes; `atEOF` says that there were no more. -/
  | holding (data : Bytes) (atEOF : Bool)
  /-- It has read nothing. -/
  | blank
  | returned
  deriving DecidableEq, Repr

structure Feed where
  ref : String
  /-- The hub's record. -/
  entry : RefState
  track : RefTrack
  /-- The worker has removed the files of the attempt and its track. -/
  collected : Bool := false
  spool : Bytes
  sendOff : Nat
  eofSent : Bool := false
  phase : PumpPhase := .top
  /-- From the worker to the hub. -/
  up : List LogChunk := []
  /-- From the hub to the worker. -/
  down : List LogAck := []
  deriving DecidableEq, Repr

inductive FeedEvent where
  /-- The task writes to its log. -/
  | log (data : Bytes)
  /-- `watchExit` has seen the end of the task. -/
  | mark (code : Int)
  /-- The pump looks whether it has to go back. -/
  | check
  | read
  /-- The pump sends what it has read. -/
  | offer
  /-- The pump, which has read nothing, goes to sleep, or is through. -/
  | settle
  /-- The hub handles the next chunk; the acknowledgement is queued when there is room. -/
  | chunk (disk : RefState.Disk) (room : Bool)
  /-- The worker reads the next acknowledgement. -/
  | acked
  deriving DecidableEq, Repr

namespace Feed

def check (f : Feed) : Feed :=
  if f.track.rewind then
    { f with sendOff := f.track.ackOff.toNat, eofSent := false, track := { f.track with rewind := false }, phase := .checked }
  else { f with phase := .checked }

def read (f : Feed) : Feed :=
  if f.collected then { f with phase := .top }
  else
    let data := (f.spool.drop f.sendOff).take chunkSize
    { f with phase := if data ≠ [] then .holding data (data.length < chunkSize) else .blank }

def offer (f : Feed) (data : Bytes) (atEOF : Bool) : Feed :=
  let eof := f.track.exited && atEOF
  { f with
    up := f.up ++ [{ ref := f.ref, offset := f.sendOff, data := data, eof := eof }]
    sendOff := f.sendOff + data.length, eofSent := eof, phase := .top }

def settle (f : Feed) : Feed :=
  if f.track.exited then
    if f.eofSent then { f with phase := .returned }
    else { f with up := f.up ++ [{ ref := f.ref, offset := f.sendOff, eof := true }], eofSent := true, phase := .returned }
  else { f with phase := .top }

def handleChunk (f : Feed) (c : LogChunk) (rest : List LogChunk) (disk : RefState.Disk) (room : Bool) : Feed :=
  let r := f.entry.onChunk c disk
  let sent :=
    match r.ack with
    | some (offset, rewind) => if room then [{ ref := f.ref, offset := offset, rewind := rewind }] else []
    | none => []
  { f with entry := r.state, up := rest, down := f.down ++ sent }

def handleAck (f : Feed) (ack : LogAck) (rest : List LogAck) : Feed :=
  if f.collected then { f with down := rest }
  else
    let tr := f.track.onAck ack
    { f with track := tr, collected := tr.collectable (some f.spool.length), down := rest }

def step (f : Feed) : FeedEvent → Option Feed
  | .log data => if f.track.exited = false then some { f with spool := f.spool ++ data } else none
  | .mark code =>
    if f.track.exited = false then some { f with track := { f.track with exited := true, exitCode := code } } else none
  | .check =>
    match f.phase with
    | .top => some f.check
    | _ => none
  | .read =>
    match f.phase with
    | .checked => some f.read
    | _ => none
  | .offer =>
    match f.phase with
    | .holding data atEOF => some (f.offer data atEOF)
    | _ => none
  | .settle =>
    match f.phase with
    | .blank => some f.settle
    | _ => none
  | .chunk disk room =>
    match f.up with
    | c :: rest => some (f.handleChunk c rest disk room)
    | [] => none
  | .acked =>
    match f.down with
    | ack :: rest => some (f.handleAck ack rest)
    | [] => none

end Feed

/-- A round of the pump with nothing in between sends what `Pump.chunk` says. -/
theorem Feed.round_chunk {f : Feed} (hflag : f.track.rewind = false) (hopen : f.collected = false)
    (hdata : (f.spool.drop f.sendOff).take chunkSize ≠ []) :
    ∃ data atEOF, f.check.read.phase = .holding data atEOF ∧
      (f.check.read.offer data atEOF).up = f.up ++ (Pump.chunk ⟨f.sendOff, f.eofSent⟩ f.ref f.spool f.track.exited).toList := by
  have hcheck : f.check = { f with phase := .checked } := by rw [Feed.check, hflag, if_neg (by decide)]
  have hread : f.check.read = { f with
      phase := .holding ((f.spool.drop f.sendOff).take chunkSize) (((f.spool.drop f.sendOff).take chunkSize).length < chunkSize) } := by
    rw [hcheck, Feed.read]
    dsimp only
    rw [hopen, if_neg (by decide), if_pos hdata]
  refine ⟨_, _, congrArg Feed.phase hread, ?_⟩
  rw [hread, Pump.chunk, if_pos hdata]
  rfl

/-- The record of a ref that the hub tracks: a log file is open only when it has a path. -/
def Entry := { rs : RefState // rs.logOpen = true → rs.logPath ≠ "" }

/-- A session begins: the pump starts from what the hub has confirmed. -/
def Feed.start (ref : String) (rs : Entry) (ackOff : Nat) (exited : Bool) (spool : Bytes) : Feed :=
  { ref := ref, entry := rs.val, track := { ackOff := ackOff, exited := exited }, spool := spool, sendOff := ackOff }

end Cronova.Remote
