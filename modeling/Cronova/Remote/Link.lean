import Cronova.Concurrency.Machine
import Cronova.Remote.Worker

/-! One attempt between its worker and the hub as a machine: the process, the
goroutines of the worker, the streams, and the handlers of the hub. Every
stream is there from the worker's Hello on; messages on it keep their order. -/
namespace Cronova.Remote
open Cronova.Model Cronova.Concurrency

/-- Where `handleTaskEvent` stands. -/
inductive Handling where
  | found (ev : TaskEvent)
  /-- The output file was opened, and what it held is gone. -/
  | truncated (ev : TaskEvent)
  /-- The output has been seen to. -/
  | stored (ev : TaskEvent)
  deriving DecidableEq, Repr

def Handling.event : Handling → TaskEvent
  | found ev | truncated ev | stored ev => ev

/-- A stream, as far as the attempt is concerned. The last one is the worker's
current stream. -/
structure Wire where
  /-- Whether the Hello lists the attempt. -/
  listed : Bool
  /-- The hub has processed the Hello. -/
  greeted : Bool := false
  /-- From the hub to the worker. -/
  down : List ServerMessage := []
  /-- From the worker to the hub. -/
  up : List TaskEvent := []
  handling : Option Handling := none
  deriving DecidableEq, Repr

structure Link where
  ref : String
  /-- The Assign has not been read from the first stream. -/
  assigned : Bool := false
  record : Record := .absent
  /-- Every byte that was written to the spool. -/
  spool : Bytes := []
  /-- The spool file is there. -/
  spooled : Bool := false
  /-- What the task has left as its output. -/
  wrote : Bytes := []
  outFile : Option Bytes := none
  track : Option RefTrack := none
  watch : Watch := .off
  reader : Reader := .idle
  wires : List Wire
  entry : RefState
  /-- The bytes that the hub has appended to the log file for the ref. -/
  appended : Bytes := []
  /-- The scheduler-local output file. -/
  output : Option Bytes := none
  deriving DecidableEq, Repr

inductive LinkEvent where
  /-- The worker reads the Assign. The launch fails with a text, or not; `head` is
  what it writes to the spool, when that could be opened. -/
  | assign (failed : Option String) (head : Bytes) (opened : Bool)
  /-- The task writes to its log. -/
  | log (data : Bytes)
  /-- The task leaves an output. -/
  | emit (data : Bytes)
  | finish (code : Int)
  /-- The runner evicts the record. -/
  | evict
  | poll
  | mark
  | readOut (readable : Bool)
  /-- `sendReliable` gets the report on the current stream, or gives up. -/
  | report (sent : Bool)
  /-- The worker reads a Probe. -/
  | probed
  | lookUp
  | readAnswer (readable : Bool)
  | reply (sent : Bool)
  /-- The worker reads a LogAck. -/
  | acked
  | reconnect
  /-- An old stream loses what comes after `n` messages. -/
  | cut (k n : Nat)
  /-- The hub processes a Hello; the probe is queued when there is room. -/
  | hello (k : Nat) (room : Bool)
  | receive (k : Nat)
  /-- The output file of the event is opened for writing, or that fails. -/
  | openOutput (k : Nat) (opened : Bool)
  /-- The output is written, or the first `n` bytes of it. -/
  | storeOutput (k n : Nat)
  | record (k : Nat) (now : Time)
  /-- The hub receives a chunk; the acknowledgement is queued when there is room. -/
  | chunk (k : Nat) (c : LogChunk) (disk : RefState.Disk) (room : Bool)
  | markLost
  deriving DecidableEq

namespace Link

def onWire (l : Link) (k : Nat) (f : Wire → Wire) : Link := { l with wires := l.wires.modify k f }

/-- The position of the current stream. -/
def current (l : Link) : Nat := l.wires.length - 1

/-- A message goes to the current stream, or is lost. -/
def push (l : Link) (ev : TaskEvent) (sent : Bool) : Link :=
  if sent then l.onWire l.current (fun w => { w with up := w.up ++ [ev] }) else l

/-- What the worker reads next. -/
def incoming (l : Link) : Option ServerMessage := l.wires[l.current]?.bind (·.down.head?)

/-- The worker has read a message. -/
def took (l : Link) : Link := l.onWire l.current (fun w => { w with down := w.down.tail })

/-- `handleAssign` up to its report. -/
def handleAssign (l : Link) (failed : Option String) (head : Bytes) (opened : Bool) : Link :=
  if l.track.isSome then { l with assigned := false }
  else
    match failed with
    | none =>
      { l with assigned := false, track := some {}, record := .running, spool := head, spooled := true, watch := .polling }
    | some err =>
      { l with assigned := false, track := some {}, record := .refused, spool := head, spooled := opened,
               reader := .replying (refusal l.ref err) }

/-- `answerProbe` up to its first read of the track. -/
def answerProbe (l : Link) : Link :=
  match l.record.probe with
  | ⟨.running, _⟩ => { l with reader := .replying { ref := l.ref, phase := .running } }
  | ⟨.exited, c⟩ => { l with reader := .asked c }
  | ⟨.unknown, _⟩ => { l with reader := .replying { ref := l.ref, phase := .unknown } }

def handleAck (l : Link) (ack : LogAck) : Link :=
  match l.track with
  | some tr =>
    let tr := tr.onAck ack
    if tr.collectable (if l.spooled then some l.spool.length else none) then
      { l with track := none, spooled := false, outFile := none }
    else { l with track := some tr }
  | none => l

/-- The part of `Session` that concerns the ref: it is not lost any more, and it
is probed when the Hello does not list it. -/
def greet (l : Link) (k : Nat) (w : Wire) (room : Bool) : Link :=
  let asks := l.entry.phase = .running ∧ w.listed = false ∧ room = true
  { l.onWire k (fun w =>
      { w with greeted := true, down := if asks then w.down ++ [.probe l.ref] else w.down }) with
    entry := if l.entry.phase = .running then { l.entry with lost := false } else l.entry }

def handleChunk (l : Link) (k : Nat) (c : LogChunk) (disk : RefState.Disk) (room : Bool) : Link :=
  let r := l.entry.onChunk c disk
  let l := { l with entry := r.state, appended := l.appended ++ r.appended }
  match r.ack with
  | some (offset, rewind) =>
    if room then l.onWire k (fun w => { w with down := w.down ++ [.logAck ⟨l.ref, offset, rewind⟩] }) else l
  | none => l

/-- What a file holds after bytes were written at its beginning. -/
def overwrite (data old : Bytes) : Bytes := data ++ old.drop data.length

def step (l : Link) : LinkEvent → Option Link
  | .assign failed head opened =>
    if l.assigned = true ∧ l.wires.length = 1 ∧ l.reader = .idle ∧ failed ≠ some "" then
      some (l.handleAssign failed head opened)
    else none
  | .log data => if l.record = .running then some { l with spool := l.spool ++ data } else none
  | .emit data => if l.record = .running then some { l with wrote := data, outFile := some data } else none
  | .finish code => if l.record = .running then some { l with record := .finished code } else none
  | .evict =>
    match l.record with
    | .finished code => some { l with record := .swept code }
    | _ => none
  | .poll =>
    match l.watch with
    | .polling => if l.record = .running then some l else some { l with watch := .seen l.record.probe }
    | _ => none
  | .mark =>
    match l.watch with
    | .seen st =>
      some { l with track := l.track.map (fun tr => { tr with exited := true, exitCode := st.exitCode }),
                    watch := .marked st l.track.isSome }
    | _ => none
  | .readOut readable =>
    match l.watch with
    | .marked st tracked =>
      some { l with watch := .ready (exitEvent l.ref st (if tracked then reported l.outFile readable else [])) }
    | _ => none
  | .report sent =>
    match l.watch with
    | .ready ev => some ({ l with watch := .done }.push ev sent)
    | _ => none
  | .probed =>
    match l.reader, l.incoming with
    | .idle, some (.probe _) => some l.took.answerProbe
    | _, _ => none
  | .lookUp =>
    match l.reader with
    | .asked code => some { l with reader := .lookedUp code l.track.isSome }
    | _ => none
  | .readAnswer readable =>
    match l.reader with
    | .lookedUp code tracked =>
      some { l with
        reader := .replying (exitEvent l.ref ⟨.exited, code⟩ (if tracked then reported l.outFile readable else [])) }
    | _ => none
  | .reply sent =>
    match l.reader with
    | .replying ev => some ({ l with reader := .idle }.push ev sent)
    | _ => none
  | .acked =>
    match l.reader, l.incoming with
    | .idle, some (.logAck ack) => some (l.took.handleAck ack)
    | _, _ => none
  | .reconnect =>
    if l.reader = .idle then some { l with wires := l.wires ++ [{ listed := l.record.active }] } else none
  | .cut k n => if k < l.current then some (l.onWire k (fun w => { w with up := w.up.take n })) else none
  | .hello k room =>
    match l.wires[k]? with
    | some w => if w.greeted = false then some (l.greet k w room) else none
    | none => none
  | .receive k =>
    match l.wires[k]? with
    | some { greeted := true, up := ev :: rest, handling := none, .. } =>
      some (l.onWire k (fun w => { w with up := rest, handling := some (.found ev) }))
    | _ => none
  | .openOutput k opened =>
    match l.wires[k]?.bind (·.handling) with
    | some (.found ev) =>
      if ev.output = [] ∨ l.entry.outputPath = "" ∨ opened = false then
        some (l.onWire k (fun w => { w with handling := some (.stored ev) }))
      else some { l.onWire k (fun w => { w with handling := some (.truncated ev) }) with output := some [] }
    | _ => none
  | .storeOutput k n =>
    match l.wires[k]?.bind (·.handling) with
    | some (.truncated ev) =>
      some { l.onWire k (fun w => { w with handling := some (.stored ev) }) with
        output := some (overwrite (ev.output.take n) (l.output.getD [])) }
    | _ => none
  | .record k now =>
    match l.wires[k]?.bind (·.handling) with
    | some (.stored ev) =>
      some { l.onWire k (fun w => { w with handling := none }) with entry := l.entry.onEvent ev now }
    | _ => none
  | .chunk k c disk room =>
    match l.wires[k]? with
    | some w =>
      if w.greeted = true ∧ w.handling = none ∧ c.ref = l.ref ∧ c.SliceOf l.spool then
        some (l.handleChunk k c disk room)
      else none
    | none => none
  | .markLost => if l.entry.phase = .running then some { l with entry := { l.entry with lost := true } } else none

/-- The hub has assigned the attempt to a worker. -/
def launched (spec : Hub.Spec) (workerID : String) : Link :=
  { ref := spec.assign.ref, assigned := true, wires := [{ listed := false, greeted := true }], entry := spec.entry workerID }

/-- The hub has adopted a running attempt from a Hello. -/
def adopted (ref : String) (entry : RefState) (tr : RefTrack) (spool : Bytes) (outFile : Option Bytes) : Link :=
  { ref := ref, record := .running, spool := spool, spooled := true, wrote := outFile.getD [], outFile := outFile,
    track := some tr, watch := .polling, wires := [{ listed := true, greeted := true }], entry := entry }

end Link
end Cronova.Remote
