import Cronova.Concurrency.Registry
import Cronova.Model.Types
import Cronova.Text.DateTmpl

/-! The scheduler's end of the worker protocol: the records of the hub and what
its functions do to them while they hold the lock. A function of the source
that gives the lock up in between is one definition for each of its sections. -/
namespace Cronova.Remote
open Cronova.Model Cronova.Text Cronova.Concurrency

/-- A task's coarse execution state as a probe reports it. -/
inductive Phase where
  | unknown | running | exited
  deriving DecidableEq, Repr

structure Status where
  phase : Phase
  exitCode : Int := 0
  deriving DecidableEq, Repr

/-- The phase a worker puts into a message. -/
inductive WirePhase where
  | unspecified | running | exited | unknown
  deriving DecidableEq, Repr

abbrev Bytes := List UInt8

/-- An attempt's transition, or the answer to a probe. -/
structure TaskEvent where
  ref : String
  phase : WirePhase := .unspecified
  exitCode : Int := 0
  launchError : String := ""
  output : Bytes := []
  deriving DecidableEq, Repr

structure LogChunk where
  ref : String
  offset : Int
  data : Bytes := []
  eof : Bool := false
  deriving DecidableEq, Repr

structure LogAck where
  ref : String
  offset : Int
  rewind : Bool := false
  deriving DecidableEq, Repr

structure Assign where
  ref : String
  type : String := ""
  command : String := ""
  env : Params := []
  timeoutSeconds : Int := 0
  redact : List String := []
  deriving DecidableEq, Repr

inductive ServerMessage where
  | assign (a : Assign)
  | cancel (ref : String)
  | probe (ref : String)
  | logAck (ack : LogAck)
  deriving DecidableEq, Repr

structure Hello where
  workerID : String
  labels : Params := []
  activeRefs : List String := []
  deriving DecidableEq, Repr

/-- How many messages wait for a session's writer at most. -/
def sendCapacity : Nat := 64

/-- A live stream. `closed` says whether its channel `done` was closed. -/
structure Session where
  workerID : String
  labels : Params := []
  draining : Bool := false
  /-- Hub-assigned refs currently on this worker. -/
  active : Int := 0
  send : List ServerMessage := []
  closed : Bool := false
  lastSeen : Time := 0
  deriving DecidableEq, Repr

namespace Session

/-- A send that does not block: a full queue drops the message. -/
def enqueue (s : Session) (m : ServerMessage) : Session :=
  if s.send.length < sendCapacity then { s with send := s.send ++ [m] } else s

def group (s : Session) : String :=
  let g := s.labels.get "group"
  if g ≠ "" then g else "default"

end Session

/-- What the hub keeps about one assigned attempt. -/
structure RefState where
  workerID : String
  /-- Scheduler-local file that log chunks append to. -/
  logPath : String := ""
  /-- Scheduler-local destination of the attempt's output. -/
  outputPath : String := ""
  logOpen : Bool := false
  /-- High-water byte offset written. -/
  logHW : Nat := 0
  phase : Phase := .running
  exitCode : Int := 0
  lost : Bool := false
  doneAt : Option Time := none
  deriving DecidableEq, Repr

namespace RefState

def closeLog (rs : RefState) : RefState := { rs with logOpen := false }

/-- The second section of `handleTaskEvent`, which records the transition. -/
def onEvent (rs : RefState) (ev : TaskEvent) (now : Time) : RefState :=
  let rs :=
    match ev.phase with
    | .unspecified => rs
    | .running => { rs with phase := .running }
    | .exited => { rs with phase := .exited, exitCode := ev.exitCode, doneAt := some now }.closeLog
    | .unknown => { rs with phase := .unknown, doneAt := some now }.closeLog
  if ev.launchError ≠ "" then { rs with phase := .exited, exitCode := 127, doneAt := some now }.closeLog else rs

/-- What the file system answers while a chunk is written: a write that fails
appends nothing. -/
structure Disk where
  opens : Bool := true
  writes : Bool := true
  deriving DecidableEq, Repr

/-- A chunk's effect: the record, the bytes that went to the log file, and the
acknowledgement with its rewind flag. -/
structure ChunkResult where
  state : RefState
  appended : Bytes := []
  ack : Option (Nat × Bool) := none
  deriving DecidableEq, Repr

def onChunk (rs : RefState) (c : LogChunk) (disk : Disk) : ChunkResult :=
  if c.offset < rs.logHW ∧ (c.data.length : Int) ≤ rs.logHW - c.offset then { state := rs, ack := some (rs.logHW, false) }
  else
    -- an overlap loses the prefix that is already written
    let data := if c.offset < rs.logHW then c.data.drop (rs.logHW - c.offset).toNat else c.data
    if (rs.logHW : Int) < c.offset then { state := rs, ack := some (rs.logHW, true) }
    else if rs.logOpen = false ∧ rs.logPath ≠ "" ∧ disk.opens = false then { state := rs }
    else
      let rs := if rs.logPath ≠ "" then { rs with logOpen := true } else rs
      let appended := if rs.logOpen = true ∧ disk.writes = true then data else []
      let rs := { rs with logHW := rs.logHW + appended.length }
      let rs := if c.eof then rs.closeLog else rs
      { state := rs, appended := appended, ack := some (rs.logHW, false) }

/-- What `Probe` reports of a tracked attempt. -/
def probe (rs : RefState) : Status := if rs.lost then ⟨.unknown, 0⟩ else ⟨rs.phase, rs.exitCode⟩

end RefState

/-- `executor.OutputPath` -/
def outputPath (logPath : String) (try' : Int) : String := logPath ++ ".out" ++ toString try' ++ ".json"

/-- A decimal number with an optional sign. -/
def signedAtoi (cs : List Char) : Option Int :=
  let digits := if cs.head? = some '-' ∨ cs.head? = some '+' then cs.tail else cs
  if digits = [] ∨ digits.all Char.isDigit = false then none
  else if cs.head? = some '-' then (DateTmpl.atoi digits).map (- ·) else DateTmpl.atoi digits

/-- Parses an attempt ref (`run_id/task_id/try`). -/
def splitRef (ref : String) : Option (String × String × Int) :=
  let cs := ref.toList
  match cs.idxOf? '/', cs.reverse.idxOf? '/' with
  | some i, some k =>
    let j := cs.length - 1 - k
    if i = 0 ∨ j ≤ i then none
    else
      (signedAtoi (cs.drop (j + 1))).map
        (fun n => (String.ofList (cs.take i), String.ofList ((cs.drop (i + 1)).take (j - i - 1)), n))
  | _, _ => none

/-- The record `adoptOrphans` rebuilds for a ref, from the rows of the run when
they could be read and from the size of the log file when there is one. -/
def adopted (workerID taskID ref : String) (try' : Int) (rows : Option (List TaskInstance))
    (fileSize : String → Option Nat) : RefState :=
  let logPath :=
    match (rows.getD []).find? (fun ti => ti.taskID = taskID ∧ ti.executorRef = ref) with
    | some ti => ti.logPath
    | none => ""
  if logPath = "" then { workerID := workerID }
  else
    { workerID := workerID, logPath := logPath, outputPath := outputPath logPath try',
      logHW := (fileSize logPath).getD 0 }

/-- Where the goroutine of a `Session` call stands. -/
inductive Stage where
  /-- The session is registered; the orphans that remain are adopted one by one,
  then the Hello is acknowledged. -/
  | adopting (orphans : List String)
  /-- In the reader loop. -/
  | reading
  /-- Between the two sections of `handleTaskEvent`, with the record it found. -/
  | applying (entry : Nat) (ev : TaskEvent)
  /-- The stream has ended; the session is about to be dropped. -/
  | leaving
  /-- Waiting for the writer. -/
  | waiting
  | returned
  deriving DecidableEq, Repr

/-- The writer goroutine of a call: not started, running, or gone after its
delivery on `sendErr`. -/
inductive Writer where
  | off | running | delivered
  deriving DecidableEq, Repr

structure Call where
  session : Session
  stage : Stage
  writer : Writer := .off
  deriving DecidableEq, Repr

/-- The hub. Sessions and attempt records live at addresses, so that a goroutine
may hold one that the maps have forgotten. -/
structure Hub where
  boot : Time := 0
  lostAfter : Time
  bootGrace : Time
  /-- Worker id to live stream. -/
  sessions : Registry String Nat := ∅
  /-- Attempt ref to assignment. -/
  refs : Registry String Nat := ∅
  calls : List Call := []
  heap : List RefState := []
  /-- The stale and the candidate workers of a sweep between its two sections. -/
  sweeping : Option (List String × List String) := none
  /-- A channel was closed twice. -/
  panicked : Bool := false

namespace Hub

def onCall (h : Hub) (i : Nat) (f : Call → Call) : Hub := { h with calls := h.calls.modify i f }

def onSession (h : Hub) (i : Nat) (f : Session → Session) : Hub :=
  h.onCall i (fun c => { c with session := f c.session })

def onEntry (h : Hub) (e : Nat) (f : RefState → RefState) : Hub := { h with heap := h.heap.modify e f }

/-- `close(s.done)` -/
def closeDone (h : Hub) (i : Nat) : Hub :=
  { h.onSession i (fun s => { s with closed := true }) with
    panicked := h.panicked || (h.calls[i]?.any (·.session.closed)) }

section Frame
variable (h : Hub) (i e : Nat) (f : Call → Call) (g : Session → Session) (k : RefState → RefState)

@[simp] theorem onCall_calls : (h.onCall i f).calls = h.calls.modify i f := rfl
@[simp] theorem onCall_sessions : (h.onCall i f).sessions = h.sessions := rfl
@[simp] theorem onCall_refs : (h.onCall i f).refs = h.refs := rfl
@[simp] theorem onCall_heap : (h.onCall i f).heap = h.heap := rfl
@[simp] theorem onCall_panicked : (h.onCall i f).panicked = h.panicked := rfl
@[simp] theorem onSession_calls :
    (h.onSession i g).calls = h.calls.modify i (fun c => { c with session := g c.session }) := rfl
@[simp] theorem onSession_sessions : (h.onSession i g).sessions = h.sessions := rfl
@[simp] theorem onSession_refs : (h.onSession i g).refs = h.refs := rfl
@[simp] theorem onSession_heap : (h.onSession i g).heap = h.heap := rfl
@[simp] theorem onSession_panicked : (h.onSession i g).panicked = h.panicked := rfl
@[simp] theorem onEntry_calls : (h.onEntry e k).calls = h.calls := rfl
@[simp] theorem onEntry_sessions : (h.onEntry e k).sessions = h.sessions := rfl
@[simp] theorem onEntry_refs : (h.onEntry e k).refs = h.refs := rfl
@[simp] theorem onEntry_heap : (h.onEntry e k).heap = h.heap.modify e k := rfl
@[simp] theorem onEntry_panicked : (h.onEntry e k).panicked = h.panicked := rfl
@[simp] theorem closeDone_calls : (h.closeDone i).calls =
    h.calls.modify i (fun c => { c with session := { c.session with closed := true } }) := rfl
@[simp] theorem closeDone_sessions : (h.closeDone i).sessions = h.sessions := rfl
@[simp] theorem closeDone_refs : (h.closeDone i).refs = h.refs := rfl
@[simp] theorem closeDone_heap : (h.closeDone i).heap = h.heap := rfl

end Frame

def running (h : Hub) (workerID : String) (e : Nat) : Bool :=
  h.heap[e]?.any (fun rs => rs.workerID = workerID ∧ rs.phase = .running)

/-- One round of the loop over the refs in `Session`. -/
def readopt (workerID : String) (known : List String) (acc : List RefState × Session) (ref : String) (e : Nat) :
    List RefState × Session :=
  match acc.1[e]? with
  | some rs =>
    if rs.workerID = workerID ∧ rs.phase = .running then
      let s := { acc.2 with active := acc.2.active + 1 }
      (acc.1.modify e (fun rs => { rs with lost := false }), if known.contains ref then s else s.enqueue (.probe ref))
    else acc
  | none => acc

/-- A reconnect replaces the previous stream. -/
def closeOld (h : Hub) (workerID : String) : Hub :=
  match h.sessions.lookup workerID with
  | some old => h.closeDone old
  | none => h

/-- The first section of `Session` after an accepted Hello. -/
def greet (h : Hub) (hello : Hello) (draining : Bool) (now : Time) : Hub :=
  let i := h.calls.length
  let h := h.closeOld hello.workerID
  let orphans := hello.activeRefs.filter (fun ref => (h.refs.lookup ref).isNone)
  let fresh : Session := { workerID := hello.workerID, labels := hello.labels, draining := draining, lastSeen := now }
  let acc := h.refs.entries.foldl (fun acc e => readopt hello.workerID hello.activeRefs acc e.1 e.2) (h.heap, fresh)
  { h with sessions := h.sessions.insert hello.workerID i, heap := acc.1,
           calls := h.calls ++ [{ session := acc.2, stage := .adopting orphans }] }

/-- `h.refs[ref] = rs` with a record of its own. -/
def track (h : Hub) (ref : String) (rs : RefState) : Hub :=
  { h with refs := h.refs.insert ref h.heap.length, heap := h.heap ++ [rs] }

def onWorker (h : Hub) (workerID : String) (f : Session → Session) : Hub :=
  match h.sessions.lookup workerID with
  | some i => h.onSession i f
  | none => h

/-- The locked section of `adoptOrphans` for one ref that parses. -/
def adoptOrphan (h : Hub) (ref : String) (rs : RefState) : Hub :=
  if (h.refs.lookup ref).isSome then h
  else (h.track ref rs).onWorker rs.workerID (fun s => { s with active := s.active + 1 })

def dropSession (h : Hub) (i : Nat) : Hub :=
  match h.calls[i]? with
  | some c =>
    if h.sessions.lookup c.session.workerID = some i then
      { h with sessions := h.sessions.erase c.session.workerID }.closeDone i
    else h
  | none => h

def disconnect (h : Hub) (workerID : String) : Hub :=
  match h.sessions.lookup workerID with
  | some i => { h.closeDone i with sessions := h.sessions.erase workerID }
  | none => h

def setDraining (h : Hub) (workerID : String) (draining : Bool) : Hub :=
  h.onWorker workerID (fun s => { s with draining := draining })

def silent (h : Hub) (now : Time) (i : Nat) : Bool :=
  h.calls[i]?.any (fun c => h.lostAfter < now - c.session.lastSeen)

/-- A terminal record past its grace. -/
def expired (h : Hub) (now : Time) (e : Nat) : Bool :=
  h.heap[e]?.any (fun rs => rs.phase ≠ .running ∧ rs.doneAt.any (fun t => 30 * 60 * second < now - t))

/-- Streams that are up but silent are treated as dead. -/
def closeStale (h : Hub) (now : Time) : Hub :=
  (h.sessions.entries.filter (fun e => h.silent now e.2)).foldl (fun h e => h.closeDone e.2)
    { h with sessions := Registry.keep h.sessions (fun _ i => !h.silent now i) }

/-- Terminal refs go after a generous grace. -/
def collect (h : Hub) (now : Time) : Hub :=
  (h.refs.entries.filter (fun e => h.expired now e.2)).foldl (fun h e => h.onEntry e.2 RefState.closeLog)
    { h with refs := Registry.keep h.refs (fun _ e => !h.expired now e) }

/-- Workers without a session that still have a running ref. -/
def candidates (h : Hub) : List String :=
  h.refs.entries.filterMap (fun e =>
    h.heap[e.2]?.bind (fun rs =>
      if rs.phase = .running ∧ rs.lost = false ∧ (h.sessions.lookup rs.workerID).isNone then some rs.workerID else none))

/-- The first section of `sweep`. -/
def sweep (h : Hub) (now : Time) : Hub :=
  let stale := (h.sessions.entries.filter (fun e => h.silent now e.2)).map (·.1)
  let h := (h.closeStale now).collect now
  { h with sweeping := some (stale, h.candidates) }

/-- A running attempt of a silent worker without a session is lost. -/
def release (h : Hub) (silent : List String) (rs : RefState) : RefState :=
  if rs.phase = .running ∧ rs.lost = false ∧ silent.contains rs.workerID ∧ (h.sessions.lookup rs.workerID).isNone
  then { rs with lost := true } else rs

def releaseAll (h : Hub) (silent : List String) : Hub :=
  h.refs.entries.foldl (fun h' e => h'.onEntry e.2 (h.release silent)) h

/-- The second section of `sweep`: the candidates that were silent for too long
lose their attempts, unless they came back meanwhile. -/
def markLost (h : Hub) (silentTooLong : List String) : Hub :=
  match h.sweeping with
  | some (stale, candidates) =>
    { h.releaseAll (candidates.filter (fun w => stale.contains w || silentTooLong.contains w)) with sweeping := none }
  | none => h

/-- The first section of `handleTaskEvent`: the record of the event's ref, when
the worker owns it. -/
def findEntry (h : Hub) (workerID ref : String) : Option Nat :=
  (h.refs.lookup ref).filter (fun e => h.heap[e]?.any (fun rs => rs.workerID = workerID))

/-- The second section of `handleTaskEvent`. -/
def recordEvent (h : Hub) (workerID : String) (e : Nat) (ev : TaskEvent) (now : Time) : Hub :=
  let h' :=
    if ev.phase = .exited ∧ h.heap[e]?.any (fun rs => rs.phase ≠ .exited) then
      h.onWorker workerID (fun s => if 0 < s.active then { s with active := s.active - 1 } else s)
    else h
  h'.onEntry e (fun rs => rs.onEvent ev now)

/-- `handleLogChunk` for the session of call `i`. -/
def handleLogChunk (h : Hub) (i : Nat) (c : LogChunk) (disk : RefState.Disk) : Hub :=
  match h.calls[i]?, h.refs.lookup c.ref with
  | some call, some e =>
    match h.heap[e]? with
    | some rs =>
      if rs.workerID = call.session.workerID then
        let r := rs.onChunk c disk
        let h := h.onEntry e (fun _ => r.state)
        match r.ack with
        | some (offset, rewind) => h.onSession i (fun s => s.enqueue (.logAck ⟨c.ref, offset, rewind⟩))
        | none => h
      else h
    | none => h
  | _, _ => h

/-- The part of `executor.Spec` that the hub uses. -/
structure Spec where
  assign : Assign
  logPath : String
  deriving DecidableEq, Repr

inductive LaunchResult where
  | launched | noWorker | queueFull
  deriving DecidableEq, Repr

/-- One round of the loop over the sessions in `Launch`. -/
def better (h : Hub) (group : String) (best : Option Nat) (i : Nat) : Option Nat :=
  match h.calls[i]? with
  | some c =>
    if c.session.group ≠ group ∨ c.session.draining then best
    else
      match best.bind (h.calls[·]?) with
      | some b => if c.session.active < b.session.active then some i else best
      | none => some i
  | none => best

/-- The first least-loaded live worker of the group. -/
def best (h : Hub) (group : String) : Option Nat :=
  h.sessions.entries.foldl (fun best e => h.better group best e.2) none

/-- The ref has an entry that a launch leaves alone. -/
def owned (h : Hub) (ref : String) : Bool :=
  ((h.refs.lookup ref).bind (h.heap[·]?)).any (fun rs => rs.lost = false ∧ rs.phase ≠ .unknown)

/-- The entry of an assigned attempt. -/
def Spec.entry (spec : Spec) (workerID : String) : RefState :=
  { workerID := workerID, logPath := spec.logPath, outputPath := spec.assign.env.get "CRONOVA_OUTPUT" }

/-- The session that the attempt is assigned to. -/
def Spec.push (spec : Spec) (s : Session) : Session :=
  { s with active := s.active + 1, send := s.send ++ [.assign spec.assign] }

def launch (h : Hub) (group : String) (spec : Spec) : LaunchResult × Hub :=
  if h.owned spec.assign.ref then (.launched, h)
  else
    match (h.best group).bind (fun i => h.calls[i]?.map (i, ·)) with
    | none => (.noWorker, h)
    | some (i, c) =>
      let h := h.track spec.assign.ref (spec.entry c.session.workerID)
      if c.session.send.length < sendCapacity then (.launched, h.onSession i spec.push)
      else
        -- a jammed queue takes the entry back, and with it the one it has replaced
        (.queueFull, { h with refs := h.refs.erase spec.assign.ref })

/-- `Probe` of the group executor. -/
def probe (h : Hub) (ref : String) (now : Time) : Status :=
  match (h.refs.lookup ref).bind (h.heap[·]?) with
  | some rs => rs.probe
  | none => if now - h.boot < h.bootGrace then ⟨.running, 0⟩ else ⟨.unknown, 0⟩

/-- `Cancel` of the group executor. -/
def cancel (h : Hub) (ref : String) : Hub :=
  match (h.refs.lookup ref).bind (h.heap[·]?) with
  | some rs => h.onWorker rs.workerID (fun s => s.enqueue (.cancel ref))
  | none => h

def forget (h : Hub) (ref : String) : Hub :=
  match h.refs.lookup ref with
  | some e =>
    if h.heap[e]?.any (fun rs => rs.phase ≠ .running) then
      { h.onEntry e RefState.closeLog with refs := h.refs.erase ref }
    else h
  | none => h

end Hub
end Cronova.Remote
