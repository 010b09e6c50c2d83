import Cronova.Concurrency.Machine
import Cronova.Remote.Hub

/-! The hub as a machine: what its goroutines do one locked section or one
stream operation at a time, in any order. -/
namespace Cronova.Remote
open Cronova.Model Cronova.Concurrency

/-- What happens at the hub. The number is that of the `Session` call whose
reader or writer acts. -/
inductive HubEvent where
  /-- A Hello is accepted. -/
  | connect (hello : Hello) (draining : Bool) (now : Time)
  /-- The next orphan is adopted, with the rows of its run and the sizes of the log files. -/
  | adopt (i : Nat) (rows : Option (List TaskInstance)) (sizes : List (String × Nat))
  /-- The Hello is acknowledged, or that fails. -/
  | acknowledge (i : Nat) (sent : Bool)
  | heartbeat (i : Nat) (now : Time)
  | taskEvent (i : Nat) (ev : TaskEvent) (now : Time)
  | record (i : Nat) (now : Time)
  | logChunk (i : Nat) (c : LogChunk) (disk : RefState.Disk) (now : Time)
  /-- The stream ends. -/
  | hangUp (i : Nat)
  | drop (i : Nat)
  | finish (i : Nat)
  /-- The writer sends a message, or that fails. -/
  | write (i : Nat) (sent : Bool)
  | writerDone (i : Nat)
  | sweep (now : Time)
  | markLost (silentTooLong : List String)
  | disconnect (workerID : String)
  | setDraining (workerID : String) (draining : Bool)
  | launch (group : String) (spec : Hub.Spec)
  | cancel (ref : String)
  | forget (ref : String)
  /-- The next loops visit the maps in another order. -/
  | reorder (sessions refs : Registry String Nat)
  deriving DecidableEq

/-- The call whose reader or writer acts. -/
def HubEvent.actor : HubEvent → Option Nat
  | .adopt i _ _ | .acknowledge i _ | .heartbeat i _ | .taskEvent i _ _ | .record i _ | .logChunk i _ _ _ | .hangUp i
  | .drop i | .finish i | .write i _ | .writerDone i => some i
  | .connect _ _ _ | .sweep _ | .markLost _ | .disconnect _ | .setDraining _ _ | .launch _ _ | .cancel _ | .forget _
  | .reorder _ _ => none

/-- The steps of a call's own goroutine after its stream has ended. -/
def HubEvent.byReader (i : Nat) (e : HubEvent) : Prop := e = .drop i ∨ e = .finish i

/-- The steps of a call's writer. -/
def HubEvent.byWriter (i : Nat) (e : HubEvent) : Prop := (∃ sent, e = .write i sent) ∨ e = .writerDone i

namespace Hub

def stage? (h : Hub) (i : Nat) : Option Stage := h.calls[i]?.map (·.stage)

def writer? (h : Hub) (i : Nat) : Option Writer := h.calls[i]?.map (·.writer)

def session? (h : Hub) (i : Nat) : Option Session := h.calls[i]?.map (·.session)

def goto (h : Hub) (i : Nat) (stage : Stage) : Hub := h.onCall i (fun c => { c with stage := stage })

def touch (h : Hub) (i : Nat) (now : Time) : Hub := h.onSession i (fun s => { s with lastSeen := now })

/-- One round of `adoptOrphans`. A ref that does not parse is passed over. -/
def adoptRef (h : Hub) (workerID ref : String) (listing : String → Option (List TaskInstance))
    (sizes : List (String × Nat)) : Hub :=
  match splitRef ref with
  | some (runID, taskID, try') =>
    h.adoptOrphan ref (adopted workerID taskID ref try' (listing runID) (fun path => sizes.lookup path))
  | none => h

/-- The next orphan of a call. -/
def adoptNext (h : Hub) (i : Nat) (rows : Option (List TaskInstance)) (sizes : List (String × Nat)) : Option Hub :=
  match h.stage? i, h.session? i with
  | some (.adopting (ref :: rest)), some s => some ((h.goto i (.adopting rest)).adoptRef s.workerID ref (fun _ => rows) sizes)
  | _, _ => none

/-- `Session` up to the acknowledgement of the Hello, when nobody else acts meanwhile. -/
def processHello (h : Hub) (hello : Hello) (draining : Bool) (now : Time) (listing : String → Option (List TaskInstance))
    (sizes : List (String × Nat)) : Hub :=
  let orphans := hello.activeRefs.filter (fun ref => (h.refs.lookup ref).isNone)
  orphans.foldl (fun h ref => h.adoptRef hello.workerID ref listing sizes) (h.greet hello draining now)

def receiveEvent (h : Hub) (i : Nat) (ev : TaskEvent) (now : Time) : Option Hub :=
  match h.stage? i, h.session? i with
  | some .reading, some s =>
    match h.findEntry s.workerID ev.ref with
    | some e => some ((h.touch i now).goto i (.applying e ev))
    | none => some (h.touch i now)
  | _, _ => none

/-- The second section of `handleTaskEvent`, for the event that the reader holds. -/
def recordNext (h : Hub) (i : Nat) (now : Time) : Option Hub :=
  match h.stage? i, h.session? i with
  | some (.applying e ev), some s => some ((h.recordEvent s.workerID e ev now).goto i .reading)
  | _, _ => none

def write (h : Hub) (i : Nat) (sent : Bool) : Option Hub :=
  match h.writer? i, h.session? i with
  | some .running, some s =>
    match s.send with
    | _ :: rest =>
      some (h.onCall i (fun c =>
        { c with session := { c.session with send := rest }, writer := if sent then .running else .delivered }))
    | [] => none
  | _, _ => none

def writerDone (h : Hub) (i : Nat) : Option Hub :=
  match h.writer? i, h.session? i with
  | some .running, some s => if s.closed then some (h.onCall i (fun c => { c with writer := .delivered })) else none
  | _, _ => none

/-- What follows `dropSession`: the call waits for its writer when it has one. -/
def afterDrop (w : Option Writer) : Stage := if w = some .off then .returned else .waiting

def step (h : Hub) : HubEvent → Option Hub
  | .connect hello draining now => some (h.greet hello draining now)
  | .adopt i rows sizes => h.adoptNext i rows sizes
  | .acknowledge i sent =>
    if h.stage? i ≠ some (.adopting []) then none
    else if sent then some (h.onCall i (fun c => { c with stage := .reading, writer := .running }))
    else some (h.goto i .leaving)
  | .heartbeat i now => if h.stage? i = some .reading then some (h.touch i now) else none
  | .taskEvent i ev now => h.receiveEvent i ev now
  | .record i now => h.recordNext i now
  | .logChunk i c disk now =>
    if h.stage? i = some .reading then some ((h.touch i now).handleLogChunk i c disk) else none
  | .hangUp i => if h.stage? i = some .reading then some (h.goto i .leaving) else none
  | .drop i =>
    if h.stage? i = some .leaving then some ((h.dropSession i).goto i (afterDrop (h.writer? i))) else none
  | .finish i =>
    if h.stage? i = some .waiting ∧ h.writer? i = some .delivered then some (h.goto i .returned) else none
  | .write i sent => h.write i sent
  | .writerDone i => h.writerDone i
  | .sweep now => if h.sweeping.isNone then some (h.sweep now) else none
  | .markLost silentTooLong => if h.sweeping.isSome then some (h.markLost silentTooLong) else none
  | .disconnect workerID => some (h.disconnect workerID)
  | .setDraining workerID draining => some (h.setDraining workerID draining)
  | .launch group spec => some (h.launch group spec).2
  | .cancel ref => some (h.cancel ref)
  | .forget ref => some (h.forget ref)
  | .reorder sessions refs =>
    if sessions.entries.Perm h.sessions.entries ∧ refs.entries.Perm h.refs.entries then
      some { h with sessions := sessions, refs := refs }
    else none

/-- A hub that has just been made. -/
def new (boot lostAfter bootGrace : Time) : Hub := { boot := boot, lostAfter := lostAfter, bootGrace := bootGrace }

end Hub
end Cronova.Remote
