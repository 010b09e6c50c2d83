import Cronova.Remote.Sessions

/-! Workers as the store knows them beside the hub: a `Session` call copies the row of its
worker before it registers and writes the row afterwards, while the API drains and removes
workers in the store first and in the hub then. -/
namespace Cronova.Remote
open Cronova.Model Cronova.Concurrency

inductive WorkerState where
  | online | offline | lost
  deriving DecidableEq, Repr

/-- A row of `workers`. -/
structure WorkerRow where
  labels : Params := []
  state : WorkerState := .offline
  draining : Bool := false
  activeTasks : Int := 0
  lastHeartbeat : Option Time := none
  deriving DecidableEq, Repr

/-- A `Session` call between `GetWorker` and `UpsertWorker`: the row that it has read, and
its number at the hub once it is registered. -/
structure Start where
  hello : Hello
  row : WorkerRow
  call : Option Nat := none
  deriving DecidableEq, Repr

structure Members where
  hub : Hub
  rows : Registry String WorkerRow
  starts : List Start := []
  /-- `drainWorker` calls that have stored their flag. -/
  drains : List (String × Bool) := []
  /-- `removeWorker` calls that have deleted the row. -/
  removals : List String := []
  /-- The workers whose removal is complete. -/
  removed : List String := []

inductive MemberEvent where
  /-- A worker joins; its id is drawn at random. -/
  | joinWorker (workerID : String) (labels : Params)
  /-- A Hello comes in, and `GetWorker` finds the row. -/
  | getWorker (hello : Hello)
  | register (k : Nat) (now : Time)
  /-- The row is written, or that fails. -/
  | upsertWorker (k : Nat) (now : Time) (saved : Bool)
  | setWorkerDraining (workerID : String) (draining : Bool)
  | setDraining (k : Nat)
  | deleteWorker (workerID : String)
  | disconnect (k : Nat)
  | updateWorkerStatus (workerID : String) (state : WorkerState) (activeTasks : Int) (heartbeat : Option Time)
  /-- Anything else at the hub. -/
  | hub (e : HubEvent)
  deriving DecidableEq

namespace Members

/-- `UpsertWorker`: a row that is there keeps its draining flag. -/
def upsert (rows : Registry String WorkerRow) (workerID : String) (w : WorkerRow) : Registry String WorkerRow :=
  match rows.lookup workerID with
  | some old => rows.insert workerID { w with draining := old.draining }
  | none => rows.insert workerID w

/-- The hub events that do not stand for a part of another event, nor acknowledge a Hello
before its row is written. -/
def free (m : Members) : HubEvent → Bool
  | .connect .. | .setDraining .. | .disconnect .. => false
  | .acknowledge i _ => m.starts.all (fun s => s.call ≠ some i)
  | _ => true

def step (m : Members) : MemberEvent → Option Members
  | .joinWorker workerID labels =>
    if m.rows.lookup workerID = none ∧ workerID ∉ m.removals ∧ workerID ∉ m.removed then
      some { m with rows := upsert m.rows workerID { labels := labels } }
    else none
  | .getWorker hello =>
    match m.rows.lookup hello.workerID with
    | some row => some { m with starts := m.starts ++ [{ hello := hello, row := row }] }
    | none => none
  | .register k now =>
    match m.starts[k]? with
    | some { hello, row, call := none } =>
      some { m with
        hub := m.hub.greet hello row.draining now
        starts := m.starts.set k { hello := hello, row := row, call := some m.hub.calls.length } }
    | _ => none
  | .upsertWorker k now saved =>
    match m.starts[k]? with
    | some { hello, row, call := some i } =>
      if m.hub.stage? i = some (.adopting []) then
        let w := { row with labels := hello.labels, state := .online, lastHeartbeat := some now }
        some { m with
          rows := if saved then upsert m.rows hello.workerID w else m.rows
          starts := m.starts.eraseIdx k }
      else none
    | _ => none
  | .setWorkerDraining workerID draining =>
    match m.rows.lookup workerID with
    | some row =>
      some { m with
        rows := m.rows.insert workerID { row with draining := draining }
        drains := m.drains ++ [(workerID, draining)] }
    | none => none
  | .setDraining k =>
    match m.drains[k]? with
    | some (workerID, draining) =>
      some { m with hub := m.hub.setDraining workerID draining, drains := m.drains.eraseIdx k }
    | none => none
  | .deleteWorker workerID =>
    if (m.rows.lookup workerID).isSome then
      some { m with rows := m.rows.erase workerID, removals := m.removals ++ [workerID] }
    else none
  | .disconnect k =>
    match m.removals[k]? with
    | some workerID =>
      some { m with
        hub := m.hub.disconnect workerID
        removals := m.removals.eraseIdx k
        removed := workerID :: m.removed }
    | none => none
  | .updateWorkerStatus workerID state activeTasks heartbeat =>
    match m.rows.lookup workerID with
    | some row =>
      some { m with
        rows := m.rows.insert workerID
          { row with state := state, activeTasks := activeTasks, lastHeartbeat := heartbeat.or row.lastHeartbeat } }
    | none => none
  | .hub e => if m.free e then (m.hub.step e).map (fun h => { m with hub := h }) else none

/-- No call of the worker is between its store operation and its hub operation. -/
def Quiet (m : Members) (workerID : String) : Prop :=
  (∀ s ∈ m.starts, s.hello.workerID ≠ workerID) ∧ (∀ d ∈ m.drains, d.1 ≠ workerID) ∧ workerID ∉ m.removals

instance (m : Members) (workerID : String) : Decidable (m.Quiet workerID) := inferInstanceAs (Decidable (_ ∧ _ ∧ _))

/-- A hub that has just been made, beside the rows of the store. -/
def new (boot lostAfter bootGrace : Time) (rows : Registry String WorkerRow) : Members :=
  { hub := Hub.new boot lostAfter bootGrace, rows := rows }

end Members
end Cronova.Remote
