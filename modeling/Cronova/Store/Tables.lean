import Cronova.Relational.Table
import Cronova.Model.Types
import Cronova.Text.Strings
import Mathlib.Data.List.Sort

/-! The metadata database: its tables with their uniqueness constraints, the
queries the scheduler reads and the statements it writes with. Every statement
is one transaction. -/
namespace Cronova.Store
open Cronova.Model Cronova.Relational Cronova.Text

/-- Errors a caller can tell apart. `failed` is any other failure of a store
operation; it leaves the database as it was. -/
inductive Err where
  | notFound | alreadyExists | queueFull | illegalRunTransition | runNotActive | nothingToRetry | runStillActive
  | badMarkState | noTasks | noSchedule | badWindow | badDefinition | activeRuns | dagConflict | failed
  deriving DecidableEq, Repr

/-- A registered definition. Archiving keeps the row and sets `deleted`. -/
structure DagRow where
  dagID : String
  definitionYAML : String := ""
  deleted : Bool := false
  paused : Bool := false
  deriving DecidableEq, Repr

/-- Identity columns of a run: its primary key and its period. -/
def runKey (r : DagRun) : String × String × Time := (r.runID, r.dagID, r.logicalDate)

/-- `PRIMARY KEY (run_id)` and `UNIQUE (dag_id, logical_date)`. -/
def runClash (a b : String × String × Time) : Prop := a.1 = b.1 ∨ a.2 = b.2

instance : DecidableRel runClash := fun a b => inferInstanceAs (Decidable (a.1 = b.1 ∨ a.2 = b.2))

def taskKey (ti : TaskInstance) : Nat × String × String := (ti.id, ti.runID, ti.taskID)

/-- `PRIMARY KEY (id)` and `UNIQUE (run_id, task_id)`. -/
def taskClash (a b : Nat × String × String) : Prop := a.1 = b.1 ∨ a.2 = b.2

instance : DecidableRel taskClash := fun a b => inferInstanceAs (Decidable (a.1 = b.1 ∨ a.2 = b.2))

def eventKeyOf (e : Event) : Nat × EventSource × String := (e.id, e.source, e.eventKey)

/-- `PRIMARY KEY (id)` and `UNIQUE (source, event_key)`. -/
def eventClash (a b : Nat × EventSource × String) : Prop := a.1 = b.1 ∨ a.2 = b.2

instance : DecidableRel eventClash := fun a b => inferInstanceAs (Decidable (a.1 = b.1 ∨ a.2 = b.2))

structure Db where
  dags : Table DagRow DagRow.dagID (· = ·) := .empty
  runs : Table DagRun runKey runClash := .empty
  tasks : Table TaskInstance taskKey taskClash := .empty
  events : Table Event eventKeyOf eventClash := .empty
  /-- `trigger_after` edges as (upstream, downstream). -/
  dependencies : Table (String × String) id (· = ·) := .empty
  pools : Table Pool Pool.name (· = ·) := .empty
  /-- Task outputs by run and task. -/
  outputs : List ((String × String) × String) := []

namespace Db
variable (s : Db)

/-! ### Queries -/

def run? (id : String) : Option DagRun := s.runs.find? (fun r => r.runID = id)

def task? (id : Nat) : Option TaskInstance := s.tasks.find? (fun ti => ti.id = id)

/-- The run exists and its DAG row is not archived. -/
def isActiveDag (dagID : String) : Bool := (s.dags.find? (fun d => d.dagID = dagID)).any (fun d => !d.deleted)

def queuedCount : Nat := (s.runs.filter (fun r => r.state = .queued)).length

def getDagRun (id : String) : Except Err DagRun :=
  match s.run? id with
  | some r => .ok r
  | none => .error .notFound

def getDagRunByLogicalDate (dagID : String) (date : Time) : Except Err DagRun :=
  match s.runs.find? (fun r => r.dagID = dagID ∧ r.logicalDate = date) with
  | some r => .ok r
  | none => .error .notFound

/-- Newest first. -/
def listDagRuns (dagID : String) (limit : Nat) : List DagRun :=
  ((s.runs.filter (fun r => r.dagID = dagID)).insertionSort (fun a b => b.logicalDate ≤ a.logicalDate)).take limit

def latestScheduledRun (dagID : String) : Except Err DagRun :=
  match ((s.runs.filter (fun r => r.dagID = dagID ∧ r.triggerType = .schedule)).insertionSort
      (fun a b => b.logicalDate ≤ a.logicalDate)).head? with
  | some r => .ok r
  | none => .error .notFound

/-- Oldest period first. -/
def listDagRunsByState (state : RunState) : List DagRun :=
  (s.runs.filter (fun r => r.state = state)).insertionSort (fun a b => a.logicalDate ≤ b.logicalDate)

def listDagRunsByStateLimited (state : RunState) (limit : Int) : List DagRun :=
  if limit ≤ 0 then s.listDagRunsByState state else (s.listDagRunsByState state).take limit.toNat

def countActiveRuns (dagID : String) : Nat := (s.runs.filter (fun r => r.dagID = dagID ∧ r.state.isActive)).length

/-- Queued and running task instances held by the executor, not by a child run. -/
def occupies (ti : TaskInstance) : Bool :=
  (ti.state = .queued || ti.state = .running) && !hasPrefix ti.executorRef "subdag:"

def countActiveTaskInstances : Nat := (s.tasks.filter occupies).length

def countActiveTasksForDag (dagID : String) : Nat :=
  (s.tasks.filter (fun ti => occupies ti && (s.run? ti.runID).any (fun r => r.dagID = dagID))).length

def countRunningInPool (pool : String) : Nat := (s.tasks.filter (fun ti => ti.pool = pool && occupies ti)).length

def getPool (name : String) : Except Err Pool :=
  match s.pools.find? (fun p => p.name = name) with
  | some p => .ok p
  | none => .error .notFound

def getDAG (dagID : String) : Except Err DagRow :=
  match s.dags.find? (fun d => d.dagID = dagID) with
  | some d => .ok d
  | none => .error .notFound

def getTaskInstance (id : Nat) : Except Err TaskInstance :=
  match s.task? id with
  | some ti => .ok ti
  | none => .error .notFound

def listTaskInstances (runID : String) : List TaskInstance :=
  (s.tasks.filter (fun ti => ti.runID = runID)).insertionSort (fun a b => a.id ≤ b.id)

/-- Highest priority first, then by id. -/
def listTaskInstancesByState (state : TaskState) : List TaskInstance :=
  ((s.tasks.filter (fun ti => ti.state = state)).insertionSort (fun a b => a.id ≤ b.id)).insertionSort
    (fun a b => b.priority ≤ a.priority)

def sortNames (names : List String) : List String := names.insertionSort (fun a b => ¬ b < a)

def listDownstreams (upstream : String) : List String :=
  sortNames ((s.dependencies.filter (fun e => e.1 = upstream)).map (·.2))

def listUpstreams (downstream : String) : List String :=
  sortNames ((s.dependencies.filter (fun e => e.2 = downstream)).map (·.1))

/-- Unconsumed events of a source, oldest first. -/
def listPendingEvents (source : EventSource) (limit : Nat) : List Event :=
  ((s.events.filter (fun e => e.source = source ∧ e.consumed = false)).insertionSort (fun a b => a.id ≤ b.id)).take
    limit

/-! ### Statements -/

def nextTaskID : Nat := (s.tasks.rows.map (·.id)).foldr max 0 + 1

def nextEventID : Nat := (s.events.rows.map (·.id)).foldr max 0 + 1

/-- `UPDATE dag_runs ... WHERE run_id = id`, identity columns untouched. -/
def modifyRun (id : String) (f : DagRun → DagRun) (hf : ∀ r, runKey (f r) = runKey r) : Db :=
  { s with runs := s.runs.modify (fun r => r.runID = id) f hf }

/-- `UPDATE task_instances ... WHERE id = id` with every column of `ti` but the identity. -/
def writeTask (ti : TaskInstance) : Db :=
  let tasks := s.tasks.modify (fun row => row.id = ti.id)
    (fun row => { ti with id := row.id, runID := row.runID, taskID := row.taskID }) (fun _ => rfl)
  { s with tasks := tasks }

/-- Insert a run whose admission conditions held, or report why they did not. -/
def insertRun (run : DagRun) (admitted : Bool) : Except Err Unit × Db :=
  if admitted then
    match s.runs.insert? run with
    | some runs => (.ok (), { s with runs := runs })
    | none => (.error .alreadyExists, s)
  else if s.isActiveDag run.dagID then (.error .queueFull, s)
  else (.error .notFound, s)

end Db

/-- The statements of the scheduler, indexed by what they return. -/
inductive Write : Type → Type where
  | createDagRunBounded (run : DagRun) (global : Int) : Write Unit
  | createManualDagRunBounded (run : DagRun) (perDAG global : Int) : Write Unit
  | updateDagRunState (runID : String) (state : RunState) (startedAt finishedAt : Option Time) : Write Unit
  | updateDagRunSuccess (runID : String) (startedAt finishedAt : Option Time) : Write Unit
  | updateDagRunDefinition (runID definitionYAML definitionHash : String) : Write Unit
  | setDagRunHeld (runID : String) (held : Bool) : Write Unit
  | createTaskInstance (ti : TaskInstance) : Write Nat
  | updateTaskInstance (ti : TaskInstance) : Write Unit
  | updateTaskInstanceGuarded (ti : TaskInstance) (expectRef : String) : Write Bool
  | consumeEvent (id : Nat) : Write Unit
  | publishEvent (source : EventSource) (key payload : String) : Write Bool
  | setTaskOutput (runID taskID output : String) : Write Unit

namespace Db

/-- `INSERT ... ON CONFLICT(source, event_key) DO UPDATE SET consumed = 0`. -/
def armEvent (s : Db) (source : EventSource) (key : String) : Db :=
  match s.events.insert? { id := s.nextEventID, source := source, eventKey := key } with
  | some events => { s with events := events }
  | none =>
    let events := s.events.modify (fun e => e.source = source ∧ e.eventKey = key)
      (fun e => { e with consumed := false }) (fun _ => rfl)
    { s with events := events }

/-- Execute one statement: its result and the database afterwards. -/
def apply (s : Db) : {β : Type} → Write β → Except Err β × Db
  | _, .createDagRunBounded run global =>
    s.insertRun run (s.isActiveDag run.dagID && (s.queuedCount : Int) < global)
  | _, .createManualDagRunBounded run perDAG global =>
    s.insertRun run (s.isActiveDag run.dagID && (s.countActiveRuns run.dagID : Int) < perDAG &&
      (s.queuedCount : Int) < global)
  | _, .updateDagRunState id state startedAt finishedAt =>
    if legalPriorRunStates state = [] then (.error .illegalRunTransition, s)
    else
      match s.run? id with
      | none => (.error .notFound, s)
      | some r =>
        if r.state ∈ legalPriorRunStates state then
          (.ok (), s.modifyRun id
            (fun r => { r with state := state, startedAt := startedAt, finishedAt := finishedAt }) (fun _ => rfl))
        else (.error .illegalRunTransition, s)
  | _, .updateDagRunSuccess id startedAt finishedAt =>
    -- no condition on the stored state: only a missing row is refused
    match s.run? id with
    | none => (.error .notFound, s)
    | some _ =>
      (.ok (), (s.modifyRun id
        (fun r => { r with state := .success, startedAt := startedAt, finishedAt := finishedAt }) (fun _ => rfl)).armEvent
          .dependency id)
  | _, .updateDagRunDefinition id yaml hash =>
    match s.run? id with
    | none => (.error .notFound, s)
    | some _ =>
      (.ok (), s.modifyRun id (fun r => { r with definitionYAML := yaml, definitionHash := hash }) (fun _ => rfl))
  | _, .setDagRunHeld id held =>
    match s.run? id with
    | none => (.error .notFound, s)
    | some r =>
      if r.state.isActive then (.ok (), s.modifyRun id (fun r => { r with held := held }) (fun _ => rfl))
      else (.error .notFound, s)
  | _, .createTaskInstance ti =>
    match s.tasks.insert? { ti with id := s.nextTaskID } with
    | some tasks => (.ok s.nextTaskID, { s with tasks := tasks })
    | none => (.error .alreadyExists, s)
  | _, .updateTaskInstance ti =>
    match s.task? ti.id with
    | none => (.error .notFound, s)
    | some _ => (.ok (), s.writeTask ti)
  | _, .updateTaskInstanceGuarded ti expectRef =>
    match s.task? ti.id with
    | none => (.ok false, s)
    | some row =>
      if row.executorRef = expectRef ∧ row.state.isTerminal = false then (.ok true, s.writeTask ti)
      else (.ok false, s)
  | _, .consumeEvent id =>
    let events := s.events.modify (fun e => e.id = id) (fun e => { e with consumed := true }) (fun _ => rfl)
    (.ok (), { s with events := events })
  | _, .publishEvent source key payload =>
    match s.events.insert? { id := s.nextEventID, source := source, eventKey := key, payload := payload } with
    | some events => (.ok true, { s with events := events })
    | none => (.ok false, s)
  | _, .setTaskOutput runID taskID output =>
    (.ok (), { s with outputs := ((runID, taskID), output) :: s.outputs.filter (fun o => o.1 ≠ (runID, taskID)) })

end Db
end Cronova.Store
