import Cronova.Scheduler.Commands

/-! Scheduler programs are sequences of commands that stop at the first error.
This module has the single commands, the finalize mutex and the operation marks,
and the pure helpers shared by the operations. -/
namespace Cronova.Scheduler
open Cronova.Model Cronova.Store Cronova.Concurrency Cronova.Text

abbrev M := Fallible Err Cmd

def query {β : Type} (q : Db → Except Err β) : M β := ExceptT.mk (Program.call (.read q))

/-- A query that always has an answer. -/
def list {β : Type} (q : Db → β) : M β := query (fun db => .ok (q db))

def statement {β : Type} (s : Write β) : M β := ExceptT.mk (Program.call (.write s))

def command {β : Type} (c : Cmd β) : M β := ExceptT.lift (Program.call c)

def ask {β : Type} (a : Ask β) : M β := command (.ask a)

def halt {β : Type} : M β := ExceptT.mk (Program.step .halt nofun)

/-- Run the body and carry on whatever its outcome: its error is only logged. -/
def attempt {β : Type} (body : M β) : M Unit := do let _ ← Fallible.outcome body

/-- Hold `finalizeMu` around the body. -/
def locked {β : Type} (body : M β) : M β := Fallible.around .lock (fun _ => .unlock) body

def marked {β : Type} (op : Op) (body : M β) : M β := Fallible.around (.enter op) (.leave op) body

def cachedDAG (dagID : String) : M (Option DAG) :=
  command (.registry (fun dags => dags.find? (fun d => d.dagID = dagID)))

/-- The registered definitions, in some order. -/
def allDAGs : M (List DAG) := do
  let dags ← command (.registry id)
  let ids ← ask (.order (dags.map (·.dagID)))
  return ids.filterMap (fun dagID => dags.find? (fun d => d.dagID = dagID))

/-- The schedule cached for a registered DAG. -/
def scheduleOf (cfg : Cfg) (d : DAG) : Option Schedule :=
  if d.schedule = "" then none else (Parser.parseScheduleIn cfg.parser d.schedule d.timezone).toOption

def parseDefinition (cfg : Cfg) (yaml : String) : Except Err DAG :=
  (Parser.parse cfg.parser yaml).mapError (fun _ => .badDefinition)

def dagLocation (cfg : Cfg) (d : DAG) : Zone :=
  if d.timezone = "" then cfg.parser.utc else (cfg.parser.loadLocation d.timezone).getD cfg.parser.utc

/-! ### Names -/

/-- The executor ref of one attempt. -/
def attemptRef (runID taskID : String) (tryNumber : Nat) : String :=
  runID ++ "/" ++ taskID ++ "/" ++ toString tryNumber

/-- Marks a ref that points to a child run instead of an executor attempt. -/
def subdagRefPrefix : String := "subdag:"

def sanitize (s : String) : String := String.ofList (s.toList.map (fun c => if c = ':' then '_' else c))

def logPath (cfg : Cfg) (dagID runID taskID : String) : String :=
  cfg.logDir ++ "/" ++ dagID ++ "/" ++ sanitize runID ++ "/" ++ taskID ++ ".log"

def outputPath (logPath : String) (tryNumber : Nat) : String := logPath ++ ".out" ++ toString tryNumber ++ ".json"

/-! ### Pure helpers -/

/-- The instance of a task in a list of a run's instances. -/
def findTI (tis : List TaskInstance) (taskID : String) : Option TaskInstance := tis.find? (fun ti => ti.taskID = taskID)

/-- The list with the instance of `ti`'s task replaced. -/
def setTI (tis : List TaskInstance) (ti : TaskInstance) : List TaskInstance :=
  tis.map (fun row => if row.taskID = ti.taskID then ti else row)

theorem findTI_spec {tis : List TaskInstance} {id : String} {ti : TaskInstance} (h : findTI tis id = some ti) :
    ti ∈ tis ∧ ti.taskID = id :=
  ⟨List.mem_of_find?_eq_some h, by simpa using List.find?_some h⟩

theorem findTI_of_mem {tis : List TaskInstance} {ti : TaskInstance} (hnd : (tis.map (·.taskID)).Nodup)
    (h : ti ∈ tis) : findTI tis ti.taskID = some ti := by
  induction tis with
  | nil => cases h
  | cons row tis ih =>
    rw [List.map_cons, List.nodup_cons] at hnd
    rcases List.mem_cons.mp h with rfl | htis
    · simp [findTI]
    · have hne : row.taskID ≠ ti.taskID := by
        intro heq
        exact hnd.1 (heq ▸ List.mem_map.mpr ⟨ti, htis, rfl⟩)
      rw [findTI, List.find?_cons_of_neg (by simpa using hne)]
      exact ih hnd.2 htis

theorem setTI_ids {tis : List TaskInstance} {ti : TaskInstance} :
    (setTI tis ti).map (·.taskID) = tis.map (·.taskID) := by
  simp only [setTI, List.map_map]
  refine List.map_congr_left ?_
  intro row _
  simp only [Function.comp_apply]
  split
  · rename_i h
    exact h.symm
  · rfl

theorem mem_setTI {tis : List TaskInstance} {ti row : TaskInstance} (h : row ∈ setTI tis ti) : row = ti ∨ row ∈ tis := by
  obtain ⟨old, hold, heq⟩ := List.mem_map.mp h
  split at heq
  · exact .inl heq.symm
  · exact .inr (heq ▸ hold)

/-- The trigger rule of a task against the current states of its dependencies. -/
def taskGate (t : Task) (byTask : List TaskInstance) : Bool × Bool :=
  evalTriggerRule t.triggerRule (t.deps.map (fun dep => (findTI byTask dep).map (·.state)))

/-- The wait before the next attempt, after `tries` of them. -/
def retryDelay (t : Task) (tries : Nat) : Int :=
  let base := int64 (t.retryDelay * second)
  if t.retryBackoff ≠ .exponential ∨ base ≤ 0 then base
  else
    let shift := min (tries - 1) 20
    let grown := int64 (base * 2 ^ shift)
    let d := if grown < base then 2 ^ 62 - 1 else grown
    let cap := int64 (t.retryDelayMax * second)
    if 0 < t.retryDelayMax ∧ cap < d then cap
    else if 24 * 3600 * second < d ∧ t.retryDelayMax ≤ 0 then 24 * 3600 * second
    else d

/-- The tasks that depend directly on `id`. -/
def dependents (tasks : List Task) (id : String) : List String :=
  tasks.flatMap (fun t => (t.deps.filter (· = id)).map (fun _ => t.id))

/-- Breadth-first search from the queue; every edge is pushed at most once, which
bounds the number of rounds. -/
def closureLoop (tasks : List Task) : (fuel : Nat) → (closure queue : List String) → List String
  | 0, closure, _ => closure
  | _ + 1, closure, [] => closure
  | fuel + 1, closure, id :: queue =>
    if id ∈ closure then closureLoop tasks fuel closure queue
    else closureLoop tasks fuel (closure ++ [id]) (queue ++ dependents tasks id)

/-- A task and everything transitively downstream of it. -/
def downstreamClosure (tasks : List Task) (taskID : String) : List String :=
  closureLoop tasks ((tasks.map (·.deps.length)).sum + 1) [] [taskID]

/-- The run carries the definition it was created from. -/
def snapshotRun (cfg : Cfg) (run : DagRun) (d : DAG) : DagRun :=
  { run with definitionYAML := d.definitionYAML, definitionHash := cfg.definitionHash d.definitionYAML }

/-- A new instance of a task, as expansion and retry create it. -/
def newInstance (cfg : Cfg) (run : DagRun) (d : DAG) (t : Task) : TaskInstance :=
  { runID := run.runID, taskID := t.id, state := .scheduled, maxRetries := t.retries, pool := t.pool,
    priority := t.priority, definitionHash := run.definitionHash, logPath := logPath cfg d.dagID run.runID t.id }

/-- Back to scheduled, keeping the count of attempts. -/
def clearTask (ti : TaskInstance) : TaskInstance :=
  { ti with state := .scheduled, executorRef := "", startedAt := none, finishedAt := none }

/-- The definition a run is processed with. A row without a snapshot takes the
registered one, or the stored one, and keeps it from then on. -/
def dagForRun (cfg : Cfg) (run : DagRun) : M (DAG × DagRun) := do
  if run.definitionYAML ≠ "" then
    let d ← Fallible.ofExcept (parseDefinition cfg run.definitionYAML)
    return (d, run)
  else
    let d ← match ← cachedDAG run.dagID with
      | some d => pure d
      | none => do
        let row ← query (fun db => db.getDAG run.dagID)
        Fallible.ofExcept (parseDefinition cfg row.definitionYAML)
    let run := snapshotRun cfg run d
    statement (.updateDagRunDefinition run.runID run.definitionYAML run.definitionHash)
    return (d, run)

end Cronova.Scheduler
