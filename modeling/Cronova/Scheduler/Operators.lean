import Cronova.Scheduler.Attempts
import Cronova.Scheduler.Events

/-! The operations behind the console and the API: trigger, backfill, hold,
cancel, retry and mark. -/
namespace Cronova.Scheduler
open Cronova.Model Cronova.Store Cronova.Concurrency Cronova.Text
variable (cfg : Cfg)

/-- Cancel one attempt wherever it lives: a child run through `cancelChild`,
anything else on the executor. -/
def cancelAttempt (cancelChild : String → M Unit) (ref : String) : M Unit :=
  match cutPrefix ref subdagRefPrefix with
  | some child => attempt (cancelChild child)
  | none => ask (.cancel ref)

/-- Kill and mark one listed task of a run that is being cancelled. -/
def cancelTask (cancelChild : String → M Unit) (fin : Time) (ti : TaskInstance) : M Unit := do
  if ti.state.isTerminal then return
  if ti.executorRef ≠ "" then cancelAttempt cancelChild ti.executorRef
  attempt (statement (.updateTaskInstance { ti with state := .cancelled, finishedAt := some fin }))

/-- Cancel an active run, its tasks and, level by level, its child runs. -/
def cancelRunLocked : (levels : Nat) → (runID : String) → M Unit
  | 0, _ => halt
  | levels + 1, runID => marked (.cancelRun runID) do
    let run ← query (fun db => db.getDagRun runID)
    if !run.state.isActive then throw .runNotActive
    let fin ← ask .now
    statement (.updateDagRunState runID .cancelled run.startedAt (some fin))
    let tis ← list (fun db => db.listTaskInstances runID)
    tis.forM (cancelTask (cancelRunLocked levels) fin)

def cancelRun (runID : String) : M Unit := locked (cancelRunLocked cfg.bound runID)

/-- The run, the registered definition and the instances a retry works on. An
active run is refused. -/
def retryContext (runID : String) : M (DagRun × DAG × List TaskInstance) := do
  let run ← query (fun db => db.getDagRun runID)
  if run.state.isActive then throw .runStillActive
  match ← cachedDAG run.dagID with
  | none => throw .notFound
  | some d =>
    let tis ← list (fun db => db.listTaskInstances runID)
    return (run, d, tis)

/-- One task of the adopted definition: created when it is new, brought up to
date when it is reset. -/
def adoptTask (run : DagRun) (d : DAG) (hash : String) (reset : List String) (byTask : List TaskInstance) (t : Task) :
    M (List TaskInstance) := do
  match findTI byTask t.id with
  | none =>
    let ti := newInstance cfg { run with definitionHash := hash } d t
    let id ← statement (.createTaskInstance ti)
    return byTask ++ [{ ti with id := id }]
  | some ti =>
    if t.id ∈ reset then
      return setTI byTask { ti with maxRetries := t.retries, pool := t.pool, priority := t.priority,
                                    definitionHash := hash }
    else return byTask

/-- A retry adopts the latest definition. -/
def prepareRetryDefinition (run : DagRun) (d : DAG) (byTask : List TaskInstance) (reset : List String) :
    M (List TaskInstance) := do
  let hash := cfg.definitionHash d.definitionYAML
  statement (.updateDagRunDefinition run.runID d.definitionYAML hash)
  d.tasks.foldlM (adoptTask cfg run d hash reset) byTask

/-- Reset the named tasks and make the run active again. -/
def clearAndReactivate (run : DagRun) (byTask : List TaskInstance) (ids : List String) : M Unit := do
  let ids ← ask (.order ids)
  ids.forM (fun id =>
    match findTI byTask id with
    | none => pure ()
    | some ti => statement (.updateTaskInstance (clearTask ti)))
  let now ← ask .now
  statement (.updateDagRunState run.runID .running (some now) none)

/-- Reset the given tasks of a finished run under the latest definition. -/
def retryTasks (run : DagRun) (d : DAG) (tis : List TaskInstance) (ids : List String) : M Unit := do
  let byTask ← prepareRetryDefinition cfg run d tis ids
  clearAndReactivate run byTask ids

/-- Task ids of the definition that satisfy `p`. -/
def validIDs (d : DAG) (p : String → Bool) : List String := (d.tasks.map (·.id)).filter p

def retryTaskLocked (runID taskID : String) : M Unit := marked (.retryTask runID taskID) do
  let (run, d, tis) ← retryContext runID
  if (findTI tis taskID).isNone ∨ taskID ∉ d.tasks.map (·.id) then throw .notFound
  let closure := downstreamClosure d.tasks taskID
  retryTasks cfg run d tis (validIDs d (closure.contains ·))

def retryTask (runID taskID : String) : M Unit := locked (retryTaskLocked cfg runID taskID)

/-- Every failed task of the definition, with what is downstream of it. -/
def retryIDs (d : DAG) (tis : List TaskInstance) : List String :=
  let failed := tis.filter (fun ti => ti.taskID ∈ d.tasks.map (·.id) ∧ ti.state.isFailure)
  let closure := failed.flatMap (fun ti => downstreamClosure d.tasks ti.taskID)
  validIDs d (closure.contains ·)

def retryRunLocked (runID : String) : M Unit := marked (.retryRun runID) do
  let (run, d, tis) ← retryContext runID
  if retryIDs d tis = [] then throw .nothingToRetry
  retryTasks cfg run d tis (retryIDs d tis)

def retryRun (runID : String) : M Unit := locked (retryRunLocked cfg runID)

def markContext (runID : String) : M (DagRun × DAG × List TaskInstance) := do
  let run ← query (fun db => db.getDagRun runID)
  let (d, run) ← dagForRun cfg run
  let tis ← list (fun db => db.listTaskInstances runID)
  return (run, d, tis)

/-- Let the blocked tasks downstream of a task that now counts as done run again. -/
def releaseDownstream (d : DAG) (tis : List TaskInstance) (taskID : String) : M Unit := do
  let closure := downstreamClosure d.tasks taskID
  let ids ← ask (.order (validIDs d (closure.contains ·)))
  ids.forM (fun id =>
    match findTI tis id with
    | none => pure ()
    | some dt =>
      if id = taskID ∨ dt.state ≠ .upstreamFailed then pure ()
      else statement (.updateTaskInstance (clearTask dt)))

/-- The body of `markTask` once the target is known to be legal. -/
def markTaskLocked (runID taskID : String) (target : TaskState) : M Unit := marked (.markTask runID taskID target) do
  let (run, d, tis) ← markContext cfg runID
  match findTI tis taskID with
  | none => throw .notFound
  | some ti =>
    if taskID ∉ d.tasks.map (·.id) then throw .notFound
    let now ← ask .now
    if !ti.state.isTerminal ∧ ti.executorRef ≠ "" then
      cancelAttempt (cancelRunLocked cfg.bound) ti.executorRef
    if target = .success ∨ target = .skipped then releaseDownstream d tis taskID
    statement (.updateTaskInstance { ti with state := target, finishedAt := some now })
    if run.state.isTerminal then statement (.updateDagRunState runID .running (some now) none)

def markTask (runID taskID : String) (target : TaskState) : M Unit := do
  if target ≠ .success ∧ target ≠ .failed ∧ target ≠ .skipped then throw .badMarkState
  locked (markTaskLocked cfg runID taskID target)

def markRunLocked (runID : String) (target : RunState) : M Unit := marked (.markRun runID target) do
  let run ← query (fun db => db.getDagRun runID)
  if !run.state.isTerminal then throw .runStillActive
  if run.state = target then return
  let fin ← match run.finishedAt with
    | some t => pure t
    | none => ask .now
  if target = .success then
    statement (.updateDagRunSuccess runID run.startedAt (some fin))
    processPendingDependencyEvents cfg
  else statement (.updateDagRunState runID target run.startedAt (some fin))

/-- Override the recorded outcome of a finished run. -/
def markRun (runID : String) (target : RunState) : M Unit := do
  if target ≠ .success ∧ target ≠ .failed then throw .badMarkState
  locked (markRunLocked cfg runID target)

/-- Create a manual run of a registered DAG. -/
def triggerManualPriority (dagID : String) (params : Params) (priority : Int) : M String := do
  match ← cachedDAG dagID with
  | none => throw .notFound
  | some d =>
    if d.tasks = [] then throw .noTasks
    let now ← command .uniqueRunTime
    let run := snapshotRun cfg { runID := manualRunID dagID now, dagID := dagID, logicalDate := now, state := .queued,
                                 triggerType := .manual, params := params,
                                 priority := min 100 (max (-100) priority) } d
    statement (.createManualDagRunBounded run cfg.maxManualQueuePerDAG cfg.maxManualQueueGlobal)
    return run.runID

def maxBackfillRuns : Nat := 500

/-- The schedule points from `t` to `last`, refused beyond `room` of them. -/
def backfillPeriods (sched : Schedule) (last : Time) : (room : Nat) → (t : Time) → Except Err (List Time)
  | room, t =>
    if t = zeroTime ∨ last < t then .ok []
    else
      match room with
      | 0 => .error .badWindow
      | room + 1 => (backfillPeriods sched last room (sched.next t)).map (t :: ·)

/-- Create one queued run per schedule point of the window that has no run yet,
and count the created and the skipped ones. -/
def backfill (dagID : String) (first last : Time) : M (Nat × Nat) := do
  match ← cachedDAG dagID with
  | none => throw .notFound
  | some d =>
    if d.tasks = [] then throw .noTasks
    if d.schedule = "" then throw .noSchedule
    match Parser.parseScheduleIn cfg.parser d.schedule d.timezone with
    | .error _ => throw .badDefinition
    | .ok sched =>
      let now ← ask .now
      let last := min last now
      if last ≤ first then throw .badWindow
      let periods ← Fallible.ofExcept (backfillPeriods sched last maxBackfillRuns (sched.next (first - second)))
      periods.foldlM (fun (created, skipped) t => do
        let run := snapshotRun cfg { runID := backfillRunID dagID t, dagID := dagID, logicalDate := t, state := .queued,
                                     triggerType := .backfill } d
        match ← Fallible.outcome (statement (.createDagRunBounded run cfg.maxQueuedRunsGlobal)) with
        | .ok _ => return (created + 1, skipped)
        | .error .alreadyExists => return (created, skipped + 1)
        | .error e => throw e) (0, 0)

/-- The calls an operator can make. -/
inductive Call where
  | trigger (dagID : String) (params : Params) (priority : Int)
  | backfill (dagID : String) (first last : Time)
  | hold (runID : String) (held : Bool)
  | publish (key payload : String)
  | cancelRun (runID : String)
  | retryTask (runID taskID : String)
  | retryRun (runID : String)
  | markTask (runID taskID : String) (target : TaskState)
  | markRun (runID : String) (target : RunState)
  deriving DecidableEq, Repr

def Call.body : Call → M Unit
  | trigger dagID params priority => do let _ ← triggerManualPriority cfg dagID params priority
  | backfill dagID first last => do let _ ← Scheduler.backfill cfg dagID first last
  | hold runID held => statement (.setDagRunHeld runID held)
  | publish key payload => do let _ ← statement (.publishEvent .external key payload)
  | cancelRun runID => Scheduler.cancelRun cfg runID
  | retryTask runID taskID => Scheduler.retryTask cfg runID taskID
  | retryRun runID => Scheduler.retryRun cfg runID
  | markTask runID taskID target => Scheduler.markTask cfg runID taskID target
  | markRun runID target => Scheduler.markRun cfg runID target

end Cronova.Scheduler
