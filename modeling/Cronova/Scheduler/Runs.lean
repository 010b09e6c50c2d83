import Cronova.Scheduler.Operators

/-! One step of a run's state machine: expansion, block propagation, retries,
sub-workflows, the gates of ready tasks, finalization and deadlines. -/
namespace Cronova.Scheduler
open Cronova.Model Cronova.Store Cronova.Concurrency Cronova.Text
variable (cfg : Cfg)

/-- A task to dispatch, with what the admission needs to order and launch it. -/
structure ReadyTask where
  run : DagRun
  task : Task
  ti : TaskInstance
  dagMaxTasks : Int

/-- Create the instances of the definition's tasks that the run lacks. -/
def expandRun (run : DagRun) (d : DAG) (current : List TaskInstance) : M Unit :=
  d.tasks.forM (fun t =>
    if (findTI current t.id).isSome then pure ()
    else do
      match ← Fallible.outcome (statement (.createTaskInstance (newInstance cfg run d t))) with
      | .ok _ => pure ()
      | .error .alreadyExists => pure ()
      | .error e => throw e)

/-- The run's instances, after the missing ones were created. -/
def reconcile (run : DagRun) (d : DAG) : M (List TaskInstance) := do
  let tis ← list (fun db => db.listTaskInstances run.runID)
  if tis.length < d.tasks.length then
    expandRun cfg run d tis
    list (fun db => db.listTaskInstances run.runID)
  else return tis

/-- A run with nothing to execute fails. -/
def failEmptyRun (run : DagRun) : M Unit := do
  let fin ← ask .now
  statement (.updateDagRunState run.runID .failed (some (run.startedAt.getD fin)) (some fin))

def startRun (run : DagRun) : M DagRun := do
  if run.state = .queued then
    let now ← ask .now
    statement (.updateDagRunState run.runID .running (some now) none)
    return { run with state := .running, startedAt := some now }
  else return run

/-- One pass of block propagation: the instances afterwards, and whether one changed. -/
def propagatePass {m : Type → Type 1} [Monad m] (block : TaskInstance → m TaskInstance) (tasks : List Task)
    (byTask : List TaskInstance) : m (List TaskInstance × Bool) :=
  tasks.foldlM (fun (byTask, changed) t =>
    match findTI byTask t.id with
    | none => pure (byTask, changed)
    | some ti =>
      if ti.state = .scheduled ∧ (taskGate t byTask).2 then do
        let ti ← block ti
        pure (setTI byTask ti, true)
      else pure (byTask, changed)) (byTask, false)

/-- Passes until nothing changes. A pass that changes something uses up a
scheduled task, so their number bounds the passes. -/
def propagate {m : Type → Type 1} [Monad m] (block : TaskInstance → m TaskInstance) (tasks : List Task) :
    (passes : Nat) → (byTask : List TaskInstance) → m (List TaskInstance)
  | 0, byTask => pure byTask
  | passes + 1, byTask => do
    let (byTask, changed) ← propagatePass block tasks byTask
    if changed then propagate block tasks passes byTask else pure byTask

/-- Persist that a task's rule can no longer be satisfied. -/
def blockTask (ti : TaskInstance) : M TaskInstance := do
  let now ← ask .now
  let ti := { ti with state := .upstreamFailed, finishedAt := some now }
  statement (.updateTaskInstance ti)
  return ti

/-- Reschedule the tasks whose retry delay has elapsed. -/
def requeue (now : Time) (tasks : List Task) (byTask : List TaskInstance) : M (List TaskInstance) :=
  tasks.foldlM (fun byTask t =>
    match findTI byTask t.id with
    | none => pure byTask
    | some ti =>
      let readyAt := match ti.finishedAt with
        | some fin => fin + retryDelay t ti.tryNumber
        | none => now
      if ti.state = .upForRetry ∧ ¬ now < readyAt then do
        statement (.updateTaskInstance (clearTask ti))
        pure (setTI byTask (clearTask ti))
      else pure byTask) byTask

def maxSubdagDepth : Nat := 5

/-- How many parents sit above a run; one more than the limit is enough to know. -/
def subdagDepth : (left : Nat) → (run : DagRun) → (depth : Nat) → M Nat
  | 0, _, depth => return depth
  | left + 1, run, depth => do
    if run.parentRunID = "" then return depth
    match ← Fallible.outcome (query (fun db => db.getDagRun run.parentRunID)) with
    | .error _ => return depth
    | .ok parent => subdagDepth left parent (depth + 1)

/-- The child run of a ref, empty when the ref is no child's. -/
def childOf (ref : String) : String := (cutPrefix ref subdagRefPrefix).getD ""

/-- The child a scheduled sub-workflow task runs: a failed earlier child is
retried, otherwise a new one is created. No result means the queue is full. -/
def launchChild (run : DagRun) (t : Task) (ti : TaskInstance) (now : Time) : M (Option String) := do
  let child ← if childOf ti.executorRef = "" then pure "" else do
    match ← Fallible.outcome (query (fun db => db.getDagRun (childOf ti.executorRef))) with
    | .error _ => pure ""
    | .ok child =>
      if child.state.isTerminal ∧ child.state ≠ .success then
        match ← Fallible.outcome (retryRunLocked cfg child.runID) with
        | .error _ => pure ""
        | .ok _ => pure child.runID
      else pure child.runID
  if child ≠ "" then return some child
  let child : DagRun :=
    { runID := subRunID t.subdag now, dagID := t.subdag, logicalDate := now, state := .queued, triggerType := .subdag,
      params := run.params, priority := run.priority, parentRunID := run.runID }
  match ← Fallible.outcome (statement (.createDagRunBounded child cfg.maxQueuedRunsGlobal)) with
  | .ok _ => return some child.runID
  | .error .queueFull => return none
  | .error e => throw e

/-- Give up on a sub-workflow that cannot be started. -/
def failSubdag (ti : TaskInstance) (now : Time) : M TaskInstance := do
  let ti := { ti with tryNumber := ti.tryNumber + 1, state := .failed, startedAt := some now, finishedAt := some now }
  statement (.updateTaskInstance ti)
  return ti

/-- Start the child run of a scheduled sub-workflow task. -/
def startSubdag (run : DagRun) (t : Task) (ti : TaskInstance) (now : Time) : M TaskInstance := do
  if maxSubdagDepth ≤ (← subdagDepth (maxSubdagDepth + 1) run 0) then failSubdag ti now
  else if (← cachedDAG t.subdag).isNone then failSubdag ti now
  else
    match ← launchChild cfg run t ti now with
    | none => return ti
    | some child =>
      let ti := { ti with tryNumber := ti.tryNumber + 1, state := .running, startedAt := some now,
                          executorRef := subdagRefPrefix ++ child }
      statement (.updateTaskInstance ti)
      return ti

/-- Mirror the outcome of the child run of a running sub-workflow task. The
in-memory instance takes the outcome even when the guarded write is refused. -/
def mirrorChild (ti : TaskInstance) (now : Time) : M TaskInstance := do
  if childOf ti.executorRef = "" then recordFailure ti
  else
    match ← Fallible.outcome (query (fun db => db.getDagRun (childOf ti.executorRef))) with
    | .error _ => recordFailure ti
    | .ok child =>
      match child.state with
      | .success =>
        let ti := { ti with state := .success, finishedAt := some now }
        finalizeWrite ti
        return ti
      | .failed | .timedOut | .cancelled => recordFailure ti
      | .queued | .running => return ti

/-- Drive one sub-workflow task. -/
def advanceSubdag (run : DagRun) (t : Task) (ti : TaskInstance) : M TaskInstance := do
  let now ← ask .now
  if ti.state = .scheduled then startSubdag cfg run t ti now else mirrorChild ti now

/-- Whether the awaited run of another DAG has succeeded, and whether the wait
is over without it. -/
def dependentReady (run : DagRun) (dep : DependsOnDag) (loc : Zone) : M (Bool × Bool) := do
  match DateTmpl.shift loc run.logicalDate dep.offset with
  | none => return (false, true)
  | some ref =>
    match ← Fallible.outcome (query (fun db => db.getDagRunByLogicalDate dep.dag ref)) with
    | .ok target => if target.state = .success then return (true, false)
    | .error _ => pure ()
    if 0 < dep.timeout then
      let now ← ask .now
      return (false, dep.timeout * second < now - run.startedAt.getD run.logicalDate)
    else return (false, false)

/-- The condition of a task: anything unresolved or falsy skips it. -/
def evalWhen (run : DagRun) (t : Task) (tryNumber : Nat) : M Bool := do
  let rendered := trimSpace (← ask (.renderWhen run t tryNumber))
  return !(contains rendered "\x7b\x7b" || ["", "false", "0", "no"].contains (toLower rendered))

/-- Resolve a task without running it. -/
def settleTask (ti : TaskInstance) : M TaskInstance := do
  statement (.updateTaskInstance ti)
  return ti

/-- The gates of a task whose trigger rule is satisfied: its instance afterwards,
and whether it may be dispatched. -/
def passGates (run : DagRun) (loc : Zone) (t : Task) (ti : TaskInstance) : M (TaskInstance × Bool) := do
  let (satisfied, timedOut) ← match t.dependsOnDag with
    | none => pure (true, false)
    | some dep => dependentReady run dep loc
  if !satisfied then
    if !timedOut then return (ti, false)
    let now ← ask .now
    if (t.dependsOnDag.map (·.onTimeout)) = some .skip then
      return (← settleTask { ti with state := .skipped, finishedAt := some now }, false)
    return (← settleTask { ti with state := .failed, startedAt := some now, finishedAt := some now }, false)
  if t.when_ = "" then return (ti, true)
  if ← evalWhen run t (ti.tryNumber + 1) then return (ti, true)
  let now ← ask .now
  return (← settleTask { ti with state := .skipped, finishedAt := some now }, false)

/-- Advance one task: its instances afterwards, and the task if it is ready. -/
def collectTask (d : DAG) (run : DagRun) (byTask : List TaskInstance) (t : Task) :
    M (List TaskInstance × List ReadyTask) := do
  match findTI byTask t.id with
  | none => return (byTask, [])
  | some ti =>
    if t.type = .subdag ∧ (ti.state = .scheduled ∨ ti.state = .running) then
      if ti.state = .scheduled ∧ !(taskGate t byTask).1 then return (byTask, [])
      else
        let ti ← advanceSubdag cfg run t ti
        return (setTI byTask ti, [])
    else if ti.state = .scheduled ∧ (taskGate t byTask).1 then
      let (ti, ready) ← passGates run (dagLocation cfg d) t ti
      return (setTI byTask ti, if ready then [⟨run, t, ti, d.maxActiveTasks⟩] else [])
    else return (byTask, [])

/-- Advance the tasks in order up to the first error. What was collected before
it is kept. -/
def collect (d : DAG) (run : DagRun) : (tasks : List Task) → (byTask : List TaskInstance) → (ready : List ReadyTask) →
    M (List ReadyTask × Option Err)
  | [], _, ready => return (ready, none)
  | t :: tasks, byTask, ready => do
    match ← Fallible.outcome (collectTask cfg d run byTask t) with
    | .error e => return (ready, some e)
    | .ok (byTask, new) => collect d run tasks byTask (ready ++ new)

/-- The outcome of a run whose tasks are all terminal. -/
def finalState (d : DAG) (tis : List TaskInstance) : Option RunState :=
  let states := d.tasks.map (fun t => (findTI tis t.id).map (·.state))
  if states.all (fun s => s.any TaskState.isTerminal) then
    if states.any (fun s => s = some .failed || s = some .upstreamFailed || s = some .timedOut) then some .failed
    else if states.any (· = some .cancelled) then some .cancelled
    else some .success
  else none

/-- Kill and mark one listed task of a run past its deadline. Guarded: an outcome
recorded meanwhile wins. -/
def timeoutTask (fin : Time) (ti : TaskInstance) : M Unit := do
  if ti.state.isTerminal then return
  if ti.executorRef ≠ "" then cancelAttempt (cancelRunLocked cfg.bound) ti.executorRef
  attempt (statement (.updateTaskInstanceGuarded { ti with state := .timedOut, finishedAt := some fin } ti.executorRef))

def timeoutRun (run : DagRun) (tis : List TaskInstance) : M Unit := do
  let fin ← ask .now
  match ← Fallible.outcome (statement (.updateDagRunState run.runID .timedOut run.startedAt (some fin))) with
  | .error _ => return
  | .ok _ => tis.forM (timeoutTask cfg fin)

/-- The hard deadline of a run that is still going. -/
def enforceDeadlines (d : DAG) (run : DagRun) (tis : List TaskInstance) : M Unit := do
  match run.startedAt with
  | none => return
  | some started =>
    let now ← ask .now
    if 0 < d.dagrunTimeout ∧ d.dagrunTimeout * second ≤ now - started then timeoutRun cfg run tis

/-- Finish the run if every task of its definition is terminal. -/
def finalizeRun (d : DAG) (run : DagRun) : M Unit := do
  let tis ← list (fun db => db.listTaskInstances run.runID)
  match finalState d tis with
  | none => enforceDeadlines cfg d run tis
  | some final =>
    let fin ← ask .now
    if final = .success then statement (.updateDagRunSuccess run.runID run.startedAt (some fin))
    else statement (.updateDagRunState run.runID final run.startedAt (some fin))

/-- The part of a step after the run has instances. -/
def driveRun (d : DAG) (run : DagRun) (tis : List TaskInstance) : M (List ReadyTask) := do
  let run ← startRun run
  let byTask ← propagate blockTask d.tasks (d.tasks.length + 1) tis
  let now ← ask .now
  let byTask ← requeue now d.tasks byTask
  if run.held then return []
  match ← collect cfg d run d.tasks byTask [] with
  | (ready, some _) => return ready
  | (ready, none) =>
    attempt (finalizeRun cfg d run)
    return ready

def processRunLocked (run : DagRun) : M (List ReadyTask) := marked (.processRun run) do
  let (d, run) ← dagForRun cfg run
  let tis ← reconcile cfg run d
  if tis = [] then
    failEmptyRun run
    return []
  else driveRun cfg d run tis

/-- Advance one listed run. The result is what became ready. -/
def processRun (run : DagRun) : M (List ReadyTask) := locked (processRunLocked cfg run)

end Cronova.Scheduler
