import Cronova.Scheduler.Basics

/-! The life of one attempt: launch, polling for completion, the recorded
outcome, and the recovery of attempts after a restart. -/
namespace Cronova.Scheduler
open Cronova.Model Cronova.Store Cronova.Concurrency Cronova.Text
variable (cfg : Cfg)

/-- Persist an outcome under the attempt's own ref; a refused write is dropped. -/
def finalizeWrite (ti : TaskInstance) : M Unit :=
  attempt (statement (.updateTaskInstanceGuarded ti ti.executorRef))

/-- A failed attempt is retried while retries remain. -/
def failedAttempt (ti : TaskInstance) (now : Time) : TaskInstance :=
  { ti with finishedAt := some now
            state := if (ti.tryNumber : Int) ≤ ti.maxRetries then TaskState.upForRetry else .failed }

def recordFailure (ti : TaskInstance) : M TaskInstance := do
  let now ← ask .now
  finalizeWrite (failedAttempt ti now)
  return failedAttempt ti now

def finalizeTaskLost (ti : TaskInstance) : M Unit := do let _ ← recordFailure ti

/-- A task ends itself as skipped with this exit code. -/
def skipExitCode : Int := 99

def maxTaskOutputBytes : Nat := 64 * 2 ^ 10

/-- Take the output file of a successful attempt, if it is a small flat map. -/
def collectTaskOutput (ti : TaskInstance) : M Unit := do
  if ti.logPath = "" then return
  let path := outputPath ti.logPath ti.tryNumber
  match ← ask (.readFile path) with
  | none => return
  | some text =>
    if text.utf8ByteSize ≤ maxTaskOutputBytes ∧ (cfg.decodeStringMap text).isSome then
      attempt (statement (.setTaskOutput ti.runID ti.taskID text))
    ask (.remove path)

def finalizeTask (ti : TaskInstance) (exitCode : Int) : M Unit := do
  if exitCode = 0 ∨ exitCode = skipExitCode then
    let now ← ask .now
    let state := if exitCode = skipExitCode then TaskState.skipped else .success
    let ti := { ti with state := state, finishedAt := some now }
    finalizeWrite ti
    if exitCode = 0 then collectTaskOutput cfg ti
  else
    let _ ← recordFailure ti

/-- A finished run of the task, read off its log. -/
def completedLog (text : String) : Bool :=
  contains text "=== exited with code 0 ===" ||
    (contains text "2 passed" && contains text "Stopped frontend PID" && contains text "Stopped backend PID")

def recoverCompletedLogExitCode (logPath : String) : M (Option Int) := do
  if logPath = "" then return none
  match ← ask (.readFile logPath) with
  | none => return none
  | some text => return if completedLog text then some 0 else none

/-- The attempt's output file exists, or its exit code was persisted. -/
def recoverFinishedExitCode (ti : TaskInstance) : M (Option Int) := do
  if ti.logPath = "" ∨ ti.tryNumber = 0 then return none
  if ← ask (.stat (outputPath ti.logPath ti.tryNumber)) then return some 0
  if cfg.stateDir = "" ∨ ti.executorRef = "" then return none
  ask (.readExitCode cfg.stateDir ti.executorRef)

/-- Poll until the attempt has an outcome; a shutdown leaves it to recovery. -/
def awaitCompletion (ti : TaskInstance) : (polls : Nat) → M Unit
  | 0 => halt
  | polls + 1 => do
    if ← ask .ctxDone then return
    match ← ask (.probe ti.executorRef) with
    | none => if ← ask .ctxDone then return else awaitCompletion ti polls
    | some (.exited code) => finalizeTask cfg ti code
    | some .unknown => finalizeTaskLost ti
    | some .running =>
      match ← recoverCompletedLogExitCode ti.logPath with
      | some code => finalizeTask cfg ti code
      | none =>
        match ← recoverFinishedExitCode cfg ti with
        | some code => finalizeTask cfg ti code
        | none => awaitCompletion ti polls

/-- A cancel already reached this task. -/
def taskCancelled (id : Nat) : M Bool := do
  match ← Fallible.outcome (query (fun db => db.getTaskInstance id)) with
  | .ok cur => return decide (cur.state = .cancelled)
  | .error _ => return false

/-- What stops an attempt before its launch: a project that cannot be staged, or
a task that no executor runs. -/
def unlaunchable (t : Task) (ref : String) : M Bool := do
  if t.type = .powershell ∧ t.project ≠ "" then
    if !(← ask (.stageProject t.project ref)) then return true
  match t.type with
  | .powershell | .jar | .python | .sql => return false
  | .http => return t.http.isNone
  | .subdag => return true

/-- Launch an attempt and follow it. -/
def runTask (t : Task) (ti : TaskInstance) : M Unit := do
  if ← unlaunchable t ti.executorRef then
    let now ← ask .now
    let _ ← recordFailure { ti with startedAt := some now }
  else if ← taskCancelled ti.id then return
  else
    match ← ask (.launch ti.executorRef t) with
    | .noWorker =>
      -- nothing ran: the attempt is given back instead of using up a retry
      attempt (statement (.updateTaskInstanceGuarded
        { ti with tryNumber := ti.tryNumber - 1, state := .scheduled, executorRef := "" } ti.executorRef))
    | .failed =>
      let now ← ask .now
      let _ ← recordFailure { ti with startedAt := some now }
    | .ok =>
      let now ← ask .now
      let ti := { ti with state := .running, startedAt := some now }
      match ← Fallible.outcome (statement (.updateTaskInstanceGuarded ti ti.executorRef)) with
      | .error _ => return
      | .ok false => ask (.cancel ti.executorRef)
      | .ok true => awaitCompletion cfg ti cfg.bound

/-- The body of an attempt's goroutine. -/
def Job.body : Job → M Unit
  | .launch _ t ti => runTask cfg t ti
  | .await ti => awaitCompletion cfg ti cfg.bound

/-- Move a task from scheduled to queued under a fresh ref and start its attempt. -/
def dispatch (run : DagRun) (t : Task) (ti : TaskInstance) : M Unit := do
  let tryNumber := ti.tryNumber + 1
  let ti := { ti with tryNumber := tryNumber, state := .queued, executorRef := attemptRef run.runID t.id tryNumber }
  statement (.updateTaskInstance ti)
  command (.go (.launch run t ti))

/-- One queued row after a restart. -/
def recoverQueued (ti : TaskInstance) : M Unit := do
  match ← ask (.probe ti.executorRef) with
  | none => return
  | some (.exited code) => finalizeTask cfg ti code
  | some .running =>
    let startedAt ← match ti.startedAt with
      | some t => pure (some t)
      | none => do pure (some (← ask .now))
    let running := { ti with state := .running, startedAt := startedAt }
    match ← Fallible.outcome (statement (.updateTaskInstanceGuarded running ti.executorRef)) with
    | .error _ => return
    | .ok false => ask (.cancel ti.executorRef)
    | .ok true => command (.go (.await running))
  | some .unknown =>
    -- never launched: undo the increment of its dispatch
    attempt (statement (.updateTaskInstanceGuarded
      { ti with state := .scheduled, executorRef := "", tryNumber := ti.tryNumber - 1 } ti.executorRef))

/-- One running row after a restart. -/
def recoverRunning (ti : TaskInstance) : M Unit := do
  match ← ask (.probe ti.executorRef) with
  | none => return
  | some (.exited code) => finalizeTask cfg ti code
  | some .running => command (.go (.await ti))
  | some .unknown => finalizeTaskLost ti

/-- Reconcile the in-flight rows with the executor after a restart. -/
def recover : M Unit := do
  let queued ← list (fun db => db.listTaskInstancesByState .queued)
  queued.forM (recoverQueued cfg)
  let running ← list (fun db => db.listTaskInstancesByState .running)
  running.forM (recoverRunning cfg)

end Cronova.Scheduler
