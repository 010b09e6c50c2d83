import Cronova.Scheduler.Runs

/-! The scheduling loop: due runs, the gate from queued to running, the global
admission of ready tasks, and the tick that chains them. -/
namespace Cronova.Scheduler
open Cronova.Model Cronova.Store Cronova.Concurrency Cronova.Text
variable (cfg : Cfg)

/-- Where the next scheduled run's date is counted from: the latest scheduled
run, the start date of a catch-up DAG, or the boot of the process. -/
def scheduleAnchor (d : DAG) : M Time := do
  match ← Fallible.outcome (query (fun db => db.latestScheduledRun d.dagID)) with
  | .ok r => return r.logicalDate
  | .error _ => if d.catchup then return d.startDate - second else command .bootTime

/-- Create the next run of one DAG if it is due. `counts` are the active runs per
DAG when they could be read; the result says whether a run was created. -/
def createDueRun (now : Time) (counts : Option (String → Nat)) (d : DAG) : M Bool := do
  if d.schedule = "" ∨ d.tasks = [] then return false
  match ← cachedDAG d.dagID with
  | none => return false
  | some cd =>
    match scheduleOf cfg cd with
    | none => return false
    | some sched =>
      if cd.paused then return false
      let next := sched.next (← scheduleAnchor d)
      if now < next then return false
      let active ← match counts with
        | some counts => pure (counts d.dagID)
        | none => list (fun db => db.countActiveRuns d.dagID)
      if d.maxActiveRuns ≤ active then return false
      let run := snapshotRun cfg { runID := runID d.dagID next, dagID := d.dagID, logicalDate := next, state := .queued,
                                   triggerType := .schedule } cd
      statement (.createDagRunBounded run cfg.maxQueuedRunsGlobal)
      return true

/-- Create the single next run of every scheduled DAG that is due. -/
def createDueRuns (now : Time) : M Unit := do
  let counts ← Fallible.outcome (list (fun db => fun dagID => db.countActiveRuns dagID))
  let dags ← allDAGs
  dags.forM (fun d => attempt (createDueRun cfg now counts.toOption d))

def cancelQueued (run : DagRun) : M Unit := do
  let now ← ask .now
  let started := run.startedAt.getD now
  match ← Fallible.outcome (statement (.updateDagRunState run.runID .cancelled (some started) (some now))) with
  | .error _ => return
  | .ok _ =>
    match ← Fallible.outcome (list (fun db => db.listTaskInstances run.runID)) with
    | .error _ => return
    | .ok tis => tis.forM (fun ti =>
        if ti.state.isTerminal then pure ()
        else attempt (statement (.updateTaskInstance { ti with state := .cancelled, finishedAt := some now })))

/-- Drop a queued run whose DAG admits no second active run. -/
def discardRun (run : DagRun) : M Unit := marked (.discardRun run.runID) (cancelQueued run)

/-- Runs by descending priority, then by date. -/
def queueOrder (a b : DagRun) : Prop := b.priority < a.priority ∨ (a.priority = b.priority ∧ a.logicalDate ≤ b.logicalDate)

instance : DecidableRel queueOrder := fun a b =>
  inferInstanceAs (Decidable (b.priority < a.priority ∨ (a.priority = b.priority ∧ a.logicalDate ≤ b.logicalDate)))

/-- The queue with the runs of each DAG of `needs` in priority order: every
position keeps its DAG. -/
def reorderQueue (needs : List String) (queued : List DagRun) : List DagRun :=
  let runsOf (dagID : String) : List DagRun :=
    let runs := queued.filter (fun r => r.dagID = dagID)
    if dagID ∈ needs ∧ 2 ≤ runs.length then runs.insertionSort queueOrder else runs
  queued.mapIdx (fun i r => ((runsOf r.dagID)[((queued.take i).filter (fun q => q.dagID = r.dagID)).length]?).getD r)

/-- The DAGs of the queue whose policy orders it by priority. -/
def priorityDags : (dagIDs : List String) → M (List String)
  | [] => return []
  | dagID :: rest => do
    let d ← cachedDAG dagID
    let needs ← priorityDags rest
    return if d.any (fun d => d.executionPolicy = .serialPriority) then dagID :: needs else needs

def reorderPriorityQueues (queued : List DagRun) : M (List DagRun) := do
  let needs ← priorityDags (queued.map (·.dagID)).eraseDups
  return reorderQueue needs queued

/-- Counters that start at 0. -/
abbrev Counters := List (String × Int)

def Counters.get (c : Counters) (key : String) : Option Int := List.lookup key c

def Counters.set (c : Counters) (key : String) (value : Int) : Counters :=
  (key, value) :: c.filter (fun e => e.1 ≠ key)

/-- What the gate has admitted so far in this tick. -/
structure Gate where
  runningBy : String → Nat
  globalRunning : Nat
  ready : List ReadyTask

/-- Process one listed run; an error is only logged. -/
def processListed (ready : List ReadyTask) (run : DagRun) : M (List ReadyTask) := do
  match ← Fallible.outcome (processRun cfg run) with
  | .ok new => return ready ++ new
  | .error _ => return ready

/-- Start one queued run if its DAG and the process have room for it. -/
def gateQueued (g : Gate) (run : DagRun) : M Gate := do
  if cfg.maxActiveRunsGlobal ≤ g.globalRunning ∨ run.held then return g
  let d ← cachedDAG run.dagID
  let policy := (d.map (·.executionPolicy)).getD .parallel
  let configured : Int := match d with
    | some d => if 0 < d.maxActiveRuns then d.maxActiveRuns else 1
    | none => 1
  let maxActive : Int := if policy = .parallel then configured else 1
  if maxActive ≤ g.runningBy run.dagID then
    if policy = .serialDiscard then discardRun run
    return g
  else
    let ready ← processListed cfg g.ready run
    return { runningBy := Function.update g.runningBy run.dagID (g.runningBy run.dagID + 1)
             globalRunning := g.globalRunning + 1, ready := ready }

/-- Dispatch order: run priority, task priority, date, run id, task id. -/
def readyBefore (a b : ReadyTask) : Bool :=
  if a.run.priority ≠ b.run.priority then b.run.priority < a.run.priority
  else if a.ti.priority ≠ b.ti.priority then b.ti.priority < a.ti.priority
  else if a.run.logicalDate ≠ b.run.logicalDate then a.run.logicalDate < b.run.logicalDate
  else if a.run.runID ≠ b.run.runID then a.run.runID < b.run.runID
  else a.ti.taskID < b.ti.taskID

def defaultPoolSlots : Int := 16

def poolSlots (name : String) : M Int := do
  match ← Fallible.outcome (query (fun db => db.getPool name)) with
  | .error _ => return defaultPoolSlots
  | .ok p => return min maxPoolSlots (max 1 p.slots)

/-- Budgets of one admission pass, counted once and then kept locally. -/
structure Budget where
  globalRemaining : Int
  poolRemaining : Counters := []
  dagRemaining : Counters := []
  groupUp : List (String × Bool) := []

/-- Whether the worker group of a task has a live worker, asked once per pass. -/
def checkGroup (b : Budget) (group : String) : M (Budget × Bool) := do
  if group = "" then return (b, true)
  match List.lookup group b.groupUp with
  | some up => return (b, up)
  | none =>
    let up ← if cfg.hasHub then ask (.groupAvailable group) else pure false
    return ({ b with groupUp := (group, up) :: b.groupUp }, up)

/-- What is left of the DAG's own task limit. -/
def checkDag (b : Budget) (rt : ReadyTask) : M (Budget × Bool) := do
  if rt.dagMaxTasks ≤ 0 then return (b, true)
  match b.dagRemaining.get rt.run.dagID with
  | some rem => return (b, 0 < rem)
  | none =>
    let rem ← match ← Fallible.outcome (list (fun db => db.countActiveTasksForDag rt.run.dagID)) with
      | .ok used => pure (rt.dagMaxTasks - used)
      | .error _ => pure rt.dagMaxTasks
    return ({ b with dagRemaining := b.dagRemaining.set rt.run.dagID rem }, 0 < rem)

/-- What is left of the task's pool; nothing when it cannot be counted. -/
def checkPool (b : Budget) (pool : String) : M (Budget × Option Int) := do
  match b.poolRemaining.get pool with
  | some rem => return (b, if 0 < rem then some rem else none)
  | none =>
    match ← Fallible.outcome (list (fun db => db.countRunningInPool pool)) with
    | .error _ => return (b, none)
    | .ok used =>
      let rem := (← poolSlots pool) - used
      if 0 < rem then return (b, some rem)
      else return ({ b with poolRemaining := b.poolRemaining.set pool rem }, none)

/-- Dispatch one ready task if every budget has room and it is still scheduled. -/
def admitTask (b : Budget) (rt : ReadyTask) : M Budget := do
  if b.globalRemaining ≤ 0 then return b
  let (b, up) ← checkGroup cfg b rt.task.workerGroup
  if !up then return b
  let (b, room) ← checkDag b rt
  if !room then return b
  match ← checkPool b rt.ti.pool with
  | (b, none) => return b
  | (b, some rem) =>
    match ← Fallible.outcome (query (fun db => db.getTaskInstance rt.ti.id)) with
    | .error _ => return b
    | .ok cur =>
      if cur.state ≠ .scheduled then return b
      match ← Fallible.outcome (dispatch rt.run rt.task cur) with
      | .error _ => return b
      | .ok _ =>
        let dagRemaining := if 0 < rt.dagMaxTasks then
            b.dagRemaining.set rt.run.dagID ((b.dagRemaining.get rt.run.dagID).getD 0 - 1)
          else b.dagRemaining
        return { b with
          poolRemaining := b.poolRemaining.set rt.ti.pool (rem - 1)
          globalRemaining := b.globalRemaining - 1
          dagRemaining := dagRemaining }

def admitInOrder (ready : List ReadyTask) : M Unit := do
  match ← Fallible.outcome (list (fun db => db.countActiveTaskInstances)) with
  | .error _ => return
  | .ok active =>
    let _ ← ready.foldlM (admitTask cfg) { globalRemaining := cfg.maxConcurrentTasks - active }

/-- Launch the tick's ready tasks in one globally ordered pass. -/
def admitReady (ready : List ReadyTask) : M Unit := do
  if ready.isEmpty then return
  locked (admitInOrder cfg (ready.insertionSort (fun a b => readyBefore b a = false)))

/-- One pass over the active runs. The two lists are read before any lock. -/
def processActiveRuns : M Unit := do
  let queued ← Fallible.outcome
    (list (fun db => db.listDagRunsByStateLimited .queued (cfg.maxActiveRunsGlobal + 500)))
  let running ← Fallible.outcome (list (fun db => db.listDagRunsByState .running))
  let queued := queued.toOption.getD []
  let running := running.toOption.getD []
  let ready ← running.foldlM (processListed cfg) []
  let queued ← reorderPriorityQueues queued
  let gate : Gate :=
    { runningBy := fun dagID => (running.filter (fun r => r.dagID = dagID)).length
      globalRunning := running.length, ready := ready }
  let gate ← queued.foldlM (gateQueued cfg) gate
  admitReady cfg gate.ready

def tickOnce : M Unit := do
  let now ← ask .now
  processPendingDependencyEvents cfg
  processPendingExternalEvents cfg
  createDueRuns cfg now
  processActiveRuns cfg
  processPendingDependencyEvents cfg

/-- The loop, cut after some number of ticks. -/
def ticks : (left : Nat) → M Unit
  | 0 => halt
  | left + 1 => do
    tickOnce cfg
    if ← ask .ctxDone then return else ticks left

/-- The process: recovery, then the loop. A failed recovery ends it. -/
def run : M Unit := do
  recover cfg
  command .recovered
  ticks cfg cfg.bound

end Cronova.Scheduler
