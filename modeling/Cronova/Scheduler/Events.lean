import Cronova.Scheduler.Basics
import Cronova.Scheduler.RunID

/-! Runs created by events: downstream runs of a dependency event and one run per
subscriber of an external event. -/
namespace Cronova.Scheduler
open Cronova.Model Cronova.Store Cronova.Concurrency Cronova.Text
variable (cfg : Cfg)

def dependencySyncParam : String := "dependency_sync_key"

/-- The newest successful run of a DAG that carries the key. -/
def findSuccessfulDependencySyncRun (dagID syncKey : String) : M DagRun := do
  let runs ← list (fun db => db.listDagRuns dagID 100)
  match runs.find? (fun r => r.state = .success ∧ r.params.get dependencySyncParam = syncKey) with
  | some r => return r
  | none => throw .notFound

/-- The run of upstream `up` that matches the run an event is about: by sync key
when a manual run carries one, by logical date otherwise. -/
def matchingUpstream (upstream : DagRun) (up : String) : M DagRun :=
  if upstream.triggerType = .manual ∧ upstream.params.get dependencySyncParam ≠ "" then
    findSuccessfulDependencySyncRun up (upstream.params.get dependencySyncParam)
  else query (fun db => db.getDagRunByLogicalDate up upstream.logicalDate)

/-- Every upstream is registered and its matching run has succeeded. -/
def allUpstreamsOK (upstream : DagRun) : (ups : List String) → M Bool
  | [] => return true
  | up :: ups => do
    match ← cachedDAG up with
    | none => return false
    | some _ =>
      match ← Fallible.outcome (matchingUpstream upstream up) with
      | .error .notFound => return false
      | .error e => throw e
      | .ok r => if r.state = .success then allUpstreamsOK upstream ups else return false

/-- Create the run of one downstream. The result says that the queue was full. -/
def triggerDownstream (upstream : DagRun) (dn : String) : M Bool := do
  let ups ← list (fun db => db.listUpstreams dn)
  if !(← allUpstreamsOK upstream ups) then return false
  match ← cachedDAG dn with
  | none => return false
  | some dd =>
    if dd.tasks = [] then return false
    let nr := snapshotRun cfg { runID := runID dn upstream.logicalDate, dagID := dn, logicalDate := upstream.logicalDate,
                                state := .queued, triggerType := .dependency } dd
    match ← Fallible.outcome (statement (.createDagRunBounded nr cfg.maxQueuedRunsGlobal)) with
    | .ok _ => return false
    | .error .queueFull => return true
    | .error .alreadyExists => return false
    | .error .notFound => return false
    | .error e => throw e

/-- Create the runs of every downstream. The result says that one was deferred. -/
def triggerDownstreams (upstream : DagRun) : M Bool := do
  let downs ← list (fun db => db.listDownstreams upstream.dagID)
  downs.foldlM (fun deferred dn => do return (← triggerDownstream cfg upstream dn) || deferred) false

/-- Deliver one dependency event. It stays pending while a downstream waits for
queue room, or while its run is active again. -/
def deliverDependencyEvent (event : Event) : M Unit := do
  match ← Fallible.outcome (query (fun db => db.getDagRun event.eventKey)) with
  | .error .notFound => attempt (statement (.consumeEvent event.id))
  | .error _ => return
  | .ok upstream =>
    if upstream.state ≠ .success then
      if upstream.state.isTerminal then attempt (statement (.consumeEvent event.id))
    else
      match ← Fallible.outcome (triggerDownstreams cfg upstream) with
      | .error _ => return
      | .ok true => return
      | .ok false => attempt (statement (.consumeEvent event.id))

/-- Replay durable success signals, oldest first. -/
def processPendingDependencyEvents : M Unit := do
  match ← Fallible.outcome (list (fun db => db.listPendingEvents .dependency 1000)) with
  | .error _ => return
  | .ok events => events.forM (deliverDependencyEvent cfg)

/-- The parameters an event passes to its runs: the payload's fields, and the key
unless the payload has a field of that name. -/
def eventRunParams (ev : Event) : Params :=
  let params := if ev.payload = "" then [] else (cfg.decodeStringMap ev.payload).getD []
  if (List.lookup "event_key" params).isSome then params else params ++ [("event_key", ev.eventKey)]

/-- Create the run of one subscriber. The result says that it must be tried again. -/
def triggerSubscriber (ev : Event) (dagID : String) : M Bool := do
  match ← cachedDAG dagID with
  | none => return false
  | some d =>
    if d.paused ∨ d.tasks = [] then return false
    let now ← ask .now
    let run := snapshotRun cfg { runID := eventRunID dagID ev.id, dagID := dagID, logicalDate := now, state := .queued,
                                 triggerType := .event, params := eventRunParams cfg ev } d
    match ← Fallible.outcome (statement (.createDagRunBounded run cfg.maxQueuedRunsGlobal)) with
    | .ok _ => return false
    | .error .alreadyExists => return false
    | .error _ => return true

/-- Deliver one external event to the DAGs subscribed to its key. -/
def deliverExternalEvent (dags : List DAG) (ev : Event) : M Unit := do
  let subscribers := dags.flatMap (fun d => (d.triggerOnEvent.filter (· = ev.eventKey)).map (fun _ => d.dagID))
  let deferred ← subscribers.foldlM (fun deferred dagID => do
    return (← triggerSubscriber cfg ev dagID) || deferred) false
  if !deferred then attempt (statement (.consumeEvent ev.id))

/-- Turn external events into runs of the subscribed DAGs. -/
def processPendingExternalEvents : M Unit := do
  match ← Fallible.outcome (list (fun db => db.listPendingEvents .external 1000)) with
  | .error _ => return
  | .ok events =>
    if events = [] then return
    let dags ← allDAGs
    events.forM (deliverExternalEvent cfg dags)

end Cronova.Scheduler
