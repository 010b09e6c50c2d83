import Cronova.Parser.Definition
import Cronova.Graph.DepthFirst

/-! Validation of a workflow definition. Every check of the source is here, in
its order, so a definition is accepted exactly when no check refuses it. -/
namespace Cronova.Parser
open Cronova.Model Cronova.Text

/-- Refuse with `message` unless the condition holds. -/
def require (ok : Bool) (message : String) : Except String Unit :=
  if ok then .ok () else .error message

def inDag (y : DagYAML) (message : String) : String := "dag " ++ quote y.dagID ++ ": " ++ message

def validID (s : String) : Bool := s.utf8ByteSize ≤ maxIdentifierBytes && idPattern s

def parseExecutionPolicy (y : DagYAML) : Except String ExecutionPolicy :=
  let policy := trimSpace y.executionPolicy
  if policy = "" || policy = "parallel" then .ok .parallel
  else if policy = "serial_wait" then .ok .serialWait
  else if policy = "serial_discard" then .ok .serialDiscard
  else if policy = "serial_priority" then .ok .serialPriority
  else .error (inDag y ("invalid execution_policy " ++ quote policy ++
    " (parallel, serial_wait, serial_discard, or serial_priority)"))

def parseTriggerRule (rule : String) : Option TriggerRule :=
  if rule = "all_success" then some .allSuccess
  else if rule = "all_done" then some .allDone
  else if rule = "one_success" then some .oneSuccess
  else if rule = "one_failed" then some .oneFailed
  else if rule = "all_failed" then some .allFailed
  else if rule = "none_failed" then some .noneFailed
  else none

def parseTaskType (y : DagYAML) (t : TaskYAML) : Except String TaskType :=
  let taskType := orDefault (trimSpace t.type) "powershell"
  if taskType = "powershell" then .ok .powershell
  else if taskType = "python" then .ok .python
  else if taskType = "sql" then .ok .sql
  else if taskType = "jar" then .ok .jar
  else if taskType = "http" then .ok .http
  else if taskType = "subdag" then .ok .subdag
  else if taskType = "shell" then
    .error (inDag y ("task " ++ quote t.id ++ " uses type \"shell\", which is not supported " ++
      "(Windows-only, PowerShell runtime); use type: powershell"))
  else .error (inDag y ("task " ++ quote t.id ++ " has unsupported type " ++ quote taskType))

def parseRetryBackoff (b : String) : Option RetryBackoff :=
  if b = "" || b = "fixed" then some .fixed else if b = "exponential" then some .exponential else none

/-- Upstream dag ids, empty entries dropped, duplicates refused. -/
def parseTriggerAfter (y : DagYAML) : Except String (List String) :=
  y.triggerAfter.foldlM (fun seen dagID => do
    if dagID = "" then return seen
    require (validID dagID) (inDag y ("invalid trigger_after dag_id " ++ quote dagID))
    require (!seen.contains dagID) (inDag y ("duplicate trigger_after dag_id " ++ quote dagID))
    return seen ++ [dagID]) []

def parseTriggerOnEvent (y : DagYAML) : Except String (List String) :=
  y.triggerOnEvent.foldlM (fun seen key => do
    let key := trimSpace key
    if key = "" then return seen
    require (key.utf8ByteSize ≤ maxIdentifierBytes && eventKeyPattern key)
      (inDag y ("invalid trigger_on_event key " ++ quote key ++ " (letters/digits/_.:- only)"))
    require (!seen.contains key) (inDag y ("duplicate trigger_on_event key " ++ quote key))
    return seen ++ [key]) []

private def hasNotifyScheme (url : String) : Bool :=
  let lower := toLower url
  hasPrefix lower "http://" || hasPrefix lower "https://" || hasPrefix lower "mailto:"

def parseNotify (y : DagYAML) : Except String NotifyYAML := do
  let url := trimSpace y.notify.url
  require (url.utf8ByteSize ≤ 8192) (inDag y "notify.url exceeds 8192 bytes")
  let on ← y.notify.on.foldlM (fun out ev => do
    let ev := trimSpace ev
    if ev = "failure" || ev = "success" then return out ++ [ev]
    require (ev = "") (inDag y ("invalid notify.on " ++ quote ev ++ " (want failure or success)"))
    return out) []
  require (url = "" || hasNotifyScheme url) (inDag y "notify.url must be http(s) or mailto:")
  require (["", "raw", "slack", "feishu", "dingtalk", "email"].contains y.notify.format)
    (inDag y ("invalid notify.format " ++ quote y.notify.format ++ " (raw, slack, feishu, dingtalk, or email)"))
  let group := trimSpace y.notify.group
  require (group.utf8ByteSize ≤ 128) (inDag y "notify.group exceeds 128 bytes")
  return { url := url, on := on, format := y.notify.format, group := group }

def parseDependsOnDag (env : Env) (y : DagYAML) (t : TaskYAML) (dep : DependsOnDagYAML) :
    Except String DependsOnDag := do
  let target := trimSpace dep.dag
  require (target ≠ "" && validID target)
    (inDag y ("task " ++ quote t.id ++ " depends_on_dag.dag " ++ quote dep.dag ++ " is not a valid dag id"))
  require (target ≠ y.dagID) (inDag y ("task " ++ quote t.id ++ " cannot depend on its own dag"))
  let offset := if trimSpace dep.offset = "same" then "" else trimSpace dep.offset
  require (DateTmpl.validOffset env.utc offset)
    (inDag y ("task " ++ quote t.id ++ " depends_on_dag.offset " ++ quote dep.offset ++
      " does not parse (examples: \"- 1d\", \".month_start\")"))
  require (0 ≤ dep.timeout && dep.timeout ≤ maxDurationSeconds)
    (inDag y ("task " ++ quote t.id ++ " depends_on_dag.timeout must be between 0 and " ++
      toString maxDurationSeconds ++ " seconds"))
  let onTimeout := orDefault (trimSpace dep.onTimeout) "fail"
  require (onTimeout = "fail" || onTimeout = "skip")
    (inDag y ("task " ++ quote t.id ++ " depends_on_dag.on_timeout must be fail or skip"))
  return { dag := target, offset := offset, timeout := dep.timeout,
           onTimeout := if onTimeout = "skip" then .skip else .fail }

/-- Both retry delays are capped at 30 days. -/
def maxDelaySec : Int := 30 * 24 * 3600

def checkHTTP (y : DagYAML) (t : TaskYAML) (type : TaskType) : Except String (Option HTTPSpec) := do
  if type = .http then
    match t.http with
    | none => .error (inDag y ("http task " ++ quote t.id ++ " requires http.url"))
    | some h =>
      require (trimSpace h.url ≠ "") (inDag y ("http task " ++ quote t.id ++ " requires http.url"))
      h.expectedStatus.forM (fun code =>
        require (100 ≤ code && code ≤ 599)
          (inDag y ("task " ++ quote t.id ++ " invalid expected_status " ++ toString code)))
      require (h.url.utf8ByteSize ≤ 8192 && h.body.utf8ByteSize ≤ maxCommandBytes && h.headers.length ≤ 100 &&
        h.expectedStatus.length ≤ 100) (inDag y ("task " ++ quote t.id ++ " http specification exceeds limits"))
      return some { h with url := trimSpace h.url }
  else
    require t.http.isNone (inDag y ("non-http task " ++ quote t.id ++ " cannot define http"))
    require (t.command ≠ "") (inDag y ("task " ++ quote t.id ++ " has empty command"))
    return none

def checkSubdag (y : DagYAML) (t : TaskYAML) (type : TaskType) : Except String Unit := do
  let target := trimSpace t.subdag
  if type = .subdag then
    require (target ≠ "" && validID target) (inDag y ("task " ++ quote t.id ++ " needs subdag: <target dag id>"))
    require (target ≠ y.dagID) (inDag y ("task " ++ quote t.id ++ " cannot run its own dag as a subdag"))
  else
    require (target = "") (inDag y ("task " ++ quote t.id ++ " sets subdag but type is " ++
      quote (orDefault (trimSpace t.type) "powershell") ++ " (want type: subdag)"))

/-- Validate one task. `seen` holds the ids before it and `totalDeps` the number
of dependencies so far, this task's included. -/
def parseTask (env : Env) (y : DagYAML) (seen : List String) (totalDeps : Nat) (t : TaskYAML) :
    Except String Task := do
  require (t.id ≠ "") (inDag y "a task has an empty id")
  require (validID t.id) (inDag y ("invalid task id " ++ quote t.id))
  require (!seen.contains t.id) (inDag y ("duplicate task id " ++ quote t.id))
  let type ← parseTaskType y t
  checkSubdag y t type
  require (t.deps.length ≤ maxDepsPerTask)
    (inDag y ("task " ++ quote t.id ++ " has more than " ++ toString maxDepsPerTask ++ " dependencies"))
  require (totalDeps ≤ maxDependencies) (inDag y ("dependency count exceeds " ++ toString maxDependencies))
  require (t.command.utf8ByteSize ≤ maxCommandBytes)
    (inDag y ("task " ++ quote t.id ++ " command exceeds " ++ toString maxCommandBytes ++ " bytes"))
  let pool := orDefault (trimSpace t.pool) "default"
  require (validID pool) (inDag y ("task " ++ quote t.id ++ " has invalid pool " ++ quote pool))
  let group := orDefault (trimSpace t.workerGroup) (trimSpace y.workerGroup)
  require (group = "" || validID group)
    (inDag y ("task " ++ quote t.id ++ " has invalid worker_group " ++ quote group))
  require (group = "" || trimSpace t.project = "")
    (inDag y ("task " ++ quote t.id ++ " combines project: with worker_group: — uploaded projects require " ++
      "the local executor"))
  match parseTriggerRule (orDefault t.triggerRule "all_success") with
  | none => .error (inDag y ("task " ++ quote t.id ++ " has invalid trigger_rule " ++ quote t.triggerRule))
  | some rule =>
    let dependsOnDag ← t.dependsOnDag.mapM (parseDependsOnDag env y t)
    require (0 ≤ t.timeout && t.timeout ≤ maxDurationSeconds && 0 ≤ t.sla && t.sla ≤ maxDurationSeconds)
      (inDag y ("task " ++ quote t.id ++ " timeout/sla must be between 0 and " ++ toString maxDurationSeconds ++
        " seconds"))
    match parseRetryBackoff t.retryBackoff with
    | none =>
      .error (inDag y ("task " ++ quote t.id ++ " has invalid retry_backoff " ++ quote t.retryBackoff ++
        " (use fixed or exponential)"))
    | some backoff =>
      require (0 ≤ t.retryDelayMax) (inDag y ("task " ++ quote t.id ++ " retry_delay_max must be >= 0 seconds"))
      require (t.retryDelay.all (· ≤ maxDelaySec) && t.retryDelayMax ≤ maxDelaySec)
        (inDag y ("task " ++ quote t.id ++ " retry_delay/retry_delay_max must be <= " ++ toString maxDelaySec ++
          " seconds (30 days)"))
      let retries := t.retries.getD y.defaultRetries
      let retryDelay := t.retryDelay.getD y.defaultRetryDelay
      require (0 ≤ retries && retries ≤ maxRetries)
        (inDag y ("task " ++ quote t.id ++ " retries must be between 0 and " ++ toString maxRetries))
      require (0 ≤ retryDelay) (inDag y ("task " ++ quote t.id ++ " retry_delay must be >= 0 seconds"))
      let http ← checkHTTP y t type
      require (type ≠ .sql || trimSpace t.conn ≠ "")
        (inDag y ("sql task " ++ quote t.id ++ " requires a conn (connection id)"))
      return {
        id := t.id, type := type, command := t.command, deps := t.deps, pool := pool, priority := t.priority,
        retries := retries, retryDelay := retryDelay, retryBackoff := backoff, retryDelayMax := t.retryDelayMax,
        timeout := t.timeout, sla := t.sla, triggerRule := rule, workerGroup := group, dependsOnDag := dependsOnDag,
        subdag := trimSpace t.subdag, when_ := trimSpace t.when_, http := http, conn := trimSpace t.conn,
        project := trimSpace t.project }

/-- Validate the tasks in order. -/
def parseTasks (env : Env) (y : DagYAML) (entries : List TaskYAML) : Except String (List Task) :=
  entries.foldlM (fun tasks t => do
    let totalDeps := (tasks.map (·.deps.length)).sum + t.deps.length
    let task ← parseTask env y (tasks.map (·.id)) totalDeps t
    return tasks ++ [task]) []

/-- One dependency of a task, `seen` being the ones before it. -/
def checkDep (y : DagYAML) (ids : List String) (t : Task) (seen : List String) (dep : String) :
    Except String (List String) := do
  require (!seen.contains dep) (inDag y ("task " ++ quote t.id ++ " has duplicate dependency " ++ quote dep))
  require (ids.contains dep) (inDag y ("task " ++ quote t.id ++ " depends on unknown task " ++ quote dep))
  require (dep ≠ t.id) (inDag y ("task " ++ quote t.id ++ " depends on itself"))
  return seen ++ [dep]

def checkDeps (y : DagYAML) (tasks : List Task) : Except String Unit :=
  tasks.forM (fun t => do let _ ← t.deps.foldlM (checkDep y (tasks.map (·.id)) t) [])

/-- Dependencies of a task, looked up by id. -/
def depsOf (tasks : List Task) (id : String) : List String :=
  ((tasks.find? (·.id = id)).map (·.deps)).getD []

def detectCycle (y : DagYAML) (tasks : List Task) : Except String Unit :=
  match Graph.detect (depsOf tasks) (tasks.map (·.id)) with
  | .ok _ => .ok ()
  | .error (.cycle path m) =>
    .error (inDag y ("dependency cycle detected: [" ++ " ".intercalate path ++ "] -> " ++ m))
  | .error .outOfFuel => .error (inDag y "unreachable")

/-- The zone and the limits of the document itself. -/
def parseHeader (env : Env) (y : DagYAML) : Except String Zone := do
  require (y.dagID ≠ "") "dag_id is required"
  require (y.dagID.utf8ByteSize ≤ maxIdentifierBytes) ("dag_id exceeds " ++ toString maxIdentifierBytes ++ " bytes")
  require (idPattern y.dagID) ("invalid dag_id " ++ quote y.dagID ++ ": use letters, digits, '_', '-', '.'")
  let loc ← if y.timezone = "" then pure env.utc else
    match env.loadLocation y.timezone with
    | some loc => pure loc
    | none => .error (inDag y ("invalid timezone " ++ quote y.timezone ++ " (use an IANA name like Asia/Shanghai)"))
  match if y.schedule = "" then .ok none else (parseScheduleIn env y.schedule y.timezone).map some with
  | .error e => .error (inDag y ("invalid schedule " ++ quote y.schedule ++ ": " ++ e))
  | .ok _ =>
    require (0 ≤ y.maxActiveRuns && y.maxActiveRuns ≤ maxActiveRunsLimit)
      (inDag y ("max_active_runs must be between 1 and " ++ toString maxActiveRunsLimit ++ " when set"))
    require (0 ≤ y.maxActiveTasks && y.maxActiveTasks ≤ maxTasks)
      (inDag y ("max_active_tasks must be between 0 and " ++ toString maxTasks))
    return loc

def checkLimits (y : DagYAML) : Except String Unit := do
  require (0 ≤ y.defaultRetries && y.defaultRetries ≤ maxRetries)
    (inDag y ("default_retries must be between 0 and " ++ toString maxRetries))
  require (0 ≤ y.defaultRetryDelay && y.defaultRetryDelay ≤ maxDurationSeconds)
    (inDag y ("default_retry_delay must be between 0 and " ++ toString maxDurationSeconds ++ " seconds"))
  require (0 ≤ y.sla && y.sla ≤ maxDurationSeconds && 0 ≤ y.dagrunTimeout && y.dagrunTimeout ≤ maxDurationSeconds)
    (inDag y ("sla/dagrun_timeout must be between 0 and " ++ toString maxDurationSeconds ++ " seconds"))
  require (y.tasks.length ≤ maxTasks) (inDag y ("task count exceeds " ++ toString maxTasks))
  require (y.triggerAfter.length ≤ maxTasks) (inDag y ("trigger_after count exceeds " ++ toString maxTasks))

/-- Validate a decoded document. -/
def validate (env : Env) (raw : String) (y : DagYAML) : Except String DAG := do
  let y := { y with timezone := trimSpace y.timezone }
  let loc ← parseHeader env y
  let policy ← parseExecutionPolicy y
  let startDate ← (parseStartDate env y.startDate loc).mapError (inDag y)
  checkLimits y
  let triggerAfter ← parseTriggerAfter y
  require (y.triggerOnEvent.length ≤ maxTasks) (inDag y ("trigger_on_event count exceeds " ++ toString maxTasks))
  let triggerOnEvent ← parseTriggerOnEvent y
  let notify ← parseNotify y
  let entries ← expandForeach env y.dagID y.tasks
  let tasks ← parseTasks env y entries
  checkDeps y tasks
  detectCycle y tasks
  return {
    dagID := y.dagID, schedule := y.schedule, timezone := y.timezone, startDate := startDate, catchup := y.catchup,
    maxActiveRuns := if y.maxActiveRuns = 0 then 1 else y.maxActiveRuns, maxActiveTasks := y.maxActiveTasks,
    executionPolicy := policy, defaultRetries := y.defaultRetries, definitionYAML := raw, tasks := tasks,
    triggerAfter := triggerAfter, triggerOnEvent := triggerOnEvent, notifyURL := notify.url, notifyOn := notify.on,
    notifyFormat := notify.format, notifyGroup := notify.group, sla := y.sla, dagrunTimeout := y.dagrunTimeout }

/-- Parse and validate a definition. The text is kept in the result. -/
def parse (env : Env) (raw : String) : Except String DAG := do
  require (raw ≠ "") "yaml: empty definition"
  require (raw.utf8ByteSize ≤ maxDefinitionBytes)
    ("yaml: definition exceeds " ++ toString maxDefinitionBytes ++ " bytes")
  let (y, trailing) ← (env.decode raw).mapError ("yaml: " ++ ·)
  match trailing with
  | .document => .error "yaml: multiple documents are not allowed"
  | .broken reason => .error ("yaml: trailing document: " ++ reason)
  | .eof => validate env raw y

/-- Libraries for concrete inputs: documents that are decoded already, and the
schedule of every minute. -/
def Env.ofDocuments (docs : List (String × DagYAML)) : Env where
  decode raw :=
    match List.lookup raw docs with
    | some y => .ok (y, .eof)
    | none => .error "cannot unmarshal"
  cronParse spec :=
    if spec = "* * * * *" then .ok ⟨fun t => (t / (60 * second) + 1) * (60 * second)⟩
    else .error "expected exactly 5 fields"
  loadLocation _ := none
  utc := ⟨fun _ => (1970, 1, 1), fun _ => 4, fun _ _ _ => 0, fun t _ _ _ => t⟩
  parseInLocation _ _ _ := none
  now := 0
  isWord c := c.isAlphanum

end Cronova.Parser
