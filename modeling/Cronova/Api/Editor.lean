import Cronova.Parser.Canonical

/-! The workflow editor: `getDAG` hands out a stored definition, the editor posts
it back as a spec, and `specToYAML` renders the spec as a definition again. Four
lists of fields have to stay aligned for that. -/
namespace Cronova.Api
open Cronova.Model Cronova.Parser Cronova.Text

/-- The libraries behind the editor. `rfc3339` is the JSON text of an instant
whose year has four digits, and `marshal` renders a document in which a field
that is left out has its zero value. -/
structure Editor where
  env : Parser.Env
  definitionHash : String → String
  rfc3339 : Time → String
  marshal : DagYAML → String

variable (ed : Editor)

/-! ### Loading -/

/-- The columns of a registered definition that a load reads. -/
structure StoredDAG where
  dagID : String
  schedule : String
  timezone : String
  startDate : Time
  catchup : Bool
  paused : Bool
  maxActiveRuns : Int
  definitionYAML : String
  deriving DecidableEq, Repr

/-- An instant as it is read back from a column: one whose year has not four
digits is not readable, and becomes the zero value. -/
def storedTime (t : Time) : Time := if -62167219200 * second ≤ t ∧ t < 253402300800 * second then t else zeroTime

/-- The row of a definition that is registered for the first time. -/
def upsertDAG (d : DAG) : StoredDAG where
  dagID := d.dagID
  schedule := d.schedule
  timezone := d.timezone
  startDate := storedTime d.startDate
  catchup := d.catchup
  paused := d.paused
  maxActiveRuns := d.maxActiveRuns
  definitionYAML := d.definitionYAML

/-- A stored row as a definition; what has no column has its zero value. -/
def scanDAG (row : StoredDAG) : DAG :=
  { dagID := row.dagID, schedule := row.schedule, timezone := row.timezone, startDate := row.startDate,
    catchup := row.catchup, paused := row.paused, maxActiveRuns := row.maxActiveRuns, definitionYAML := row.definitionYAML }

/-- A task shaped for the editor. An unset retry field stays unset. -/
structure EditTask where
  id : String
  type : String
  command : String
  deps : List String
  pool : String
  priority : Int
  retries : Option Int
  retryDelay : Option Int
  retryBackoff : String
  retryDelayMax : Int
  timeout : Int
  sla : Int
  triggerRule : String
  http : Option HTTPSpec
  conn : String
  project : String
  workerGroup : String
  subdag : String
  dependsOnDag : Option DependsOnDag
  deriving DecidableEq, Repr

/-- A definition shaped for the editor. -/
structure DagDetail where
  dag : DAG
  tasks : List EditTask
  definitionHash : String
  deriving DecidableEq, Repr

/-- The retry fields of the task list as it is written, the last entry of an id
winning. -/
def rawByID (env : Parser.Env) (definitionYAML id : String) : Option Int × Option Int :=
  match env.decode definitionYAML with
  | .error _ => (none, none)
  | .ok (y, _) => ((y.tasks.reverse.find? (·.id = id)).map (fun rt => (rt.retries, rt.retryDelay))).getD (none, none)

def editTask (definitionYAML : String) (tk : Task) : EditTask where
  id := tk.id
  type := tk.type.text
  command := tk.command
  deps := tk.deps
  pool := tk.pool
  priority := tk.priority
  retries := (rawByID ed.env definitionYAML tk.id).1
  retryDelay := (rawByID ed.env definitionYAML tk.id).2
  retryBackoff := tk.retryBackoff.text
  retryDelayMax := tk.retryDelayMax
  timeout := tk.timeout
  sla := tk.sla
  triggerRule := tk.triggerRule.text
  http := tk.http
  conn := tk.conn
  project := tk.project
  workerGroup := tk.workerGroup
  subdag := tk.subdag
  dependsOnDag := tk.dependsOnDag

/-- The stored text is parsed again, for what has no column. -/
def getDAG (now : Time) (row : StoredDAG) : DagDetail :=
  let d := scanDAG row
  match parse (ed.env.at now) row.definitionYAML with
  | .error _ => { dag := d, tasks := [], definitionHash := ed.definitionHash row.definitionYAML }
  | .ok parsed =>
    { dag := { d with
        triggerAfter := parsed.triggerAfter, defaultRetries := parsed.defaultRetries, notifyURL := parsed.notifyURL
        notifyOn := parsed.notifyOn, notifyFormat := parsed.notifyFormat, notifyGroup := parsed.notifyGroup
        executionPolicy := parsed.executionPolicy, sla := parsed.sla, dagrunTimeout := parsed.dagrunTimeout }
      tasks := parsed.tasks.map (editTask ed row.definitionYAML)
      definitionHash := ed.definitionHash row.definitionYAML }

/-! ### Saving -/

structure TaskSpec where
  id : String
  type : String
  command : String
  deps : List String
  pool : String
  priority : Int
  retries : Option Int
  retryDelay : Option Int
  retryBackoff : String
  retryDelayMax : Int
  timeout : Int
  sla : Int
  triggerRule : String
  http : Option HTTPSpec
  conn : String
  project : String
  workerGroup : String
  subdag : String
  dependsOnDag : Option DependsOnDag
  deriving DecidableEq, Repr

structure DagSpec where
  dagID : String
  schedule : String
  startDate : String
  catchup : Bool
  maxActiveRuns : Int
  executionPolicy : String
  defaultRetries : Int
  tasks : List TaskSpec
  triggerAfter : List String
  notifyURL : String
  notifyOn : List String
  notifyFormat : String
  notifyGroup : String
  sla : Int
  dagrunTimeout : Int
  expectedHash : String
  deriving DecidableEq, Repr

def EditTask.spec (t : EditTask) : TaskSpec where
  id := t.id
  type := t.type
  command := t.command
  deps := t.deps
  pool := t.pool
  priority := t.priority
  retries := t.retries
  retryDelay := t.retryDelay
  retryBackoff := t.retryBackoff
  retryDelayMax := t.retryDelayMax
  timeout := t.timeout
  sla := t.sla
  triggerRule := t.triggerRule
  http := t.http
  conn := t.conn
  project := t.project
  workerGroup := t.workerGroup
  subdag := t.subdag
  dependsOnDag := t.dependsOnDag

/-- An editor that saves what it has loaded. -/
def DagDetail.spec (d : DagDetail) : DagSpec where
  dagID := d.dag.dagID
  schedule := d.dag.schedule
  startDate := ed.rfc3339 d.dag.startDate
  catchup := d.dag.catchup
  maxActiveRuns := d.dag.maxActiveRuns
  executionPolicy := d.dag.executionPolicy.text
  defaultRetries := d.dag.defaultRetries
  tasks := d.tasks.map EditTask.spec
  triggerAfter := d.dag.triggerAfter
  notifyURL := d.dag.notifyURL
  notifyOn := d.dag.notifyOn
  notifyFormat := d.dag.notifyFormat
  notifyGroup := d.dag.notifyGroup
  sla := d.dag.sla
  dagrunTimeout := d.dag.dagrunTimeout
  expectedHash := d.definitionHash

/-- A cross-DAG wait without a target is dropped. -/
def depOut (d : DependsOnDag) : Option DependsOnDagYAML :=
  if trimSpace d.dag = "" then none
  else some { dag := trimSpace d.dag, offset := trimSpace d.offset, timeout := d.timeout, onTimeout := d.onTimeout.text }

def taskOut (t : TaskSpec) : TaskYAML where
  id := t.id
  type := t.type
  -- a subdag task runs a child DAG, never a command
  command := if t.type = "subdag" then "" else t.command
  deps := t.deps
  pool := t.pool
  priority := t.priority
  retries := t.retries
  retryDelay := t.retryDelay
  retryBackoff := t.retryBackoff
  retryDelayMax := t.retryDelayMax
  timeout := t.timeout
  sla := t.sla
  triggerRule := t.triggerRule
  conn := t.conn
  project := t.project
  workerGroup := t.workerGroup
  subdag := if t.type = "subdag" then trimSpace t.subdag else ""
  dependsOnDag := t.dependsOnDag.bind depOut
  http := if t.type = "http" then t.http else none

def notifyOut (spec : DagSpec) : NotifyYAML :=
  let url := trimSpace spec.notifyURL
  let group := trimSpace spec.notifyGroup
  if url = "" ∧ group = "" then {}
  else { url := url, on := spec.notifyOn.filter (fun ev => ev = "failure" ∨ ev = "success"), format := spec.notifyFormat, group := group }

def dagOut (spec : DagSpec) : DagYAML where
  dagID := spec.dagID
  schedule := spec.schedule
  startDate := spec.startDate
  catchup := spec.catchup
  maxActiveRuns := spec.maxActiveRuns
  executionPolicy := spec.executionPolicy
  defaultRetries := spec.defaultRetries
  sla := spec.sla
  dagrunTimeout := spec.dagrunTimeout
  tasks := spec.tasks.map taskOut
  triggerAfter := spec.triggerAfter.filter (· ≠ "")
  notify := notifyOut spec

def specToYAML (spec : DagSpec) : String := ed.marshal (dagOut spec)

end Cronova.Api
