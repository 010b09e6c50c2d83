import Cronova.Scheduler.Basics
import Cronova.Text.DateTmpl
import Cronova.Text.Template

/-! What an attempt is launched with: its command, environment and operator spec,
rendered from the task, the run's parameters, the variables, the connections and
the outputs of earlier tasks. -/
namespace Cronova.Scheduler
open Cronova.Model Cronova.Text Cronova.Text.Template

structure Connection where
  id : String
  type : String
  host : String
  port : Int
  login : String
  password : String
  /-- A JSON object of further fields. -/
  extra : String
  deriving DecidableEq, Repr

structure SQLSpec where
  driver : String := ""
  dsn : String := ""
  query : String
  err : String := ""
  deriving DecidableEq, Repr

/-- What the store answers while a task is rendered; a failed read has its text. -/
structure View where
  getTaskOutput : (runID taskID : String) → Except String String
  getVariable : String → Except String String
  getConnection : String → Except String Connection

/-- The libraries of the rendering. -/
structure Libs where
  toUpper : String → String
  /-- A flat JSON object of strings. -/
  decodeStringMap : String → Option Params
  /-- A JSON object with the raw text of its values. -/
  decodeRawMap : String → Option Params
  /-- A JSON string. -/
  decodeString : String → Option String
  /-- A JSON object with its scalars printed, `null` left out. -/
  decodePrinted : String → Option Params
  marshalHTTP : HTTPSpec → String
  marshalCode : String → String
  marshalSQL : SQLSpec → String
  postgresURL : (login password host path sslmode : String) → String
  mysqlDSN : (login password addr dbName : String) → String

/-- What the executor is asked to start. -/
structure Spec where
  taskRunID : String
  type : TaskType
  command : String
  env : Params
  timeout : Int
  logPath : String
  dir : String
  redact : List String
  deriving DecidableEq, Repr

variable (libs : Libs) (view : View)

/-! ### Placeholders -/

/-- The fields of a connection that a template can name. -/
def connField (c : Connection) (field : String) : Option String :=
  if field = "host" then some c.host
  else if field = "port" then some (toString c.port)
  else if field = "login" ∨ field = "user" then some c.login
  else if field = "password" then some c.password
  else if field = "type" then some c.type
  else
    match cutPrefix field "extra." with
    | none => none
    | some name =>
      if c.extra = "" then none
      else
        match libs.decodeRawMap c.extra with
        | none => none
        | some m => (List.lookup name m).map (fun raw => (libs.decodeString raw).getD (trimSpace raw))

/-- The base variables of a task: its run's date is the DAG's own calendar day. -/
def templateVars (run : DagRun) (t : Task) (tryNumber : Nat) (loc : Calendar) : Params :=
  [("run_id", run.runID), ("dag_id", run.dagID), ("task_id", t.id), ("try_number", toString tryNumber),
    ("logical_date", DateTmpl.dateOnly loc run.logicalDate), ("logical_datetime", loc.rfc3339 run.logicalDate)]

/-- A field of an earlier task's output, from `<task>.<field>`. -/
def outputValue (runID rest : String) : Option String := do
  let (taskID, field) ← cut rest '.'
  let out ← (view.getTaskOutput runID taskID).toOption
  let m ← libs.decodeStringMap out
  List.lookup field m

/-- A field of a connection, from `<connection>.<field>`. -/
def connValue (rest : String) : Option String := do
  let (id, field) ← cut rest '.'
  let c ← (view.getConnection id).toOption
  connField libs c field

/-- Resolve the key of a placeholder. -/
def templateResolver (runID : String) (base params : Params) (loc : Calendar) (logical : Time) (key : String) : Option String :=
  match List.lookup key base with
  | some v => some v
  | none =>
    if hasPrefix key "logical_date" then DateTmpl.eval loc logical (trimSpace key)
    else
      match cutPrefix key "params." with
      | some name => List.lookup name params
      | none =>
        match (if runID = "" then none else cutPrefix key "ti.") with
        | some rest => outputValue libs view runID rest
        | none =>
          match cutPrefix key "var." with
          | some name => (view.getVariable name).toOption
          | none => (cutPrefix key "conn.").bind (connValue libs view)

/-- A key that names a value which no log may show. -/
def isSecretKey (key : String) : Bool := hasPrefix key "conn." && hasSuffix key ".password"

/-- A resolver that notes the secrets it hands out. -/
def collectSecrets (resolve : String → Option String) (key : String) : StateM (List String) (Option String) := fun secrets =>
  match resolve key with
  | some v => (some v, if v ≠ "" ∧ isSecretKey key then secrets ++ [v] else secrets)
  | none => (none, secrets)

/-! ### Operators -/

section Monadic
variable {m : Type → Type} [Monad m]

/-- The values of headers, one after the other. -/
def renderHeaders (resolve : String → m (Option String)) : List (String × String) → m (List (String × String))
  | [] => pure []
  | (k, v) :: headers => do
    let v ← renderCommand v resolve
    let rest ← renderHeaders resolve headers
    return (k, v) :: rest

def resolveHTTPSpec (h : HTTPSpec) (resolve : String → m (Option String)) : m HTTPSpec := do
  let url ← renderCommand h.url resolve
  let body ← renderCommand h.body resolve
  let headers ← renderHeaders resolve h.headers
  return { h with url := url, body := body, headers := headers }

end Monadic

def hostPort (host : String) (port default : Int) : String := host ++ ":" ++ toString (if port ≤ 0 then default else port)

def parseExtra (raw : String) : Params :=
  if trimSpace raw = "" then [] else (libs.decodePrinted raw).getD []

/-- The driver and the data source name of a connection. -/
def buildDSN (c : Connection) : Except String (String × String) :=
  let extra := parseExtra libs c.extra
  let db := extra.get "database"
  let kind := toLower (trimSpace c.type)
  if kind = "postgres" ∨ kind = "postgresql" ∨ kind = "pg" then
    .ok ("pgx", libs.postgresURL c.login c.password (hostPort c.host c.port 5432) ("/" ++ db) (extra.get "sslmode"))
  else if kind = "mysql" ∨ kind = "mariadb" then
    .ok ("mysql", libs.mysqlDSN c.login c.password (hostPort c.host c.port 3306) db)
  else if kind = "sqlite" ∨ kind = "sqlite3" then .ok ("sqlite", c.host)
  else .error ("unsupported sql connection type " ++ quote c.type ++ " (want postgres/mysql/sqlite)")

/-- The spec of a sql task. The password is in the data source name, so it is a
secret even though no template named it. -/
def sqlOpSpec (connID query : String) (secrets : List String) : SQLSpec × List String :=
  match view.getConnection connID with
  | .error e => ({ query := query, err := "connection " ++ quote connID ++ " not found: " ++ e }, secrets)
  | .ok c =>
    let secrets := if c.password ≠ "" then secrets ++ [c.password] else secrets
    match buildDSN libs c with
    | .error e => ({ query := query, err := e }, secrets)
    | .ok (driver, dsn) => ({ driver := driver, dsn := dsn, query := query }, secrets)

def shellQuote (s : String) : String :=
  String.ofList (['\''] ++ s.toList.flatMap (fun c => if c = '\'' then ['\'', '\\', '\'', '\''] else [c]) ++ ['\''])

/-- How the process calls itself for a typed operator. -/
def opCommand (opBinary kind : String) : String := shellQuote opBinary ++ " run-op " ++ kind

/-- The command of a task, its operator spec and the secrets in both. -/
def renderOperator (opBinary : String) (t : Task) (resolve : String → Option String) :
    Except String (String × Option String × List String) :=
  let (command, secrets) := (renderCommand t.command (collectSecrets resolve)).run []
  match t.type with
  | .powershell | .jar => .ok (command, none, secrets)
  | .http =>
    match t.http with
    | none => .error "invalid http task definition"
    | some h =>
      let (hspec, secrets) := (resolveHTTPSpec h (collectSecrets resolve)).run secrets
      .ok (opCommand opBinary "http", some (libs.marshalHTTP hspec), secrets)
  | .python => .ok (opCommand opBinary "python", some (libs.marshalCode command), secrets)
  | .sql =>
    let (spec, secrets) := sqlOpSpec libs view t.conn command secrets
    .ok (opCommand opBinary "sql", some (libs.marshalSQL spec), secrets)
  | .subdag => .error "unsupported task type: subdag"

/-! ### Environment -/

/-- Set one variable of an environment. -/
def setEnv (env : Params) (key value : String) : Params := (key, value) :: env.filter (fun e => e.1 ≠ key)

/-- The environment of a task; `params` is in some order of the map. -/
def taskEnv (base params : Params) : Params :=
  let env := base.foldl (fun env e => setEnv env ("CRONOVA_" ++ libs.toUpper e.1) e.2) []
  params.foldl (fun env e => setEnv env ("CRONOVA_PARAM_" ++ libs.toUpper e.1) e.2) env

/-- Where the run of a task stands: what its templates resolve against. -/
def taskResolver (run : DagRun) (t : Task) (tryNumber : Nat) (loc : Calendar) : String → Option String :=
  templateResolver libs view run.runID (templateVars run t tryNumber loc) run.params loc run.logicalDate

/-- What `runTask` hands to the executor, or why the attempt fails before that.
`staged` is the outcome of copying the task's project. -/
def renderTask (opBinary : String) (run : DagRun) (t : Task) (ti : TaskInstance) (loc : Calendar) (staged : Except String String) :
    Except String Spec := do
  let base := templateVars run t ti.tryNumber loc
  let env := setEnv (taskEnv libs base run.params) "CRONOVA_OUTPUT" (outputPath ti.logPath ti.tryNumber)
  let attached := t.type = .powershell ∧ t.project ≠ ""
  let workspace ← if attached then staged.mapError ("stage project: " ++ ·) else pure ""
  let env := if attached then setEnv env "CRONOVA_PROJECT_DIR" workspace else env
  let (command, opSpec, secrets) ← renderOperator libs view opBinary t (taskResolver libs view run t ti.tryNumber loc)
  return {
    taskRunID := ti.executorRef, type := t.type, command := command
    env := match opSpec with
      | some blob => setEnv env "CRONOVA_OP_SPEC" blob
      | none => env
    timeout := t.timeout * second, logPath := ti.logPath, dir := workspace, redact := secrets }

/-- The rendered condition of a task. -/
def renderWhen (run : DagRun) (t : Task) (tryNumber : Nat) (loc : Calendar) : String :=
  Id.run (renderCommand t.when_ (fun key => pure (taskResolver libs view run t tryNumber loc key)))

end Cronova.Scheduler
