import Cronova.Http.Mux
import Cronova.Text.Strings

/-! The HTTP surface: the route table, how a request selects its handler, and what
`withAuth` lets through. -/
namespace Cronova.Api
open Cronova.Http Cronova.Text

inductive Handler where
  | getInfo | overview | listDAGs | dagGraph | schedulePreview | createDAG | buildDAG | validateDAG | getDAG | deleteDAG
  | triggerDAG | backfillDAG | publishEvent | setDagHook | getDagHook | deleteDagHook | hookTrigger | joinWorker
  | listWorkers | drainWorker | removeWorker | createWorkerToken | pauseDAG | listRuns | taskDurations | listDagVersions
  | restoreDagVersion | getRun | runTimeline | holdRun | releaseRun | cancelRun | retryRun | retryTask | markTask | markRun
  | getLog | streamLog | listPools | setPool | listVariables | setVariable | deleteVariable | listAlertGroups
  | setAlertGroup | deleteAlertGroup | listConnections | setConnection | deleteConnection | listAIProviders | setAIProvider
  | deleteAIProvider | listProjects | getProject | uploadProject | deleteProject | login | logout | me | healthz | readyz
  | metrics | listAudit | listTokens | createToken | deleteToken | openAPISpec | docsPage | docFile | askWiki
  /-- The console's files. -/
  | fileServer
  deriving DecidableEq, Repr

/-- One line of the route table. -/
structure Route where
  method : String
  pattern : Pattern
  handler : Handler
  deriving DecidableEq, Repr

/-- A pattern as it is registered. -/
def pattern (text : String) : Pattern :=
  (text.toList.tail.splitOn '/').map (fun s =>
    if s = "{path...}".toList then .rest else if s.head? = some '{' then .wild else .lit s)

def handle (method text : String) (handler : Handler) : Route := ⟨method, pattern text, handler⟩

/-- The route table of `Handler`, without the console. -/
def routes : List Route := [
  handle "GET" "/api/info" .getInfo,
  handle "GET" "/api/overview" .overview,
  handle "GET" "/api/dags" .listDAGs,
  handle "GET" "/api/dag-graph" .dagGraph,
  handle "GET" "/api/schedule/preview" .schedulePreview,
  handle "POST" "/api/dags" .createDAG,
  handle "POST" "/api/dags/build" .buildDAG,
  handle "POST" "/api/dags/validate" .validateDAG,
  handle "GET" "/api/dags/{id}" .getDAG,
  handle "DELETE" "/api/dags/{id}" .deleteDAG,
  handle "POST" "/api/dags/{id}/trigger" .triggerDAG,
  handle "POST" "/api/dags/{id}/backfill" .backfillDAG,
  handle "POST" "/api/events" .publishEvent,
  handle "POST" "/api/dags/{id}/hook" .setDagHook,
  handle "GET" "/api/dags/{id}/hook" .getDagHook,
  handle "DELETE" "/api/dags/{id}/hook" .deleteDagHook,
  handle "POST" "/api/hooks/{id}/{secret}" .hookTrigger,
  handle "POST" "/api/workers/join" .joinWorker,
  handle "GET" "/api/workers" .listWorkers,
  handle "POST" "/api/workers/{id}/drain" .drainWorker,
  handle "DELETE" "/api/workers/{id}" .removeWorker,
  handle "POST" "/api/worker-tokens" .createWorkerToken,
  handle "POST" "/api/dags/{id}/pause" .pauseDAG,
  handle "GET" "/api/dags/{id}/runs" .listRuns,
  handle "GET" "/api/dags/{id}/task-durations" .taskDurations,
  handle "GET" "/api/dags/{id}/versions" .listDagVersions,
  handle "POST" "/api/dags/{id}/versions/{hash}/restore" .restoreDagVersion,
  handle "GET" "/api/runs/{runID}" .getRun,
  handle "GET" "/api/runs/{runID}/timeline" .runTimeline,
  handle "POST" "/api/runs/{runID}/hold" .holdRun,
  handle "POST" "/api/runs/{runID}/release" .releaseRun,
  handle "POST" "/api/runs/{runID}/cancel" .cancelRun,
  handle "POST" "/api/runs/{runID}/retry" .retryRun,
  handle "POST" "/api/runs/{runID}/tasks/{taskID}/retry" .retryTask,
  handle "POST" "/api/runs/{runID}/tasks/{taskID}/mark" .markTask,
  handle "POST" "/api/runs/{runID}/mark" .markRun,
  handle "GET" "/api/tasks/{tiID}/log" .getLog,
  handle "GET" "/api/tasks/{tiID}/log/stream" .streamLog,
  handle "GET" "/api/pools" .listPools,
  handle "POST" "/api/pools/{name}" .setPool,
  handle "GET" "/api/variables" .listVariables,
  handle "POST" "/api/variables/{key}" .setVariable,
  handle "DELETE" "/api/variables/{key}" .deleteVariable,
  handle "GET" "/api/alert-groups" .listAlertGroups,
  handle "POST" "/api/alert-groups/{name}" .setAlertGroup,
  handle "DELETE" "/api/alert-groups/{name}" .deleteAlertGroup,
  handle "GET" "/api/connections" .listConnections,
  handle "POST" "/api/connections/{id}" .setConnection,
  handle "DELETE" "/api/connections/{id}" .deleteConnection,
  handle "GET" "/api/ai-providers" .listAIProviders,
  handle "POST" "/api/ai-providers/{id}" .setAIProvider,
  handle "DELETE" "/api/ai-providers/{id}" .deleteAIProvider,
  handle "GET" "/api/projects" .listProjects,
  handle "GET" "/api/projects/{name}" .getProject,
  handle "POST" "/api/projects/{name}" .uploadProject,
  handle "DELETE" "/api/projects/{name}" .deleteProject,
  handle "POST" "/api/login" .login,
  handle "POST" "/api/logout" .logout,
  handle "GET" "/api/me" .me,
  handle "GET" "/healthz" .healthz,
  handle "GET" "/readyz" .readyz,
  handle "GET" "/metrics" .metrics,
  handle "GET" "/api/audit" .listAudit,
  handle "GET" "/api/tokens" .listTokens,
  handle "POST" "/api/tokens" .createToken,
  handle "DELETE" "/api/tokens/{id}" .deleteToken,
  handle "GET" "/openapi.json" .openAPISpec,
  handle "GET" "/docs" .docsPage,
  handle "GET" "/doc/{path...}" .docFile,
  handle "POST" "/api/ask" .askWiki]

/-- The patterns of one method. -/
def patternsOf (method : String) : List (Pattern × Handler) :=
  (routes.filter (fun r => r.method = method)).map (fun r => (r.pattern, r.handler))

/-! ### Requests -/

/-- A request for a rooted path that can be unescaped. `rest` is what follows the
first slash of the escaped path; `path` is the path that the checks see. -/
structure Request where
  method : String
  rest : Bytes
  path : Bytes
  unescapes : pathUnescape ('/' :: rest) = some path

namespace Request
variable (r : Request)

/-- The segments of the path, each unescaped by itself. -/
def segs : List Bytes := (r.rest.splitOn '/').map unescaped

/-- The escaped path is its own `cleanPath`; any other is redirected. -/
def clean : Bool :=
  let raw := r.rest.splitOn '/'
  raw.dropLast.all (fun s => s ≠ []) && raw.all (fun s => s ≠ ['.'] && s ≠ ['.', '.'])

/-- The handler that the route table selects and its path values. A pattern for
GET matches HEAD too. -/
def dispatch : Option (Handler × List Bytes) :=
  if r.clean then
    (matchPath (patternsOf r.method) r.segs).or (if r.method = "HEAD" then matchPath (patternsOf "GET") r.segs else none)
  else none

/-- The handler of a clean path: the console serves what the table leaves. -/
def serve (web : Bool) : Option (Handler × List Bytes) :=
  r.dispatch.or (if web && r.clean then some (.fileServer, []) else none)

theorem path_eq : r.path = joined r.segs := by
  have h := r.unescapes
  rw [← joined_splitOn] at h
  exact pathUnescape_joined h

end Request

/-! ### Authorization -/

inductive Role where
  | admin | operator | viewer
  deriving DecidableEq, Repr

/-- Whether a path is a run-driving operation. -/
def isOperatorWrite (p : Bytes) : Bool :=
  "/api/runs/".toList.isPrefixOf p || p = "/api/events".toList ||
    ("/api/dags/".toList.isPrefixOf p &&
      ("/trigger".toList.isSuffixOf p || "/backfill".toList.isSuffixOf p || "/pause".toList.isSuffixOf p))

/-- The text before the first slash. -/
def firstSegment (p : Bytes) : Bytes := p.takeWhile (· ≠ '/')

/-- Whether a write to a path stays inside a DAG. -/
def writeTargetsDag (p dagID : Bytes) : Bool :=
  if "/api/dags/".toList.isPrefixOf p then pathUnescape (firstSegment (p.drop 10)) = some dagID
  else if "/api/runs/".toList.isPrefixOf p then
    ((pathUnescape (firstSegment (p.drop 10))).map (fun runID => (dagID ++ "__".toList).isPrefixOf runID)).getD false
  else false

/-- The paths that need no principal. -/
def isPublic (p : Bytes) : Bool :=
  p = "/api/login".toList || p = "/healthz".toList || p = "/readyz".toList || p = "/api/workers/join".toList ||
    "/api/hooks/".toList.isPrefixOf p || !"/api/".toList.isPrefixOf p

/-- Who issued a request, from a session or a token. -/
structure Principal where
  role : Role
  tokenDagScope : Bytes

/-- Whether `withAuth` hands the request of a principal to the mux. -/
def Request.authorized (r : Request) (user : Principal) : Bool :=
  isPublic r.path || r.method = "GET" || r.path = "/api/logout".toList ||
    ((user.role = .admin || (user.role = .operator && isOperatorWrite r.path)) &&
      (user.tokenDagScope = [] || writeTargetsDag r.path user.tokenDagScope))

end Cronova.Api
