import Cronova.Api.Client
import Cronova.Text.Strings

/-! The tools of the MCP server: endpoints of the catalog under names of their own. A call of
one becomes a request of the API. -/
namespace Cronova.Mcp
open Cronova.Http Cronova.Text Cronova.Api.Client

inductive Place where
  | path | query
  deriving DecidableEq, Repr

structure Param where
  name : String
  place : Place
  required : Bool
  deriving DecidableEq, Repr

def Param.path (name : String) : Param := ⟨name, .path, true⟩

def Param.query (name : String) (required : Bool) : Param := ⟨name, .query, required⟩

structure Endpoint where
  method : String
  path : String
  params : List Param := []
  deriving DecidableEq, Repr

/-- The endpoints that the API documents. -/
def apiCatalog : List Endpoint := [
  { method := "GET", path := "/api/dags" },
  { method := "POST", path := "/api/dags/build" },
  { method := "POST", path := "/api/dags/validate" },
  { method := "POST", path := "/api/dags" },
  { method := "GET", path := "/api/dags/{id}", params := [.path "id"] },
  { method := "DELETE", path := "/api/dags/{id}", params := [.path "id"] },
  { method := "POST", path := "/api/dags/{id}/pause", params := [.path "id", .query "paused" false] },
  { method := "GET", path := "/api/dags/{id}/runs", params := [.path "id", .query "limit" false, .query "offset" false, .query "state" false] },
  { method := "GET", path := "/api/dag-graph" },
  { method := "GET", path := "/api/schedule/preview", params := [.query "schedule" true, .query "n" false] },
  { method := "POST", path := "/api/dags/{id}/trigger", params := [.path "id"] },
  { method := "POST", path := "/api/dags/{id}/backfill", params := [.path "id"] },
  { method := "POST", path := "/api/events" },
  { method := "GET", path := "/api/dags/{id}/task-durations", params := [.path "id", .query "limit" false] },
  { method := "GET", path := "/api/dags/{id}/versions", params := [.path "id"] },
  { method := "POST", path := "/api/dags/{id}/versions/{hash}/restore", params := [.path "id", .path "hash"] },
  { method := "POST", path := "/api/dags/{id}/hook", params := [.path "id"] },
  { method := "GET", path := "/api/dags/{id}/hook", params := [.path "id"] },
  { method := "DELETE", path := "/api/dags/{id}/hook", params := [.path "id"] },
  { method := "GET", path := "/api/runs/{runID}", params := [.path "runID"] },
  { method := "GET", path := "/api/runs/{runID}/timeline", params := [.path "runID"] },
  { method := "POST", path := "/api/runs/{runID}/hold", params := [.path "runID"] },
  { method := "POST", path := "/api/runs/{runID}/release", params := [.path "runID"] },
  { method := "POST", path := "/api/runs/{runID}/cancel", params := [.path "runID"] },
  { method := "POST", path := "/api/runs/{runID}/retry", params := [.path "runID"] },
  { method := "POST", path := "/api/runs/{runID}/mark", params := [.path "runID"] },
  { method := "POST", path := "/api/runs/{runID}/tasks/{taskID}/retry", params := [.path "runID", .path "taskID"] },
  { method := "POST", path := "/api/runs/{runID}/tasks/{taskID}/mark", params := [.path "runID", .path "taskID"] },
  { method := "GET", path := "/api/tasks/{tiID}/log", params := [.path "tiID", .query "download" false] },
  { method := "GET", path := "/api/pools" },
  { method := "POST", path := "/api/pools/{name}", params := [.path "name", .query "slots" true] },
  { method := "GET", path := "/api/variables" },
  { method := "POST", path := "/api/variables/{key}", params := [.path "key"] },
  { method := "DELETE", path := "/api/variables/{key}", params := [.path "key"] },
  { method := "GET", path := "/api/alert-groups" },
  { method := "POST", path := "/api/alert-groups/{name}", params := [.path "name"] },
  { method := "DELETE", path := "/api/alert-groups/{name}", params := [.path "name"] },
  { method := "GET", path := "/api/connections" },
  { method := "POST", path := "/api/connections/{id}", params := [.path "id"] },
  { method := "DELETE", path := "/api/connections/{id}", params := [.path "id"] },
  { method := "GET", path := "/api/projects" },
  { method := "GET", path := "/api/projects/{name}", params := [.path "name"] },
  { method := "DELETE", path := "/api/projects/{name}", params := [.path "name"] },
  { method := "GET", path := "/api/workers" },
  { method := "POST", path := "/api/workers/join" },
  { method := "POST", path := "/api/workers/{id}/drain", params := [.path "id"] },
  { method := "DELETE", path := "/api/workers/{id}", params := [.path "id"] },
  { method := "POST", path := "/api/worker-tokens" },
  { method := "GET", path := "/api/tokens" },
  { method := "POST", path := "/api/tokens" },
  { method := "DELETE", path := "/api/tokens/{id}", params := [.path "id"] },
  { method := "GET", path := "/api/overview" },
  { method := "GET", path := "/api/audit", params := [.query "target" false, .query "limit" false] },
  { method := "GET", path := "/api/info" },
  { method := "GET", path := "/api/me" },
  { method := "POST", path := "/api/login" },
  { method := "POST", path := "/api/logout" },
  { method := "GET", path := "/healthz" },
  { method := "GET", path := "/readyz" },
  { method := "GET", path := "/metrics" }]

inductive Class where
  | directRead | directDraft | prepareApprove | humanOnly | internalOnly
  deriving DecidableEq, Repr

def classifyOverride : List (String × Class) := [
  ("POST /api/worker-tokens", .humanOnly),
  ("POST /api/workers/join", .internalOnly),
  ("POST /api/hooks/{id}/{secret}", .internalOnly),
  ("POST /api/login", .internalOnly)]

/-- An override, or what the method says. -/
def classify (method path : String) : Class :=
  match classifyOverride.lookup (method ++ " " ++ path) with
  | some c => c
  | none =>
    if method = "GET" then .directRead
    else if hasSuffix path "/validate" then .directDraft
    else .prepareApprove

def toolNames : List (String × String) := [
  ("GET /api/dags", "list_dags"),
  ("POST /api/dags/build", "create_dag"),
  ("POST /api/dags/validate", "validate_dag"),
  ("GET /api/dags/{id}", "get_dag"),
  ("DELETE /api/dags/{id}", "delete_dag"),
  ("POST /api/dags/{id}/pause", "pause_dag"),
  ("GET /api/dags/{id}/runs", "list_dag_runs"),
  ("GET /api/dag-graph", "get_dag_graph"),
  ("GET /api/schedule/preview", "preview_schedule"),
  ("POST /api/dags/{id}/trigger", "trigger_dag"),
  ("POST /api/dags/{id}/backfill", "backfill_dag"),
  ("POST /api/events", "publish_event"),
  ("GET /api/dags/{id}/task-durations", "get_task_durations"),
  ("GET /api/dags/{id}/versions", "list_dag_versions"),
  ("GET /api/runs/{runID}", "get_run"),
  ("POST /api/runs/{runID}/cancel", "cancel_run"),
  ("POST /api/runs/{runID}/retry", "retry_run"),
  ("POST /api/runs/{runID}/mark", "mark_run"),
  ("POST /api/runs/{runID}/tasks/{taskID}/retry", "retry_task"),
  ("POST /api/runs/{runID}/tasks/{taskID}/mark", "mark_task"),
  ("GET /api/tasks/{tiID}/log", "get_task_log"),
  ("GET /api/pools", "list_pools"),
  ("POST /api/pools/{name}", "set_pool"),
  ("GET /api/variables", "list_variables"),
  ("POST /api/variables/{key}", "set_variable"),
  ("DELETE /api/variables/{key}", "delete_variable"),
  ("GET /api/connections", "list_connections"),
  ("POST /api/connections/{id}", "set_connection"),
  ("DELETE /api/connections/{id}", "delete_connection"),
  ("GET /api/projects", "list_projects"),
  ("GET /api/projects/{name}", "get_project"),
  ("DELETE /api/projects/{name}", "delete_project"),
  ("GET /api/overview", "get_overview"),
  ("GET /api/audit", "list_audit")]

structure Tool where
  name : String
  ep : Endpoint
  deriving DecidableEq, Repr

/-- The tool of an endpoint, if there is one. -/
def toolOf (readOnly : Bool) (ep : Endpoint) : Option Tool :=
  let c := classify ep.method ep.path
  if c = .humanOnly ∨ c = .internalOnly then none
  else
    match toolNames.lookup (ep.method ++ " " ++ ep.path) with
    | none => none
    | some name => if readOnly ∧ c ≠ .directRead then none else some { name := name, ep := ep }

/-- In the order of the catalog. -/
def BuildTools (readOnly : Bool) : List Tool := apiCatalog.filterMap (toolOf readOnly)

/-- What a call hands to the client. -/
structure Options (V : Type) where
  path : List (Bytes × Bytes)
  query : List (Bytes × Bytes)
  body : List (String × V)

section Invoke
variable {V : Type} (toStr : V → Bytes)

def kind (ep : Endpoint) (name : String) : Option Place := (ep.params.find? (fun p => p.name = name)).map (·.place)

/-- The arguments of one place, in the order in which the map is walked. -/
def argsOf (ep : Endpoint) (place : Place) (args : List (String × V)) : List (Bytes × Bytes) :=
  (args.filter (fun a => kind ep a.1 = some place)).map (fun a => (a.1.toList, toStr a.2))

/-- A required path parameter that has no value. -/
def missing (ep : Endpoint) (args : List (String × V)) : Option Param :=
  ep.params.find? (fun p => p.place = .path && p.required && ((argsOf toStr ep .path args).lookup p.name.toList).getD [] = [])

def Invoke (t : Tool) (args : List (String × V)) : Except String (Options V) :=
  match missing toStr t.ep args with
  | some p => .error ("missing required argument " ++ quote p.name)
  | none =>
    .ok
      { path := argsOf toStr t.ep .path args
        query := argsOf toStr t.ep .query args
        body := args.filter (fun a => kind t.ep a.1 = none) }

/-- The request of a call. -/
def call (t : Tool) (args : List (String × V)) : Except String (Option Api.Request) :=
  (Invoke toStr t args).map (fun o => Call t.ep.method t.ep.path o.path)

end Invoke
end Cronova.Mcp
