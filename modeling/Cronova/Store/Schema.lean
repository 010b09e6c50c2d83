import Cronova.Relational.Table
import Mathlib.Logic.Function.Basic

/-! The portable schema of the metadata database, the same for SQLite and for
PostgreSQL: tables with their columns, keys and references, and rows of plain
values. -/
namespace Cronova.Store
open Cronova.Relational

inductive TableName where
  | dags | dagRuns | taskInstances | pools | dagDependencies | events | auditLog | apiTokens | aiProviders | users | sessions
  | variables | connections | alertGroups | workers | workerJoinTokens | schedulerLease | dagHooks | taskOutputs | dagVersions
  deriving DecidableEq, Repr

/-- A stored value. Timestamps are kept as texts. -/
inductive Val where
  | null
  | int (n : Int)
  | text (s : String)
  deriving DecidableEq, Repr

/-- The value of each column. -/
abbrev Row := String → Val

namespace TableName

/-- The columns of a table, those added by the upgrades included. -/
def columns : TableName → List String
  | .dags => ["dag_id", "schedule", "timezone", "start_date", "catchup", "paused", "max_active_runs", "definition_yaml",
      "owner", "project", "created_at", "updated_at", "deleted_at"]
  | .dagRuns => ["run_id", "dag_id", "logical_date", "state", "trigger_type", "started_at", "finished_at", "params",
      "definition_yaml", "definition_hash", "priority", "parent_run_id", "held"]
  | .taskInstances => ["id", "run_id", "task_id", "state", "try_number", "max_retries", "pool", "priority",
      "definition_hash", "executor_ref", "log_path", "started_at", "finished_at"]
  | .pools => ["name", "slots"]
  | .dagDependencies => ["upstream_dag", "downstream_dag"]
  | .events => ["id", "source", "event_key", "payload", "consumed", "created_at"]
  | .auditLog => ["id", "ts", "actor", "action", "target", "detail"]
  | .apiTokens => ["id", "name", "role", "token_hash", "prefix", "created_at", "last_used_at", "expires_at", "dag_id"]
  | .aiProviders => ["id", "name", "base_url", "model", "token", "is_default", "created_at", "updated_at"]
  | .users => ["id", "username", "password_hash", "role", "created_at", "updated_at"]
  | .sessions => ["token", "user_id", "created_at", "expires_at"]
  | .variables => ["key", "value", "updated_at"]
  | .connections => ["id", "type", "host", "port", "login", "password", "extra", "updated_at"]
  | .alertGroups => ["name", "channels", "updated_at"]
  | .workers => ["worker_id", "name", "labels", "state", "draining", "version", "active_tasks", "last_heartbeat",
      "created_at"]
  | .workerJoinTokens => ["token_hash", "created_by", "created_at", "expires_at", "used_at"]
  | .schedulerLease => ["id", "holder", "expires_at"]
  | .dagHooks => ["dag_id", "secret_hash", "prefix", "created_at"]
  | .taskOutputs => ["run_id", "task_id", "output"]
  | .dagVersions => ["id", "dag_id", "hash", "yaml", "ts"]

/-- The `id` column is numbered by the database. -/
def surrogate : TableName → Bool
  | .taskInstances | .events | .auditLog | .apiTokens | .users | .dagVersions => true
  | _ => false

/-- The columns that carry data of the program. -/
def dataColumns (t : TableName) : List String := t.columns.filter (fun col => !(t.surrogate && col = "id"))

/-- The column groups whose values are unique: the primary key, and the `UNIQUE` constraints. -/
def keys : TableName → List (List String)
  | .dags => [["dag_id"]]
  | .dagRuns => [["run_id"], ["dag_id", "logical_date"]]
  | .taskInstances => [["id"], ["run_id", "task_id"]]
  | .pools => [["name"]]
  | .dagDependencies => [["upstream_dag", "downstream_dag"]]
  | .events => [["id"], ["source", "event_key"]]
  | .auditLog => [["id"]]
  | .apiTokens => [["id"], ["token_hash"]]
  | .aiProviders => [["id"]]
  | .users => [["id"], ["username"]]
  | .sessions => [["token"]]
  | .variables => [["key"]]
  | .connections => [["id"]]
  | .alertGroups => [["name"]]
  | .workers => [["worker_id"]]
  | .workerJoinTokens => [["token_hash"]]
  | .schedulerLease => [["id"]]
  | .dagHooks => [["dag_id"]]
  | .taskOutputs => [["run_id", "task_id"]]
  | .dagVersions => [["id"]]

/-- The foreign keys, as column, referenced table and its column. -/
def references : TableName → List (String × TableName × String)
  | .dagRuns => [("dag_id", .dags, "dag_id")]
  | .taskInstances => [("run_id", .dagRuns, "run_id")]
  | .sessions => [("user_id", .users, "id")]
  | _ => []

/-- What a migration must carry over: everything but logins, join tokens and the lease. -/
def persistent : TableName → Bool
  | .sessions | .workerJoinTokens | .schedulerLease => false
  | _ => true

end TableName

/-- The unique values of a row. -/
def rowKey (t : TableName) (row : Row) : List (List Val) := t.keys.map (fun cols => cols.map row)

/-- Two rows agree on a unique group of columns. -/
def rowClash (a b : List (List Val)) : Prop := ∃ p ∈ a.zip b, p.1 = p.2

instance : DecidableRel rowClash := fun a b => inferInstanceAs (Decidable (∃ p ∈ a.zip b, p.1 = p.2))

/-- The rows of every table, without a violation of its keys. -/
abbrev Database := (t : TableName) → Table Row (rowKey t) rowClash

namespace Database
variable (db : Database)

/-- The rows a foreign key of the new row refers to exist. -/
def resolves (t : TableName) (row : Row) : Bool :=
  t.references.all (fun ref => (db ref.2.1).rows.any (fun parent => parent ref.2.2 = row ref.1))

/-- `INSERT INTO t`: refused when it would violate a key or a reference. -/
def insert? (t : TableName) (row : Row) : Option Database :=
  if db.resolves t row then ((db t).insert? row).map (fun rows => Function.update db t rows) else none

/-- The data of a table, without its surrogate ids. -/
def data (t : TableName) : List (List Val) := (db t).rows.map (fun row => t.dataColumns.map row)

/-- The number of rows of `child` whose `col` no row of `parent` has in `pcol`. -/
def orphans (child : TableName) (col : String) (parent : TableName) (pcol : String) : Nat :=
  ((db child).rows.filter (fun row => !(db parent).rows.any (fun p => p pcol = row col))).length

theorem insert?_rows {db db' : Database} {t : TableName} {row : Row} (h : db.insert? t row = some db') :
    (db' t).rows = (db t).rows ++ [row] ∧ ∀ u, u ≠ t → db' u = db u := by
  unfold insert? at h
  split at h
  · obtain ⟨rows, hrows, rfl⟩ := Option.map_eq_some_iff.mp h
    refine ⟨?_, fun u hu => Function.update_of_ne hu _ _⟩
    rw [Function.update_self]
    exact Table.rows_insert? hrows
  · cases h

end Database
end Cronova.Store
