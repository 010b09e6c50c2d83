import Cronova.Store.Schema
import Mathlib.Algebra.Order.Ring.Int

/-! `cronova migrate-store`: the rows of a drained SQLite database are copied into
an empty PostgreSQL database, table by table in one transaction, and counted
afterwards. Surrogate ids are left to the sequences of the target. -/
namespace Cronova.Store
open Cronova.Relational

/-- A table to copy and the columns that are copied. -/
structure CopiedTable where
  name : TableName
  cols : List String
  deriving DecidableEq, Repr

/-- What is copied, in foreign-key order. -/
def tables : List CopiedTable :=
  [⟨.dags, ["dag_id", "schedule", "timezone", "start_date", "catchup", "paused", "max_active_runs", "definition_yaml",
      "owner", "project", "created_at", "updated_at", "deleted_at"]⟩,
    ⟨.dagRuns, ["run_id", "dag_id", "logical_date", "state", "trigger_type", "started_at", "finished_at", "params",
      "definition_yaml", "definition_hash", "priority", "parent_run_id", "held"]⟩,
    ⟨.taskInstances, ["run_id", "task_id", "state", "try_number", "max_retries", "pool", "priority", "definition_hash",
      "executor_ref", "log_path", "started_at", "finished_at"]⟩,
    ⟨.pools, ["name", "slots"]⟩,
    ⟨.dagDependencies, ["upstream_dag", "downstream_dag"]⟩,
    ⟨.events, ["source", "event_key", "payload", "consumed", "created_at"]⟩,
    ⟨.auditLog, ["ts", "actor", "action", "target", "detail"]⟩,
    ⟨.apiTokens, ["name", "role", "token_hash", "prefix", "created_at", "last_used_at", "expires_at", "dag_id"]⟩,
    ⟨.users, ["username", "password_hash", "role", "created_at", "updated_at"]⟩,
    ⟨.variables, ["key", "value", "updated_at"]⟩,
    ⟨.connections, ["id", "type", "host", "port", "login", "password", "extra", "updated_at"]⟩,
    ⟨.alertGroups, ["name", "channels", "updated_at"]⟩,
    ⟨.workers, ["worker_id", "name", "labels", "state", "draining", "version", "active_tasks", "last_heartbeat",
      "created_at"]⟩,
    ⟨.dagVersions, ["dag_id", "hash", "yaml", "ts"]⟩,
    ⟨.taskOutputs, ["run_id", "task_id", "output"]⟩,
    ⟨.dagHooks, ["dag_id", "secret_hash", "prefix", "created_at"]⟩]

/-- The target: its rows, and the last value each sequence has handed out. A
sequence never takes a value back. -/
structure Target where
  rows : Database
  seq : TableName → Nat

/-- What can go wrong for reasons outside the two databases' contents. -/
inductive MigrateStep where
  | read (t : TableName)
  | insert (t : TableName) (row : Nat)
  | commit
  | verify
  | report
  deriving DecidableEq, Repr

inductive MigrateErr where
  | activeRuns (n : Nat)
  | targetNotEmpty (t : TableName) (n : Nat)
  | insertRow (t : TableName) (row : Nat)
  | failed (step : MigrateStep)
  | verificationFailed (mismatches orphans : Nat)
  deriving DecidableEq, Repr

/-- The dependency-closure record. -/
structure MigrateReport where
  counts : List (TableName × Nat)
  orphans : List (String × Nat)
  mismatches : Nat
  deriving DecidableEq, Repr

def defaultPool : Row := fun col => if col = "name" then .text "default" else if col = "slots" then .int 16 else .null

/-- `Migrate` of either store, on a database with the current columns: the default
pool is there. -/
def Database.migrate (db : Database) : Database := (db.insert? .pools defaultPool).getD db

/-- `SET slots = EXCLUDED.slots` for the pool of that name. -/
def Database.setSlots (db : Database) (name slots : Val) : Database :=
  Function.update db .pools ((db .pools).modify (fun row => row "name" = name) (fun row => Function.update row "slots" slots)
    (fun _ => rfl))

/-- The row an `INSERT` of the listed columns stores. -/
def CopiedTable.stored (tb : CopiedTable) (id : Nat) (row : Row) : Row := fun col =>
  if tb.name.surrogate ∧ col = "id" then .int id else if col ∈ tb.cols then row col else .null

/-- Insert one row. The default of a surrogate id uses up a value of the sequence. -/
def Target.insert (dst : Target) (tb : CopiedTable) (row : Row) : Option Target :=
  let seq := Function.update dst.seq tb.name (dst.seq tb.name + 1)
  let row := tb.stored (seq tb.name) row
  if tb.name = .pools ∧ (dst.rows .pools).rows.any (fun pool => pool "name" = row "name") then
    some ⟨dst.rows.setSlots (row "name") (row "slots"), seq⟩
  else (dst.rows.insert? tb.name row).map (fun rows => ⟨rows, seq⟩)

variable (faults : MigrateStep → Bool)

/-- Insert the rows of one table, the first of which has number `n`. -/
def copyRows (tb : CopiedTable) : (n : Nat) → List Row → Target → Except MigrateErr Target
  | _, [], dst => .ok dst
  | n, row :: rows, dst =>
    if faults (.insert tb.name n) then .error (.insertRow tb.name (n + 1))
    else
      match dst.insert tb row with
      | some dst => copyRows tb (n + 1) rows dst
      | none => .error (.insertRow tb.name (n + 1))

def copyTables (src : Database) : List CopiedTable → Target → Except MigrateErr Target
  | [], dst => .ok dst
  | tb :: tbs, dst => do
    if faults (.read tb.name) then throw (.failed (.read tb.name))
    let dst ← copyRows faults tb 0 (src tb.name).rows dst
    copyTables src tbs dst

/-- Counts of both sides and orphaned references of the target. -/
def closureRecord (src dst : Database) : MigrateReport where
  counts := tables.map (fun tb => (tb.name, (src tb.name).rows.length))
  orphans := [("runs_without_dag", dst.orphans .dagRuns "dag_id" .dags "dag_id"),
    ("tasks_without_run", dst.orphans .taskInstances "run_id" .dagRuns "run_id"),
    ("outputs_without_run", dst.orphans .taskOutputs "run_id" .dagRuns "run_id"),
    ("versions_without_dag", dst.orphans .dagVersions "dag_id" .dags "dag_id")]
  mismatches := (tables.filter (fun tb => (dst tb.name).rows.length ≠ (src tb.name).rows.length)).length

def activeRuns (src : Database) : Nat :=
  ((src .dagRuns).rows.filter (fun row => row "state" = .text "queued" ∨ row "state" = .text "running")).length

/-- The migration: its result, and the target afterwards. A failed copy leaves the
rows of the target as they were before it; what it used up of the sequences is not
recorded. -/
def cmdMigrateStore (src : Database) (dst : Target) : Except MigrateErr MigrateReport × Target :=
  let src := src.migrate
  if 0 < activeRuns src then (.error (.activeRuns (activeRuns src)), dst)
  else
    match tables.find? (fun tb => 0 < (dst.rows tb.name).rows.length) with
    | some tb => (.error (.targetNotEmpty tb.name (dst.rows tb.name).rows.length), dst)
    | none =>
      let prepared : Target := { dst with rows := dst.rows.migrate }
      match copyTables faults src tables prepared with
      | .error e => (.error e, prepared)
      | .ok copied =>
        if faults .commit then (.error (.failed .commit), prepared)
        else if faults .verify then (.error (.failed .verify), copied)
        else
          let report := closureRecord src copied.rows
          let orphanTotal := (report.orphans.map (·.2)).sum
          if faults .report then (.error (.failed .report), copied)
          else if 0 < report.mismatches ∨ 0 < orphanTotal then
            (.error (.verificationFailed report.mismatches orphanTotal), copied)
          else (.ok report, copied)

/-! ### What is copied -/

/-- The column lists leave out no data of the listed tables. -/
theorem tables_columns : ∀ tb ∈ tables, tb.name.dataColumns ⊆ tb.cols := by decide

theorem tables_nodup : (tables.map (·.name)).Nodup := by decide

/-- The listed tables are the persistent ones, the configured AI providers apart. -/
theorem mem_tables_iff (t : TableName) : t ∈ tables.map (·.name) ↔ t.persistent = true ∧ t ≠ .aiProviders := by
  cases t <;> decide

theorem CopiedTable.stored_data {tb : CopiedTable} (htb : tb ∈ tables) (id : Nat) (row : Row) :
    tb.name.dataColumns.map (tb.stored id row) = tb.name.dataColumns.map row := by
  refine List.map_congr_left ?_
  intro col hcol
  have hlisted : col ∈ tb.cols := tables_columns tb htb hcol
  have hdata : ¬ (tb.name.surrogate = true ∧ col = "id") := by
    intro h
    simp [TableName.dataColumns, h.1, h.2] at hcol
  rw [CopiedTable.stored, if_neg hdata, if_pos hlisted]

variable {faults}

theorem Target.insert_frame {dst dst' : Target} {tb : CopiedTable} {row : Row} (h : dst.insert tb row = some dst')
    {t : TableName} (ht : t ≠ tb.name) : dst'.rows t = dst.rows t ∧ dst'.seq t = dst.seq t := by
  unfold Target.insert at h
  dsimp only at h
  split at h
  · rename_i hpool
    cases h
    exact ⟨Function.update_of_ne (hpool.1 ▸ ht) _ _, Function.update_of_ne ht _ _⟩
  · obtain ⟨rows, hrows, rfl⟩ := Option.map_eq_some_iff.mp h
    exact ⟨(Database.insert?_rows hrows).2 t ht, Function.update_of_ne ht _ _⟩

/-- An insert appends the row under the next value of the sequence. -/
theorem Target.insert_rows {dst dst' : Target} {tb : CopiedTable} {row : Row} (htb : tb.name ≠ .pools)
    (h : dst.insert tb row = some dst') :
    (dst'.rows tb.name).rows = (dst.rows tb.name).rows ++ [tb.stored (dst.seq tb.name + 1) row] ∧
      dst'.seq tb.name = dst.seq tb.name + 1 := by
  unfold Target.insert at h
  dsimp only at h
  rw [if_neg (fun hpool => htb hpool.1)] at h
  obtain ⟨rows, hrows, rfl⟩ := Option.map_eq_some_iff.mp h
  have hseq : Function.update dst.seq tb.name (dst.seq tb.name + 1) tb.name = dst.seq tb.name + 1 :=
    Function.update_self _ _ _
  exact ⟨by rw [(Database.insert?_rows hrows).1, hseq], hseq⟩

theorem copyRows_cons {tb : CopiedTable} {n : Nat} {row : Row} {rows : List Row} {dst dst' : Target}
    (h : copyRows faults tb n (row :: rows) dst = .ok dst') :
    ∃ mid, dst.insert tb row = some mid ∧ copyRows faults tb (n + 1) rows mid = .ok dst' := by
  simp only [copyRows] at h
  split at h
  · cases h
  · split at h
    · rename_i mid hmid
      exact ⟨mid, hmid, h⟩
    · cases h

theorem copyRows_frame {tb : CopiedTable} {n : Nat} {rows : List Row} {dst dst' : Target}
    (h : copyRows faults tb n rows dst = .ok dst') {t : TableName} (ht : t ≠ tb.name) :
    dst'.rows t = dst.rows t ∧ dst'.seq t = dst.seq t := by
  induction rows generalizing n dst with
  | nil =>
    cases h
    exact ⟨rfl, rfl⟩
  | cons row rows ih =>
    obtain ⟨mid, hmid, hrest⟩ := copyRows_cons h
    obtain ⟨hrows, hseq⟩ := ih hrest
    obtain ⟨hrows', hseq'⟩ := Target.insert_frame hmid ht
    exact ⟨hrows.trans hrows', hseq.trans hseq'⟩

/-- The rows arrive in order, numbered by the sequence. -/
theorem copyRows_rows {tb : CopiedTable} (htb : tb.name ≠ .pools) {n : Nat} {rows : List Row} {dst dst' : Target}
    (h : copyRows faults tb n rows dst = .ok dst') :
    (dst'.rows tb.name).rows = (dst.rows tb.name).rows ++
        (rows.zipIdx (dst.seq tb.name + 1)).map (fun p => tb.stored p.2 p.1) ∧
      dst'.seq tb.name = dst.seq tb.name + rows.length := by
  induction rows generalizing n dst with
  | nil =>
    cases h
    simp
  | cons row rows ih =>
    obtain ⟨mid, hmid, hrest⟩ := copyRows_cons h
    obtain ⟨hrows, hseq⟩ := ih hrest
    obtain ⟨hrow, hnext⟩ := Target.insert_rows htb hmid
    rw [hrows, hseq, hrow, hnext, List.zipIdx_cons, List.map_cons, List.append_assoc, List.length_cons]
    exact ⟨rfl, by omega⟩

/-! ### The pools -/

/-- The pools of the target once `copied` have been written: the seeded one stays
until a copied one takes its place. -/
def poolsAfter (copied : List Row) : List (List Val) :=
  (if ∃ row ∈ copied, row "name" = .text "default" then [] else [[.text "default", .int 16]]) ++
    copied.map (fun row => [row "name", row "slots"])

theorem Database.data_pools (db : Database) : db.data .pools = (db .pools).rows.map (fun row => [row "name", row "slots"]) := by
  unfold Database.data
  exact List.map_congr_left (fun row _ => by rfl)

/-- One upsert. -/
theorem Target.insert_pool {dst dst' : Target} {tb : CopiedTable} (htb : tb ∈ tables) (hname : tb.name = .pools) {row : Row}
    (h : dst.insert tb row = some dst') :
    (∃ pool ∈ dst.rows.data .pools, pool.head? = some (row "name")) ∧
        dst'.rows.data .pools =
          (dst.rows.data .pools).map (fun pool => if pool.head? = some (row "name") then [row "name", row "slots"] else pool) ∨
      (∀ pool ∈ dst.rows.data .pools, pool.head? ≠ some (row "name")) ∧
        dst'.rows.data .pools = dst.rows.data .pools ++ [[row "name", row "slots"]] := by
  have hstored : ∀ id, tb.stored id row "name" = row "name" ∧ tb.stored id row "slots" = row "slots" := by
    intro id
    have hdata := tb.stored_data htb id row
    rw [hname] at hdata
    simpa [TableName.dataColumns, TableName.columns, TableName.surrogate] using hdata
  unfold Target.insert at h
  simp only [hstored] at h
  simp only [Database.data_pools]
  split at h
  · rename_i hclash
    cases h
    left
    refine ⟨by simpa using hclash.2, ?_⟩
    simp only [Database.setSlots, Function.update_self, Table.modify, List.map_map]
    refine List.map_congr_left ?_
    intro pool _
    by_cases hp : pool "name" = row "name"
    · simp [hp]
    · simp [hp]
  · rename_i hnone
    obtain ⟨rows, hrows, rfl⟩ := Option.map_eq_some_iff.mp h
    right
    refine ⟨?_, ?_⟩
    · simpa [hname] using hnone
    · obtain ⟨hnew, -⟩ := Database.insert?_rows hrows
      rw [hname] at hnew
      simp [hnew, hstored]

theorem copyRows_pools {tb : CopiedTable} (htb : tb ∈ tables) (hname : tb.name = .pools) {n : Nat} {rows : List Row} (copied : List Row)
    {dst dst' : Target} (hnodup : ((copied ++ rows).map (· "name")).Nodup)
    (hdst : (dst.rows.data .pools).Perm (poolsAfter copied)) (h : copyRows faults tb n rows dst = .ok dst') :
    (dst'.rows.data .pools).Perm (poolsAfter (copied ++ rows)) := by
  induction rows generalizing n dst copied with
  | nil =>
    cases h
    rwa [List.append_nil]
  | cons row rows ih =>
    obtain ⟨mid, hmid, hrest⟩ := copyRows_cons h
    rw [List.append_cons] at hnodup ⊢
    refine ih (copied ++ [row]) hnodup ?_ hrest
    have hfresh : ∀ r ∈ copied, r "name" ≠ row "name" := by
      intro r hr heq
      rw [List.append_assoc, List.map_append, List.nodup_append] at hnodup
      exact hnodup.2.2 _ (List.mem_map_of_mem hr) _ (by simp) heq
    rcases Target.insert_pool htb hname hmid with ⟨⟨pool, hpool, hhead⟩, hdata⟩ | ⟨hnone, hdata⟩
    · rw [hdata]
      -- only the seeded pool can have the name already
      have hseed : pool = [.text "default", .int 16] ∧ ¬ ∃ r ∈ copied, r "name" = .text "default" := by
        have hmem := hdst.subset hpool
        rw [poolsAfter, List.mem_append] at hmem
        rcases hmem with hseed | hcopied
        · split at hseed
          · cases hseed
          · rename_i hno
            exact ⟨List.mem_singleton.mp hseed, hno⟩
        · obtain ⟨r, hr, rfl⟩ := List.mem_map.mp hcopied
          exact absurd (by simpa using hhead) (hfresh r hr)
      obtain ⟨rfl, hno⟩ := hseed
      have hdefault : row "name" = .text "default" := by simpa using hhead.symm
      have hkeep : copied.map ((fun pool : List Val => if pool.head? = some (row "name") then [row "name", row "slots"] else pool) ∘
          fun r => [r "name", r "slots"]) = copied.map (fun r => [r "name", r "slots"]) := by
        refine List.map_congr_left ?_
        intro r hr
        simp [hfresh r hr]
      have hmap := hdst.map (fun pool => if pool.head? = some (row "name") then [row "name", row "slots"] else pool)
      rw [poolsAfter, if_neg hno, List.map_append, List.map_map, hkeep] at hmap
      refine hmap.trans ?_
      have hafter : poolsAfter (copied ++ [row]) = copied.map (fun r => [r "name", r "slots"]) ++ [[row "name", row "slots"]] := by
        rw [poolsAfter, if_pos ⟨row, by simp, hdefault⟩]
        simp
      rw [hafter]
      simp only [hdefault, List.map_cons, List.map_nil, List.head?_cons, if_pos]
      exact List.perm_append_comm
    · rw [hdata]
      have hother : row "name" ≠ .text "default" := by
        intro hdefault
        have hseed : [Val.text "default", .int 16] ∈ poolsAfter copied := by
          have hno : ¬ ∃ r ∈ copied, r "name" = .text "default" := by
            rintro ⟨r, hr, heq⟩
            exact hfresh r hr (heq.trans hdefault.symm)
          rw [poolsAfter, if_neg hno]
          simp
        exact hnone _ (hdst.symm.subset hseed) (by simp [hdefault])
      have hafter : poolsAfter (copied ++ [row]) = poolsAfter copied ++ [[row "name", row "slots"]] := by
        have hiff : (∃ r ∈ copied ++ [row], r "name" = .text "default") ↔ ∃ r ∈ copied, r "name" = .text "default" := by
          simp [hother]
        simp only [poolsAfter, hiff, List.map_append, List.append_assoc]
        rfl
      rw [hafter]
      exact hdst.append_right _

/-! ### The whole copy -/

theorem copyTables_cons {src : Database} {tb : CopiedTable} {tbs : List CopiedTable} {dst dst' : Target}
    (h : copyTables faults src (tb :: tbs) dst = .ok dst') :
    ∃ mid, copyRows faults tb 0 (src tb.name).rows dst = .ok mid ∧ copyTables faults src tbs mid = .ok dst' := by
  simp only [copyTables] at h
  split at h
  · cases h
  · cases hmid : copyRows faults tb 0 (src tb.name).rows dst with
    | error e =>
      rw [hmid] at h
      cases h
    | ok mid =>
      rw [hmid] at h
      exact ⟨mid, rfl, h⟩

theorem copyTables_frame {src : Database} {tbs : List CopiedTable} {dst dst' : Target}
    (h : copyTables faults src tbs dst = .ok dst') {t : TableName} (ht : t ∉ tbs.map (·.name)) :
    dst'.rows t = dst.rows t ∧ dst'.seq t = dst.seq t := by
  induction tbs generalizing dst with
  | nil =>
    cases h
    exact ⟨rfl, rfl⟩
  | cons tb tbs ih =>
    obtain ⟨mid, hmid, hrest⟩ := copyTables_cons h
    rw [List.map_cons, List.mem_cons, not_or] at ht
    obtain ⟨hrows, hseq⟩ := ih hrest ht.2
    obtain ⟨hrows', hseq'⟩ := copyRows_frame hmid ht.1
    exact ⟨hrows.trans hrows', hseq.trans hseq'⟩

/-- Each table is copied once, from the rows it had at the start. -/
theorem copyTables_table {src : Database} {tbs : List CopiedTable} {dst dst' : Target}
    (h : copyTables faults src tbs dst = .ok dst') (hnodup : (tbs.map (·.name)).Nodup) {tb : CopiedTable} (htb : tb ∈ tbs) :
    ∃ before after, copyRows faults tb 0 (src tb.name).rows before = .ok after ∧ before.rows tb.name = dst.rows tb.name ∧
      before.seq tb.name = dst.seq tb.name ∧ dst'.rows tb.name = after.rows tb.name ∧ dst'.seq tb.name = after.seq tb.name := by
  induction tbs generalizing dst with
  | nil => cases htb
  | cons first tbs ih =>
    obtain ⟨mid, hmid, hrest⟩ := copyTables_cons h
    rw [List.map_cons, List.nodup_cons] at hnodup
    rcases List.mem_cons.mp htb with rfl | hlater
    · obtain ⟨hrows, hseq⟩ := copyTables_frame hrest hnodup.1
      exact ⟨dst, mid, hmid, rfl, rfl, hrows, hseq⟩
    · have hne : tb.name ≠ first.name := by
        intro heq
        exact hnodup.1 (heq ▸ List.mem_map_of_mem hlater)
      obtain ⟨before, after, hcopy, hrows, hseq, hfinal⟩ := ih hrest hnodup.2 hlater
      obtain ⟨hrows', hseq'⟩ := copyRows_frame hmid hne
      exact ⟨before, after, hcopy, hrows.trans hrows', hseq.trans hseq', hfinal⟩

theorem Database.migrate_frame (db : Database) {t : TableName} (ht : t ≠ .pools) : db.migrate t = db t := by
  unfold Database.migrate
  cases h : db.insert? .pools defaultPool with
  | none => rfl
  | some db' => exact (Database.insert?_rows h).2 t ht

/-- The default pool is there after `Migrate`. -/
theorem Database.migrate_default (db : Database) : ∃ row ∈ (db.migrate .pools).rows, row "name" = .text "default" := by
  unfold Database.migrate
  cases h : db.insert? .pools defaultPool with
  | some db' =>
    refine ⟨defaultPool, ?_, rfl⟩
    rw [Option.getD_some, (Database.insert?_rows h).1]
    simp
  | none =>
    rw [Database.insert?, if_pos (by rfl), Option.map_eq_none_iff, Table.insert?_eq_none_iff] at h
    obtain ⟨row, hrow, p, hp, heq⟩ := h
    refine ⟨row, hrow, ?_⟩
    simp only [rowKey, TableName.keys, List.map_cons, List.map_nil, List.zip_cons_cons, List.zip_nil_right, List.mem_singleton] at hp
    subst hp
    exact (List.cons.inj heq).1

/-- Into an empty table, only the default pool is seeded. -/
theorem Database.migrate_empty {db : Database} (h : (db .pools).rows = []) :
    db.migrate.data .pools = [[.text "default", .int 16]] := by
  have hnew : ∃ rows, (db .pools).insert? defaultPool = some rows := by
    rw [Table.insert?_isSome_iff, h]
    simp
  obtain ⟨rows, hrows⟩ := hnew
  have hinsert : db.insert? .pools defaultPool = some (Function.update db .pools rows) := by
    rw [Database.insert?, if_pos (by rfl), hrows]
    rfl
  rw [Database.migrate, hinsert, Option.getD_some, Database.data_pools, (Database.insert?_rows hinsert).1, h]
  rfl

theorem Database.pool_names (db : Database) : ((db .pools).rows.map (· "name")).Nodup := by
  rw [List.Nodup, List.pairwise_map]
  refine (db .pools).distinct.imp ?_
  intro a b hclash heq
  refine hclash ⟨([a "name"], [b "name"]), ?_, by simp only [heq]⟩
  simp [rowKey, TableName.keys]

/-- What a reported success means: the listed tables were empty, and hold the rows of
the source in order, numbered by their sequences; the pools hold the source's pools; the
other tables are as they were. -/
structure Copied (src : Database) (dst dst' : Target) : Prop where
  table : ∀ tb ∈ tables, tb.name ≠ .pools →
    (dst'.rows tb.name).rows = ((src tb.name).rows.zipIdx (dst.seq tb.name + 1)).map (fun p => tb.stored p.2 p.1) ∧
      dst'.seq tb.name = dst.seq tb.name + (src tb.name).rows.length
  pools : (dst'.rows.data .pools).Perm (src.data .pools)
  others : ∀ t, t ∉ tables.map (·.name) → dst'.rows t = dst.rows t

theorem cmdMigrateStore_ok {src : Database} {dst dst' : Target} {report : MigrateReport}
    (h : cmdMigrateStore faults src dst = (.ok report, dst')) : Copied src.migrate dst dst' := by
  unfold cmdMigrateStore at h
  dsimp only at h
  split at h
  · cases h
  · split at h
    · cases h
    · rename_i hempty
      split at h
      · cases h
      · rename_i copied hcopied
        obtain rfl : copied = dst' := by
          split at h
          · cases h
          · split at h
            · cases h
            · split at h
              · cases h
              · split at h
                · cases h
                · cases h
                  rfl
        have hnone : ∀ tb ∈ tables, (dst.rows tb.name).rows = [] := by
          intro tb htb
          have hzero := List.find?_eq_none.mp hempty tb htb
          simpa using hzero
        refine ⟨?_, ?_, ?_⟩
        · intro tb htb hpools
          obtain ⟨before, after, hcopy, hrows, hseq, hrows', hseq'⟩ := copyTables_table hcopied tables_nodup htb
          obtain ⟨hnew, hnext⟩ := copyRows_rows hpools hcopy
          have hmigrated : (dst.rows.migrate tb.name).rows = [] := by rw [dst.rows.migrate_frame hpools, hnone tb htb]
          rw [hrows', hseq', hnew, hnext, hrows, hseq]
          dsimp only
          rw [hmigrated]
          exact ⟨rfl, rfl⟩
        · have hpool : (⟨.pools, ["name", "slots"]⟩ : CopiedTable) ∈ tables := by decide
          obtain ⟨before, after, hcopy, hrows, -, hrows', -⟩ := copyTables_table hcopied tables_nodup hpool
          have hbefore : before.rows.data .pools = poolsAfter [] := by
            rw [Database.data, hrows]
            exact Database.migrate_empty (hnone _ hpool)
          have hafter := copyRows_pools hpool rfl [] src.migrate.pool_names (by rw [hbefore]) hcopy
          have hdata : copied.rows.data .pools = after.rows.data .pools := by
            rw [Database.data, hrows', Database.data]
          rw [hdata]
          rw [List.nil_append, poolsAfter, if_pos src.migrate_default] at hafter
          rwa [src.migrate.data_pools]
        · intro t ht
          rw [(copyTables_frame hcopied ht).1]
          refine dst.rows.migrate_frame ?_
          rintro rfl
          exact ht (by decide)

/-- Every listed table has the same data. -/
theorem Copied.data {src : Database} {dst dst' : Target} (h : Copied src dst dst') {t : TableName}
    (ht : t ∈ tables.map (·.name)) : (dst'.rows.data t).Perm (src.data t) := by
  obtain ⟨tb, htb, rfl⟩ := List.mem_map.mp ht
  by_cases hpools : tb.name = .pools
  · rw [hpools]
    exact h.pools
  · have hsame : dst'.rows.data tb.name = src.data tb.name := by
      rw [Database.data, (h.table tb htb hpools).1, List.map_map]
      have hstored : ∀ p : Row × Nat, tb.name.dataColumns.map (tb.stored p.2 p.1) = tb.name.dataColumns.map p.1 :=
        fun p => tb.stored_data htb p.2 p.1
      have hcomp : ((fun row : Row => tb.name.dataColumns.map row) ∘ fun p : Row × Nat => tb.stored p.2 p.1) =
          (fun row : Row => tb.name.dataColumns.map row) ∘ Prod.fst := by
        funext p
        exact hstored p
      rw [hcomp, ← List.map_map, List.zipIdx_map_fst]
      rfl
    rw [hsame]

end Cronova.Store
