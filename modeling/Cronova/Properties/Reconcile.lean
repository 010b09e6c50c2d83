import Cronova.Scheduler.Sequential

/-! Reconciliation of a run's rows with its definition. It compares two counts,
so a row of a task that is no longer defined can stand in for one that is missing. -/
namespace Cronova.Properties.Reconcile
open Cronova.Model Cronova.Store Cronova.Concurrency Cronova.Concurrency.Fallible Cronova.Scheduler

/-- The run has a row for the task. -/
def HasRow (runID taskID : String) (db : Db) : Prop := ∃ row ∈ db.tasks.rows, row.runID = runID ∧ row.taskID = taskID

/-- Each task of the definition has exactly one row in the run. -/
def Complete (run : DagRun) (d : DAG) (db : Db) : Prop :=
  ∀ t ∈ d.tasks, ∃! row, row ∈ db.tasks.rows ∧ row.runID = run.runID ∧ row.taskID = t.id

/-- The count of the run's rows gives the missing ones away, or none is missing. -/
def Telling (run : DagRun) (d : DAG) (db : Db) : Prop :=
  (db.listTaskInstances run.runID).length < d.tasks.length ∨ ∀ t ∈ d.tasks, HasRow run.runID t.id db

variable {cfg : Cfg} {run : DagRun} {d : DAG} {known : Known} {k : Kind} {t : Nat}

theorem complete_iff {db : Db} : Complete run d db ↔ ∀ t ∈ d.tasks, HasRow run.runID t.id db := by
  constructor
  · intro h t ht
    obtain ⟨row, ⟨hmem, hrow⟩, -⟩ := h t ht
    exact ⟨row, hmem, hrow⟩
  · intro h t ht
    obtain ⟨row, hmem, hrun, htask⟩ := h t ht
    refine ⟨row, ⟨hmem, hrun, htask⟩, ?_⟩
    rintro other ⟨hother, hrun', htask'⟩
    exact Db.task_unique hother hmem (hrun'.trans hrun.symm) (htask'.trans htask.symm)

/-- Creating an instance leaves the run with a row for its task, old or new. -/
private theorem create_hasRow (db : Db) (ti : TaskInstance) :
    ((db.apply (.createTaskInstance ti)).1 = .error .alreadyExists ∨
        ∃ id, (db.apply (.createTaskInstance ti)).1 = .ok id) ∧
      HasRow ti.runID ti.taskID (db.apply (.createTaskInstance ti)).2 ∧
      ∀ runID taskID, HasRow runID taskID db → HasRow runID taskID (db.apply (.createTaskInstance ti)).2 := by
  simp only [Db.apply]
  split
  · rename_i tasks htasks
    have hrows := Relational.Table.rows_insert? htasks
    refine ⟨.inr ⟨_, rfl⟩, ⟨{ ti with id := db.nextTaskID }, ?_, rfl, rfl⟩, ?_⟩
    · rw [hrows]
      simp
    · rintro runID taskID ⟨row, hmem, hrow⟩
      refine ⟨row, ?_, hrow⟩
      rw [hrows]
      exact List.mem_append_left _ hmem
  · rename_i hnone
    refine ⟨.inl rfl, ?_, fun _ _ h => h⟩
    obtain ⟨row, hmem, hclash⟩ := Relational.Table.insert?_eq_none_iff.mp hnone
    rcases hclash with hid | hkey
    · have hlt := Db.id_lt_nextTaskID hmem
      have : row.id = db.nextTaskID := hid
      omega
    · simp only [taskKey, Prod.mk.injEq] at hkey
      exact ⟨row, hmem, hkey⟩

/-- While the tasks of `rest` are left, every other task of the definition has a row. -/
private structure Expanding (run : DagRun) (d : DAG) (before : Db) (rest : List Task) (s : World) : Prop where
  kept : ∀ runID taskID, HasRow runID taskID before → HasRow runID taskID s.db
  others : ∀ t ∈ d.tasks, t ∈ rest ∨ HasRow run.runID t.id s.db

private theorem expandRun_triple (before : Db) :
    Triple (solo known k t) (Expanding run d before d.tasks) (expandRun cfg run d (before.listTaskInstances run.runID))
      (Ends (fun _ => Expanding run d before []) (fun _ => False)) := by
  refine Triple.forM_rest ?_ d.tasks
  intro task rest
  refine .ite (fun hfound => ?_) (fun _ => ?_)
  · refine .pure (fun s hs => ⟨hs.kept, ?_⟩)
    intro t ht
    rcases hs.others t ht with hmem | hrow
    · rcases List.mem_cons.mp hmem with rfl | hrest
      · obtain ⟨row, hrow⟩ := Option.isSome_iff_exists.mp hfound
        obtain ⟨hlisted, htask⟩ := findTI_spec hrow
        obtain ⟨hmem, hrun⟩ := Db.mem_listTaskInstances.mp hlisted
        exact .inr (hs.kept _ _ ⟨row, hmem, hrun, htask⟩)
      · exact .inl hrest
    · exact .inr hrow
  · have hcreate : Triple (solo known k t) (Expanding run d before (task :: rest))
        (statement (.createTaskInstance (newInstance cfg run d task)))
        (fun r s => (r = .error .alreadyExists ∨ ∃ id, r = .ok id) ∧ Expanding run d before rest s) := by
      refine (solo_statement _).weaken ?_
      rintro r s' ⟨s, hs, rfl, rfl⟩
      obtain ⟨hresult, hrow, hkept⟩ := create_hasRow s.db (newInstance cfg run d task)
      refine ⟨hresult, fun _ _ h => hkept _ _ (hs.kept _ _ h), ?_⟩
      intro t ht
      rcases hs.others t ht with hmem | hother
      · rcases List.mem_cons.mp hmem with rfl | hrest
        · exact .inr hrow
        · exact .inl hrest
      · exact .inr (hkept _ _ hother)
    refine .bind (m := fun r s => ∃ x, r = .ok x ∧ (x = .error .alreadyExists ∨ ∃ id, x = .ok id) ∧
      Expanding run d before rest s) (.outcome (hcreate.weaken fun r s h => ⟨r, rfl, h⟩)) ?_ ?_
    · rintro x s ⟨_, ⟨⟩, hx, hs⟩
      rcases hx with rfl | ⟨id, rfl⟩
      · exact hs
      · exact hs
    · rintro e s ⟨x, hx, -⟩
      cases hx

/-- Without store errors reconciliation returns the rows it leaves behind. -/
theorem reconcile_triple (w : World) :
    Triple (solo known k t) (· = w) (reconcile cfg run d) (fun r s => ∃ tis, r = .ok tis ∧
      tis = s.db.listTaskInstances run.runID ∧ (Complete run d s.db ↔ Telling run d w.db)) := by
  refine .bind (solo_list _) ?_ (fun _ _ h => h.elim)
  rintro tis s ⟨rfl, rfl⟩
  refine Triple.ite (fun hshort => ?_) (fun hlong => ?_) s rfl
  · refine .bind (m := Ends (fun _ => Expanding run d s.db []) (fun _ => False)) ((expandRun_triple s.db).strengthen ?_) ?_
      (fun _ _ h => h.elim)
    · rintro _ rfl
      exact ⟨fun _ _ h => h, fun t ht => .inl ht⟩
    · intro _
      refine (solo_list _).weaken ?_
      rintro r s' hr
      cases r with
      | error e => exact hr.elim
      | ok tis =>
        obtain ⟨rfl, hs'⟩ := hr
        refine ⟨_, rfl, rfl, ⟨fun _ => .inl hshort, fun _ => complete_iff.mpr ?_⟩⟩
        exact fun t ht => (hs'.others t ht).resolve_left (by simp)
  · refine .pure ?_
    rintro _ rfl
    refine ⟨_, rfl, rfl, ?_⟩
    rw [complete_iff]
    exact ⟨.inr, fun h => h.resolve_left hlong⟩

private theorem reconcile_prompt {answers : Answers} : Uses (Prompt answers) (reconcile cfg run d) := by
  have hlist : Uses (Prompt answers) (list (fun db => db.listTaskInstances run.runID)) := .call (prompt_read _)
  refine .bind hlist ?_
  intro tis
  split
  · refine .bind (.forM ?_) (fun _ => hlist)
    intro task _
    split
    · exact .pure _
    · refine .bind (.outcome (.call (prompt_write _))) ?_
      intro result
      split
      · exact .pure _
      · exact .pure _
      · exact .throw _
  · exact .pure _

/-- After reconciliation each task of the definition has exactly one row if and
only if the rows counted beforehand were fewer than the tasks or none was missing. -/
theorem reconcile_complete_iff (cfg : Cfg) (run : DagRun) (d : DAG) (w : World) (answers : Answers)
    (hanswers : Faultless answers) :
    ∃ tis w', w.perform .loop 0 answers 0 (reconcile cfg run d).run = some (.ok tis, w') ∧
      tis = w'.db.listTaskInstances run.runID ∧ (Complete run d w'.db ↔ Telling run d w.db) := by
  have hprompt : Uses (Prompt answers) (reconcile cfg run d) := reconcile_prompt
  obtain ⟨r, w', hp⟩ := perform_isSome hprompt .loop 0 0 w
  obtain ⟨tis, rfl, htis, hiff⟩ := perform_triple hanswers (anything_holds answers) (reconcile_triple w) rfl hp
  exact ⟨tis, w', hp, htis, hiff⟩

/-- A run whose definition lost the task `old` and gained the task `b`. -/
def editedRun : DagRun :=
  { runID := "job__1", dagID := "job", logicalDate := 0, state := .running, triggerType := .manual }

def editedDag : DAG := { dagID := "job", tasks := [{ id := "a", command := "x" }, { id := "b", command := "x" }] }

/-- The rows of some of the run's tasks. -/
def rowsOf (a b : TaskInstance) (h : ¬ taskClash (taskKey a) (taskKey b)) : World :=
  { db := { runs := ⟨[editedRun], List.pairwise_singleton _ _⟩, tasks := ⟨[a, b], by simp [h]⟩ }, dags := [editedDag] }

def editedCfg : Cfg := .ofDocuments []

/-- The retry that adopted the new definition stopped before it created `b`. -/
theorem orphan_hides_missing_task :
    ¬ ∀ (w w' : World) (tis : List TaskInstance), w.perform .loop 0 fine 0
      (reconcile editedCfg editedRun editedDag).run = some (.ok tis, w') → Complete editedRun editedDag w'.db := by
  intro h
  let w := rowsOf { id := 1, runID := "job__1", taskID := "a", state := .success }
    { id := 2, runID := "job__1", taskID := "old", state := .success } (by decide)
  have hplay : (w.perform .loop 0 fine 0 (reconcile editedCfg editedRun editedDag).run).map
      (fun p => (p.1.isOk, p.2.db.tasks.rows.map (·.taskID))) = some (true, ["a", "old"]) := by
    decide +kernel
  obtain ⟨⟨r, w'⟩, hp, heq⟩ := Option.map_eq_some_iff.mp hplay
  simp only [Prod.mk.injEq] at heq
  cases r with
  | error e => cases heq.1
  | ok tis =>
    obtain ⟨row, ⟨hmem, -, htask⟩, -⟩ := h w w' tis hp { id := "b", command := "x" } (by decide)
    have hin : row.taskID ∈ w'.db.tasks.rows.map (·.taskID) := List.mem_map_of_mem hmem
    rw [heq.2, htask] at hin
    revert hin
    decide

/-- A crash in the middle of the first expansion is repaired. -/
theorem reconcile_complete_iff_prefix :
    Faultless fine ∧ ∃ tis w', (rowsOf { id := 1, runID := "job__1", taskID := "a", state := .success }
        { id := 2, runID := "other__1", taskID := "a", state := .success } (by decide)).perform .loop 0 fine 0
          (reconcile editedCfg editedRun editedDag).run = some (.ok tis, w') ∧ Complete editedRun editedDag w'.db := by
  obtain ⟨tis, w', hp, -, hiff⟩ := reconcile_complete_iff editedCfg editedRun editedDag
    (rowsOf { id := 1, runID := "job__1", taskID := "a", state := .success }
      { id := 2, runID := "other__1", taskID := "a", state := .success } (by decide)) fine faultless_fine
  exact ⟨faultless_fine, tis, w', hp, hiff.mpr (.inl (by decide +kernel))⟩

end Cronova.Properties.Reconcile
