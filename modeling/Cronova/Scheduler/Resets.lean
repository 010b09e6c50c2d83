import Cronova.Graph.BreadthFirst
import Cronova.Scheduler.Blocking
import Cronova.Scheduler.Stepwise
import Mathlib.Algebra.BigOperators.Group.Finset.Piecewise

/-! What the operations that reset tasks share: the tasks downstream of one, and
the stored states of a run's instances as a function of the task. -/
namespace Cronova.Scheduler
open Cronova.Model Cronova.Store Cronova.Concurrency Cronova.Concurrency.Fallible Cronova.Relational

/-! ### Downstream -/

/-- Task `b` depends on task `a`, over any number of steps. -/
def Downstream (tasks : List Task) : String → String → Prop :=
  Relation.ReflTransGen (fun a b => ∃ t ∈ tasks, a ∈ t.deps ∧ t.id = b)

theorem mem_dependents {tasks : List Task} {a b : String} : b ∈ dependents tasks a ↔ ∃ t ∈ tasks, a ∈ t.deps ∧ t.id = b := by
  simp only [dependents, List.mem_flatMap, List.mem_map, List.mem_filter, decide_eq_true_eq]
  constructor
  · rintro ⟨t, ht, a, ⟨ha, rfl⟩, hid⟩
    exact ⟨t, ht, ha, hid⟩
  · rintro ⟨t, ht, ha, hid⟩
    exact ⟨t, ht, a, ⟨ha, rfl⟩, hid⟩

theorem reachable_eq_downstream (tasks : List Task) : Graph.Reachable (dependents tasks) = Downstream tasks := by
  have hedge : (fun a b => b ∈ dependents tasks a) = fun a b => ∃ t ∈ tasks, a ∈ t.deps ∧ t.id = b := by
    funext a b
    exact propext mem_dependents
  rw [Downstream, ← hedge]
  rfl

theorem closureLoop_eq_search (tasks : List Task) (fuel : Nat) (closure queue : List String) :
    closureLoop tasks fuel closure queue = Graph.search (dependents tasks) fuel closure queue := by
  induction fuel generalizing closure queue with
  | zero => rfl
  | succ fuel ih =>
    cases queue with
    | nil => rfl
    | cons id queue => rw [closureLoop, Graph.search, ih, ih]

/-- A task is the dependent of each of its dependencies once. -/
theorem dependents_atMost (tasks : List Task) : Graph.AtMost (dependents tasks) (tasks.map (·.deps.length)).sum := by
  intro l hl
  rw [Graph.edges, ← List.sum_toFinset _ hl]
  induction tasks with
  | nil => simp [dependents]
  | cons t tasks ih =>
    have hone : ∑ a ∈ l.toFinset, t.deps.count a ≤ t.deps.length := by
      generalize t.deps = deps
      induction deps with
      | nil => simp
      | cons d deps ihd =>
        have hfirst : ∑ a ∈ l.toFinset, (if (d == a) = true then 1 else 0) ≤ 1 := by
          simp only [beq_iff_eq, Finset.sum_ite_eq]
          split <;> omega
        simp only [List.count_cons, Finset.sum_add_distrib, List.length_cons]
        omega
    have hlength : ∀ a, (dependents (t :: tasks) a).length = t.deps.count a + (dependents tasks a).length := by
      intro a
      rw [dependents, List.flatMap_cons, List.length_append, List.length_map, ← List.countP_eq_length_filter, List.count]
      rfl
    simp only [hlength, Finset.sum_add_distrib, List.map_cons, List.sum_cons]
    omega

/-- The closure of a task is what depends on it, the task itself included. -/
theorem mem_downstreamClosure {tasks : List Task} {a b : String} : b ∈ downstreamClosure tasks a ↔ Downstream tasks a b := by
  rw [downstreamClosure, closureLoop_eq_search, Graph.mem_search (dependents_atMost tasks), reachable_eq_downstream]

theorem Downstream.dependent {tasks : List Task} {a b : String} {t : Task} (h : Downstream tasks a b) (ht : t ∈ tasks)
    (hdep : b ∈ t.deps) : Downstream tasks a t.id :=
  h.tail ⟨t, ht, hdep, rfl⟩

/-! ### Stored states -/

/-- The stored states of a run's instances. -/
def statesOf (db : Db) (runID : String) : States := states (db.listTaskInstances runID)

theorem findTI_list {db : Db} {runID taskID : String} {ti : TaskInstance} :
    findTI (db.listTaskInstances runID) taskID = some ti ↔ ti ∈ db.tasks.rows ∧ ti.runID = runID ∧ ti.taskID = taskID := by
  constructor
  · intro h
    obtain ⟨hmem, htask⟩ := findTI_spec h
    obtain ⟨hrow, hrun⟩ := Db.mem_listTaskInstances.mp hmem
    exact ⟨hrow, hrun, htask⟩
  · rintro ⟨hrow, hrun, rfl⟩
    exact findTI_of_mem (listTaskInstances_nodup db runID) (Db.mem_listTaskInstances.mpr ⟨hrow, hrun⟩)

theorem statesOf_eq_some {db : Db} {runID taskID : String} {s : TaskState} :
    statesOf db runID taskID = some s ↔ ∃ ti ∈ db.tasks.rows, ti.runID = runID ∧ ti.taskID = taskID ∧ ti.state = s := by
  rw [statesOf, states, Option.map_eq_some_iff]
  constructor
  · rintro ⟨ti, hti, rfl⟩
    obtain ⟨hrow, hrun, htask⟩ := findTI_list.mp hti
    exact ⟨ti, hrow, hrun, htask, rfl⟩
  · rintro ⟨ti, hrow, hrun, htask, rfl⟩
    exact ⟨ti, findTI_list.mpr ⟨hrow, hrun, htask⟩, rfl⟩

theorem statesOf_of_mem {db : Db} {ti : TaskInstance} (h : ti ∈ db.tasks.rows) : statesOf db ti.runID ti.taskID = some ti.state :=
  statesOf_eq_some.mpr ⟨ti, h, rfl, rfl, rfl⟩

theorem statesOf_eq_none {db : Db} {runID taskID : String} :
    statesOf db runID taskID = none ↔ ∀ ti ∈ db.tasks.rows, ti.runID = runID → ti.taskID ≠ taskID := by
  constructor
  · rintro h ti hti rfl rfl
    rw [statesOf_of_mem hti] at h
    cases h
  · intro h
    rw [Option.eq_none_iff_forall_not_mem]
    intro s hs
    obtain ⟨ti, hti, hrun, htask, -⟩ := statesOf_eq_some.mp hs
    exact h ti hti hrun htask

theorem statesOf_congr {db db' : Db} (h : db'.tasks = db.tasks) (runID : String) : statesOf db' runID = statesOf db runID := by
  funext taskID
  rw [statesOf, statesOf, Db.listTaskInstances, Db.listTaskInstances, h]

/-- An instance written over the row it was read from. -/
theorem statesOf_writeTask {db : Db} {row new : TaskInstance} (hrow : row ∈ db.tasks.rows) (hid : new.id = row.id)
    (runID taskID : String) : statesOf (db.writeTask new) runID taskID =
      if runID = row.runID ∧ taskID = row.taskID then some new.state else statesOf db runID taskID := by
  have hwritten : onRow new row ∈ (db.writeTask new).tasks.rows :=
    Db.mem_writeTask.mpr ⟨row, hrow, if_pos hid.symm⟩
  split
  · rename_i hkey
    rw [hkey.1, hkey.2]
    exact statesOf_of_mem hwritten
  · rename_i hkey
    ext s
    rw [statesOf_eq_some, statesOf_eq_some]
    constructor
    · rintro ⟨ti, hti, hrun, htask, hstate⟩
      obtain ⟨old, hold, heq⟩ := Db.mem_writeTask.mp hti
      split at heq
      · rename_i hsame
        have hthis : old = row := by
          have hfound := Db.task?_of_mem hold
          rw [hsame, hid, Db.task?_of_mem hrow] at hfound
          cases hfound
          rfl
        subst hthis
        subst heq
        exact absurd ⟨hrun.symm, htask.symm⟩ hkey
      · subst heq
        exact ⟨old, hold, hrun, htask, hstate⟩
    · rintro ⟨ti, hti, hrun, htask, hstate⟩
      refine ⟨ti, Db.mem_writeTask.mpr ⟨ti, hti, if_neg ?_⟩, hrun, htask, hstate⟩
      intro hsame
      have hfound := Db.task?_of_mem hti
      rw [hsame, hid, Db.task?_of_mem hrow] at hfound
      cases hfound
      exact hkey ⟨hrun.symm, htask.symm⟩

/-- An instance that is added. -/
theorem statesOf_insert {db : Db} {new : TaskInstance} {tasks : Table TaskInstance taskKey taskClash}
    (h : db.tasks.insert? new = some tasks) (hnone : statesOf db new.runID new.taskID = none) (runID taskID : String) :
    statesOf { db with tasks := tasks } runID taskID =
      if runID = new.runID ∧ taskID = new.taskID then some new.state else statesOf db runID taskID := by
  have hrows : tasks.rows = db.tasks.rows ++ [new] := Table.rows_insert? h
  split
  · rename_i hkey
    rw [hkey.1, hkey.2]
    have hmem : new ∈ ({ db with tasks := tasks } : Db).tasks.rows := by
      rw [hrows]
      simp
    exact statesOf_of_mem hmem
  · rename_i hkey
    ext s
    rw [statesOf_eq_some, statesOf_eq_some]
    simp only [hrows, List.mem_append, List.mem_singleton]
    constructor
    · rintro ⟨ti, hti | rfl, hrun, htask, hstate⟩
      · exact ⟨ti, hti, hrun, htask, hstate⟩
      · exact absurd ⟨hrun.symm, htask.symm⟩ hkey
    · rintro ⟨ti, hti, hkey⟩
      exact ⟨ti, .inl hti, hkey⟩

end Cronova.Scheduler
