import Cronova.Store.Tables

/-! What one statement does to the rows: each lemma says once which rows a
statement can change and when it is refused, so that no later proof unfolds
`Db.apply`. -/
namespace Cronova.Store
open Cronova.Model Cronova.Relational

/-- The columns of `ti` on the identity of `row`. -/
def onRow (ti row : TaskInstance) : TaskInstance := { ti with id := row.id, runID := row.runID, taskID := row.taskID }

@[simp] theorem onRow_id (ti row : TaskInstance) : (onRow ti row).id = row.id := rfl
@[simp] theorem onRow_runID (ti row : TaskInstance) : (onRow ti row).runID = row.runID := rfl
@[simp] theorem onRow_taskID (ti row : TaskInstance) : (onRow ti row).taskID = row.taskID := rfl
@[simp] theorem onRow_state (ti row : TaskInstance) : (onRow ti row).state = ti.state := rfl
@[simp] theorem onRow_executorRef (ti row : TaskInstance) : (onRow ti row).executorRef = ti.executorRef := rfl
@[simp] theorem onRow_tryNumber (ti row : TaskInstance) : (onRow ti row).tryNumber = ti.tryNumber := rfl

namespace Db
variable {s : Db}

/-- The stored state of a run. -/
def runState (s : Db) (id : String) : Option RunState := (s.run? id).map (·.state)

/-! ### Lookups by key -/

private theorem runClash_symm (a b : String × String × Time) (h : runClash a b) : runClash b a :=
  h.imp Eq.symm Eq.symm

private theorem taskClash_symm (a b : Nat × String × String) (h : taskClash a b) : taskClash b a :=
  h.imp Eq.symm Eq.symm

theorem run?_spec {id : String} {r : DagRun} (h : s.run? id = some r) : r ∈ s.runs.rows ∧ r.runID = id :=
  ⟨List.mem_of_find?_eq_some h, by simpa using List.find?_some h⟩

theorem getDagRun_ok {id : String} {r : DagRun} : s.getDagRun id = .ok r ↔ s.run? id = some r := by
  unfold getDagRun
  split <;> simp_all

theorem run?_of_mem {r : DagRun} (h : r ∈ s.runs.rows) : s.run? r.runID = some r := by
  have hsome : (s.run? r.runID).isSome := by
    unfold run? Table.find?
    rw [List.find?_isSome]
    exact ⟨r, h, by simp⟩
  obtain ⟨r', hr'⟩ := Option.isSome_iff_exists.mp hsome
  obtain ⟨hmem, hid⟩ := run?_spec hr'
  rw [hr', s.runs.eq_of_clash runClash_symm hmem h (.inl hid)]

/-- A DAG has one run per period. -/
theorem run_unique {a b : DagRun} (ha : a ∈ s.runs.rows) (hb : b ∈ s.runs.rows) (hdag : a.dagID = b.dagID)
    (hdate : a.logicalDate = b.logicalDate) : a = b :=
  s.runs.eq_of_clash runClash_symm ha hb (.inr (by simp only [runKey, hdag, hdate]))

theorem task?_spec {id : Nat} {ti : TaskInstance} (h : s.task? id = some ti) : ti ∈ s.tasks.rows ∧ ti.id = id :=
  ⟨List.mem_of_find?_eq_some h, by simpa using List.find?_some h⟩

theorem task?_of_mem {ti : TaskInstance} (h : ti ∈ s.tasks.rows) : s.task? ti.id = some ti := by
  have hsome : (s.task? ti.id).isSome := by
    unfold task? Table.find?
    rw [List.find?_isSome]
    exact ⟨ti, h, by simp⟩
  obtain ⟨ti', hti'⟩ := Option.isSome_iff_exists.mp hsome
  obtain ⟨hmem, hid⟩ := task?_spec hti'
  rw [hti', s.tasks.eq_of_clash taskClash_symm hmem h (.inl hid)]

/-- A run has one instance per task. -/
theorem task_unique {a b : TaskInstance} (ha : a ∈ s.tasks.rows) (hb : b ∈ s.tasks.rows) (hrun : a.runID = b.runID)
    (htask : a.taskID = b.taskID) : a = b :=
  s.tasks.eq_of_clash taskClash_symm ha hb (.inr (by simp only [taskKey, hrun, htask]))

theorem mem_listTaskInstances {runID : String} {ti : TaskInstance} :
    ti ∈ s.listTaskInstances runID ↔ ti ∈ s.tasks.rows ∧ ti.runID = runID := by
  simp [listTaskInstances, Table.filter]

theorem listTaskInstances_unique {runID : String} {a b : TaskInstance} (ha : a ∈ s.listTaskInstances runID)
    (hb : b ∈ s.listTaskInstances runID) (htask : a.taskID = b.taskID) : a = b := by
  rw [mem_listTaskInstances] at ha hb
  exact task_unique ha.1 hb.1 (ha.2.trans hb.2.symm) htask

theorem mem_listTaskInstancesByState {state : TaskState} {ti : TaskInstance} :
    ti ∈ s.listTaskInstancesByState state ↔ ti ∈ s.tasks.rows ∧ ti.state = state := by
  simp [listTaskInstancesByState, Table.filter]

theorem listTaskInstancesByState_nodup {state : TaskState} :
    ((s.listTaskInstancesByState state).map (·.id)).Nodup := by
  have hperm : (s.listTaskInstancesByState state).Perm (s.tasks.rows.filter (fun ti => ti.state = state)) :=
    (List.perm_insertionSort _ _).trans (List.perm_insertionSort _ _)
  rw [(hperm.map _).nodup_iff, List.Nodup, List.pairwise_map]
  refine (s.tasks.distinct.filter _).imp ?_
  intro a b hclash hid
  exact hclash (.inl hid)

/-! ### Runs -/

theorem run?_modifyRun (id id' : String) (f : DagRun → DagRun) (hf : ∀ r, runKey (f r) = runKey r) :
    (s.modifyRun id f hf).run? id' = (s.run? id').map (fun r => if r.runID = id then f r else r) := by
  have hkey : ∀ a, decide ((f a).runID = id') = decide (a.runID = id') := by
    intro a
    rw [show (f a).runID = a.runID from congrArg Prod.fst (hf a)]
  have h := Table.find?_modify (t := s.runs) (p := fun r => r.runID = id) (q := fun r => r.runID = id') hf hkey
  simp only [decide_eq_true_eq] at h
  exact h

theorem run?_modifyRun_self {id : String} {f : DagRun → DagRun} {hf : ∀ r, runKey (f r) = runKey r} {r : DagRun}
    (h : s.run? id = some r) : (s.modifyRun id f hf).run? id = some (f r) := by
  rw [run?_modifyRun, h, Option.map_some, if_pos (run?_spec h).2]

theorem run?_modifyRun_ne {id id' : String} {f : DagRun → DagRun} {hf : ∀ r, runKey (f r) = runKey r}
    (hne : id' ≠ id) : (s.modifyRun id f hf).run? id' = s.run? id' := by
  rw [run?_modifyRun]
  cases h : s.run? id' with
  | none => rfl
  | some r => rw [Option.map_some, if_neg (by rw [(run?_spec h).2]; exact hne)]

@[simp] theorem modifyRun_tasks (id : String) (f : DagRun → DagRun) (hf : ∀ r, runKey (f r) = runKey r) :
    (s.modifyRun id f hf).tasks = s.tasks := rfl
@[simp] theorem modifyRun_events (id : String) (f : DagRun → DagRun) (hf : ∀ r, runKey (f r) = runKey r) :
    (s.modifyRun id f hf).events = s.events := rfl

@[simp] theorem armEvent_runs (source : EventSource) (key : String) : (s.armEvent source key).runs = s.runs := by
  unfold armEvent
  split <;> rfl
@[simp] theorem armEvent_tasks (source : EventSource) (key : String) : (s.armEvent source key).tasks = s.tasks := by
  unfold armEvent
  split <;> rfl
@[simp] theorem run?_armEvent (source : EventSource) (key id : String) :
    (s.armEvent source key).run? id = s.run? id := by
  unfold run?
  rw [armEvent_runs]

/-- A new run either leaves everything as it was or is one more row. -/
theorem insertRun_cases (run : DagRun) (admitted : Bool) :
    (∃ runs, s.runs.insert? run = some runs ∧ s.insertRun run admitted = (.ok (), { s with runs := runs })) ∨
      ∃ e, s.insertRun run admitted = (.error e, s) := by
  unfold insertRun
  split
  · split
    · rename_i runs hruns
      exact .inl ⟨runs, hruns, rfl⟩
    · exact .inr ⟨_, rfl⟩
  · split
    · exact .inr ⟨_, rfl⟩
    · exact .inr ⟨_, rfl⟩

theorem run?_insert {run : DagRun} {runs : Table DagRun runKey runClash} (h : s.runs.insert? run = some runs)
    (id : String) :
    ({ s with runs := runs } : Db).run? id = (s.run? id).or (if run.runID = id then some run else none) := by
  have hfind := Table.find?_insert? h (fun r => r.runID = id)
  simp only [decide_eq_true_eq] at hfind
  exact hfind

private theorem recorded_key (target : RunState) (startedAt finishedAt : Option Time) (r : DagRun) :
    runKey { r with state := target, startedAt := startedAt, finishedAt := finishedAt } = runKey r := rfl

/-- The database after a run state was recorded. -/
def recordState (s : Db) (id : String) (target : RunState) (startedAt finishedAt : Option Time) : Db :=
  s.modifyRun id (fun r => { r with state := target, startedAt := startedAt, finishedAt := finishedAt })
    (recorded_key target startedAt finishedAt)

theorem run?_recordState_self {id : String} {target : RunState} {startedAt finishedAt : Option Time} {r : DagRun}
    (h : s.run? id = some r) : (s.recordState id target startedAt finishedAt).run? id =
      some { r with state := target, startedAt := startedAt, finishedAt := finishedAt } :=
  run?_modifyRun_self h

theorem run?_recordState_ne {id id' : String} {target : RunState} {startedAt finishedAt : Option Time}
    (hne : id' ≠ id) : (s.recordState id target startedAt finishedAt).run? id' = s.run? id' :=
  run?_modifyRun_ne hne

@[simp] theorem recordState_tasks (id : String) (target : RunState) (startedAt finishedAt : Option Time) :
    (s.recordState id target startedAt finishedAt).tasks = s.tasks := rfl

/-- The statement that records a run state is refused as a whole, or the prior
state was legal and the row has the new state. -/
theorem updateDagRunState_cases (id : String) (target : RunState) (startedAt finishedAt : Option Time) :
    (∃ e, s.apply (.updateDagRunState id target startedAt finishedAt) = (.error e, s)) ∨
      ∃ r, s.run? id = some r ∧ r.state ∈ legalPriorRunStates target ∧
        s.apply (.updateDagRunState id target startedAt finishedAt) = (.ok (), s.recordState id target startedAt finishedAt) := by
  simp only [apply]
  split
  · exact .inl ⟨_, rfl⟩
  · split
    · exact .inl ⟨_, rfl⟩
    · rename_i r hr
      split
      · rename_i hlegal
        exact .inr ⟨r, hr, hlegal, rfl⟩
      · exact .inl ⟨_, rfl⟩

theorem updateDagRunSuccess_cases (id : String) (startedAt finishedAt : Option Time) :
    (s.run? id = none ∧ s.apply (.updateDagRunSuccess id startedAt finishedAt) = (.error .notFound, s)) ∨
      ∃ r, s.run? id = some r ∧
        s.apply (.updateDagRunSuccess id startedAt finishedAt) =
          (.ok (), (s.recordState id .success startedAt finishedAt).armEvent .dependency id) := by
  simp only [apply]
  split
  · rename_i hnone
    exact .inl ⟨hnone, rfl⟩
  · rename_i r hr
    exact .inr ⟨r, hr, rfl⟩

/-! ### Task instances -/

theorem task?_writeTask (ti : TaskInstance) (id : Nat) :
    (s.writeTask ti).task? id = (s.task? id).map (fun row => if row.id = ti.id then onRow ti row else row) := by
  have hkey : ∀ row : TaskInstance, decide ((onRow ti row).id = id) = decide (row.id = id) := fun _ => rfl
  have h := Table.find?_modify (t := s.tasks) (p := fun row => row.id = ti.id) (f := onRow ti)
    (q := fun row => row.id = id) (fun _ => rfl) hkey
  simp only [decide_eq_true_eq] at h
  exact h

theorem task?_writeTask_self {ti row : TaskInstance} (h : s.task? ti.id = some row) :
    (s.writeTask ti).task? ti.id = some (onRow ti row) := by
  rw [task?_writeTask, h, Option.map_some, if_pos (task?_spec h).2]

theorem task?_writeTask_ne {ti : TaskInstance} {id : Nat} (hne : id ≠ ti.id) :
    (s.writeTask ti).task? id = s.task? id := by
  rw [task?_writeTask]
  cases h : s.task? id with
  | none => rfl
  | some row => rw [Option.map_some, if_neg (by rw [(task?_spec h).2]; exact hne)]

@[simp] theorem writeTask_runs (ti : TaskInstance) : (s.writeTask ti).runs = s.runs := rfl
@[simp] theorem writeTask_events (ti : TaskInstance) : (s.writeTask ti).events = s.events := rfl
@[simp] theorem run?_writeTask (ti : TaskInstance) (id : String) : (s.writeTask ti).run? id = s.run? id := rfl

theorem mem_writeTask {ti row : TaskInstance} :
    row ∈ (s.writeTask ti).tasks.rows ↔
      ∃ old ∈ s.tasks.rows, (if old.id = ti.id then onRow ti old else old) = row := by
  have h := Table.mem_modify (t := s.tasks) (p := fun row => row.id = ti.id) (f := onRow ti)
    (fun _ => rfl) (b := row)
  simp only [decide_eq_true_eq] at h
  exact h

theorem updateTaskInstance_cases (ti : TaskInstance) :
    (s.task? ti.id = none ∧ s.apply (.updateTaskInstance ti) = (.error .notFound, s)) ∨
      ∃ row, s.task? ti.id = some row ∧ s.apply (.updateTaskInstance ti) = (.ok (), s.writeTask ti) := by
  simp only [apply]
  split
  · rename_i hnone
    exact .inl ⟨hnone, rfl⟩
  · rename_i row hrow
    exact .inr ⟨row, hrow, rfl⟩

/-- A guarded write applies to an open row that still carries the expected ref. -/
theorem updateTaskInstanceGuarded_cases (ti : TaskInstance) (ref : String) :
    s.apply (.updateTaskInstanceGuarded ti ref) = (.ok false, s) ∨
      ∃ row, s.task? ti.id = some row ∧ row.executorRef = ref ∧ row.state.isTerminal = false ∧
        s.apply (.updateTaskInstanceGuarded ti ref) = (.ok true, s.writeTask ti) := by
  simp only [apply]
  split
  · exact .inl rfl
  · rename_i row hrow
    split
    · rename_i hcond
      exact .inr ⟨row, hrow, hcond.1, hcond.2, rfl⟩
    · exact .inl rfl

theorem id_lt_nextTaskID {row : TaskInstance} (h : row ∈ s.tasks.rows) : row.id < s.nextTaskID := by
  have hmax : ∀ l : List Nat, ∀ n ∈ l, n ≤ l.foldr max 0 := by
    intro l
    induction l with
    | nil =>
      intro n hn
      cases hn
    | cons a l ih =>
      intro n hn
      rw [List.foldr_cons]
      rcases List.mem_cons.mp hn with rfl | hl
      · exact le_max_left _ _
      · exact (ih n hl).trans (le_max_right _ _)
  exact Nat.lt_succ_of_le (hmax _ _ (List.mem_map.mpr ⟨row, h, rfl⟩))

theorem createTaskInstance_cases (ti : TaskInstance) :
    (∃ e, s.apply (.createTaskInstance ti) = (.error e, s)) ∨
      ∃ tasks, s.tasks.insert? { ti with id := s.nextTaskID } = some tasks ∧
        s.apply (.createTaskInstance ti) = (.ok s.nextTaskID, { s with tasks := tasks }) := by
  simp only [apply]
  split
  · rename_i tasks htasks
    exact .inr ⟨tasks, htasks, rfl⟩
  · exact .inl ⟨_, rfl⟩

/-- Creating an instance leaves the stored ones alone. -/
theorem task?_insert {ti row : TaskInstance} {tasks : Table TaskInstance taskKey taskClash}
    (h : s.tasks.insert? ti = some tasks) {id : Nat} (hrow : s.task? id = some row) :
    ({ s with tasks := tasks } : Db).task? id = some row := by
  have hfind := Table.find?_insert? h (fun row => row.id = id)
  rw [show s.tasks.find? (fun row => decide (row.id = id)) = some row from hrow] at hfind
  exact hfind

end Db

/-! ### Which tables a statement touches -/

namespace Write

/-- The statement records a state of the run `id`. -/
def recordsState (id : String) : {β : Type} → Write β → Option RunState
  | _, .updateDagRunState id' target _ _ => if id' = id then some target else none
  | _, .updateDagRunSuccess id' _ _ => if id' = id then some .success else none
  | _, _ => none

/-- The run the statement creates. -/
def creates : {β : Type} → Write β → Option DagRun
  | _, .createDagRunBounded run _ | _, .createManualDagRunBounded run _ _ => some run
  | _, _ => none

/-- The event the statement consumes. -/
def consumes : {β : Type} → Write β → Option Nat
  | _, .consumeEvent id => some id
  | _, _ => none

def touchesTasks : {β : Type} → Write β → Bool
  | _, .createTaskInstance _ | _, .updateTaskInstance _ | _, .updateTaskInstanceGuarded _ _ => true
  | _, _ => false

end Write

theorem Db.apply_tasks {s : Db} {β : Type} {w : Write β} (h : w.touchesTasks = false) :
    (s.apply w).2.tasks = s.tasks := by
  cases w with
  | createDagRunBounded run global =>
    rcases s.insertRun_cases run (s.isActiveDag run.dagID && (s.queuedCount : Int) < global) with ⟨_, _, h⟩ | ⟨_, h⟩ <;>
      exact congrArg (fun p => p.2.tasks) h
  | createManualDagRunBounded run perDAG global =>
    rcases s.insertRun_cases run (s.isActiveDag run.dagID && (s.countActiveRuns run.dagID : Int) < perDAG &&
      (s.queuedCount : Int) < global) with ⟨_, _, h⟩ | ⟨_, h⟩ <;> exact congrArg (fun p => p.2.tasks) h
  | updateDagRunState id target started finished =>
    rcases s.updateDagRunState_cases id target started finished with ⟨_, h⟩ | ⟨_, _, _, h⟩ <;> rw [h]
    rfl
  | updateDagRunSuccess id started finished =>
    rcases s.updateDagRunSuccess_cases id started finished with ⟨_, heq⟩ | ⟨_, _, heq⟩ <;> rw [heq]
    rw [armEvent_tasks, recordState_tasks]
  | updateDagRunDefinition id yaml hash =>
    simp only [apply]
    split <;> rfl
  | setDagRunHeld id held =>
    simp only [apply]
    split
    · rfl
    · split <;> rfl
  | publishEvent source key payload =>
    simp only [apply]
    split <;> rfl
  | consumeEvent id => rfl
  | setTaskOutput runID taskID output => rfl
  | createTaskInstance ti => cases h
  | updateTaskInstance ti => cases h
  | updateTaskInstanceGuarded ti ref => cases h

/-- Only the statements that record a state of a run change its stored state. -/
theorem Db.apply_runState {s : Db} {β : Type} {w : Write β} {id : String} {a : RunState}
    (h : w.recordsState id = none) (ha : s.runState id = some a) : (s.apply w).2.runState id = some a := by
  obtain ⟨r, hr, rfl⟩ := Option.map_eq_some_iff.mp ha
  have hinsert : ∀ run admitted, (s.insertRun run admitted).2.runState id = some r.state := by
    intro run admitted
    rcases s.insertRun_cases run admitted with ⟨runs, hruns, h⟩ | ⟨_, h⟩
    · rw [h]
      simp only [runState, run?_insert hruns, hr, Option.some_or, Option.map_some]
    · rw [h]
      exact ha
  have hmodify : ∀ id' (f : DagRun → DagRun) hf, (∀ r, (f r).state = r.state) →
      (s.modifyRun id' f hf).runState id = some r.state := by
    intro id' f hf hstate
    simp only [runState, run?_modifyRun, hr, Option.map_some]
    split <;> simp only [hstate]
  cases w with
  | createDagRunBounded run global => exact hinsert run _
  | createManualDagRunBounded run perDAG global => exact hinsert run _
  | updateDagRunState id' target started finished =>
    have hne : id ≠ id' := by
      rintro rfl
      simp [Write.recordsState] at h
    rcases s.updateDagRunState_cases id' target started finished with ⟨_, heq⟩ | ⟨_, _, _, heq⟩ <;> rw [heq]
    · exact ha
    · simp only [runState]
      rw [run?_recordState_ne hne, hr, Option.map_some]
  | updateDagRunSuccess id' started finished =>
    have hne : id ≠ id' := by
      rintro rfl
      simp [Write.recordsState] at h
    rcases s.updateDagRunSuccess_cases id' started finished with ⟨_, heq⟩ | ⟨_, _, heq⟩ <;> rw [heq]
    · exact ha
    · simp only [runState]
      rw [run?_armEvent, run?_recordState_ne hne, hr, Option.map_some]
  | updateDagRunDefinition id' yaml hash =>
    simp only [apply]
    split
    · exact ha
    · exact hmodify id' _ _ (fun _ => rfl)
  | setDagRunHeld id' held =>
    simp only [apply]
    split
    · exact ha
    · split
      · exact hmodify id' _ _ (fun _ => rfl)
      · exact ha
  | createTaskInstance ti =>
    rcases s.createTaskInstance_cases ti with ⟨_, h⟩ | ⟨_, _, h⟩ <;> rw [h] <;> exact ha
  | updateTaskInstance ti =>
    rcases s.updateTaskInstance_cases ti with ⟨_, h⟩ | ⟨_, _, h⟩ <;> rw [h] <;> exact ha
  | updateTaskInstanceGuarded ti ref =>
    rcases s.updateTaskInstanceGuarded_cases ti ref with h | ⟨_, _, _, _, h⟩ <;> rw [h] <;> exact ha
  | consumeEvent id' => exact ha
  | publishEvent source key payload =>
    simp only [apply]
    split <;> exact ha
  | setTaskOutput runID taskID output => exact ha

/-- The catalogue of definitions is not written by any statement. -/
theorem Db.apply_dags {s : Db} {β : Type} (w : Write β) : (s.apply w).2.dags = s.dags := by
  have harm : ∀ (db : Db) (source : EventSource) (key : String), (db.armEvent source key).dags = db.dags := by
    intro db source key
    unfold armEvent
    split <;> rfl
  cases w with
  | createDagRunBounded run global =>
    rcases s.insertRun_cases run (s.isActiveDag run.dagID && (s.queuedCount : Int) < global) with ⟨_, _, h⟩ | ⟨_, h⟩ <;>
      exact congrArg (fun p => p.2.dags) h
  | createManualDagRunBounded run perDAG global =>
    rcases s.insertRun_cases run (s.isActiveDag run.dagID && (s.countActiveRuns run.dagID : Int) < perDAG &&
      (s.queuedCount : Int) < global) with ⟨_, _, h⟩ | ⟨_, h⟩ <;> exact congrArg (fun p => p.2.dags) h
  | updateDagRunState id target started finished =>
    rcases s.updateDagRunState_cases id target started finished with ⟨_, h⟩ | ⟨_, _, _, h⟩ <;> rw [h]
    rfl
  | updateDagRunSuccess id started finished =>
    rcases s.updateDagRunSuccess_cases id started finished with ⟨_, h⟩ | ⟨_, _, h⟩ <;> rw [h]
    rw [harm]
    rfl
  | createTaskInstance ti => rcases s.createTaskInstance_cases ti with ⟨_, h⟩ | ⟨_, _, h⟩ <;> rw [h]
  | updateTaskInstance ti =>
    rcases s.updateTaskInstance_cases ti with ⟨_, h⟩ | ⟨_, _, h⟩ <;> rw [h]
    rfl
  | updateTaskInstanceGuarded ti ref =>
    rcases s.updateTaskInstanceGuarded_cases ti ref with h | ⟨_, _, _, _, h⟩ <;> rw [h]
    rfl
  | updateDagRunDefinition id yaml hash =>
    simp only [apply]
    split <;> rfl
  | setDagRunHeld id held =>
    simp only [apply]
    split
    · rfl
    · split <;> rfl
  | publishEvent source key payload =>
    simp only [apply]
    split <;> rfl
  | consumeEvent id => rfl
  | setTaskOutput runID taskID output => rfl

/-- A stored run stays stored, and no statement puts it back into the queue. -/
theorem Db.apply_runState_some {s : Db} {β : Type} (w : Write β) {id : String} {a : RunState}
    (ha : s.runState id = some a) : ∃ b, (s.apply w).2.runState id = some b ∧ (b = .queued → a = .queued) := by
  by_cases h : w.recordsState id = none
  · exact ⟨a, Db.apply_runState h ha, fun ha => ha⟩
  · obtain ⟨r, hr, rfl⟩ := Option.map_eq_some_iff.mp ha
    cases w with
    | updateDagRunState id' target started finished =>
      obtain rfl : id' = id := by
        by_contra hne
        simp [Write.recordsState, hne] at h
      rcases s.updateDagRunState_cases id' target started finished with ⟨_, heq⟩ | ⟨_, _, hlegal, heq⟩
      · rw [heq]
        exact ⟨_, ha, fun ha => ha⟩
      · rw [heq]
        refine ⟨target, by rw [runState, run?_recordState_self hr, Option.map_some], ?_⟩
        rintro rfl
        cases hlegal
    | updateDagRunSuccess id' started finished =>
      obtain rfl : id' = id := by
        by_contra hne
        simp [Write.recordsState, hne] at h
      rcases s.updateDagRunSuccess_cases id' started finished with ⟨_, heq⟩ | ⟨_, _, heq⟩
      · rw [heq]
        exact ⟨_, ha, fun ha => ha⟩
      · rw [heq]
        exact ⟨.success, by rw [runState, run?_armEvent, run?_recordState_self hr, Option.map_some], nofun⟩
    | _ => exact absurd rfl h

/-- What is recorded of `r` is what it has afterwards, if anything changed. -/
theorem Db.recorded_state {db : Db} {β : Type} {w : Write β} {r : String} {target a : RunState}
    (hrec : w.recordsState r = some target) (ha : (db.apply w).2.runState r = some a) : a = target ∨ db.runState r = some a := by
  cases w with
  | updateDagRunState id target' started finished =>
    simp only [Write.recordsState, Option.ite_none_right_eq_some, Option.some.injEq] at hrec
    obtain ⟨rfl, rfl⟩ := hrec
    rcases db.updateDagRunState_cases id target' started finished with ⟨_, heq⟩ | ⟨run, hrun, _, heq⟩ <;> rw [heq] at ha
    · exact .inr ha
    · simp only [runState, run?_recordState_self hrun, Option.map_some, Option.some.injEq] at ha
      exact .inl ha.symm
  | updateDagRunSuccess id started finished =>
    simp only [Write.recordsState, Option.ite_none_right_eq_some, Option.some.injEq] at hrec
    obtain ⟨rfl, rfl⟩ := hrec
    rcases db.updateDagRunSuccess_cases id started finished with ⟨_, heq⟩ | ⟨run, hrun, heq⟩ <;> rw [heq] at ha
    · exact .inr ha
    · simp only [runState, run?_armEvent, run?_recordState_self hrun, Option.map_some,
        Option.some.injEq] at ha
      exact .inl ha.symm
  | _ => cases hrec

/-- A stored run keeps its identity and its trigger. -/
theorem Db.apply_run?_some {s : Db} {β : Type} (w : Write β) {id : String} {r : DagRun} (hr : s.run? id = some r) :
    ∃ r', (s.apply w).2.run? id = some r' ∧ runKey r' = runKey r ∧ r'.triggerType = r.triggerType := by
  have hsame : ∀ db : Db, db.runs = s.runs → ∃ r', db.run? id = some r' ∧ runKey r' = runKey r ∧
      r'.triggerType = r.triggerType := by
    intro db hruns
    exact ⟨r, by rw [run?, hruns]; exact hr, rfl, rfl⟩
  have hmodify : ∀ id' (f : DagRun → DagRun) hf, (f r).triggerType = r.triggerType →
      ∃ r', (s.modifyRun id' f hf).run? id = some r' ∧ runKey r' = runKey r ∧ r'.triggerType = r.triggerType := by
    intro id' f hf htrigger
    refine ⟨if r.runID = id' then f r else r, by rw [run?_modifyRun, hr, Option.map_some], ?_⟩
    split
    · exact ⟨hf r, htrigger⟩
    · exact ⟨rfl, rfl⟩
  have hinsert : ∀ run admitted, ∃ r', (s.insertRun run admitted).2.run? id = some r' ∧ runKey r' = runKey r ∧
      r'.triggerType = r.triggerType := by
    intro run admitted
    rcases s.insertRun_cases run admitted with ⟨runs, hruns, h⟩ | ⟨_, h⟩ <;> rw [h]
    · exact ⟨r, by rw [run?_insert hruns, hr, Option.some_or], rfl, rfl⟩
    · exact ⟨r, hr, rfl, rfl⟩
  cases w with
  | createDagRunBounded run global => exact hinsert run _
  | createManualDagRunBounded run perDAG global => exact hinsert run _
  | updateDagRunState id' target started finished =>
    rcases s.updateDagRunState_cases id' target started finished with ⟨_, h⟩ | ⟨_, _, _, h⟩ <;> rw [h]
    · exact hsame s rfl
    · exact hmodify id' (fun r => { r with state := target, startedAt := started, finishedAt := finished }) (fun _ => rfl) rfl
  | updateDagRunSuccess id' started finished =>
    rcases s.updateDagRunSuccess_cases id' started finished with ⟨_, h⟩ | ⟨_, _, h⟩ <;> rw [h]
    · exact hsame s rfl
    · rw [run?_armEvent]
      exact hmodify id' (fun r => { r with state := .success, startedAt := started, finishedAt := finished }) (fun _ => rfl) rfl
  | updateDagRunDefinition id' yaml hash =>
    simp only [apply]
    split
    · exact hsame s rfl
    · exact hmodify id' (fun r => { r with definitionYAML := yaml, definitionHash := hash }) (fun _ => rfl) rfl
  | setDagRunHeld id' held =>
    simp only [apply]
    split
    · exact hsame s rfl
    · split
      · exact hmodify id' (fun r => { r with held := held }) (fun _ => rfl) rfl
      · exact hsame s rfl
  | createTaskInstance ti =>
    rcases s.createTaskInstance_cases ti with ⟨_, h⟩ | ⟨_, _, h⟩ <;> rw [h] <;> exact hsame _ rfl
  | updateTaskInstance ti =>
    rcases s.updateTaskInstance_cases ti with ⟨_, h⟩ | ⟨_, _, h⟩ <;> rw [h] <;> exact hsame _ rfl
  | updateTaskInstanceGuarded ti ref =>
    rcases s.updateTaskInstanceGuarded_cases ti ref with h | ⟨_, _, _, _, h⟩ <;> rw [h] <;> exact hsame _ rfl
  | consumeEvent id' => exact hsame _ rfl
  | publishEvent source key payload =>
    simp only [apply]
    split <;> exact hsame _ rfl
  | setTaskOutput runID taskID output => exact hsame _ rfl

/-- A run after a statement is a stored one with its identity and trigger, in its
state or in the state the statement records, or it is the run the statement creates
for an active DAG. -/
theorem Db.apply_run_cases {s : Db} {β : Type} (w : Write β) {r' : DagRun} (h : r' ∈ (s.apply w).2.runs.rows) :
    (∃ r ∈ s.runs.rows, runKey r' = runKey r ∧ r'.triggerType = r.triggerType ∧
      (r'.state = r.state ∨ w.recordsState r.runID = some r'.state)) ∨
      w.creates = some r' ∧ s.isActiveDag r'.dagID = true ∧ (s.apply w).1.isOk = true := by
  have hsame : r' ∈ s.runs.rows → ∃ r ∈ s.runs.rows, runKey r' = runKey r ∧ r'.triggerType = r.triggerType ∧
      (r'.state = r.state ∨ w.recordsState r.runID = some r'.state) :=
    fun hr => ⟨r', hr, rfl, rfl, .inl rfl⟩
  have hmodify : ∀ id (f : DagRun → DagRun) hf, r' ∈ (s.modifyRun id f hf).runs.rows →
      (∀ r, (f r).triggerType = r.triggerType) →
      (∀ r : DagRun, r.runID = id → (f r).state = r.state ∨ w.recordsState r.runID = some (f r).state) → ∃ r ∈ s.runs.rows, runKey r' = runKey r ∧ r'.triggerType = r.triggerType ∧
        (r'.state = r.state ∨ w.recordsState r.runID = some r'.state) := by
    intro id f hf hr htrigger hstate
    obtain ⟨r, hmem, heq⟩ := (Table.mem_modify (t := s.runs) (p := fun r => r.runID = id) hf).mp hr
    split at heq
    · rename_i hid
      rw [← heq]
      exact ⟨r, hmem, hf r, htrigger r, hstate r (of_decide_eq_true hid)⟩
    · exact ⟨r, hmem, by rw [heq], by rw [heq], .inl (by rw [heq])⟩
  have hinsert : ∀ run admitted, (admitted = true → s.isActiveDag run.dagID = true) →
      r' ∈ (s.insertRun run admitted).2.runs.rows →
      r' ∈ s.runs.rows ∨ run = r' ∧ s.isActiveDag r'.dagID = true ∧ (s.insertRun run admitted).1.isOk = true := by
    intro run admitted hactive hr
    unfold insertRun at hr ⊢
    split at hr
    · rename_i hadmitted
      rw [if_pos hadmitted]
      split at hr
      · rename_i runs hruns
        simp only [Table.rows_insert? hruns, List.mem_append, List.mem_singleton] at hr
        rcases hr with hold | rfl
        · exact .inl hold
        · exact .inr ⟨rfl, hactive hadmitted, rfl⟩
      · exact .inl hr
    · split at hr
      · exact .inl hr
      · exact .inl hr
  cases w with
  | createDagRunBounded run global =>
    rcases hinsert run _ (fun hok => (Bool.and_eq_true_iff.mp hok).1) h with hold | ⟨heq, hrest⟩
    · exact .inl (hsame hold)
    · exact .inr ⟨congrArg some heq, hrest⟩
  | createManualDagRunBounded run perDAG global =>
    rcases hinsert run _ (fun hok => (Bool.and_eq_true_iff.mp (Bool.and_eq_true_iff.mp hok).1).1) h with hold | ⟨heq, hrest⟩
    · exact .inl (hsame hold)
    · exact .inr ⟨congrArg some heq, hrest⟩
  | updateDagRunState id target started finished =>
    rcases s.updateDagRunState_cases id target started finished with ⟨_, heq⟩ | ⟨_, _, _, heq⟩ <;> rw [heq] at h
    · exact .inl (hsame h)
    · refine .inl (hmodify id _ _ h (fun _ => rfl) ?_)
      intro r hid
      exact .inr (by simp [Write.recordsState, hid])
  | updateDagRunSuccess id started finished =>
    rcases s.updateDagRunSuccess_cases id started finished with ⟨_, heq⟩ | ⟨_, _, heq⟩ <;> rw [heq] at h
    · exact .inl (hsame h)
    · rw [armEvent_runs] at h
      refine .inl (hmodify id _ _ h (fun _ => rfl) ?_)
      intro r hid
      exact .inr (by simp [Write.recordsState, hid])
  | updateDagRunDefinition id yaml hash =>
    simp only [apply] at h
    split at h
    · exact .inl (hsame h)
    · exact .inl (hmodify id _ _ h (fun _ => rfl) (fun _ _ => .inl rfl))
  | setDagRunHeld id held =>
    simp only [apply] at h
    split at h
    · exact .inl (hsame h)
    · split at h
      · exact .inl (hmodify id _ _ h (fun _ => rfl) (fun _ _ => .inl rfl))
      · exact .inl (hsame h)
  | createTaskInstance ti =>
    rcases s.createTaskInstance_cases ti with ⟨_, heq⟩ | ⟨_, _, heq⟩ <;> rw [heq] at h <;> exact .inl (hsame h)
  | updateTaskInstance ti =>
    rcases s.updateTaskInstance_cases ti with ⟨_, heq⟩ | ⟨_, _, heq⟩ <;> rw [heq] at h <;> exact .inl (hsame h)
  | updateTaskInstanceGuarded ti ref =>
    rcases s.updateTaskInstanceGuarded_cases ti ref with heq | ⟨_, _, _, _, heq⟩ <;> rw [heq] at h <;> exact .inl (hsame h)
  | consumeEvent id => exact .inl (hsame h)
  | publishEvent source key payload =>
    simp only [apply] at h
    split at h <;> exact .inl (hsame h)
  | setTaskOutput runID taskID output => exact .inl (hsame h)

/-- The task instance the statement creates. -/
def Write.createsTask : {β : Type} → Write β → Option TaskInstance
  | _, .createTaskInstance ti => some ti
  | _, _ => none

/-- The run whose output the statement stores. -/
def Write.storesOutput : {β : Type} → Write β → Option String
  | _, .setTaskOutput runID _ _ => some runID
  | _, _ => none

theorem Db.apply_outputs {s : Db} {β : Type} {w : Write β} (h : w.storesOutput = none) : (s.apply w).2.outputs = s.outputs := by
  have hinsert : ∀ run admitted, (s.insertRun run admitted).2.outputs = s.outputs := by
    intro run admitted
    rcases s.insertRun_cases run admitted with ⟨_, _, heq⟩ | ⟨_, heq⟩ <;> rw [heq]
  have harm : ∀ (db : Db) (source : EventSource) (key : String), (db.armEvent source key).outputs = db.outputs := by
    intro db source key
    unfold armEvent
    split <;> rfl
  cases w with
  | createDagRunBounded run global => exact hinsert run _
  | createManualDagRunBounded run perDAG global => exact hinsert run _
  | updateDagRunState id target started finished =>
    rcases s.updateDagRunState_cases id target started finished with ⟨_, heq⟩ | ⟨_, _, _, heq⟩ <;> rw [heq]
    rfl
  | updateDagRunSuccess id started finished =>
    rcases s.updateDagRunSuccess_cases id started finished with ⟨_, heq⟩ | ⟨_, _, heq⟩ <;> rw [heq]
    rw [harm]
    rfl
  | updateDagRunDefinition id yaml hash =>
    simp only [apply]
    split <;> rfl
  | setDagRunHeld id held =>
    simp only [apply]
    split
    · rfl
    · split <;> rfl
  | createTaskInstance ti => rcases s.createTaskInstance_cases ti with ⟨_, heq⟩ | ⟨_, _, heq⟩ <;> rw [heq]
  | updateTaskInstance ti =>
    rcases s.updateTaskInstance_cases ti with ⟨_, heq⟩ | ⟨_, _, heq⟩ <;> rw [heq]
    rfl
  | updateTaskInstanceGuarded ti ref =>
    rcases s.updateTaskInstanceGuarded_cases ti ref with heq | ⟨_, _, _, _, heq⟩ <;> rw [heq]
    rfl
  | publishEvent source key payload =>
    simp only [apply]
    split <;> rfl
  | consumeEvent id => rfl
  | setTaskOutput runID taskID output => cases h

/-- A task instance after a statement belongs to the run of a stored one, or the
statement creates it. -/
theorem Db.apply_task_cases {s : Db} {β : Type} (w : Write β) {ti' : TaskInstance} (h : ti' ∈ (s.apply w).2.tasks.rows) :
    (∃ ti ∈ s.tasks.rows, ti'.runID = ti.runID) ∨ ∃ ti, w.createsTask = some ti ∧ ti'.runID = ti.runID := by
  have hwrite : ∀ ti, ti' ∈ (s.writeTask ti).tasks.rows → ∃ row ∈ s.tasks.rows, ti'.runID = row.runID := by
    intro ti hmem
    obtain ⟨row, hrow, heq⟩ := mem_writeTask.mp hmem
    refine ⟨row, hrow, ?_⟩
    rw [← heq]
    split <;> rfl
  cases w with
  | createTaskInstance ti =>
    rcases s.createTaskInstance_cases ti with ⟨_, heq⟩ | ⟨tasks, htasks, heq⟩ <;> rw [heq] at h
    · exact .inl ⟨ti', h, rfl⟩
    · rw [Table.rows_insert? htasks] at h
      rcases List.mem_append.mp h with hold | hnew
      · exact .inl ⟨ti', hold, rfl⟩
      · obtain rfl := List.mem_singleton.mp hnew
        exact .inr ⟨ti, rfl, rfl⟩
  | updateTaskInstance ti =>
    rcases s.updateTaskInstance_cases ti with ⟨_, heq⟩ | ⟨_, _, heq⟩ <;> rw [heq] at h
    · exact .inl ⟨ti', h, rfl⟩
    · exact .inl (hwrite ti h)
  | updateTaskInstanceGuarded ti ref =>
    rcases s.updateTaskInstanceGuarded_cases ti ref with heq | ⟨_, _, _, _, heq⟩ <;> rw [heq] at h
    · exact .inl ⟨ti', h, rfl⟩
    · exact .inl (hwrite ti h)
  | _ => exact .inl ⟨ti', by rw [Db.apply_tasks rfl] at h; exact h, rfl⟩

/-- A statement that reports an error has changed nothing. -/
theorem Db.apply_error {s : Db} {β : Type} {w : Write β} {e : Err} (h : (s.apply w).1 = .error e) :
    (s.apply w).2 = s := by
  have hinsert : ∀ run admitted, (s.insertRun run admitted).1 = .error e → (s.insertRun run admitted).2 = s := by
    intro run admitted herr
    rcases s.insertRun_cases run admitted with ⟨_, _, heq⟩ | ⟨_, heq⟩ <;> rw [heq] at herr ⊢
    cases herr
  cases w with
  | createDagRunBounded run global => exact hinsert run _ h
  | createManualDagRunBounded run perDAG global => exact hinsert run _ h
  | updateDagRunState id target started finished =>
    rcases s.updateDagRunState_cases id target started finished with ⟨_, heq⟩ | ⟨_, _, _, heq⟩ <;> rw [heq] at h ⊢
    cases h
  | updateDagRunSuccess id started finished =>
    rcases s.updateDagRunSuccess_cases id started finished with ⟨_, heq⟩ | ⟨_, _, heq⟩ <;> rw [heq] at h ⊢
    cases h
  | updateDagRunDefinition id yaml hash =>
    simp only [apply] at h ⊢
    split at h
    · rfl
    · cases h
  | setDagRunHeld id held =>
    simp only [apply] at h ⊢
    split at h
    · rfl
    · split at h
      · cases h
      · rename_i hactive
        rw [if_neg hactive]
  | createTaskInstance ti =>
    rcases s.createTaskInstance_cases ti with ⟨_, heq⟩ | ⟨_, _, heq⟩ <;> rw [heq] at h ⊢
    cases h
  | updateTaskInstance ti =>
    rcases s.updateTaskInstance_cases ti with ⟨_, heq⟩ | ⟨_, _, heq⟩ <;> rw [heq] at h ⊢
    cases h
  | updateTaskInstanceGuarded ti ref =>
    rcases s.updateTaskInstanceGuarded_cases ti ref with heq | ⟨_, _, _, _, heq⟩ <;> rw [heq] at h <;> cases h
  | consumeEvent id => cases h
  | publishEvent source key payload =>
    simp only [apply] at h
    split at h <;> cases h
  | setTaskOutput runID taskID output => cases h

/-- A run that is not stored stays so until it is created. -/
theorem Db.apply_runState_none {s : Db} {β : Type} {w : Write β} {id : String} (h : s.runState id = none)
    (hnew : ∀ run, w.creates = some run → run.state = .queued) :
    (s.apply w).2.runState id = none ∨ (s.apply w).2.runState id = some .queued := by
  have hnone : s.run? id = none := Option.map_eq_none_iff.mp h
  have hinsert : ∀ run admitted, run.state = .queued →
      (s.insertRun run admitted).2.runState id = none ∨ (s.insertRun run admitted).2.runState id = some .queued := by
    intro run admitted hstate
    rcases s.insertRun_cases run admitted with ⟨runs, hruns, heq⟩ | ⟨_, heq⟩
    · rw [heq]
      simp only [runState, run?_insert hruns, hnone, Option.none_or]
      split
      · exact .inr (congrArg some hstate)
      · exact .inl rfl
    · rw [heq]
      exact .inl h
  have hmodify : ∀ id' (f : DagRun → DagRun) hf, (s.modifyRun id' f hf).runState id = none := by
    intro id' f hf
    simp only [runState, run?_modifyRun, hnone, Option.map_none]
  cases w with
  | createDagRunBounded run global => exact hinsert run _ (hnew run rfl)
  | createManualDagRunBounded run perDAG global => exact hinsert run _ (hnew run rfl)
  | updateDagRunState id' target started finished =>
    rcases s.updateDagRunState_cases id' target started finished with ⟨_, heq⟩ | ⟨_, _, _, heq⟩ <;> rw [heq]
    · exact .inl h
    · exact .inl (hmodify id' _ _)
  | updateDagRunSuccess id' started finished =>
    rcases s.updateDagRunSuccess_cases id' started finished with ⟨_, heq⟩ | ⟨_, _, heq⟩ <;> rw [heq]
    · exact .inl h
    · simp only [runState, run?_armEvent]
      exact .inl (hmodify id' _ _)
  | updateDagRunDefinition id' yaml hash =>
    simp only [apply]
    split
    · exact .inl h
    · exact .inl (hmodify id' _ _)
  | setDagRunHeld id' held =>
    simp only [apply]
    split
    · exact .inl h
    · split
      · exact .inl (hmodify id' _ _)
      · exact .inl h
  | createTaskInstance ti =>
    rcases s.createTaskInstance_cases ti with ⟨_, heq⟩ | ⟨_, _, heq⟩ <;> rw [heq] <;> exact .inl h
  | updateTaskInstance ti =>
    rcases s.updateTaskInstance_cases ti with ⟨_, heq⟩ | ⟨_, _, heq⟩ <;> rw [heq] <;> exact .inl h
  | updateTaskInstanceGuarded ti ref =>
    rcases s.updateTaskInstanceGuarded_cases ti ref with heq | ⟨_, _, _, _, heq⟩ <;> rw [heq] <;> exact .inl h
  | consumeEvent id' => exact .inl h
  | publishEvent source key payload =>
    simp only [apply]
    split <;> exact .inl h
  | setTaskOutput runID taskID output => exact .inl h

/-- A guarded write leaves terminal rows alone. -/
theorem Db.guarded_terminal {s : Db} {ti row : TaskInstance} {ref : String} {id : Nat} (hrow : s.task? id = some row)
    (hterminal : row.state.isTerminal = true) :
    (s.apply (.updateTaskInstanceGuarded ti ref)).2.task? id = some row := by
  rcases s.updateTaskInstanceGuarded_cases ti ref with heq | ⟨old, hold, _, hopen, heq⟩
  · rw [heq]
    exact hrow
  · rw [heq]
    have hne : id ≠ ti.id := by
      rintro rfl
      rw [hold] at hrow
      cases hrow
      rw [hterminal] at hopen
      cases hopen
    exact (task?_writeTask_ne hne).trans hrow

/-- A row after a task write is an old row or carries the written columns. -/
theorem Db.mem_writeTask_cases {s : Db} {ti row : TaskInstance} (h : row ∈ (s.writeTask ti).tasks.rows) :
    row ∈ s.tasks.rows ∨ ∃ old ∈ s.tasks.rows, old.id = ti.id ∧ row = onRow ti old := by
  obtain ⟨old, hold, heq⟩ := mem_writeTask.mp h
  split at heq
  · rename_i hid
    exact .inr ⟨old, hold, hid, heq.symm⟩
  · exact .inl (heq ▸ hold)

/-! ### Events -/

/-- What a statement does to the events: nothing, an edit of the one it consumes or of
dependency events, or a new event under the next id. -/
inductive EventEdit (s : Db) {β : Type} (w : Write β) (events : Table Event eventKeyOf eventClash) : Prop where
  | same : events = s.events → EventEdit s w events
  | modified (p : Event → Bool) (f : Event → Event) (hf : ∀ e, eventKeyOf (f e) = eventKeyOf e) :
      (∀ e, p e = true → w.consumes = some e.id ∨ e.source = .dependency) → events = s.events.modify p f hf → EventEdit s w events
  | inserted (e : Event) : e.id = s.nextEventID → s.events.insert? e = some events → EventEdit s w events

theorem Db.apply_eventEdit (s : Db) {β : Type} (w : Write β) : EventEdit s w (s.apply w).2.events := by
  have hinsert : ∀ (run : DagRun) (admitted : Bool), EventEdit s w (s.insertRun run admitted).2.events := by
    intro run admitted
    rcases s.insertRun_cases run admitted with ⟨runs, -, heq⟩ | ⟨e, heq⟩
    · rw [heq]
      exact .same rfl
    · rw [heq]
      exact .same rfl
  cases w with
  | createDagRunBounded run global => exact hinsert run _
  | createManualDagRunBounded run perDAG global => exact hinsert run _
  | updateDagRunState id state startedAt finishedAt =>
    simp only [apply]
    split
    · exact .same rfl
    · split
      · exact .same rfl
      · split <;> exact .same rfl
  | updateDagRunSuccess id startedAt finishedAt =>
    simp only [apply]
    split
    · exact .same rfl
    · unfold armEvent
      split
      · rename_i events hevents
        exact .inserted _ rfl hevents
      · refine .modified (fun e => e.source = .dependency ∧ e.eventKey = id) (fun e => { e with consumed := false })
          (fun _ => rfl) ?_ rfl
        intro e he
        simp only [decide_eq_true_eq] at he
        exact .inr he.1
  | updateDagRunDefinition id yaml hash =>
    simp only [apply]
    split <;> exact .same rfl
  | setDagRunHeld id held =>
    simp only [apply]
    split
    · exact .same rfl
    · split <;> exact .same rfl
  | createTaskInstance ti =>
    simp only [apply]
    split <;> exact .same rfl
  | updateTaskInstance ti =>
    simp only [apply]
    split <;> exact .same rfl
  | updateTaskInstanceGuarded ti ref =>
    simp only [apply]
    split
    · exact .same rfl
    · split <;> exact .same rfl
  | consumeEvent id =>
    refine .modified (fun e => e.id = id) (fun e => { e with consumed := true }) (fun _ => rfl) ?_ rfl
    intro e he
    simp only [decide_eq_true_eq] at he
    exact .inl (by rw [he]; rfl)
  | publishEvent source key payload =>
    simp only [apply]
    split
    · rename_i events hevents
      exact .inserted _ rfl hevents
    · exact .same rfl
  | setTaskOutput runID taskID output => exact .same rfl

/-- The event after an edit. -/
theorem Db.apply_event_cases {s : Db} {β : Type} (w : Write β) {e' : Event} (h : e' ∈ (s.apply w).2.events.rows) :
    (∃ e ∈ s.events.rows, eventKeyOf e' = eventKeyOf e ∧
      (e'.consumed = e.consumed ∨ w.consumes = some e.id ∨ e.source = .dependency)) ∨ e'.id = s.nextEventID := by
  cases s.apply_eventEdit w with
  | same heq => exact .inl ⟨e', heq ▸ h, rfl, .inl rfl⟩
  | modified p f hf hp heq =>
    rw [heq, Table.mem_modify] at h
    obtain ⟨e, he, rfl⟩ := h
    left
    refine ⟨e, he, ?_⟩
    split
    · rename_i hpe
      exact ⟨hf e, .inr (hp e hpe)⟩
    · exact ⟨rfl, .inl rfl⟩
  | inserted e hid hevents =>
    rw [Table.rows_insert? hevents, List.mem_append, List.mem_singleton] at h
    rcases h with hold | rfl
    · exact .inl ⟨e', hold, rfl, .inl rfl⟩
    · exact .inr hid

/-- No statement deletes an event. -/
theorem Db.apply_event_kept {s : Db} {β : Type} (w : Write β) {e : Event} (h : e ∈ s.events.rows) :
    ∃ e' ∈ (s.apply w).2.events.rows, eventKeyOf e' = eventKeyOf e ∧
      (e'.consumed = e.consumed ∨ w.consumes = some e.id ∨ e.source = .dependency) := by
  cases s.apply_eventEdit w with
  | same heq => exact ⟨e, heq ▸ h, rfl, .inl rfl⟩
  | modified p f hf hp heq =>
    refine ⟨if p e then f e else e, heq ▸ (Table.mem_modify hf).mpr ⟨e, h, rfl⟩, ?_⟩
    split
    · rename_i hpe
      exact ⟨hf e, .inr (hp e hpe)⟩
    · exact ⟨rfl, .inl rfl⟩
  | inserted new hid hevents =>
    refine ⟨e, ?_, rfl, .inl rfl⟩
    rw [Table.rows_insert? hevents]
    exact List.mem_append_left _ h

end Cronova.Store
