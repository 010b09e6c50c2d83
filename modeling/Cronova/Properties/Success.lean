import Cronova.Properties.RunStates
import Cronova.Scheduler.Steps

/-! What a recorded success says about the tasks of its run, statement by statement:
which statements keep it true, and what the holder of the mutex may rely on while
the other threads write. -/
namespace Cronova.Properties.Success
open Cronova.Model Cronova.Store Cronova.Concurrency Cronova.Concurrency.Fallible Cronova.Scheduler

/-- The task has ended well. -/
def isDone : TaskState → Bool
  | .success | .skipped => true
  | _ => false

def Completed (r : String) (db : Db) (taskID : String) : Prop :=
  ∃ row ∈ db.tasks.rows, row.runID = r ∧ row.taskID = taskID ∧ isDone row.state = true

/-- If `r` is recorded as a success, it has a definition snapshot all of whose
tasks have ended well. -/
def Sound (cfg : Cfg) (r : String) (db : Db) : Prop :=
  ∀ run, db.run? r = some run → run.state = .success → run.definitionYAML ≠ "" ∧
    ∀ d, parseDefinition cfg run.definitionYAML = .ok d → ∀ t ∈ d.tasks, Completed r db t.id

/-- `r` is not recorded as a success. -/
def Open (r : String) (db : Db) : Prop := db.runState r ≠ some .success

/-- A dependency event for `r` is stored. -/
def Armed (r : String) (db : Db) : Prop := ∃ e ∈ db.events.rows, e.source = .dependency ∧ e.eventKey = r

/-- The row of the instance is stored, and no recorded success of `r` rests on it. -/
structure Spare (cfg : Cfg) (r : String) (db : Db) (ti : TaskInstance) : Prop where
  stored : ∃ row, db.task? ti.id = some row ∧ row.runID = ti.runID ∧ row.taskID = ti.taskID
  unneeded : ti.runID = r → ∀ run, db.run? r = some run → run.state = .success →
    ∀ d, parseDefinition cfg run.definitionYAML = .ok d → ti.taskID ∉ d.tasks.map (·.id)

section Db
variable {cfg : Cfg} {r : String} {db db' : Db}

theorem open_iff : Open r db ↔ ∀ run, db.run? r = some run → run.state ≠ .success := by
  unfold Open Db.runState
  cases db.run? r with
  | none => simp
  | some run => simp

theorem Open.sound (h : Open r db) : Sound cfg r db :=
  fun run hrun hsuccess => absurd hsuccess (open_iff.mp h run hrun)

/-- A success that is still there rests on what it rested on before. -/
theorem Sound.transfer (h : Sound cfg r db)
    (hrun : ∀ run', db'.run? r = some run' → run'.state = .success →
      ∃ run, db.run? r = some run ∧ run.state = .success ∧ run.definitionYAML = run'.definitionYAML)
    (htasks : ∀ run d t, db.run? r = some run → run.state = .success → parseDefinition cfg run.definitionYAML = .ok d →
      t ∈ d.tasks → Completed r db t.id → Completed r db' t.id) : Sound cfg r db' := by
  intro run' hrun' hsuccess'
  obtain ⟨run, hold, hsuccess, hyaml⟩ := hrun run' hrun' hsuccess'
  obtain ⟨hne, hall⟩ := h run hold hsuccess
  rw [← hyaml]
  refine ⟨hne, ?_⟩
  intro d hd t ht
  exact htasks run d t hold hsuccess hd ht (hall d hd t ht)

/-- An instance that has not ended is spare while the success is sound. -/
theorem Sound.spare (h : Sound cfg r db) {ti : TaskInstance} (hti : ti ∈ db.tasks.rows) (hopen : ti.state.isTerminal = false) :
    Spare cfg r db ti := by
  refine ⟨⟨ti, Db.task?_of_mem hti, rfl, rfl⟩, ?_⟩
  intro hid run hrun hsuccess d hd hmem
  obtain ⟨t, ht, htask⟩ := List.mem_map.mp hmem
  obtain ⟨row, hrow, hrowrun, hrowtask, hdone⟩ := (h run hrun hsuccess).2 d hd t ht
  have hsame : row = ti := Db.task_unique hrow hti (hrowrun.trans hid.symm) (hrowtask.trans htask)
  rw [hsame] at hdone
  revert hopen hdone
  cases ti.state <;> simp [isDone, TaskState.isTerminal]

theorem Spare.of_other {ti : TaskInstance} (hstored : ∃ row, db.task? ti.id = some row ∧ row.runID = ti.runID ∧ row.taskID = ti.taskID)
    (hne : ti.runID ≠ r) : Spare cfg r db ti :=
  ⟨hstored, fun h => absurd h hne⟩

theorem Spare.of_open {ti : TaskInstance} (hstored : ∃ row, db.task? ti.id = some row ∧ row.runID = ti.runID ∧ row.taskID = ti.taskID)
    (hopen : Open r db) : Spare cfg r db ti :=
  ⟨hstored, fun _ run hrun hsuccess => absurd hsuccess (open_iff.mp hopen run hrun)⟩

theorem Completed.of_rows {taskID : String} (hrows : db'.tasks = db.tasks) (h : Completed r db taskID) : Completed r db' taskID := by
  unfold Completed
  rw [hrows]
  exact h

end Db

/-! ### Statements -/

section Statements
variable {cfg : Cfg} {r : String} {db : Db} {β : Type} {w : Write β}

/-- The run whose definition the statement replaces. -/
def redefines : {β : Type} → Write β → Option String
  | _, .updateDagRunDefinition id _ _ => some id
  | _, _ => none

/-- The row the statement overwrites. -/
def rewrites : {β : Type} → Write β → Option Nat
  | _, .updateTaskInstance ti | _, .updateTaskInstanceGuarded ti _ => some ti.id
  | _, _ => none

def createsTask : {β : Type} → Write β → Bool
  | _, .createTaskInstance _ => true
  | _, _ => false

/-- The statement publishes a dependency event. -/
def signals : {β : Type} → Write β → Bool
  | _, .publishEvent source _ _ => source = .dependency
  | _, _ => false

theorem apply_definition (h : redefines w ≠ some r) {run : DagRun} (hrun : db.run? r = some run) :
    ∃ run', (db.apply w).2.run? r = some run' ∧ run'.definitionYAML = run.definitionYAML := by
  have hsame : ∀ db' : Db, db'.runs = db.runs → ∃ run', db'.run? r = some run' ∧ run'.definitionYAML = run.definitionYAML := by
    intro db' hruns
    exact ⟨run, by rw [Db.run?, hruns]; exact hrun, rfl⟩
  have hmodify : ∀ id (f : DagRun → DagRun) hf, (f run).definitionYAML = run.definitionYAML →
      ∃ run', (db.modifyRun id f hf).run? r = some run' ∧ run'.definitionYAML = run.definitionYAML := by
    intro id f hf hyaml
    refine ⟨if run.runID = id then f run else run, by rw [Db.run?_modifyRun, hrun, Option.map_some], ?_⟩
    split
    · exact hyaml
    · rfl
  have hinsert : ∀ new admitted, ∃ run', (db.insertRun new admitted).2.run? r = some run' ∧
      run'.definitionYAML = run.definitionYAML := by
    intro new admitted
    rcases db.insertRun_cases new admitted with ⟨runs, hruns, heq⟩ | ⟨_, heq⟩ <;> rw [heq]
    · exact ⟨run, by rw [Db.run?_insert hruns, hrun, Option.some_or], rfl⟩
    · exact ⟨run, hrun, rfl⟩
  cases w with
  | createDagRunBounded new global => exact hinsert new _
  | createManualDagRunBounded new perDAG global => exact hinsert new _
  | updateDagRunState id target started finished =>
    rcases db.updateDagRunState_cases id target started finished with ⟨_, heq⟩ | ⟨_, _, _, heq⟩ <;> rw [heq]
    · exact hsame db rfl
    · exact hmodify id (fun run => { run with state := target, startedAt := started, finishedAt := finished }) (fun _ => rfl) rfl
  | updateDagRunSuccess id started finished =>
    rcases db.updateDagRunSuccess_cases id started finished with ⟨_, heq⟩ | ⟨_, _, heq⟩ <;> rw [heq]
    · exact hsame db rfl
    · rw [Db.run?_armEvent]
      exact hmodify id (fun run => { run with state := .success, startedAt := started, finishedAt := finished }) (fun _ => rfl) rfl
  | updateDagRunDefinition id yaml hash =>
    have hne : r ≠ id := fun heq => h (congrArg some heq.symm)
    refine ⟨run, ?_, rfl⟩
    simp only [Db.apply]
    split
    · exact hrun
    · exact (Db.run?_modifyRun_ne hne).trans hrun
  | setDagRunHeld id held =>
    simp only [Db.apply]
    split
    · exact hsame db rfl
    · split
      · exact hmodify id (fun run => { run with held := held }) (fun _ => rfl) rfl
      · exact hsame db rfl
  | publishEvent source key payload =>
    simp only [Db.apply]
    split <;> exact hsame _ rfl
  | createTaskInstance ti =>
    rcases db.createTaskInstance_cases ti with ⟨_, heq⟩ | ⟨_, _, heq⟩ <;> rw [heq] <;> exact hsame _ rfl
  | updateTaskInstance ti =>
    rcases db.updateTaskInstance_cases ti with ⟨_, heq⟩ | ⟨_, _, heq⟩ <;> rw [heq] <;> exact hsame _ rfl
  | updateTaskInstanceGuarded ti ref =>
    rcases db.updateTaskInstanceGuarded_cases ti ref with heq | ⟨_, _, _, _, heq⟩ <;> rw [heq] <;> exact hsame _ rfl
  | consumeEvent id => exact hsame _ rfl
  | setTaskOutput runID taskID output => exact hsame _ rfl

/-- A row stays stored for its task, and as it is unless it is overwritten. -/
theorem apply_task {id : Nat} {row : TaskInstance} (hrow : db.task? id = some row) :
    ∃ row', (db.apply w).2.task? id = some row' ∧ row'.runID = row.runID ∧ row'.taskID = row.taskID ∧
      (rewrites w ≠ some id → row' = row) := by
  have hwrite : ∀ ti : TaskInstance, ∃ row', (db.writeTask ti).task? id = some row' ∧ row'.runID = row.runID ∧
      row'.taskID = row.taskID ∧ (ti.id ≠ id → row' = row) := by
    intro ti
    by_cases hid : id = ti.id
    · subst hid
      exact ⟨_, Db.task?_writeTask_self hrow, rfl, rfl, fun h => absurd rfl h⟩
    · exact ⟨row, by rw [Db.task?_writeTask_ne hid]; exact hrow, rfl, rfl, fun _ => rfl⟩
  cases htouch : w.touchesTasks with
  | false =>
    refine ⟨row, ?_, rfl, rfl, fun _ => rfl⟩
    unfold Db.task? at hrow ⊢
    rw [Db.apply_tasks htouch]
    exact hrow
  | true =>
    cases w with
    | createTaskInstance ti =>
      rcases db.createTaskInstance_cases ti with ⟨_, heq⟩ | ⟨tasks, htasks, heq⟩ <;> rw [heq]
      · exact ⟨row, hrow, rfl, rfl, fun _ => rfl⟩
      · exact ⟨row, Db.task?_insert htasks hrow, rfl, rfl, fun _ => rfl⟩
    | updateTaskInstance ti =>
      rcases db.updateTaskInstance_cases ti with ⟨_, heq⟩ | ⟨_, _, heq⟩ <;> rw [heq]
      · exact ⟨row, hrow, rfl, rfl, fun _ => rfl⟩
      · obtain ⟨row', hrow', hrun, htask, hsame⟩ := hwrite ti
        exact ⟨row', hrow', hrun, htask, fun h => hsame (fun heq => h (congrArg some heq))⟩
    | updateTaskInstanceGuarded ti ref =>
      rcases db.updateTaskInstanceGuarded_cases ti ref with heq | ⟨_, _, _, _, heq⟩ <;> rw [heq]
      · exact ⟨row, hrow, rfl, rfl, fun _ => rfl⟩
      · obtain ⟨row', hrow', hrun, htask, hsame⟩ := hwrite ti
        exact ⟨row', hrow', hrun, htask, fun h => hsame (fun heq => h (congrArg some heq))⟩
    | _ => cases htouch

/-- Only `createTaskInstance` adds a task to a run. -/
theorem apply_known (h : createsTask w = false) {row' : TaskInstance} (hrow' : row' ∈ (db.apply w).2.tasks.rows) :
    ∃ row ∈ db.tasks.rows, row'.runID = row.runID ∧ row'.taskID = row.taskID := by
  have hwrite : ∀ ti, row' ∈ (db.writeTask ti).tasks.rows → ∃ row ∈ db.tasks.rows, row'.runID = row.runID ∧ row'.taskID = row.taskID := by
    intro ti hmem
    rcases Db.mem_writeTask_cases hmem with hold | ⟨old, hold, _, rfl⟩
    · exact ⟨row', hold, rfl, rfl⟩
    · exact ⟨old, hold, rfl, rfl⟩
  cases htouch : w.touchesTasks with
  | false =>
    rw [Db.apply_tasks htouch] at hrow'
    exact ⟨row', hrow', rfl, rfl⟩
  | true =>
    cases w with
    | createTaskInstance ti => cases h
    | updateTaskInstance ti =>
      rcases db.updateTaskInstance_cases ti with ⟨_, heq⟩ | ⟨_, _, heq⟩ <;> rw [heq] at hrow'
      · exact ⟨row', hrow', rfl, rfl⟩
      · exact hwrite ti hrow'
    | updateTaskInstanceGuarded ti ref =>
      rcases db.updateTaskInstanceGuarded_cases ti ref with heq | ⟨_, _, _, _, heq⟩ <;> rw [heq] at hrow'
      · exact ⟨row', hrow', rfl, rfl⟩
      · exact hwrite ti hrow'
    | _ => cases htouch

/-- An event for `r` is new only when the success of `r` was recorded. -/
theorem armed_before (h : signals w = false) (harmed : Armed r (db.apply w).2) :
    Armed r db ∨ (db.apply w).2.runState r = some .success := by
  have hsame : (db.apply w).2.events = db.events → Armed r db := by
    intro heq
    rw [Armed, heq] at harmed
    exact harmed
  have hinsert : ∀ new admitted, (db.insertRun new admitted).2.events = db.events := by
    intro new admitted
    rcases db.insertRun_cases new admitted with ⟨_, _, heq⟩ | ⟨_, heq⟩ <;> rw [heq]
  have hmodify : ∀ (p : Event → Bool) (f : Event → Event) (hf : ∀ e, eventKeyOf (f e) = eventKeyOf e), ∀ e ∈ (db.events.modify p f hf).rows,
      e.source = .dependency → e.eventKey = r → Armed r db := by
    intro p f hf e he hsource hkey
    obtain ⟨old, hold, rfl⟩ := (Relational.Table.mem_modify hf).mp he
    have hsamekey : eventKeyOf (if p old then f old else old) = eventKeyOf old := by
      split
      · exact hf old
      · rfl
    simp only [eventKeyOf, Prod.mk.injEq] at hsamekey
    exact ⟨old, hold, hsamekey.2.1.symm.trans hsource, hsamekey.2.2.symm.trans hkey⟩
  cases w with
  | createDagRunBounded new global => exact .inl (hsame (hinsert new _))
  | createManualDagRunBounded new perDAG global => exact .inl (hsame (hinsert new _))
  | updateDagRunState id target started finished =>
    refine .inl (hsame ?_)
    rcases db.updateDagRunState_cases id target started finished with ⟨_, heq⟩ | ⟨_, _, _, heq⟩ <;> rw [heq]
    rfl
  | updateDagRunSuccess id started finished =>
    rcases db.updateDagRunSuccess_cases id started finished with ⟨_, heq⟩ | ⟨run, hrun, heq⟩
    · exact .inl (hsame (by rw [heq]))
    · by_cases hid : id = r
      · subst hid
        rw [heq, Db.runState, Db.run?_armEvent, Db.run?_recordState_self hrun]
        exact .inr rfl
      · obtain ⟨e, he, hsource, hkey⟩ := harmed
        rw [heq] at he
        unfold Db.armEvent at he
        split at he
        · rename_i events hevents
          rw [Relational.Table.rows_insert? hevents] at he
          rcases List.mem_append.mp he with hold | hnew
          · exact .inl ⟨e, hold, hsource, hkey⟩
          · obtain rfl := List.mem_singleton.mp hnew
            exact absurd hkey hid
        · exact .inl (hmodify (fun e => e.source = .dependency ∧ e.eventKey = id) (fun e => { e with consumed := false })
            (fun _ => rfl) e he hsource hkey)
  | updateDagRunDefinition id yaml hash =>
    refine .inl (hsame ?_)
    simp only [Db.apply]
    split <;> rfl
  | setDagRunHeld id held =>
    refine .inl (hsame ?_)
    simp only [Db.apply]
    split
    · rfl
    · split <;> rfl
  | createTaskInstance ti =>
    refine .inl (hsame ?_)
    rcases db.createTaskInstance_cases ti with ⟨_, heq⟩ | ⟨_, _, heq⟩ <;> rw [heq]
  | updateTaskInstance ti =>
    refine .inl (hsame ?_)
    rcases db.updateTaskInstance_cases ti with ⟨_, heq⟩ | ⟨_, _, heq⟩ <;> rw [heq]
    rfl
  | updateTaskInstanceGuarded ti ref =>
    refine .inl (hsame ?_)
    rcases db.updateTaskInstanceGuarded_cases ti ref with heq | ⟨_, _, _, _, heq⟩ <;> rw [heq]
    rfl
  | consumeEvent id =>
    obtain ⟨e, he, hsource, hkey⟩ := harmed
    exact .inl (hmodify (fun e => e.id = id) (fun e => { e with consumed := true }) (fun _ => rfl) e he hsource hkey)
  | publishEvent source key payload =>
    have hsource : source ≠ .dependency := by simpa [signals] using h
    obtain ⟨e, he, hdependency, hkey⟩ := harmed
    simp only [Db.apply] at he
    split at he
    · rename_i events hevents
      rw [Relational.Table.rows_insert? hevents] at he
      rcases List.mem_append.mp he with hold | hnew
      · exact .inl ⟨e, hold, hdependency, hkey⟩
      · obtain rfl := List.mem_singleton.mp hnew
        exact absurd hdependency hsource
    · exact .inl ⟨e, he, hdependency, hkey⟩
  | setTaskOutput runID taskID output => exact .inl (hsame rfl)

theorem silent_none {o : Option RunState} (h : o = none) : o ≠ some .success := by
  rw [h]
  nofun

/-- A run stays open unless its success is recorded. -/
theorem Open.apply (h : Open r db) (hrec : w.recordsState r ≠ some .success) (hnew : ∀ run, w.creates = some run → run.state = .queued) :
    Open r (db.apply w).2 := by
  intro hsuccess
  cases htarget : w.recordsState r with
  | some target =>
    rcases Db.recorded_state htarget hsuccess with rfl | hold
    · exact hrec htarget
    · exact h hold
  | none =>
    cases hstate : db.runState r with
    | some a =>
      rw [Db.apply_runState htarget hstate] at hsuccess
      exact h (hstate.trans hsuccess)
    | none =>
      rcases Db.apply_runState_none hstate hnew with hnone | hqueued
      · rw [hnone] at hsuccess
        cases hsuccess
      · rw [hqueued] at hsuccess
        cases hsuccess

/-- A success that is there afterwards was there before, with the same definition. -/
theorem success_before (hrec : w.recordsState r ≠ some .success) (hnew : ∀ run, w.creates = some run → run.state = .queued)
    (hyaml : redefines w ≠ some r) {run' : DagRun} (hrun' : (db.apply w).2.run? r = some run') (hsuccess : run'.state = .success) :
    ∃ run, db.run? r = some run ∧ run.state = .success ∧ run.definitionYAML = run'.definitionYAML := by
  have hnot : ¬ Open r db := fun h => open_iff.mp (h.apply hrec hnew) run' hrun' hsuccess
  rw [open_iff] at hnot
  push Not at hnot
  obtain ⟨run, hrun, hstate⟩ := hnot
  obtain ⟨run'', hrun'', heq⟩ := apply_definition (w := w) hyaml hrun
  rw [hrun'] at hrun''
  cases hrun''
  exact ⟨run, hrun, hstate, heq.symm⟩

/-- The statement neither records a success of `r`, nor replaces the definition of a
recorded one, nor overwrites a row that a recorded success rests on. -/
structure Gentle (cfg : Cfg) (r : String) (db : Db) {β : Type} (w : Write β) : Prop where
  records : w.recordsState r ≠ some .success
  queued : ∀ run, w.creates = some run → run.state = .queued
  text : redefines w = some r → Open r db
  rows : ∀ run d t, db.run? r = some run → run.state = .success → parseDefinition cfg run.definitionYAML = .ok d → t ∈ d.tasks →
    ∀ row ∈ db.tasks.rows, row.runID = r → row.taskID = t.id → isDone row.state = true →
      (db.apply w).2.task? row.id = some row

theorem Sound.apply (h : Sound cfg r db) (hw : Gentle cfg r db w) : Sound cfg r (db.apply w).2 := by
  by_cases hyaml : redefines w = some r
  · exact ((hw.text hyaml).apply hw.records hw.queued).sound
  · refine h.transfer (fun run' => success_before hw.records hw.queued hyaml) ?_
    rintro run d t hrun hsuccess hd ht ⟨row, hrow, hid, htask, hdone⟩
    have hkept := hw.rows run d t hrun hsuccess hd ht row hrow hid htask hdone
    exact ⟨row, (Db.task?_spec hkept).1, hid, htask, hdone⟩

/-- A spare instance stays spare. -/
theorem Spare.apply {ti : TaskInstance} (h : Spare cfg r db ti) (hrec : w.recordsState r ≠ some .success)
    (hnew : ∀ run, w.creates = some run → run.state = .queued) (htext : redefines w = some r → Open r db) :
    Spare cfg r (db.apply w).2 ti := by
  obtain ⟨row, hrow, hrun, htask⟩ := h.stored
  obtain ⟨row', hrow', hrun', htask', -⟩ := apply_task (w := w) hrow
  have hstored : ∃ row, (db.apply w).2.task? ti.id = some row ∧ row.runID = ti.runID ∧ row.taskID = ti.taskID :=
    ⟨row', hrow', hrun'.trans hrun, htask'.trans htask⟩
  by_cases hyaml : redefines w = some r
  · exact .of_open hstored ((htext hyaml).apply hrec hnew)
  · refine ⟨hstored, ?_⟩
    intro hid run' hrunAfter hsuccess d hd
    obtain ⟨run, hrunBefore, hstate, heq⟩ := success_before hrec hnew hyaml hrunAfter hsuccess
    exact h.unneeded hid run hrunBefore hstate d (heq ▸ hd)

/-- A statement that overwrites no row, or the row of a spare instance, leaves the
rows of a recorded success alone. -/
theorem rows_kept {ti : TaskInstance} (h : Spare cfg r db ti) (hw : rewrites w = some ti.id) :
    ∀ run d t, db.run? r = some run → run.state = .success → parseDefinition cfg run.definitionYAML = .ok d → t ∈ d.tasks →
      ∀ row ∈ db.tasks.rows, row.runID = r → row.taskID = t.id → isDone row.state = true →
        (db.apply w).2.task? row.id = some row := by
  intro run d t hrun hsuccess hd ht row hrow hid htask _
  obtain ⟨row', hrow', -, -, hsame⟩ := apply_task (w := w) (Db.task?_of_mem hrow)
  have hne : rewrites w ≠ some row.id := by
    intro heq
    obtain ⟨stored, hstored, hstoredrun, hstoredtask⟩ := h.stored
    have hidentity : ti.id = row.id := Option.some.inj (hw.symm.trans heq)
    rw [hidentity, Db.task?_of_mem hrow] at hstored
    cases hstored
    refine h.unneeded (hstoredrun.symm.trans hid) run hrun hsuccess d hd ?_
    rw [← hstoredtask, htask]
    exact List.mem_map.mpr ⟨t, ht, rfl⟩
  rw [hrow', hsame hne]

theorem rows_untouched (hw : rewrites w = none) {row : TaskInstance} (hrow : row ∈ db.tasks.rows) :
    (db.apply w).2.task? row.id = some row := by
  obtain ⟨row', hrow', -, -, hsame⟩ := apply_task (w := w) (Db.task?_of_mem hrow)
  rw [hrow', hsame (by rw [hw]; nofun)]

/-- A statement that overwrites rows of other runs leaves those of `r` alone. -/
theorem rows_elsewhere (hw : ∀ id, rewrites w = some id → ∀ row, db.task? id = some row → row.runID ≠ r) {row : TaskInstance}
    (hrow : row ∈ db.tasks.rows) (hid : row.runID = r) : (db.apply w).2.task? row.id = some row := by
  have hstored := Db.task?_of_mem hrow
  obtain ⟨row', hrow', -, -, hsame⟩ := apply_task (w := w) hstored
  rw [hrow', hsame (fun h => hw row.id h row hstored hid)]

/-- A row that the statement puts into state scheduled carries no ref. -/
def Detaching : {β : Type} → Write β → Prop
  | _, .createTaskInstance ti | _, .updateTaskInstance ti | _, .updateTaskInstanceGuarded ti _ =>
    ti.state = .scheduled → ti.executorRef = ""
  | _, _ => True

/-- No scheduled row carries a ref. -/
def Detached (db : Db) : Prop := ∀ row ∈ db.tasks.rows, row.state = .scheduled → row.executorRef = ""

theorem Detached.apply (h : Detached db) (hw : Detaching w) : Detached (db.apply w).2 := by
  have hwrite : ∀ ti : TaskInstance, (ti.state = .scheduled → ti.executorRef = "") → Detached (db.writeTask ti) := by
    intro ti hti row hrow hsched
    rcases Db.mem_writeTask_cases hrow with hold | ⟨_, _, _, rfl⟩
    · exact h row hold hsched
    · exact hti hsched
  cases htouch : w.touchesTasks with
  | false =>
    intro row hrow
    rw [Db.apply_tasks htouch] at hrow
    exact h row hrow
  | true =>
    cases w with
    | createTaskInstance ti =>
      rcases db.createTaskInstance_cases ti with ⟨_, heq⟩ | ⟨tasks, htasks, heq⟩ <;> rw [heq]
      · exact h
      · intro row hrow hsched
        rw [show _ = _ from Relational.Table.rows_insert? htasks] at hrow
        rcases List.mem_append.mp hrow with hold | hnew
        · exact h row hold hsched
        · obtain rfl := List.mem_singleton.mp hnew
          exact hw hsched
    | updateTaskInstance ti =>
      rcases db.updateTaskInstance_cases ti with ⟨_, heq⟩ | ⟨_, _, heq⟩ <;> rw [heq]
      · exact h
      · exact hwrite ti hw
    | updateTaskInstanceGuarded ti ref =>
      rcases db.updateTaskInstanceGuarded_cases ti ref with heq | ⟨_, _, _, _, heq⟩ <;> rw [heq]
      · exact h
      · exact hwrite ti hw
    | _ => cases htouch

end Statements

/-! ### The discipline -/

/-- Every registered definition is what its text says. -/
def Registered (cfg : Cfg) (dags : List DAG) : Prop :=
  ∀ d ∈ dags, ∃ d', parseDefinition cfg d.definitionYAML = .ok d' ∧ d'.tasks = d.tasks

/-- Run `r` is stored with the definition of the snapshot. -/
def Current (r : String) (snap : DagRun) (db : Db) : Prop :=
  ∃ run, db.run? r = some run ∧ run.definitionYAML = snap.definitionYAML

/-- The condition on a step: run `r` is processed under the definition that is
stored for it, its outcome is not marked, and the registry is what was registered. -/
def Fair (cfg : Cfg) (r : String) (w : World) : {β : Type} → Cmd β → Prop
  | _, .enter (.processRun snap) => snap.runID = r → Current r snap w.db
  | _, .enter (.markRun id _) => id ≠ r
  | _, .registry _ => Registered cfg w.dags
  | _, _ => True

/-- What holds while no thread is in the middle of an operation. -/
structure Fine (cfg : Cfg) (r : String) (s : World) : Prop where
  sound : s.holder = none → Sound cfg r s.db
  detached : Detached s.db

/-- What thread `t` relies on. -/
structure Rely (cfg : Cfg) (r : String) (t : Nat) (s s' : World) : Prop where
  undisturbed : Undisturbed t s s'
  fine : Fine cfg r s → Fine cfg r s'
  sound : s.holder = some t → Sound cfg r s.db → Sound cfg r s'.db
  detached : Detached s.db → Detached s'.db
  opened : s.holder = some t ∨ t = 0 → Open r s.db → Open r s'.db
  text : s.holder = some t → ∀ run, s.db.run? r = some run →
    ∃ run', s'.db.run? r = some run' ∧ run'.definitionYAML = run.definitionYAML
  rows : ∀ id row, s.db.task? id = some row →
    ∃ row', s'.db.task? id = some row' ∧ row'.runID = row.runID ∧ row'.taskID = row.taskID
  known : s.holder = some t → ∀ row' ∈ s'.db.tasks.rows,
    ∃ row ∈ s.db.tasks.rows, row'.runID = row.runID ∧ row'.taskID = row.taskID

/-- What a command must satisfy. -/
def Own (cfg : Cfg) (r : String) (t : Nat) (s : World) : {β : Type} → Cmd β → Prop
  | _, .write (.updateDagRunSuccess id _ _) => id = r → t = 0
  | _, .write (.updateDagRunState id target _ _) => id = r → target ≠ .success
  | _, .write (.updateTaskInstance ti) => (ti.state = .scheduled → ti.executorRef = "") ∧
      (s.holder = some t ∨ Open r s.db ∨ ∀ row, s.db.task? ti.id = some row → row.runID ≠ r)
  | _, .write (.createTaskInstance ti) => ti.state = .scheduled → ti.executorRef = ""
  | _, .write (.publishEvent source _ _) => source ≠ .dependency
  | _, .unlock => Sound cfg r s.db
  | _, _ => True

namespace Rely
variable {cfg : Cfg} {r : String} {t : Nat} {s s' : World}

theorem sound_congr {db db' : Db} (hruns : db'.runs = db.runs) (htasks : db'.tasks = db.tasks) (h : Sound cfg r db) :
    Sound cfg r db' := by
  refine h.transfer ?_ (fun _ _ _ _ _ _ _ => .of_rows htasks)
  intro run' hrun' hsuccess
  rw [Db.run?, hruns] at hrun'
  exact ⟨run', hrun', hsuccess, rfl⟩

/-- The runs and the rows are untouched. -/
theorem of_eq (hundisturbed : Undisturbed t s s') (hruns : s'.db.runs = s.db.runs) (htasks : s'.db.tasks = s.db.tasks)
    (hfine : Fine cfg r s → Fine cfg r s') : Rely cfg r t s s' := by
  have hrun : ∀ id, s'.db.run? id = s.db.run? id := by
    intro id
    unfold Db.run?
    rw [hruns]
  refine ⟨hundisturbed, hfine, fun _ => sound_congr hruns htasks, ?_, ?_, ?_, ?_, ?_⟩
  · intro h row hrow
    exact h row (htasks ▸ hrow)
  · intro _ hopen
    rw [open_iff] at hopen ⊢
    intro run
    rw [hrun]
    exact hopen run
  · intro _ run hold
    exact ⟨run, (hrun r).trans hold, rfl⟩
  · intro id row hrow
    refine ⟨row, ?_, rfl, rfl⟩
    unfold Db.task?
    rw [htasks]
    exact hrow
  · intro _ row hrow
    exact ⟨row, htasks ▸ hrow, rfl, rfl⟩

theorem refl (cfg : Cfg) (r : String) (t : Nat) (s : World) : Rely cfg r t s s := of_eq (.refl t s) rfl rfl id

theorem trans {a b c : World} (hab : Rely cfg r t a b) (hbc : Rely cfg r t b c) : Rely cfg r t a c := by
  refine ⟨hab.undisturbed.trans hbc.undisturbed, fun h => hbc.fine (hab.fine h),
    fun h hsound => hbc.sound (hab.undisturbed.holder h) (hab.sound h hsound), fun h => hbc.detached (hab.detached h),
    ?_, ?_, ?_, ?_⟩
  · intro h hopen
    exact hbc.opened (h.imp hab.undisturbed.holder id) (hab.opened h hopen)
  · intro h run hrun
    obtain ⟨run', hrun', heq⟩ := hab.text h run hrun
    obtain ⟨run'', hrun'', heq'⟩ := hbc.text (hab.undisturbed.holder h) run' hrun'
    exact ⟨run'', hrun'', heq'.trans heq⟩
  · intro id row hrow
    obtain ⟨row', hrow', hid, htask⟩ := hab.rows id row hrow
    obtain ⟨row'', hrow'', hid', htask'⟩ := hbc.rows id row' hrow'
    exact ⟨row'', hrow'', hid'.trans hid, htask'.trans htask⟩
  · intro h row'' hrow''
    obtain ⟨row', hrow', hid', htask'⟩ := hbc.known (hab.undisturbed.holder h) row'' hrow''
    obtain ⟨row, hrow, hid, htask⟩ := hab.known h row' hrow'
    exact ⟨row, hrow, hid'.trans hid, htask'.trans htask⟩

end Rely

section Rules
variable {cfg : Cfg} {r : String} {k : Kind} {t : Nat}

/-- No step is a crash. -/
def calm (_ : World) : Prop := False

/-- The scheduler without crashes and store faults, in which the steps of `r` are
fair, with the mutex discipline built in. -/
abbrev base (cfg : Cfg) (r : String) : System Kind Cmd (Except Err Unit) World :=
  RunStates.base cfg False (fun _ _ _ c w => Fair cfg r w c) calm

def rules (cfg : Cfg) (r : String) (k : Kind) (t : Nat) : Rules Cmd World where
  sem := (base cfg r).sem k t
  rely := Rely cfg r t
  guar _ s _ s' := (∀ t', t ≠ t' → Rely cfg r t' s s') ∧ (Armed r s'.db → Armed r s.db ∨ s'.db.runState r = some .success)

/-- Reads and statements do not fail for outside reasons. -/
def Answered (k : Kind) (t : Nat) : {β : Type} → Cmd β → World → β → World → Prop
  | _, .read q, s, x, _ => x = q s.db
  | _, .write w, s, x, s' => s' = s.written k t w ∧ x = (s.db.apply w).1
  | _, _, _, _, _ => True

/-- What the semantics of a command says. -/
structure Sem (cfg : Cfg) (r : String) (k : Kind) (t : Nat) {β : Type} (c : Cmd β) (s : World) (x : β) (s' : World) : Prop where
  effect : World.Effect k t c s x s'
  answered : Answered k t c s x s'
  fair : Fair cfg r s c
  orderly : Orderly t s c
  undisturbed : ∀ t', t ≠ t' → Undisturbed t' s s'

theorem sem_spec {β : Type} {c : Cmd β} {s s' : World} {x : β} (h : (rules cfg r k t).sem c s x s') : Sem cfg r k t c s x s' := by
  obtain ⟨-, ⟨hfair, a, hfault, hexec⟩, horderly, hundisturbed⟩ := h
  refine ⟨World.exec_effect hexec, ?_, hfair, horderly, hundisturbed⟩
  cases c with
  | read q =>
    simp only [World.exec, if_neg hfault, Option.some.injEq, Prod.mk.injEq] at hexec
    exact hexec.1.symm
  | write w =>
    simp only [World.exec, if_neg hfault, Option.some.injEq, Prod.mk.injEq] at hexec
    exact ⟨hexec.2.symm, hexec.1.symm⟩
  | _ => trivial

/-- A statement issued outside the mutex is gentle. -/
theorem gentle_outside {s : World} {β : Type} {w : Write β} (hnot : s.holder ≠ some t) (hw : Permitted t s w)
    (hown : Own cfg r t s (.write w)) : Gentle cfg r s.db w := by
  have hnew : ∀ run, w.creates = some run → run.state = .queued := by
    intro run hrun
    cases w <;> cases hrun <;> exact hw
  have hgentle : w.recordsState r ≠ some .success → redefines w = none →
      (∀ row ∈ s.db.tasks.rows, row.runID = r → isDone row.state = true → (∃ run, s.db.run? r = some run ∧ run.state = .success) →
        (s.db.apply w).2.task? row.id = some row) → Gentle cfg r s.db w := by
    intro hrec hredefines hrows
    refine ⟨hrec, hnew, ?_, fun run d t hrun hsuccess _ _ row hrow hid _ hdone => hrows row hrow hid hdone ⟨run, hrun, hsuccess⟩⟩
    intro h
    rw [hredefines] at h
    cases h
  have hplain : rewrites w = none → w.recordsState r ≠ some .success → redefines w = none → Gentle cfg r s.db w :=
    fun hrewrites hrec hredefines => hgentle hrec hredefines (fun row hrow _ _ _ => rows_untouched hrewrites hrow)
  cases w with
  | updateDagRunSuccess id started finished => exact absurd hw hnot
  | updateDagRunDefinition id yaml hash => exact absurd hw hnot
  | createTaskInstance ti => exact absurd hw hnot
  | updateDagRunState id target started finished =>
    refine hplain rfl ?_ rfl
    simp only [Write.recordsState]
    split
    · rename_i hid
      exact fun h => hown hid (Option.some.inj h)
    · exact silent_none rfl
  | updateTaskInstance ti =>
    refine hgentle (silent_none rfl) rfl ?_
    rintro row hrow hid - ⟨run, hrun, hsuccess⟩
    have hspared : ∀ row, s.db.task? ti.id = some row → row.runID ≠ r := by
      rcases hown.2 with hheld | hopen | hother
      · exact absurd hheld hnot
      · exact absurd hsuccess (open_iff.mp hopen run hrun)
      · exact hother
    have hrow' := Db.task?_of_mem hrow
    obtain ⟨row', hafter, -, -, hsame⟩ := apply_task (w := .updateTaskInstance ti) hrow'
    have hne : ti.id ≠ row.id := fun heq => hspared row (heq ▸ hrow') hid
    rw [hafter, hsame (fun h => hne (Option.some.inj h))]
  | updateTaskInstanceGuarded ti ref =>
    refine hgentle (silent_none rfl) rfl ?_
    intro row hrow _ hdone _
    refine Db.guarded_terminal (Db.task?_of_mem hrow) ?_
    revert hdone
    cases row.state <;> simp [isDone, TaskState.isTerminal]
  | createDagRunBounded run global => exact hplain rfl (silent_none rfl) rfl
  | createManualDagRunBounded run perDAG global => exact hplain rfl (silent_none rfl) rfl
  | setDagRunHeld id held => exact hplain rfl (silent_none rfl) rfl
  | consumeEvent id => exact hplain rfl (silent_none rfl) rfl
  | publishEvent source key payload => exact hplain rfl (silent_none rfl) rfl
  | setTaskOutput runID taskID output => exact hplain rfl (silent_none rfl) rfl

theorem detaching {s : World} {β : Type} {w : Write β} (hw : Permitted t s w) (hown : Own cfg r t s (.write w)) :
    Detaching w := by
  cases w with
  | createTaskInstance ti => exact hown
  | updateTaskInstance ti => exact hown.1
  | updateTaskInstanceGuarded ti ref => exact hw
  | _ => trivial

/-- Only the loop's thread records a success of `r`. -/
private theorem records_success {s : World} {β : Type} {w : Write β} (hne : t ≠ 0) (hown : Own cfg r t s (.write w)) :
    w.recordsState r ≠ some .success := by
  cases w with
  | updateDagRunState id target started finished =>
    simp only [Write.recordsState]
    split
    · rename_i hid
      exact fun h => hown hid (Option.some.inj h)
    · intro h
      cases h
  | updateDagRunSuccess id started finished =>
    simp only [Write.recordsState]
    split
    · rename_i hid
      exact fun _ => hne (hown hid)
    · intro h
      cases h
  | _ =>
    intro h
    cases h

theorem creates_queued {s : World} {β : Type} {w : Write β} (hw : Permitted t s w) :
    ∀ run, w.creates = some run → run.state = .queued := by
  intro run hrun
  cases w <;> cases hrun <;> exact hw

private theorem written_rely {s : World} {t' : Nat} (hne : t ≠ t') {β : Type} {w : Write β} (hw : Permitted t s w)
    (hown : Own cfg r t s (.write w)) (hundisturbed : Undisturbed t' s (s.written k t w)) :
    Rely cfg r t' s (s.written k t w) := by
  have hdetached : Detached s.db → Detached (s.db.apply w).2 := fun h => h.apply (detaching hw hown)
  have houtside : s.holder = some t' → s.holder ≠ some t := by
    intro hheld hmine
    exact hne (Option.some.inj (hmine.symm.trans hheld))
  refine ⟨hundisturbed, ?_, ?_, hdetached, ?_, ?_, ?_, ?_⟩
  · intro hfine
    refine ⟨?_, hdetached hfine.detached⟩
    intro hnone
    have hfree : s.holder = none := hnone
    have hnot : s.holder ≠ some t := by rw [hfree]; nofun
    exact (hfine.sound hfree).apply (gentle_outside hnot hw hown)
  · exact fun hheld hsound => hsound.apply (gentle_outside (houtside hheld) hw hown)
  · intro hwho hopen
    refine hopen.apply ?_ (creates_queued hw)
    rcases hwho with hheld | rfl
    · exact (gentle_outside (houtside hheld) hw hown).records
    · exact records_success hne hown
  · intro hheld run hrun
    refine apply_definition ?_ hrun
    intro hredefines
    cases w with
    | updateDagRunDefinition id yaml hash => exact houtside hheld hw
    | _ => cases hredefines
  · intro id row hrow
    obtain ⟨row', hrow', hid, htask, -⟩ := apply_task (w := w) hrow
    exact ⟨row', hrow', hid, htask⟩
  · intro hheld row' hrow'
    refine apply_known ?_ hrow'
    cases w with
    | createTaskInstance ti => exact absurd hw (houtside hheld)
    | _ => rfl

/-- A command that keeps to its own part keeps the promises to the others. -/
private theorem Sem.guar_rely {β : Type} {c : Cmd β} {s s' : World} {x : β} (h : Sem cfg r k t c s x s') (hown : Own cfg r t s c)
    {t' : Nat} (hne : t ≠ t') : Rely cfg r t' s s' := by
  have hundisturbed := h.undisturbed t' hne
  have heffect := h.effect
  cases c with
  | write w =>
    obtain ⟨rfl, -⟩ := h.answered
    exact written_rely hne h.orderly hown hundisturbed
  | lock =>
    obtain ⟨rfl, -⟩ := heffect
    exact .of_eq hundisturbed rfl rfl (fun hfine => ⟨nofun, hfine.detached⟩)
  | unlock =>
    obtain rfl := heffect
    exact .of_eq hundisturbed rfl rfl (fun hfine => ⟨fun _ => hown, hfine.detached⟩)
  | enter op =>
    obtain rfl := heffect
    exact .of_eq hundisturbed rfl rfl (fun hfine => ⟨hfine.sound, hfine.detached⟩)
  | leave op ok =>
    obtain rfl := heffect
    exact .of_eq hundisturbed rfl rfl (fun hfine => ⟨hfine.sound, hfine.detached⟩)
  | read q =>
    obtain ⟨rfl, -⟩ := heffect
    exact .of_eq hundisturbed rfl rfl id
  | _ =>
    obtain ⟨hdb, hholder, -, -⟩ := heffect.silent_eq rfl
    refine .of_eq hundisturbed (congrArg Db.runs hdb) (congrArg Db.tasks hdb) ?_
    intro hfine
    refine ⟨?_, hdb ▸ hfine.detached⟩
    rw [hdb, hholder]
    exact hfine.sound

private theorem Own.silent {s : World} {β : Type} {w : Write β} (hown : Own cfg r t s (.write w)) : signals w = false := by
  cases w with
  | publishEvent source key payload => exact decide_eq_false hown
  | _ => rfl

theorem Sem.guar {β : Type} {c : Cmd β} {s s' : World} {x : β} (h : Sem cfg r k t c s x s') (hown : Own cfg r t s c) :
    (rules cfg r k t).guar c s x s' := by
  refine ⟨fun t' hne => h.guar_rely hown hne, ?_⟩
  intro harmed
  have hsame : s'.db = s.db → Armed r s.db := by
    intro hdb
    rw [← hdb]
    exact harmed
  cases c with
  | write w =>
    obtain ⟨rfl, -⟩ := h.answered
    exact armed_before hown.silent harmed
  | _ => exact .inl (hsame (h.effect.db rfl))

end Rules

end Cronova.Properties.Success
