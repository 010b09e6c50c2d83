import Cronova.Scheduler.Sequential
import Cronova.Scheduler.Steps

/-! What an operation that runs alone can do to the stored states of runs. It
records states of its own run; of any other run it records at most that it is
cancelled. A sub-workflow task that is scheduled carries no ref, so no step
retries an earlier child of it. -/
namespace Cronova.Scheduler
open Cronova.Model Cronova.Store Cronova.Concurrency Cronova.Concurrency.Fallible

/-- Statements that record states of the runs in `own` only, apart from
cancellations, and leave no ref on a task they schedule. -/
def Confined (own : String → Prop) : {β : Type} → Write β → Prop
  | _, .updateDagRunState id state _ _ => own id ∨ state = .cancelled
  | _, .updateDagRunSuccess id _ _ => own id
  | _, .createDagRunBounded run _ | _, .createManualDagRunBounded run _ _ => run.state = .queued
  | _, .createTaskInstance ti | _, .updateTaskInstance ti | _, .updateTaskInstanceGuarded ti _ =>
    ti.state = .scheduled → ti.executorRef = ""
  | _, _ => True

/-- A scheduled task carries no ref. -/
def Cleared (db : Db) : Prop := ∀ row ∈ db.tasks.rows, row.state = .scheduled → row.executorRef = ""

def confinedPrint (own : String → Prop) : Footprint where
  writes := Confined own
  marks _ := True
  jobs _ := True

/-- Confined statements keep `P` on databases whose scheduled tasks carry no ref. -/
def Framed (own : String → Prop) (P : Db → Prop) : Prop :=
  ∀ {β : Type} (s : Write β) (db : Db), Confined own s → Cleared db → P db → P (db.apply s).2

/-- What holds between the statements of a confined operation. -/
def Within (P : Db → Prop) (s : World) : Prop := Cleared s.db ∧ P s.db

theorem Cleared.apply {own : String → Prop} {db : Db} {β : Type} {s : Write β} (hs : Confined own s) (h : Cleared db) :
    Cleared (db.apply s).2 := by
  have hwrite : ∀ ti : TaskInstance, (ti.state = .scheduled → ti.executorRef = "") → Cleared (db.writeTask ti) := by
    intro ti hti row hrow hsched
    rcases Db.mem_writeTask_cases hrow with hold | ⟨old, -, -, rfl⟩
    · exact h row hold hsched
    · exact hti hsched
  cases s with
  | updateTaskInstance ti =>
    rcases db.updateTaskInstance_cases ti with ⟨_, heq⟩ | ⟨_, _, heq⟩ <;> rw [heq]
    · exact h
    · exact hwrite ti hs
  | updateTaskInstanceGuarded ti ref =>
    rcases db.updateTaskInstanceGuarded_cases ti ref with heq | ⟨_, _, _, _, heq⟩ <;> rw [heq]
    · exact h
    · exact hwrite ti hs
  | createTaskInstance ti =>
    rcases db.createTaskInstance_cases ti with ⟨_, heq⟩ | ⟨tasks, htasks, heq⟩ <;> rw [heq]
    · exact h
    · intro row hrow hsched
      rw [show _ = _ from Relational.Table.rows_insert? htasks] at hrow
      rcases List.mem_append.mp hrow with hold | hnew
      · exact h row hold hsched
      · obtain rfl := List.mem_singleton.mp hnew
        exact hs hsched
  | _ =>
    unfold Cleared
    rw [Db.apply_tasks rfl]
    exact h

theorem Confined.creates_queued {own : String → Prop} {β : Type} {s : Write β} (h : Confined own s) :
    ∀ run, s.creates = some run → run.state = .queued := by
  intro run hrun
  cases s with
  | createDagRunBounded run' global =>
    cases hrun
    exact h
  | createManualDagRunBounded run' perDAG global =>
    cases hrun
    exact h
  | _ => cases hrun

theorem Confined.own_running {own : String → Prop} {β : Type} {s : Write β} (h : Confined own s) {id : String}
    (hrec : s.recordsState id = some .running) : own id := by
  cases s with
  | updateDagRunState id' target started finished =>
    simp only [Write.recordsState] at hrec
    split at hrec
    · rename_i heq
      cases hrec
      exact heq ▸ h.resolve_right (by decide)
    · cases hrec
  | updateDagRunSuccess id' started finished =>
    simp only [Write.recordsState] at hrec
    split at hrec <;> cases hrec
  | _ => cases hrec

/-! ### Prints -/

section Prints
variable (own : String → Prop)

theorem queuePrint_le_confined : queuePrint.Le (confinedPrint own) where
  writes _ h := by
    cases h with
    | create h => exact h
    | createManual h => exact h
    | _ => trivial
  marks _ _ := trivial
  jobs _ _ := trivial

theorem cancelPrint_le_confined : cancelPrint.Le (confinedPrint own) where
  writes _ h := by
    cases h with
    | run => exact .inr rfl
    | task h => exact fun hsched => by rw [h] at hsched; cases hsched
  marks _ _ := trivial
  jobs _ _ := trivial

theorem discardPrint_le_confined (runID : String) : (discardPrint runID).Le (confinedPrint own) where
  writes s h := (cancelPrint_le_confined own).writes s h.1
  marks _ _ := trivial
  jobs _ _ := trivial

theorem adoptPrint_le_confined : adoptPrint.Le (confinedPrint own) where
  writes _ h := by
    cases h with
    | definition => trivial
    | create _ href => exact fun _ => href
  marks _ _ := trivial
  jobs _ _ := trivial

theorem admitPrint_le_confined : admitPrint.Le (confinedPrint own) where
  writes _ h := by
    cases h with
    | queue h => exact fun hsched => by rw [h] at hsched; cases hsched
  marks _ _ := trivial
  jobs _ _ := trivial

theorem attemptPrint_le_confined (ti : TaskInstance) : (attemptPrint ti).Le (confinedPrint own) where
  writes _ h := by
    cases h with
    | outcome _ _ _ hsched => exact fun h => absurd h hsched
    | giveBack _ href => exact fun _ => href
    | output => trivial
  marks _ _ := trivial
  jobs _ _ := trivial

end Prints

/-! ### Operations -/

section Operations
variable {cfg : Cfg} {own : String → Prop} {P : Db → Prop} {known : Known} {k : Kind} {t : Nat} {α : Type}
  (hP : Framed own P)
include hP

theorem confined_keeps {x : M α} (hx : (confinedPrint own).Bounds x) : Keeps (solo known k t) (Within P) x :=
  solo_bounds (A := fun db => Cleared db ∧ P db) hx (fun s db hs h => ⟨h.1.apply hs, hP s db hs h.1 h.2⟩)

omit hP in
/-- The mutex and the marks keep what holds of the database. -/
theorem within_locked {x : M α} (hx : Keeps (solo known k t) (Within P) x) : Keeps (solo known k t) (Within P) (locked x) :=
  solo_locked (A := fun db _ => Cleared db ∧ P db) (B := fun _ db _ => Cleared db ∧ P db) hx

omit hP in
theorem within_marked {op : Op} {x : M α} (hx : Keeps (solo known k t) (Within P) x) :
    Keeps (solo known k t) (Within P) (marked op x) :=
  solo_marked (A := fun db _ => Cleared db ∧ P db) (B := fun _ db _ => Cleared db ∧ P db) hx

omit hP in
private theorem found (id : String) :
    Gives (solo known k t) (Within P) (fun run => run.runID = id) (query (fun db => db.getDagRun id)) := by
  refine (solo_query _).weaken ?_
  rintro (e | run) s ⟨hr, hs⟩
  · exact hs
  · exact ⟨hs, (Db.run?_spec (Db.getDagRun_ok.mp hr.symm)).2⟩

omit hP in
/-- The listed rows are cleared like the stored ones. -/
private theorem listed (runID : String) :
    Gives (solo known k t) (Within P) (fun tis => ∀ ti ∈ tis, ti.state = .scheduled → ti.executorRef = "")
      (list (fun db => db.listTaskInstances runID)) := by
  refine (solo_list _).weaken ?_
  rintro (e | tis) s hs
  · exact hs.elim
  · obtain ⟨rfl, hs⟩ := hs
    exact ⟨hs, fun ti hti => hs.1 ti (Db.mem_listTaskInstances.mp hti).1⟩

omit hP in
private theorem childOf_nil : childOf "" = "" := by decide

theorem confined_stepRules : StepRules cfg (solo known k t) (Within P)
    (fun byTask => ∀ ti ∈ byTask, ti.state = .scheduled → ti.executorRef = "") where
  read _ hx := confined_keeps hP (hx.mono (readPrint_le _))
  found := found
  set hI hmem _ hnew := by
    intro row hrow hsched
    rcases mem_setTI hrow with rfl | hold
    · rcases hnew with rfl | hnew
      · exact hI _ hmem hsched
      · exact hnew.scheduled hsched
    · exact hI row hold hsched
  update _ _ _ hnew := confined_keeps hP (.statement hnew.scheduled)
  guarded _ _ _ hnew _ _ := confined_keeps hP (.statement hnew.scheduled)
  retry hI hmem hsched hne := by
    rw [hI _ hmem hsched] at hne
    exact absurd childOf_nil hne
  create hqueued := confined_keeps hP (.statement hqueued)

omit hP in
/-- The end of a step writes its own run, and cancels the children it waits for. -/
private theorem finalizeRun_confined {d : DAG} {run : DagRun} (hown : own run.runID) :
    (confinedPrint own).Bounds (finalizeRun cfg d run) := by
  have hcancel : ∀ ref, (confinedPrint own).Bounds (cancelAttempt (cancelRunLocked cfg.bound) ref) :=
    cancelAttempt_bounds (fun child => (cancelRunLocked_bounds _ child).mono (cancelPrint_le_confined own))
  refine .bind (.list _) ?_
  intro tis
  split
  · unfold enforceDeadlines
    split
    · exact .pure _
    · refine .bind (.ask _) (fun _ => .ite (.bind (.ask _) (fun fin => .bind (.outcome (.statement (.inl hown))) ?_)) (.pure _))
      intro result
      split
      · exact .pure _
      · refine .forM (fun ti _ => .ite (.pure _) (.ite (.bind (hcancel _) (fun _ => ?_)) ?_))
        · exact .attempt (.statement (fun h => nomatch h))
        · exact .attempt (.statement (fun h => nomatch h))
  · exact .bind (.ask _) (fun _ => .ite (.statement hown) (.statement (.inl hown)))

private theorem driveRun_confined {d : DAG} {run : DagRun} {tis : List TaskInstance} (hown : own run.runID)
    (htis : ∀ ti ∈ tis, ti.state = .scheduled → ti.executorRef = "") :
    Keeps (solo known k t) (Within P) (driveRun cfg d run tis) := by
  have hrules := @confined_stepRules cfg own P known k t hP
  have hstart : Gives (solo known k t) (Within P) (fun run' => run'.runID = run.runID) (startRun run) := by
    refine .ite (fun _ => ?_) (fun _ => .pure rfl)
    refine .bind (hrules.read _ (.ask _)).gives (fun now _ => ?_)
    have hwrite : (confinedPrint own).Bounds (statement (.updateDagRunState run.runID .running (some now) none)) :=
      .statement (.inl hown)
    exact .bind (confined_keeps hP hwrite).gives (fun _ _ => .pure rfl)
  refine hstart.then_keeps (fun run' hid => ?_)
  refine (hrules.propagate _ htis).then_keeps (fun byTask hbyTask => ?_)
  refine .bind (hrules.read _ (.ask _)) (fun now => ?_)
  refine (hrules.requeue hbyTask).then_keeps (fun byTask hbyTask => ?_)
  refine .ite (.pure _) ?_
  have hcollect := hrules.collect (Q := fun _ => True) d run' d.tasks (fun _ _ _ _ _ _ _ _ => trivial) hbyTask []
    (fun _ _ => trivial)
  refine hcollect.then_keeps ?_
  rintro ⟨ready, err⟩ -
  cases err with
  | some e => exact .pure _
  | none =>
    have hfinalize : Keeps (solo known k t) (Within P) (attempt (finalizeRun cfg d run')) :=
      confined_keeps hP (.attempt (finalizeRun_confined (hid ▸ hown)))
    exact .bind hfinalize (fun _ => .pure _)

/-- A step on a run of `own`. -/
theorem processRun_confined {run : DagRun} (hown : own run.runID) :
    Keeps (solo known k t) (Within P) (processRun cfg run) := by
  have hdag : Gives (solo known k t) (Within P) (fun p => Resolved cfg run p.1 p.2) (dagForRun cfg run) :=
    (dagForRun_yields run).gives (confined_keeps hP ((dagForRun_bounds run).mono (adoptPrint_le_confined own)))
  have hreconcile : ∀ run d, Gives (solo known k t) (Within P)
      (fun tis => ∀ ti ∈ tis, ti.state = .scheduled → ti.executorRef = "") (reconcile cfg run d) := by
    intro run d
    refine .bind (listed _) (fun tis htis => .ite (fun _ => ?_) (fun _ => .pure htis))
    exact .bind (confined_keeps hP ((expandRun_bounds run d tis).mono (adoptPrint_le_confined own))).gives
      (fun _ _ => listed _)
  refine within_locked (within_marked (hdag.then_keeps ?_))
  rintro ⟨d, new⟩ hresolved
  have hid : new.runID = run.runID := hresolved.runID
  refine (hreconcile new d).then_keeps (fun tis htis => .ite ?_ (driveRun_confined hP (hid ▸ hown) htis))
  refine .bind (.bind (confined_keeps hP (.ask _)) (fun _ => confined_keeps hP (.statement (.inl ?_)))) (fun _ => .pure _)
  exact hid ▸ hown

private theorem retryTasks_confined {run : DagRun} (hown : own run.runID) (d : DAG) (tis : List TaskInstance)
    (ids : List String) : Keeps (solo known k t) (Within P) (retryTasks cfg run d tis ids) := by
  refine confined_keeps hP (.bind ((prepareRetryDefinition_bounds run d tis ids).mono (adoptPrint_le_confined own))
    (fun byTask => .bind (.ask _) (fun ids => .bind (.forM (fun id _ => ?_)) (fun _ =>
      .bind (.ask _) (fun _ => .statement (.inl hown))))))
  split
  · exact .pure _
  · exact .statement (fun _ => rfl)

private theorem retryContext_gives (runID : String) :
    Gives (solo known k t) (Within P) (fun p => p.1.runID = runID) (retryContext runID) := by
  refine .bind (found runID) (fun run hrun => .refuse (fun _ => ?_))
  refine .bind (confined_keeps hP (.cachedDAG _)).gives ?_
  intro d _
  split
  · exact .throw _
  · exact .bind (confined_keeps hP (.list _)).gives (fun _ _ => .pure hrun)

theorem retryRun_confined {runID : String} (hown : own runID) : Keeps (solo known k t) (Within P) (retryRun cfg runID) := by
  refine within_locked (within_marked ((retryContext_gives hP runID).then_keeps ?_))
  rintro ⟨run, d, tis⟩ hid
  exact .ite (.bind (.throw _) (fun _ => retryTasks_confined hP (hid ▸ hown) _ _ _))
    (retryTasks_confined hP (hid ▸ hown) _ _ _)

theorem retryTask_confined {runID taskID : String} (hown : own runID) :
    Keeps (solo known k t) (Within P) (retryTask cfg runID taskID) := by
  refine within_locked (within_marked ((retryContext_gives hP runID).then_keeps ?_))
  rintro ⟨run, d, tis⟩ hid
  exact .ite (.bind (.throw _) (fun _ => retryTasks_confined hP (hid ▸ hown) _ _ _))
    (retryTasks_confined hP (hid ▸ hown) _ _ _)

theorem cancelRun_confined (runID : String) : Keeps (solo known k t) (Within P) (cancelRun cfg runID) :=
  within_locked (confined_keeps hP ((cancelRunLocked_bounds _ runID).mono (cancelPrint_le_confined own)))

theorem markTask_confined {runID taskID : String} {target : TaskState} (hown : own runID)
    (htarget : target.isTerminal = true) : Keeps (solo known k t) (Within P) (locked (markTaskLocked cfg runID taskID target)) := by
  have hcontext : (confinedPrint own).Bounds (markContext cfg runID) :=
    .bind (.query _) (fun _ => .bind ((dagForRun_bounds _).mono (adoptPrint_le_confined own)) (fun _ =>
      .bind (.list _) (fun _ => .pure _)))
  refine within_locked (confined_keeps hP (markTaskLocked_bounds trivial hcontext ?_ ?_ ?_ ?_))
  · exact fun child => (cancelRunLocked_bounds _ child).mono (cancelPrint_le_confined own)
  · exact fun _ _ => rfl
  · intro ti hti hsched
    rw [← hti, hsched] at htarget
    cases htarget
  · exact fun _ => .inl hown

theorem markRun_confined {runID : String} {target : RunState} (hown : own runID) :
    Keeps (solo known k t) (Within P) (locked (markRunLocked cfg runID target)) :=
  within_locked (confined_keeps hP (markRunLocked_bounds trivial (queuePrint_le_confined own) (fun _ _ => hown)
    (fun _ _ => .inl hown)))

end Operations
end Cronova.Scheduler
