import Cronova.Store.Retention

/-! What retention may do to the data of the scheduler, and what it leaves behind:
the outputs of a deleted run stay. -/
namespace Cronova.Properties.Retention
open Cronova.Model Cronova.Relational Cronova.Store

/-- A deletion of runs that the scheduler does not notice. -/
structure Safe (s : Db) (report : List (String × String)) (s' : Db) : Prop where
  finished : ∀ r ∈ s.runs.rows, r ∉ s'.runs.rows → r.state.isTerminal = true ∧ r.finishedAt.isSome = true
  anchors : ∀ dagID, s'.latestScheduledRun dagID = s.latestScheduledRun dagID
  complete : ∀ r ∈ s.runs.rows, r ∉ s'.runs.rows → (∀ ti ∈ s'.tasks.rows, ti.runID ≠ r.runID) ∧
    ∀ e ∈ s'.events.rows, e.source = .dependency → e.eventKey ≠ r.runID
  kept : ∀ r ∈ s'.runs.rows, r ∈ s.runs.rows ∧
    (∀ ti, ti.runID = r.runID → (ti ∈ s'.tasks.rows ↔ ti ∈ s.tasks.rows)) ∧
    (∀ e, e.source = .dependency → e.eventKey = r.runID → (e ∈ s'.events.rows ↔ e ∈ s.events.rows))
  /-- Nothing appears, and what belongs to no run stays. -/
  rest : (∀ ti ∈ s'.tasks.rows, ti ∈ s.tasks.rows) ∧ (∀ e ∈ s'.events.rows, e ∈ s.events.rows) ∧
    (∀ e ∈ s.events.rows, e.source ≠ .dependency → e ∈ s'.events.rows) ∧ s'.outputs = s.outputs ∧ s'.dags = s.dags ∧
      s'.dependencies = s.dependencies ∧ s'.pools = s.pools
  reported : ∀ dagID runID, (dagID, runID) ∈ report ↔
    ∃ r ∈ s.runs.rows, r ∉ s'.runs.rows ∧ r.dagID = dagID ∧ r.runID = runID
  once : report.Nodup

section Prune
variable {s : Db} {cutoff : Time} {r : DagRun}

private theorem prunable_spec (h : r ∈ s.prunable cutoff) :
    r ∈ s.runs.rows ∧ r.finishedAt.isSome = true ∧ r.state.isTerminal = true := by
  simp only [Db.prunable, Table.filter, List.mem_filter, decide_eq_true_eq] at h
  obtain ⟨hmem, hdate, hstate, -⟩ := h
  refine ⟨hmem, ?_, ?_⟩
  · cases hfin : r.finishedAt with
    | none => simp [hfin] at hdate
    | some fin => rfl
  · simp only [List.mem_cons, List.not_mem_nil, or_false] at hstate
    rcases hstate with h | h | h | h <;> rw [h] <;> rfl

/-- A stored run is deleted exactly when the cutoff selects it. -/
private theorem removed_iff (hr : r ∈ s.runs.rows) :
    r ∉ (s.pruneRuns cutoff).2.runs.rows ↔ r ∈ s.prunable cutoff := by
  rw [Db.mem_pruneRuns_runs, not_and, not_not]
  constructor
  · intro h
    obtain ⟨q, hq, hid⟩ := h hr
    have hsame := Db.run?_of_mem (prunable_spec hq).1
    rw [hid, Db.run?_of_mem hr] at hsame
    cases hsame
    exact hq
  · exact fun h _ => ⟨r, h, rfl⟩

private theorem newest_pruned {dagID : String} (h : s.Newest dagID r) : (s.pruneRuns cutoff).2.Newest dagID r := by
  refine ⟨⟨Db.mem_pruneRuns_runs.mpr ⟨h.1.1, h.kept cutoff⟩, h.1.2⟩, ?_⟩
  intro q hq
  exact h.2 q (Db.mem_pruneRuns_runs.mp hq).1

private theorem latest_pruned (dagID : String) :
    (s.pruneRuns cutoff).2.latestScheduledRun dagID = s.latestScheduledRun dagID := by
  rcases s.latestScheduledRun_spec dagID with ⟨r, heq, hnew⟩ | ⟨heq, hnone⟩
  · rw [heq]
    exact Db.latestScheduledRun_of_newest (newest_pruned hnew)
  · rcases (s.pruneRuns cutoff).2.latestScheduledRun_spec dagID with ⟨r, -, hnew⟩ | ⟨heq', -⟩
    · exact absurd hnew.1.2.2 (hnone r (Db.mem_pruneRuns_runs.mp hnew.1.1).1 hnew.1.2.1)
    · rw [heq, heq']

private theorem report_nodup : (s.pruneRuns cutoff).1.Nodup := by
  have hids : ((s.pruneRuns cutoff).1.map (·.2)).Nodup := by
    have hmap : (s.pruneRuns cutoff).1.map (·.2) = (s.prunable cutoff).map (·.runID) := by
      simp only [Db.pruneRuns, List.map_map, Function.comp_def]
    rw [hmap, List.Nodup, List.pairwise_map]
    refine (s.runs.distinct.filter _).imp ?_
    intro a b hclash hid
    exact hclash (.inl hid)
  exact List.Nodup.of_map _ hids

/-- Whatever the store holds and whatever the cutoff is, retention deletes finished
runs only, with everything it has to, and touches nothing else. -/
theorem pruneRuns_safe (s : Db) (cutoff : Time) : Safe s (s.pruneRuns cutoff).1 (s.pruneRuns cutoff).2 where
  finished r hr hgone := by
    obtain ⟨-, hfin, hterminal⟩ := prunable_spec ((removed_iff hr).mp hgone)
    exact ⟨hterminal, hfin⟩
  anchors := latest_pruned
  complete r hr hgone := by
    have hpruned : s.Pruned cutoff r.runID := ⟨r, (removed_iff hr).mp hgone, rfl⟩
    constructor
    · intro ti hti heq
      exact (Db.mem_pruneRuns_tasks.mp hti).2 (heq ▸ hpruned)
    · intro e he hsource heq
      exact (Db.mem_pruneRuns_events.mp he).2 ⟨hsource, heq ▸ hpruned⟩
  kept r hr := by
    obtain ⟨hmem, hkept⟩ := Db.mem_pruneRuns_runs.mp hr
    refine ⟨hmem, ?_, ?_⟩
    · intro ti hid
      rw [Db.mem_pruneRuns_tasks, hid]
      exact and_iff_left hkept
    · intro e hsource hkey
      rw [Db.mem_pruneRuns_events, hkey]
      exact and_iff_left (fun h => hkept h.2)
  rest := by
    refine ⟨fun ti h => (Db.mem_pruneRuns_tasks.mp h).1, fun e h => (Db.mem_pruneRuns_events.mp h).1, ?_,
      Db.pruneRuns_outputs s cutoff, ?_⟩
    · intro e he hsource
      exact Db.mem_pruneRuns_events.mpr ⟨he, fun h => hsource h.1⟩
    · rw [Db.pruneRuns_snd]
      exact ⟨rfl, rfl, rfl⟩
  reported dagID runID := by
    constructor
    · intro h
      obtain ⟨r, hr, heq⟩ := List.mem_map.mp h
      cases heq
      have hmem := (prunable_spec hr).1
      exact ⟨r, hmem, (removed_iff hmem).mpr hr, rfl, rfl⟩
    · rintro ⟨r, hr, hgone, rfl, rfl⟩
      exact List.mem_map.mpr ⟨r, (removed_iff hr).mp hgone, rfl⟩
  once := report_nodup

end Prune

/-! ### References -/

/-- `SELECT COUNT(*)` of the task instances without their run. -/
def tasksWithoutRun (s : Db) : Nat := (s.tasks.filter (fun ti => (s.run? ti.runID).isNone)).length

/-- `SELECT COUNT(*)` of the outputs without their run. -/
def outputsWithoutRun (s : Db) : Nat := (s.outputs.filter (fun o => (s.run? o.1.1).isNone)).length

/-- The orphan check of a store migration passes. -/
def Closed (s : Db) : Prop := tasksWithoutRun s = 0 ∧ outputsWithoutRun s = 0

instance (s : Db) : Decidable (Closed s) := inferInstanceAs (Decidable (_ ∧ _))

/-- What happens to the store: its statements, edits of the catalogue, retention. -/
inductive Operation where
  | statement {β : Type} (w : Write β)
  | catalogue (dags : Table DagRow DagRow.dagID (· = ·))
  | prune (cutoff : Time)

/-- The foreign key of a statement: a task instance refers to a run. -/
def references (s : Db) : {β : Type} → Write β → Bool
  | _, .createTaskInstance ti => (s.run? ti.runID).isSome
  | _, _ => true

def Operation.exec (s : Db) : Operation → Db
  | .statement w => if references s w then (s.apply w).2 else s
  | .catalogue dags => { s with dags := dags }
  | .prune cutoff => (s.pruneRuns cutoff).2

def execAll (s : Db) (ops : List Operation) : Db := ops.foldl Operation.exec s

/-- An output is stored for a stored run, and no deleted run has an output. -/
def Operation.Careful (s : Db) : Operation → Prop
  | .statement (.setTaskOutput runID _ _) => (s.run? runID).isSome
  | .prune cutoff => ∀ o ∈ s.outputs, ¬ s.Pruned cutoff o.1.1
  | _ => True

/-- Every operation of a sequence is careful where it is executed. -/
def AllCareful : Db → List Operation → Prop
  | _, [] => True
  | s, op :: ops => op.Careful s ∧ AllCareful (op.exec s) ops

/-- No state of a sequence of operations has an orphan, and every run that is
created starts without outputs. -/
def Referential (ops : List Operation) : Prop :=
  (∀ n, Closed (execAll {} (ops.take n))) ∧
    ∀ n (β : Type) (w : Write β) (run : DagRun), ops[n]? = some (.statement w) → w.creates = some run →
      ((execAll {} (ops.take n)).apply w).1.isOk = true →
        ∀ o ∈ (execAll {} (ops.take (n + 1))).outputs, o.1.1 ≠ run.runID

section Closure
variable {s : Db}

theorem closed_iff : Closed s ↔ (∀ ti ∈ s.tasks.rows, (s.run? ti.runID).isSome = true) ∧
    ∀ o ∈ s.outputs, (s.run? o.1.1).isSome = true := by
  simp [Closed, tasksWithoutRun, outputsWithoutRun, Table.filter, Option.isSome_iff_ne_none]

/-- A statement removes no run. -/
private theorem apply_run {β : Type} (w : Write β) {id : String} (h : (s.run? id).isSome = true) :
    ((s.apply w).2.run? id).isSome = true := by
  obtain ⟨r, hr⟩ := Option.isSome_iff_exists.mp h
  obtain ⟨r', hr', -⟩ := Db.apply_run?_some w hr
  rw [hr']
  rfl

private theorem apply_tasks_closed {β : Type} (w : Write β) (href : references s w = true)
    (hs : ∀ ti ∈ s.tasks.rows, (s.run? ti.runID).isSome = true) :
    ∀ ti ∈ (s.apply w).2.tasks.rows, ((s.apply w).2.run? ti.runID).isSome = true := by
  intro ti hti
  rcases Db.apply_task_cases w hti with ⟨old, hold, hid⟩ | ⟨new, hnew, hid⟩
  · rw [hid]
    exact apply_run w (hs old hold)
  · rw [hid]
    cases w with
    | createTaskInstance ti =>
      cases hnew
      exact apply_run _ href
    | _ => cases hnew

/-- An operation leaves no orphan exactly when it is careful. -/
theorem exec_closed_iff (hs : Closed s) (op : Operation) : Closed (op.exec s) ↔ op.Careful s := by
  obtain ⟨htasks, houtputs⟩ := closed_iff.mp hs
  cases op with
  | catalogue dags =>
    have hclosed : Closed ({ s with dags := dags } : Db) := hs
    exact iff_of_true hclosed trivial
  | prune cutoff =>
    have hrun : ∀ id, (s.run? id).isSome = true → (((s.pruneRuns cutoff).2.run? id).isSome = true ↔ ¬ s.Pruned cutoff id) := by
      intro id hsome
      obtain ⟨r, hr⟩ := Option.isSome_iff_exists.mp hsome
      obtain ⟨hmem, hid⟩ := Db.run?_spec hr
      constructor
      · intro h
        obtain ⟨r', hr'⟩ := Option.isSome_iff_exists.mp h
        obtain ⟨hmem', hid'⟩ := Db.run?_spec hr'
        exact hid' ▸ (Db.mem_pruneRuns_runs.mp hmem').2
      · intro h
        have hkept : r ∈ (s.pruneRuns cutoff).2.runs.rows := Db.mem_pruneRuns_runs.mpr ⟨hmem, hid.symm ▸ h⟩
        rw [← hid, Db.run?_of_mem hkept]
        rfl
    change Closed (s.pruneRuns cutoff).2 ↔ ∀ o ∈ s.outputs, ¬ s.Pruned cutoff o.1.1
    rw [closed_iff, Db.pruneRuns_outputs]
    constructor
    · intro h o ho
      exact (hrun _ (houtputs o ho)).mp (h.2 o ho)
    · intro h
      refine ⟨?_, fun o ho => (hrun _ (houtputs o ho)).mpr (h o ho)⟩
      intro ti hti
      obtain ⟨hmem, hkept⟩ := Db.mem_pruneRuns_tasks.mp hti
      exact (hrun _ (htasks ti hmem)).mpr hkept
  | @statement β w =>
    have hother : w.storesOutput = none → (Closed (Operation.exec s (.statement w)) ↔ Operation.Careful s (.statement w)) := by
      intro hstores
      have hcareful : Operation.Careful s (.statement w) := by
        cases w <;> first | trivial | cases hstores
      refine iff_of_true ?_ hcareful
      simp only [Operation.exec]
      split
      · rename_i href
        refine closed_iff.mpr ⟨apply_tasks_closed w href htasks, ?_⟩
        rw [Db.apply_outputs hstores]
        exact fun o ho => apply_run w (houtputs o ho)
      · exact hs
    cases w with
    | setTaskOutput runID taskID text =>
      change Closed (s.apply (.setTaskOutput runID taskID text)).2 ↔ (s.run? runID).isSome = true
      rw [closed_iff]
      constructor
      · intro h
        exact h.2 ((runID, taskID), text) (by simp [Db.apply])
      · intro h
        refine ⟨htasks, ?_⟩
        intro o ho
        simp only [Db.apply, List.mem_cons] at ho
        rcases ho with rfl | hold
        · exact h
        · exact houtputs o (List.mem_filter.mp hold).1
    | _ => exact hother rfl

/-- The states of a sequence have no orphan exactly when its operations are careful. -/
private theorem execAll_closed_iff (ops : List Operation) (hs : Closed s) :
    (∀ n, Closed (execAll s (ops.take n))) ↔ AllCareful s ops := by
  induction ops generalizing s with
  | nil => exact iff_of_true (fun n => by rw [List.take_nil]; exact hs) trivial
  | cons op ops ih =>
    constructor
    · intro h
      have hfirst : Closed (op.exec s) := h 1
      exact ⟨(exec_closed_iff hs op).mp hfirst, (ih hfirst).mp (fun n => h (n + 1))⟩
    · rintro ⟨hop, hops⟩ n
      have hfirst := (exec_closed_iff hs op).mpr hop
      cases n with
      | zero => exact hs
      | succ n => exact (ih hfirst).mpr hops n

/-- A run that is created was not stored, so nothing without orphans refers to it. -/
private theorem created_fresh (hs : Closed s) {β : Type} {w : Write β} {run : DagRun} (hw : w.creates = some run)
    (hok : (s.apply w).1.isOk = true) : ∀ o ∈ (s.apply w).2.outputs, o.1.1 ≠ run.runID := by
  have hinsert : ∀ admitted, (s.insertRun run admitted).1.isOk = true → ∀ o ∈ (s.insertRun run admitted).2.outputs,
      o.1.1 ≠ run.runID := by
    intro admitted hok o ho heq
    rcases s.insertRun_cases run admitted with ⟨runs, hruns, h⟩ | ⟨_, h⟩
    · rw [h] at ho
      obtain ⟨r, hr⟩ := Option.isSome_iff_exists.mp ((closed_iff.mp hs).2 o ho)
      obtain ⟨hmem, hid⟩ := Db.run?_spec hr
      exact (Table.insert?_isSome_iff.mp ⟨runs, hruns⟩) r hmem (.inl (hid.trans heq))
    · rw [h] at hok
      cases hok
  cases w with
  | createDagRunBounded run' global =>
    cases hw
    exact hinsert _ hok
  | createManualDagRunBounded run' perDAG global =>
    cases hw
    exact hinsert _ hok
  | _ => cases hw

/-- Task instances and outputs refer to stored runs along a sequence of operations,
from an empty store on, exactly when every output is stored for a stored run and
retention never deletes a run that has an output. -/
theorem referential_iff_careful (ops : List Operation) : Referential ops ↔ AllCareful {} ops := by
  have hclosed := execAll_closed_iff ops (s := {}) ⟨rfl, rfl⟩
  constructor
  · exact fun h => hclosed.mp h.1
  · intro h
    have hall := hclosed.mpr h
    refine ⟨hall, ?_⟩
    intro n β w run hop hw hok
    have hlast : execAll {} (ops.take (n + 1)) = Operation.exec (execAll {} (ops.take n)) (.statement w) := by
      rw [List.take_add_one, hop]
      simp only [Option.toList_some, execAll, List.foldl_append, List.foldl_cons, List.foldl_nil]
    have href : references (execAll {} (ops.take n)) w = true := by
      cases w <;> first | rfl | cases hw
    rw [hlast, Operation.exec, if_pos href]
    exact created_fresh (hall n) hw hok

end Closure

/-! ### A deleted run with an output -/

def reportDag : Table DagRow DagRow.dagID (· = ·) := ⟨[{ dagID := "report" }], List.pairwise_singleton _ _⟩

def reportRun : DagRun :=
  { runID := "report__1", dagID := "report", logicalDate := 0, state := .queued, triggerType := .manual }

/-- A run succeeds, its task leaves an output, and retention deletes the run. -/
def reportLife : List Operation :=
  [.catalogue reportDag,
    .statement (.createDagRunBounded reportRun 100),
    .statement (.createTaskInstance { runID := "report__1", taskID := "a", state := .scheduled }),
    .statement (.updateDagRunState "report__1" .running (some 1) none),
    .statement (.setTaskOutput "report__1" "a" "\x7b\"rows\":\"1\"\x7d"),
    .statement (.updateDagRunState "report__1" .success (some 1) (some 2)),
    .prune 10]

/-- The output of a deleted run stays behind. -/
theorem pruned_run_keeps_output : ¬ ∀ ops, Referential ops := by
  intro h
  have hclosed : ¬ Closed (execAll {} (reportLife.take 7)) := by decide +kernel
  exact hclosed ((h reportLife).1 7)

end Cronova.Properties.Retention
