import Cronova.Scheduler.Sequential
import Mathlib.Control.ULift

/-! What one step on a run computes when it runs alone: the definition it works
with, the instances after expansion, propagation and retries, and what the
collection makes of each task. -/
namespace Cronova.Scheduler
open Cronova.Model Cronova.Store Cronova.Concurrency Cronova.Concurrency.Fallible Cronova.Text

/-- What the outside answers during a step: the clock stands still and every
condition has one rendering. -/
structure Outside where
  now : Time
  render : DagRun → Task → Nat → String

def Outside.known (o : Outside) : {β : Type} → Cmd β → Answer → Prop
  | _, .ask .now, a => Ask.now.reply a = some o.now
  | _, .ask (.renderWhen run t tryNumber), a =>
    (Ask.renderWhen run t tryNumber).reply a = some (o.render run t tryNumber)
  | _, _, _ => True

/-! ### Before the hold check -/

/-- The definition a run is processed with. -/
def resolve (cfg : Cfg) (w : World) (run : DagRun) : Except Err DAG :=
  if run.definitionYAML ≠ "" then parseDefinition cfg run.definitionYAML
  else
    match w.dags.find? (fun d => d.dagID = run.dagID) with
    | some d => .ok d
    | none =>
      match w.db.getDAG run.dagID with
      | .ok row => parseDefinition cfg row.definitionYAML
      | .error e => .error e

/-- The run with the definition it was processed with. -/
def adopt (cfg : Cfg) (run : DagRun) (d : DAG) : DagRun := if run.definitionYAML ≠ "" then run else snapshotRun cfg run d

/-- The database once the run keeps its definition. -/
def adopted (cfg : Cfg) (db : Db) (run : DagRun) (d : DAG) : Db :=
  if run.definitionYAML ≠ "" then db
  else (db.apply (.updateDagRunDefinition run.runID (snapshotRun cfg run d).definitionYAML (snapshotRun cfg run d).definitionHash)).2

/-- The database with the instances the run lacked. -/
def expanded (cfg : Cfg) (db : Db) (run : DagRun) (d : DAG) : Db :=
  if (db.listTaskInstances run.runID).length < d.tasks.length then
    d.tasks.foldl (fun new t =>
      if (findTI (db.listTaskInstances run.runID) t.id).isSome then new
      else (new.apply (.createTaskInstance (newInstance cfg run d t))).2) db
  else db

def blockAt (now : Time) (ti : TaskInstance) : ULift.{1} TaskInstance :=
  ⟨{ ti with state := .upstreamFailed, finishedAt := some now }⟩

/-- Block propagation on the instances alone. -/
def blocked (now : Time) (tasks : List Task) (rows : List TaskInstance) : List TaskInstance :=
  (propagate (blockAt now) tasks (tasks.length + 1) rows).down

/-- The retry delay of a failed attempt is over. -/
def RetryDue (now : Time) (t : Task) (ti : TaskInstance) : Prop :=
  ti.state = .upForRetry ∧ ¬ now < (match ti.finishedAt with
    | some fin => fin + retryDelay t ti.tryNumber
    | none => now)

instance (now : Time) (t : Task) (ti : TaskInstance) : Decidable (RetryDue now t ti) :=
  inferInstanceAs (Decidable (_ ∧ _))

/-- Retries on the instances alone. -/
def requeued (now : Time) (tasks : List Task) (rows : List TaskInstance) : List TaskInstance :=
  tasks.foldl (fun rows t =>
    match findTI rows t.id with
    | none => rows
    | some ti => if RetryDue now t ti then setTI rows (clearTask ti) else rows) rows

/-- The instances a step collects from. -/
def settled (now : Time) (tasks : List Task) (rows : List TaskInstance) : List TaskInstance :=
  requeued now tasks (blocked now tasks rows)

/-! ### The rows of one run -/

/-- The state of the world as far as a step on run `id` reads it. -/
structure Seen (id : String) (db : Db) (dags : List DAG) (rows : List TaskInstance) (s : World) : Prop where
  runs : s.db.runs = db.runs
  catalogue : s.db.dags = db.dags
  dags : s.dags = dags
  rows : s.db.listTaskInstances id = rows

theorem listTaskInstances_nodup (db : Db) (id : String) : ((db.listTaskInstances id).map (·.taskID)).Nodup := by
  have hperm : (db.listTaskInstances id).Perm (db.tasks.rows.filter (fun ti => ti.runID = id)) :=
    List.perm_insertionSort _ _
  rw [(hperm.map _).nodup_iff, List.Nodup, List.pairwise_map, List.pairwise_filter]
  refine db.tasks.distinct.imp ?_
  intro a b hclash ha hb heq
  refine hclash (.inr ?_)
  simp only [taskKey, Prod.mk.injEq]
  exact ⟨(of_decide_eq_true ha).trans (of_decide_eq_true hb).symm, heq⟩

/-- A write to a row of the run replaces it in the list. -/
theorem listTaskInstances_writeTask {db : Db} {id : String} {ti new : TaskInstance} (hti : ti ∈ db.listTaskInstances id)
    (hid : new.id = ti.id) (hrun : new.runID = ti.runID) (htask : new.taskID = ti.taskID) :
    (db.writeTask new).listTaskInstances id = setTI (db.listTaskInstances id) new := by
  obtain ⟨hmem, hti⟩ := Db.mem_listTaskInstances.mp hti
  have hrow : ∀ row ∈ db.tasks.rows, row.runID = id →
      (if row.id = new.id then onRow new row else row) = if row.taskID = new.taskID then new else row := by
    intro row hrow hrunID
    by_cases heq : row.taskID = new.taskID
    · obtain rfl : row = ti := Db.task_unique hrow hmem (hrunID.trans hti.symm) (heq.trans htask)
      rw [if_pos hid.symm, if_pos heq]
      simp only [onRow, ← hid, ← hrun, ← htask]
    · rw [if_neg heq, if_neg]
      intro hrid
      have htaskeq := Db.task?_of_mem hrow
      rw [hrid, hid, Db.task?_of_mem hmem] at htaskeq
      cases htaskeq
      exact heq htask.symm
  have hmap : (db.writeTask new).tasks.filter (fun row => row.runID = id) =
      (db.tasks.filter (fun row => row.runID = id)).map (fun row => if row.taskID = new.taskID then new else row) := by
    simp only [Db.writeTask, Relational.Table.filter, Relational.Table.modify, List.filter_map]
    have hfilter : db.tasks.rows.filter ((fun row => decide (row.runID = id)) ∘
        fun row => if decide (row.id = new.id) = true then { new with id := row.id, runID := row.runID, taskID := row.taskID } else row) =
        db.tasks.rows.filter (fun row => row.runID = id) := by
      refine List.filter_congr ?_
      intro row _
      simp only [Function.comp_apply]
      split <;> rfl
    rw [hfilter]
    refine List.map_congr_left ?_
    intro row hrowmem
    obtain ⟨hin, hrunID⟩ := List.mem_filter.mp hrowmem
    simpa [onRow] using hrow row hin (of_decide_eq_true hrunID)
  unfold Db.listTaskInstances
  rw [hmap, setTI]
  refine (List.map_insertionSort _ _ _ _ ?_).symm
  intro a ha b hb
  obtain ⟨ha, harun⟩ := List.mem_filter.mp ha
  obtain ⟨hb, hbrun⟩ := List.mem_filter.mp hb
  have hsame : ∀ row ∈ db.tasks.rows, row.runID = id → (if row.taskID = new.taskID then new else row).id = row.id := by
    intro row hin hrunID
    rw [← hrow row hin hrunID]
    split <;> rfl
  rw [hsame a ha (of_decide_eq_true harun), hsame b hb (of_decide_eq_true hbrun)]

section Commands
variable {o : Outside} {k : Kind} {t : Nat} {id : String} {db : Db} {dags : List DAG} {rows : List TaskInstance}

theorem asks_now {pre : World → Prop} :
    Triple (solo o.known k t) pre (ask .now) (Ends (fun r s => r = o.now ∧ pre s) (fun _ => False)) := by
  refine (solo_ask .now).weaken ?_
  rintro (e | r) s hs
  · exact hs
  · obtain ⟨hs, a, hknown, hreply⟩ := hs
    rw [show _ = _ from hknown] at hreply
    cases hreply
    exact ⟨rfl, hs⟩

theorem asks_render {pre : World → Prop} (run : DagRun) (task : Task) (tryNumber : Nat) :
    Triple (solo o.known k t) pre (ask (.renderWhen run task tryNumber))
      (Ends (fun r s => r = o.render run task tryNumber ∧ pre s) (fun _ => False)) := by
  refine (solo_ask (.renderWhen run task tryNumber)).weaken ?_
  rintro (e | r) s hs
  · exact hs
  · obtain ⟨hs, a, hknown, hreply⟩ := hs
    rw [show _ = _ from hknown] at hreply
    cases hreply
    exact ⟨rfl, hs⟩

/-- A written row takes its place in the list; nothing else that the step reads changes. -/
theorem Seen.written {s s' : World} {ti new : TaskInstance} (h : Seen id db dags rows s) (hti : ti ∈ rows) (hid : new.id = ti.id)
    (hrun : new.runID = ti.runID) (htask : new.taskID = ti.taskID) (heq : s'.db = s.db.writeTask new) (hdags : s'.dags = s.dags) :
    Seen id db dags (setTI rows new) s' where
  runs := by rw [heq]; exact h.runs
  catalogue := by rw [heq]; exact h.catalogue
  dags := hdags.trans h.dags
  rows := by rw [heq, listTaskInstances_writeTask (h.rows ▸ hti) hid hrun htask, h.rows]

theorem updates {ti new : TaskInstance} (hti : ti ∈ rows) (hid : new.id = ti.id) (hrun : new.runID = ti.runID)
    (htask : new.taskID = ti.taskID) : Triple (solo o.known k t) (Seen id db dags rows) (statement (.updateTaskInstance new))
      (Ends (fun _ => Seen id db dags (setTI rows new)) (fun _ => False)) := by
  refine (solo_statement _).weaken ?_
  rintro r s' ⟨s, hs, rfl, rfl⟩
  have hrow := Db.task?_of_mem (Db.mem_listTaskInstances.mp (hs.rows ▸ hti)).1
  rw [← hid] at hrow
  have happly : s.db.apply (.updateTaskInstance new) = (.ok (), s.db.writeTask new) := by simp only [Db.apply, hrow]
  rw [happly]
  exact hs.written hti hid hrun htask (by rw [World.written, happly]) rfl

/-- A guarded write applies to a row that is still open. -/
theorem finalizes {ti new : TaskInstance} (hti : ti ∈ rows) (hopen : ti.state.isTerminal = false) (hid : new.id = ti.id)
    (hrun : new.runID = ti.runID) (htask : new.taskID = ti.taskID) (href : new.executorRef = ti.executorRef) :
    Triple (solo o.known k t) (Seen id db dags rows) (finalizeWrite new)
      (Ends (fun _ => Seen id db dags (setTI rows new)) (fun _ => False)) := by
  refine .next (m := fun _ => Seen id db dags (setTI rows new)) (.outcome ((solo_statement _).weaken ?_))
    (fun _ => .pure (fun _ hs => hs))
  rintro r s' ⟨s, hs, rfl, rfl⟩
  have hrow := Db.task?_of_mem (Db.mem_listTaskInstances.mp (hs.rows ▸ hti)).1
  rw [← hid] at hrow
  have happly : s.db.apply (.updateTaskInstanceGuarded new new.executorRef) = (.ok true, s.db.writeTask new) := by
    simp only [Db.apply, hrow, href, hopen, and_self, if_true]
  rw [happly]
  exact hs.written hti hid hrun htask (by rw [World.written, happly]) rfl

theorem blockTask_blocks {ti : TaskInstance} (hti : ti ∈ rows) :
    Triple (solo o.known k t) (Seen id db dags rows) (blockTask ti)
      (Ends (fun new s => new = (blockAt o.now ti).down ∧ Seen id db dags (setTI rows new) s) (fun _ => False)) := by
  refine .next asks_now (fun now => .given ?_)
  rintro rfl
  exact .next (updates hti rfl rfl rfl) (fun _ => .pure (fun _ hs => ⟨rfl, hs⟩))

/-- A pass over the stored rows is the pass over the instances alone. -/
theorem propagatePass_blocks (tasks : List Task) (rows : List TaskInstance) :
    Triple (solo o.known k t) (Seen id db dags rows) (propagatePass blockTask tasks rows)
      (Ends (fun p s => p = (propagatePass (blockAt o.now) tasks rows).down ∧ Seen id db dags p.1 s) (fun _ => False)) := by
  unfold propagatePass
  generalize false = changed
  induction tasks generalizing rows changed with
  | nil => exact .pure (fun s hs => ⟨rfl, hs⟩)
  | cons task tasks ih =>
    rw [List.foldlM_cons, List.foldlM_cons]
    dsimp only
    split
    · exact ih rows changed
    · rename_i ti hti
      split
      · refine .next (m := fun p s => p = (setTI rows (blockAt o.now ti).down, true) ∧ Seen id db dags p.1 s) ?_ ?_
        · refine .next (blockTask_blocks (findTI_spec hti).1) ?_
          rintro new s ⟨rfl, hs⟩
          exact ⟨rfl, hs⟩
        · rintro p s ⟨rfl, hs⟩
          exact ih _ true s hs
      · exact ih rows changed

theorem propagate_blocks (tasks : List Task) (passes : Nat) (rows : List TaskInstance) :
    Triple (solo o.known k t) (Seen id db dags rows) (propagate blockTask tasks passes rows)
      (Ends (fun new s => new = (propagate (blockAt o.now) tasks passes rows).down ∧ Seen id db dags new s) (fun _ => False)) := by
  induction passes generalizing rows with
  | zero => exact .pure (fun s hs => ⟨rfl, hs⟩)
  | succ passes ih =>
    refine .next (propagatePass_blocks tasks rows) ?_
    rintro ⟨new, changed⟩ s ⟨heq, hs⟩
    have hpure : (propagate (blockAt o.now) tasks (passes + 1) rows).down =
        (if changed = true then propagate (blockAt o.now) tasks passes new else pure new).down := by
      have hstep : (propagate (blockAt o.now) tasks (passes + 1) rows).down =
          (if (propagatePass (blockAt o.now) tasks rows).down.2 = true then
            propagate (blockAt o.now) tasks passes (propagatePass (blockAt o.now) tasks rows).down.1
          else pure (propagatePass (blockAt o.now) tasks rows).down.1).down := rfl
      rw [hstep, ← heq]
    rw [hpure]
    dsimp only
    split
    · exact ih new s hs
    · exact ⟨rfl, hs⟩

theorem requeue_requeues (tasks : List Task) (rows : List TaskInstance) :
    Triple (solo o.known k t) (Seen id db dags rows) (requeue o.now tasks rows)
      (Ends (fun new s => new = requeued o.now tasks rows ∧ Seen id db dags new s) (fun _ => False)) := by
  unfold requeue requeued
  induction tasks generalizing rows with
  | nil => exact .pure (fun s hs => ⟨rfl, hs⟩)
  | cons task tasks ih =>
    rw [List.foldlM_cons, List.foldl_cons]
    rcases hti : findTI rows task.id with _ | ti
    · simp only [pure_bind]
      exact ih rows
    · refine .next (m := fun new s => new = (if RetryDue o.now task ti then setTI rows (clearTask ti) else rows) ∧
        Seen id db dags new s) (.ite (fun hdue => ?_) (fun hdue => ?_)) (fun new => .given ?_)
      · rw [if_pos (show RetryDue o.now task ti from hdue)]
        exact .next (updates (findTI_spec hti).1 rfl rfl rfl) (fun _ => .pure (fun _ hs => ⟨rfl, hs⟩))
      · rw [if_neg (show ¬ RetryDue o.now task ti from hdue)]
        exact .pure (fun _ hs => ⟨rfl, hs⟩)
      · rintro rfl
        exact ih _

end Commands

/-! ### The definition and the instances of a step -/

section Reconcile
variable {cfg : Cfg} {known : Known} {k : Kind} {t : Nat} {w : World} {run : DagRun} {d : DAG} {db : Db} {dags : List DAG}

/-- What resolving the definition returns and leaves behind. -/
def Resolution (cfg : Cfg) (w : World) (run : DagRun) (r : Except Err (DAG × DagRun)) (s : World) : Prop :=
  s.dags = w.dags ∧
    match resolve cfg w run with
    | .ok d => r = .ok (d, adopt cfg run d) ∧ s.db = adopted cfg w.db run d
    | .error e => r = .error e ∧ s.db = w.db

theorem dagForRun_resolves {row : DagRun} (hrow : w.db.run? run.runID = some row) :
    Triple (solo known k t) (fun s => s.db = w.db ∧ s.dags = w.dags) (dagForRun cfg run) (Resolution cfg w run) := by
  unfold dagForRun
  by_cases hyaml : run.definitionYAML = ""
  · rw [if_neg (not_not.mpr hyaml)]
    have hstored : ∀ d, resolve cfg w run = .ok d → Triple (solo known k t) (fun s => s.db = w.db ∧ s.dags = w.dags) (do
        statement (.updateDagRunDefinition (snapshotRun cfg run d).runID (snapshotRun cfg run d).definitionYAML
          (snapshotRun cfg run d).definitionHash)
        return (d, snapshotRun cfg run d)) (Resolution cfg w run) := by
      intro d hd
      have happly : ∀ yaml hash, (w.db.apply (.updateDagRunDefinition run.runID yaml hash)).1 = .ok () := by
        intro yaml hash
        simp only [Db.apply, hrow]
      refine .bind (solo_statement _) ?_ ?_
      · rintro ⟨⟩ s' ⟨s, ⟨hdb, hdags⟩, -, rfl⟩
        refine ⟨hdags, ?_⟩
        rw [hd]
        refine ⟨by rw [adopt, if_neg (not_not.mpr hyaml)], ?_⟩
        rw [adopted, if_neg (not_not.mpr hyaml), World.written, hdb]
        rfl
      · rintro e s' ⟨s, ⟨hdb, -⟩, heq, -⟩
        rw [hdb, show (snapshotRun cfg run d).runID = run.runID from rfl, happly] at heq
        cases heq
    refine .next (m := fun found s => found = w.dags.find? (fun d => d.dagID = run.dagID) ∧ s.db = w.db ∧ s.dags = w.dags)
      ((solo_registry _).weaken ?_) (fun found => .given ?_)
    · rintro (e | found) s hs
      · exact hs
      · exact ⟨hs.1.trans (by rw [hs.2.2]), hs.2⟩
    · intro hfound
      cases found with
      | some d => exact hstored d (by rw [resolve, if_neg (not_not.mpr hyaml), ← hfound])
      | none =>
        have hresolve : resolve cfg w run = match w.db.getDAG run.dagID with
            | .ok row => parseDefinition cfg row.definitionYAML
            | .error e => .error e := by
          rw [resolve, if_neg (not_not.mpr hyaml), ← hfound]
        refine .bind (solo_query _) ?_ ?_
        · rintro row s ⟨hr, hs⟩
          rw [hs.1] at hr
          rw [← hr] at hresolve
          cases hparse : parseDefinition cfg row.definitionYAML with
          | ok d =>
            exact hstored d (hresolve.trans hparse) s hs
          | error e =>
            refine ⟨hs.2, ?_⟩
            rw [hresolve.trans hparse]
            exact ⟨rfl, hs.1⟩
        · rintro e s ⟨hr, hs⟩
          rw [hs.1] at hr
          rw [← hr] at hresolve
          refine ⟨hs.2, ?_⟩
          rw [hresolve]
          exact ⟨rfl, hs.1⟩
  · rw [if_pos hyaml]
    rintro s ⟨hdb, hdags⟩
    have hresolve : resolve cfg w run = parseDefinition cfg run.definitionYAML := by rw [resolve, if_pos hyaml]
    cases hparse : parseDefinition cfg run.definitionYAML with
    | ok d =>
      refine ⟨hdags, ?_⟩
      rw [hresolve, hparse]
      exact ⟨by rw [adopt, if_pos hyaml], by rw [adopted, if_pos hyaml, hdb]⟩
    | error e =>
      refine ⟨hdags, ?_⟩
      rw [hresolve, hparse]
      exact ⟨rfl, hdb⟩

theorem expandRun_expands (tasks : List Task) (current : List TaskInstance) (db : Db) :
    Triple (solo known k t) (fun s => s.db = db ∧ s.dags = dags) (tasks.forM (fun t =>
        if (findTI current t.id).isSome then pure ()
        else do
          match ← Fallible.outcome (statement (.createTaskInstance (newInstance cfg run d t))) with
          | .ok _ => pure ()
          | .error .alreadyExists => pure ()
          | .error e => throw e : Task → M Unit))
      (Ends (fun _ s => s.db = tasks.foldl (fun new t =>
        if (findTI current t.id).isSome then new
        else (new.apply (.createTaskInstance (newInstance cfg run d t))).2) db ∧ s.dags = dags) (fun _ => False)) := by
  induction tasks generalizing db with
  | nil => exact .pure (fun s hs => hs)
  | cons task tasks ih =>
    rw [List.foldl_cons]
    refine .next (m := fun _ s => s.db = (if (findTI current task.id).isSome then db
        else (db.apply (.createTaskInstance (newInstance cfg run d task))).2) ∧ s.dags = dags)
      (.ite (fun hsome => ?_) (fun hnone => ?_)) (fun _ => ih _)
    · rw [if_pos hsome]
      exact .pure (fun s hs => hs)
    · rw [if_neg hnone]
      refine .next (m := fun r s => (r = .error .alreadyExists ∨ r.isOk = true) ∧
        s.db = (db.apply (.createTaskInstance (newInstance cfg run d task))).2 ∧ s.dags = dags)
        (.outcome ((solo_statement _).weaken ?_)) (fun r => .given ?_)
      · rintro r s' ⟨s, ⟨rfl, hdags⟩, rfl, rfl⟩
        refine ⟨?_, rfl, hdags⟩
        simp only [Db.apply]
        split
        · exact .inr rfl
        · exact .inl rfl
      · rintro (rfl | hok)
        · exact .pure (fun s hs => hs)
        · cases r with
          | ok id => exact .pure (fun s hs => hs)
          | error e => cases hok

theorem reconcile_expands :
    Triple (solo known k t) (fun s => s.db = db ∧ s.dags = dags) (reconcile cfg run d)
      (Ends (fun rows s => rows = (expanded cfg db run d).listTaskInstances run.runID ∧ s.db = expanded cfg db run d ∧
        s.dags = dags) (fun _ => False)) := by
  refine .next (m := fun rows s => rows = db.listTaskInstances run.runID ∧ s.db = db ∧ s.dags = dags)
    ((solo_list _).weaken ?_) (fun rows => .given ?_)
  · rintro (e | rows) s hs
    · exact hs
    · exact ⟨hs.1.trans (by rw [hs.2.1]), hs.2⟩
  · rintro rfl
    unfold expanded
    split
    · refine .next (expandRun_expands d.tasks (db.listTaskInstances run.runID) db) (fun _ => (solo_list _).weaken ?_)
      rintro (e | rows) s hs
      · exact hs
      · exact ⟨hs.1.trans (by rw [hs.2.1]), hs.2⟩
    · exact .pure (fun s hs => ⟨rfl, hs⟩)

end Reconcile

/-! ### What the collection makes of a task -/

/-- A task is left alone, is resolved without a dispatch, or starts its child run. -/
inductive Fate where
  | rests | settles | starts
  deriving DecidableEq, Repr

/-- How many parents sit above a run. -/
def parents (db : Db) : (left : Nat) → (run : DagRun) → (depth : Nat) → Nat
  | 0, _, depth => depth
  | left + 1, run, depth =>
    if run.parentRunID = "" then depth
    else
      match db.run? run.parentRunID with
      | none => depth
      | some parent => parents db left parent (depth + 1)

/-- Whether the awaited run of another DAG has succeeded, and whether the wait is
over without it. -/
def awaited (now : Time) (db : Db) (run : DagRun) (dep : DependsOnDag) (loc : Zone) : Bool × Bool :=
  match DateTmpl.shift loc run.logicalDate dep.offset with
  | none => (false, true)
  | some ref =>
    if (db.getDagRunByLogicalDate dep.dag ref).toOption.any (fun target => target.state = .success) then (true, false)
    else (false, 0 < dep.timeout && dep.timeout * second < now - run.startedAt.getD run.logicalDate)

def truthy (rendered : String) : Bool :=
  !(contains (trimSpace rendered) "\x7b\x7b" || ["", "false", "0", "no"].contains (toLower (trimSpace rendered)))

/-- A scheduled task whose trigger rule is satisfied. -/
def gateFate (o : Outside) (db : Db) (run : DagRun) (loc : Zone) (t : Task) (ti : TaskInstance) : Fate :=
  let gate := match t.dependsOnDag with
    | none => (true, false)
    | some dep => awaited o.now db run dep loc
  if !gate.1 then if gate.2 then .settles else .rests
  else if t.when_ = "" || truthy (o.render run t (ti.tryNumber + 1)) then .rests
  else .settles

/-- A running sub-workflow task. -/
def mirrorFate (db : Db) (ti : TaskInstance) : Fate :=
  if childOf ti.executorRef = "" then .settles
  else if (db.run? (childOf ti.executorRef)).any (fun child => child.state.isActive) then .rests
  else .settles

/-- A sub-workflow that cannot be started. -/
def Hopeless (dags : List DAG) (db : Db) (run : DagRun) (t : Task) : Prop :=
  maxSubdagDepth ≤ parents db (maxSubdagDepth + 1) run 0 ∨ dags.find? (fun d => d.dagID = t.subdag) = none

instance (dags : List DAG) (db : Db) (run : DagRun) (t : Task) : Decidable (Hopeless dags db run t) :=
  inferInstanceAs (Decidable (_ ∨ _))

def fate (cfg : Cfg) (o : Outside) (dags : List DAG) (d : DAG) (run : DagRun) (db : Db) (rows : List TaskInstance)
    (t : Task) : Fate :=
  match findTI rows t.id with
  | none => .rests
  | some ti =>
    if t.type = .subdag ∧ (ti.state = .scheduled ∨ ti.state = .running) then
      if ti.state = .scheduled then
        if !(taskGate t rows).1 then .rests else if Hopeless dags db run t then .settles else .starts
      else mirrorFate db ti
    else if ti.state = .scheduled ∧ (taskGate t rows).1 then gateFate o db run (dagLocation cfg d) t ti
    else .rests

/-- The run a sub-workflow task starts. -/
def childRun (now : Time) (run : DagRun) (t : Task) : DagRun :=
  { runID := subRunID t.subdag now, dagID := t.subdag, logicalDate := now, state := .queued, triggerType := .subdag,
    params := run.params, priority := run.priority, parentRunID := run.runID }

/-- A sub-workflow task whose child was started. -/
def startedAs (now : Time) (child : String) (ti : TaskInstance) : TaskInstance :=
  { ti with tryNumber := ti.tryNumber + 1, state := .running, startedAt := some now, executorRef := subdagRefPrefix ++ child }

/-- In the hands of the collection. -/
def Collectable (ti : TaskInstance) : Prop := ti.state = .scheduled ∨ ti.state = .running

/-- The same row, out of the hands of the collection. -/
structure Resolves (ti new : TaskInstance) : Prop where
  before : Collectable ti
  after : ¬ Collectable new
  id : new.id = ti.id
  run : new.runID = ti.runID
  task : new.taskID = ti.taskID

/-- What one task makes of the database and the rows; the flag says that the
collection ends there. -/
inductive Collects (cfg : Cfg) (o : Outside) (dags : List DAG) (d : DAG) (run : DagRun) (db : Db) (rows : List TaskInstance)
    (t : Task) : Bool → Db → List TaskInstance → Prop where
  | rests : fate cfg o dags d run db rows t = .rests → Collects cfg o dags d run db rows t false db rows
  | settles {ti new : TaskInstance} : fate cfg o dags d run db rows t = .settles → ti ∈ rows → Resolves ti new →
      Collects cfg o dags d run db rows t false db (setTI rows new)
  | starts {ti : TaskInstance} : fate cfg o dags d run db rows t = .starts → findTI rows t.id = some ti →
      ti.state = .scheduled → (db.apply (.createDagRunBounded (childRun o.now run t) cfg.maxQueuedRunsGlobal)).1 = .ok () →
      Collects cfg o dags d run db rows t false (db.apply (.createDagRunBounded (childRun o.now run t) cfg.maxQueuedRunsGlobal)).2
        (setTI rows (startedAs o.now (childRun o.now run t).runID ti))
  | full : fate cfg o dags d run db rows t = .starts →
      (db.apply (.createDagRunBounded (childRun o.now run t) cfg.maxQueuedRunsGlobal)).1 = .error .queueFull →
      Collects cfg o dags d run db rows t false db rows
  | refused {e : Err} : fate cfg o dags d run db rows t = .starts → e ≠ .queueFull →
      (db.apply (.createDagRunBounded (childRun o.now run t) cfg.maxQueuedRunsGlobal)).1 = .error e →
      Collects cfg o dags d run db rows t true db rows

theorem setTI_self {rows : List TaskInstance} {ti : TaskInstance} (hnd : (rows.map (·.taskID)).Nodup) (hti : ti ∈ rows) :
    setTI rows ti = rows := by
  rw [setTI]
  refine (List.map_congr_left ?_).trans (List.map_id _)
  intro row hrow
  split
  · rename_i heq
    have hfind := findTI_of_mem hnd hrow
    rw [heq, findTI_of_mem hnd hti] at hfind
    exact Option.some.inj hfind
  · rfl

section Collect
variable {cfg : Cfg} {o : Outside} {k : Kind} {t : Nat} {id : String} {db : Db} {dags : List DAG} {rows : List TaskInstance}
  {d : DAG} {run : DagRun} {task : Task} {ti : TaskInstance}

theorem Seen.nodup {s : World} (h : Seen id db dags rows s) : (rows.map (·.taskID)).Nodup :=
  h.rows ▸ listTaskInstances_nodup s.db id

theorem finds_run (runID : String) :
    Triple (solo o.known k t) (Seen id db dags rows) (Fallible.outcome (query (fun db => db.getDagRun runID)))
      (Ends (fun r s => r = db.getDagRun runID ∧ Seen id db dags rows s) (fun _ => False)) := by
  refine .outcome ((solo_query _).weaken ?_)
  rintro r s ⟨rfl, hs⟩
  refine ⟨?_, hs⟩
  simp only [Db.getDagRun, Db.run?, hs.runs]

theorem subdagDepth_counts (left : Nat) (run : DagRun) (depth : Nat) :
    Triple (solo o.known k t) (Seen id db dags rows) (subdagDepth left run depth)
      (Ends (fun n s => n = parents db left run depth ∧ Seen id db dags rows s) (fun _ => False)) := by
  induction left generalizing run depth with
  | zero => exact .pure (fun s hs => ⟨rfl, hs⟩)
  | succ left ih =>
    unfold subdagDepth parents
    split
    · exact .pure (fun s hs => ⟨rfl, hs⟩)
    · refine .next (finds_run run.parentRunID) (fun r => .given ?_)
      rintro rfl
      unfold Db.getDagRun
      cases db.run? run.parentRunID with
      | none => exact .pure (fun s hs => ⟨rfl, hs⟩)
      | some parent => exact ih parent (depth + 1)

theorem dependentReady_awaits (dep : DependsOnDag) (loc : Zone) :
    Triple (solo o.known k t) (Seen id db dags rows) (dependentReady run dep loc)
      (Ends (fun p s => p = awaited o.now db run dep loc ∧ Seen id db dags rows s) (fun _ => False)) := by
  unfold dependentReady awaited
  cases DateTmpl.shift loc run.logicalDate dep.offset with
  | none => exact .pure (fun s hs => ⟨rfl, hs⟩)
  | some ref =>
    have hwait : Triple (solo o.known k t) (Seen id db dags rows) (do
        if 0 < dep.timeout then
          let now ← ask .now
          return (false, dep.timeout * second < now - run.startedAt.getD run.logicalDate)
        else return (false, false) : M (Bool × Bool))
        (Ends (fun p s => p = (false, 0 < dep.timeout && dep.timeout * second < o.now - run.startedAt.getD run.logicalDate) ∧
          Seen id db dags rows s) (fun _ => False)) := by
      refine .ite (fun hpos => .next asks_now (fun now => .given ?_)) (fun hneg => .pure ?_)
      · rintro rfl
        refine .pure (fun s hs => ⟨?_, hs⟩)
        simp [hpos]
      · refine fun s hs => ⟨?_, hs⟩
        simp [hneg]
    refine .next (m := fun r s => r = db.getDagRunByLogicalDate dep.dag ref ∧ Seen id db dags rows s)
      (.outcome ((solo_query _).weaken ?_)) (fun r => .given ?_)
    · rintro r s ⟨rfl, hs⟩
      refine ⟨?_, hs⟩
      simp only [Db.getDagRunByLogicalDate, hs.runs]
    · rintro rfl
      dsimp only
      generalize db.getDagRunByLogicalDate dep.dag ref = found
      cases found with
      | error e => exact hwait
      | ok target =>
        by_cases hsuccess : target.state = .success
        · simp only [hsuccess, if_true]
          exact .pure (fun s hs => ⟨by simp [Except.toOption, hsuccess], hs⟩)
        · simp only [hsuccess, if_false, Except.toOption, Option.any_some, decide_false, Bool.false_eq_true]
          exact hwait

theorem evalWhen_renders (tryNumber : Nat) :
    Triple (solo o.known k t) (Seen id db dags rows) (evalWhen run task tryNumber)
      (Ends (fun b s => b = truthy (o.render run task tryNumber) ∧ Seen id db dags rows s) (fun _ => False)) := by
  refine .next (asks_render run task tryNumber) (fun r => .given ?_)
  rintro rfl
  refine .pure (fun s hs => ⟨?_, hs⟩)
  rw [truthy]

/-- The instance after its part of the collection when no child is started. -/
def Tended (f : Fate) (id : String) (db : Db) (dags : List DAG) (rows : List TaskInstance) (ti new : TaskInstance) (s : World) :
    Prop :=
  (f = .rests ∧ new = ti ∧ Seen id db dags rows s) ∨ (f = .settles ∧ Resolves ti new ∧ Seen id db dags (setTI rows new) s)

theorem settleTask_settles {new : TaskInstance} (hti : ti ∈ rows) (hnew : Resolves ti new) :
    Triple (solo o.known k t) (Seen id db dags rows) (settleTask new)
      (Ends (fun row s => row = new ∧ Seen id db dags (setTI rows new) s) (fun _ => False)) :=
  .next (updates hti hnew.id hnew.run hnew.task) (fun _ => .pure (fun _ hs => ⟨rfl, hs⟩))

/-- What a task's gate comes to: satisfied, and timed out. -/
private def gateOf (o : Outside) (db : Db) (run : DagRun) (loc : Zone) (task : Task) : Bool × Bool :=
  match task.dependsOnDag with
  | none => (true, false)
  | some dep => awaited o.now db run dep loc

theorem passGates_tends (loc : Zone) (hti : ti ∈ rows) (hsched : ti.state = .scheduled) :
    Triple (solo o.known k t) (Seen id db dags rows) (passGates run loc task ti)
      (Ends (fun p => Tended (gateFate o db run loc task ti) id db dags rows ti p.1) (fun _ => False)) := by
  have hskip : ∀ now, Resolves ti { ti with state := .skipped, finishedAt := some now } :=
    fun now => ⟨.inl hsched, (by rintro (h | h) <;> cases h), rfl, rfl, rfl⟩
  have hfail : ∀ now, Resolves ti { ti with state := .failed, startedAt := some now, finishedAt := some now } :=
    fun now => ⟨.inl hsched, (by rintro (h | h) <;> cases h), rfl, rfl, rfl⟩
  have hsettle : ∀ {f new}, f = Fate.settles → Resolves ti new → Triple (solo o.known k t) (Seen id db dags rows)
      (do return (← settleTask new, false) : M (TaskInstance × Bool))
      (Ends (fun p => Tended f id db dags rows ti p.1) (fun _ => False)) := by
    intro f new hf hnew
    refine .next (settleTask_settles hti hnew) (fun row => .given ?_)
    rintro rfl
    exact .pure (fun s hs => .inr ⟨hf, hnew, hs⟩)
  have hgates : ∀ gate : Bool × Bool, gateOf o db run loc task = gate →
      Triple (solo o.known k t) (Seen id db dags rows) (afterGate run task ti gate)
      (Ends (fun p => Tended (gateFate o db run loc task ti) id db dags rows ti p.1) (fun _ => False)) := by
    rintro ⟨satisfied, timedOut⟩ hgate
    unfold gateOf at hgate
    unfold gateFate afterGate
    rw [hgate]
    cases satisfied with
    | false =>
      cases timedOut with
      | false => exact .pure (fun s hs => .inl ⟨rfl, rfl, hs⟩)
      | true =>
        refine .next (solo_asked _) (fun now => .ite (fun _ => ?_) (fun _ => ?_))
        · exact hsettle rfl (hskip now)
        · exact hsettle rfl (hfail now)
    | true =>
      refine .ite (fun hnot => by cases hnot) (fun _ => .ite (fun hwhen => ?_) (fun hwhen => ?_))
      · exact .pure (fun s hs => .inl ⟨by simp [hwhen], rfl, hs⟩)
      refine .next (evalWhen_renders (ti.tryNumber + 1)) (fun b => .given ?_)
      intro hb
      rw [← hb]
      cases b with
      | true => exact .pure (fun s hs => .inl ⟨by simp, rfl, hs⟩)
      | false => exact .next (solo_asked _) (fun now => hsettle (by simp [hwhen]) (hskip now))
  unfold passGates
  dsimp only
  cases hdep : task.dependsOnDag with
  | none =>
    have h := hgates (true, false) (by rw [gateOf, hdep])
    rw [afterGate, hdep] at h
    exact h
  | some dep =>
    refine .next (dependentReady_awaits dep loc) (fun gate => .given ?_)
    rintro rfl
    have h := hgates _ (by rw [gateOf, hdep])
    rw [afterGate, hdep] at h
    exact h

theorem recordFailure_tends (hti : ti ∈ rows) (hrunning : ti.state = .running) :
    Triple (solo o.known k t) (Seen id db dags rows) (recordFailure ti)
      (Ends (fun new s => Resolves ti new ∧ Seen id db dags (setTI rows new) s) (fun _ => False)) := by
  refine .next (solo_asked _) (fun now => ?_)
  have hnew : Resolves ti (failedAttempt ti now) := by
    refine ⟨.inr hrunning, ?_, rfl, rfl, rfl⟩
    unfold failedAttempt
    split <;> rintro (h | h) <;> cases h
  refine .next (finalizes hti (by rw [hrunning]; rfl) rfl rfl rfl rfl) (fun _ => .pure (fun s hs => ⟨hnew, hs⟩))

theorem mirrorChild_tends (now : Time) (hti : ti ∈ rows) (hrunning : ti.state = .running) :
    Triple (solo o.known k t) (Seen id db dags rows) (mirrorChild ti now)
      (Ends (Tended (mirrorFate db ti) id db dags rows ti) (fun _ => False)) := by
  have hrecord : ∀ {f}, f = Fate.settles → Triple (solo o.known k t) (Seen id db dags rows) (recordFailure ti)
      (Ends (Tended f id db dags rows ti) (fun _ => False)) := by
    intro f hf
    refine (recordFailure_tends hti hrunning).weaken ?_
    rintro (e | new) s hs
    · exact hs
    · exact .inr ⟨hf, hs.1, hs.2⟩
  unfold mirrorChild mirrorFate
  refine .ite (fun hempty => hrecord (if_pos hempty)) (fun hempty => ?_)
  rw [if_neg hempty]
  refine .next (finds_run _) (fun r => .given ?_)
  rintro rfl
  unfold Db.getDagRun
  cases db.run? (childOf ti.executorRef) with
  | none => exact hrecord rfl
  | some child =>
    cases hstate : child.state with
    | success =>
      simp only [hstate]
      refine .next (finalizes hti (by rw [hrunning]; rfl) rfl rfl rfl rfl) (fun _ => .pure (fun s hs => .inr ⟨?_, ?_, hs⟩))
      · simp [hstate, RunState.isTerminal]
      · exact ⟨.inr hrunning, (by rintro (h | h) <;> cases h), rfl, rfl, rfl⟩
    | failed | timedOut | cancelled =>
      simp only [hstate]
      exact hrecord (by simp [hstate, RunState.isTerminal])
    | queued | running =>
      simp only [hstate]
      exact .pure (fun s hs => .inl ⟨by simp [hstate, RunState.isTerminal], rfl, hs⟩)

/-- The rows in memory after the part of one task, and the database that goes with them. -/
def Collected (cfg : Cfg) (o : Outside) (id : String) (dags : List DAG) (d : DAG) (run : DagRun) (db : Db)
    (rows : List TaskInstance) (task : Task) (r : Except Err (List TaskInstance)) (s : World) : Prop :=
  ∃ ended db' rows', Collects cfg o dags d run db rows task ended db' rows' ∧ Seen id db' dags rows' s ∧
    match r with
    | .ok new => ended = false ∧ new = rows'
    | .error _ => ended = true

/-- A created run changes the runs only, and by what the database with the same runs does. -/
theorem Seen.created {s : World} (h : Seen id db dags rows s) (child : DagRun) (bound : Int) (k : Kind) (t : Nat) :
    (s.db.apply (.createDagRunBounded child bound)).1 = (db.apply (.createDagRunBounded child bound)).1 ∧
      Seen id (db.apply (.createDagRunBounded child bound)).2 dags rows (s.written k t (.createDagRunBounded child bound)) := by
  have hactive : s.db.isActiveDag child.dagID = db.isActiveDag child.dagID := by simp only [Db.isActiveDag, h.catalogue]
  have hcount : s.db.queuedCount = db.queuedCount := by simp only [Db.queuedCount, h.runs]
  have hinsert : ∀ ok, (s.db.insertRun child ok).1 = (db.insertRun child ok).1 ∧
      (s.db.insertRun child ok).2.runs = (db.insertRun child ok).2.runs ∧
      (s.db.insertRun child ok).2.dags = (db.insertRun child ok).2.dags ∧
      (s.db.insertRun child ok).2.tasks = s.db.tasks := by
    intro ok
    simp only [Db.insertRun, h.runs, hactive]
    split
    · split
      · exact ⟨rfl, rfl, h.catalogue, rfl⟩
      · exact ⟨rfl, h.runs, h.catalogue, rfl⟩
    · split
      · exact ⟨rfl, h.runs, h.catalogue, rfl⟩
      · exact ⟨rfl, h.runs, h.catalogue, rfl⟩
  simp only [Db.apply, hactive, hcount]
  obtain ⟨hfst, hruns, hdags, htasks⟩ := hinsert (db.isActiveDag child.dagID && decide ((db.queuedCount : Int) < bound))
  refine ⟨hfst, ?_, ?_, h.dags, ?_⟩
  · simp only [World.written, Db.apply, hactive, hcount]
    exact hruns
  · simp only [World.written, Db.apply, hactive, hcount]
    exact hdags
  · simp only [World.written, Db.apply, hactive, hcount, Db.listTaskInstances, htasks]
    exact h.rows

/-- The launch of a child where there is none. -/
private def createFresh (cfg : Cfg) (o : Outside) (run : DagRun) (task : Task) : M (Option String) := do
  match ← Fallible.outcome (statement (.createDagRunBounded (childRun o.now run task) cfg.maxQueuedRunsGlobal)) with
  | .ok _ => return some (childRun o.now run task).runID
  | .error .queueFull => return none
  | .error e => throw e

theorem startSubdag_collects (hfind : findTI rows task.id = some ti) (hsched : ti.state = .scheduled) (href : ti.executorRef = "")
    (hfate : fate cfg o dags d run db rows task = if Hopeless dags db run task then .settles else .starts) :
    Triple (solo o.known k t) (Seen id db dags rows) (startSubdag cfg run task ti o.now)
      (fun r => Collected cfg o id dags d run db rows task (r.map (setTI rows))) := by
  obtain ⟨hti, -⟩ := findTI_spec hfind
  have hfail : Hopeless dags db run task → Triple (solo o.known k t) (Seen id db dags rows) (failSubdag ti o.now)
      (fun r => Collected cfg o id dags d run db rows task (r.map (setTI rows))) := by
    intro hhopeless
    rw [if_pos hhopeless] at hfate
    have hnew : Resolves ti { ti with tryNumber := ti.tryNumber + 1, state := .failed, startedAt := some o.now,
                                      finishedAt := some o.now } :=
      ⟨.inl hsched, (by rintro (h | h) <;> cases h), rfl, rfl, rfl⟩
    exact .next (updates hti rfl rfl rfl) (fun _ => .pure (fun s hs => ⟨false, db, _, .settles hfate hti hnew, hs, rfl, rfl⟩))
  refine .next (subdagDepth_counts _ run 0) (fun depth => .given ?_)
  rintro rfl
  refine .ite (fun hdeep => hfail (.inl hdeep)) (fun hdeep => ?_)
  refine .next (m := fun found s => found = dags.find? (fun d => d.dagID = task.subdag) ∧ Seen id db dags rows s)
    ((solo_registry _).weaken ?_) (fun found => .given ?_)
  · rintro (e | found) s hs
    · exact hs
    · exact ⟨hs.1.trans (by rw [hs.2.dags]), hs.2⟩
  rintro rfl
  refine .ite (fun hnone => hfail (.inr (Option.isNone_iff_eq_none.mp hnone))) (fun hsome => ?_)
  rw [if_neg (by rintro (h | h) <;> simp_all)] at hfate
  have hlaunch : launchChild cfg run task ti o.now = createFresh cfg o run task := by
    rw [launchChild, href, if_pos (by decide), pure_bind]
    dsimp only
    rw [if_neg (by decide)]
    rfl
  rw [hlaunch, createFresh, bind_assoc]
  refine .next (m := fun r s => r = (db.apply (.createDagRunBounded (childRun o.now run task) cfg.maxQueuedRunsGlobal)).1 ∧
    Seen id (db.apply (.createDagRunBounded (childRun o.now run task) cfg.maxQueuedRunsGlobal)).2 dags rows s)
    (.outcome ((solo_statement _).weaken ?_)) (fun r => .given ?_)
  · rintro r s' ⟨s, hs, rfl, rfl⟩
    exact hs.created _ _ k t
  · intro hr
    cases r with
    | ok _ =>
      dsimp only
      rw [pure_bind]
      exact .next (updates hti rfl rfl rfl) (fun _ => .pure (fun s hs =>
        ⟨false, _, _, .starts hfate hfind hsched hr.symm, hs, rfl, rfl⟩))
    | error e =>
      have hsame : (db.apply (.createDagRunBounded (childRun o.now run task) cfg.maxQueuedRunsGlobal)).2 = db :=
        Db.apply_error hr.symm
      rw [hsame]
      by_cases hfull : e = .queueFull
      · subst hfull
        exact .pure (fun s hs => ⟨false, db, rows, .full hfate hr.symm, hs, rfl, setTI_self hs.nodup hti⟩)
      · have hthrow : Triple (solo o.known k t) (Seen id db dags rows) (throw e : M TaskInstance)
            (fun r => Collected cfg o id dags d run db rows task (r.map (setTI rows))) :=
          .throw (fun s hs => ⟨true, db, rows, .refused hfate hfull hr.symm, hs, rfl⟩)
        cases e <;> first | exact absurd rfl hfull | exact hthrow

/-- A scheduled task carries no ref, so that none of them has an earlier child. -/
def NoRefs (rows : List TaskInstance) : Prop := ∀ ti ∈ rows, ti.state = .scheduled → ti.executorRef = ""

theorem collectTask_collects (hrefs : NoRefs rows) :
    Triple (solo o.known k t) (Seen id db dags rows) (collectTask cfg d run rows task)
      (fun r => Collected cfg o id dags d run db rows task (r.map Prod.fst)) := by
  have htended : ∀ {ti new s}, ti ∈ rows → Tended (fate cfg o dags d run db rows task) id db dags rows ti new s →
      ∀ ready : List ReadyTask, Collected cfg o id dags d run db rows task
        ((Except.ok (setTI rows new, ready) : Except Err (List TaskInstance × List ReadyTask)).map Prod.fst) s := by
    rintro ti new s hti (⟨hf, rfl, hs⟩ | ⟨hf, hnew, hs⟩) ready
    · exact ⟨false, db, rows, .rests hf, hs, rfl, setTI_self hs.nodup hti⟩
    · exact ⟨false, db, _, .settles hf hti hnew, hs, rfl, rfl⟩
  have hrests : fate cfg o dags d run db rows task = .rests → Triple (solo o.known k t) (Seen id db dags rows)
      (pure (rows, []) : M (List TaskInstance × List ReadyTask))
      (fun r => Collected cfg o id dags d run db rows task (r.map Prod.fst)) :=
    fun hf => .pure (fun s hs => ⟨false, db, rows, .rests hf, hs, rfl, rfl⟩)
  unfold collectTask
  cases hfind : findTI rows task.id with
  | none => exact hrests (by simp only [fate, hfind])
  | some ti =>
    obtain ⟨hti, -⟩ := findTI_spec hfind
    refine .ite (fun hsub => .ite (fun hwait => ?_) (fun hgo => ?_)) (fun hsub => .ite (fun hready => ?_) (fun hready => ?_))
    · exact hrests (by simp only [fate, hfind, if_pos hsub, if_pos hwait.1, hwait.2, if_true])
    · refine .bind (m := fun r => Collected cfg o id dags d run db rows task (r.map (setTI rows)))
        (.next asks_now (fun now => .given ?_)) (fun new => .pure (fun s hs => hs)) (fun e s hs => hs)
      rintro rfl
      refine .ite (fun hsched => ?_) (fun hsched => ?_)
      · refine startSubdag_collects hfind hsched (hrefs ti hti hsched) ?_
        have hgate : ¬ (!(taskGate task rows).1) = true := fun h => hgo ⟨hsched, h⟩
        simp only [fate, hfind, if_pos hsub, if_pos hsched, if_neg hgate]
      · refine (mirrorChild_tends o.now hti (hsub.2.resolve_left hsched)).weaken ?_
        rintro (e | new) s hs
        · exact hs.elim
        · refine htended hti ?_ []
          have hf : fate cfg o dags d run db rows task = mirrorFate db ti := by
            simp only [fate, hfind, if_pos hsub, if_neg hsched]
          rw [hf]
          exact hs
    · refine .next (passGates_tends _ hti hready.1) (fun p => .pure ?_)
      intro s hs
      refine htended hti ?_ _
      have hf : fate cfg o dags d run db rows task = gateFate o db run (dagLocation cfg d) task ti := by
        simp only [fate, hfind, if_neg hsub, if_pos hready]
      rw [hf]
      exact hs
    · exact hrests (by simp only [fate, hfind, if_neg hsub, if_neg hready])

end Collect

/-- The collection over a list of tasks; the flag says that it ended early. -/
inductive Walks (cfg : Cfg) (o : Outside) (dags : List DAG) (d : DAG) (run : DagRun) :
    List Task → Db → List TaskInstance → Bool → Db → List TaskInstance → Prop where
  | done {db : Db} {rows : List TaskInstance} : Walks cfg o dags d run [] db rows false db rows
  | ended {t : Task} {tasks : List Task} {db db' : Db} {rows rows' : List TaskInstance} :
      Collects cfg o dags d run db rows t true db' rows' → Walks cfg o dags d run (t :: tasks) db rows true db' rows'
  | step {t : Task} {tasks : List Task} {db mid db' : Db} {rows next rows' : List TaskInstance} {ended : Bool} :
      Collects cfg o dags d run db rows t false mid next → Walks cfg o dags d run tasks mid next ended db' rows' →
      Walks cfg o dags d run (t :: tasks) db rows ended db' rows'

theorem Collects.noRefs {cfg : Cfg} {o : Outside} {dags : List DAG} {d : DAG} {run : DagRun} {db db' : Db}
    {rows rows' : List TaskInstance} {t : Task} {ended : Bool} (h : Collects cfg o dags d run db rows t ended db' rows')
    (hrefs : NoRefs rows) : NoRefs rows' := by
  have hset : ∀ new : TaskInstance, new.state ≠ .scheduled → NoRefs (setTI rows new) := by
    intro new hnew ti hti hsched
    rcases mem_setTI hti with rfl | hold
    · exact absurd hsched hnew
    · exact hrefs ti hold hsched
  cases h with
  | rests => exact hrefs
  | settles _ _ hnew => exact hset _ (fun h => hnew.after (.inl h))
  | starts => exact hset _ nofun
  | full => exact hrefs
  | refused => exact hrefs

/-- The program walks over the tasks as the relation does. -/
theorem collect_walks {cfg : Cfg} {o : Outside} {k : Kind} {t : Nat} {id : String} {dags : List DAG} {d : DAG} {run : DagRun}
    (tasks : List Task) {db : Db} {rows : List TaskInstance} (hrefs : NoRefs rows) (ready : List ReadyTask) :
    Triple (solo o.known k t) (Seen id db dags rows) (collect cfg d run tasks rows ready)
      (Ends (fun p s => ∃ db' rows', Walks cfg o dags d run tasks db rows p.2.isSome db' rows' ∧ Seen id db' dags rows' s)
        (fun _ => False)) := by
  induction tasks generalizing db rows ready with
  | nil => exact .pure (fun s hs => ⟨db, rows, .done, hs⟩)
  | cons task tasks ih =>
    refine .next (m := fun r s => Collected cfg o id dags d run db rows task (r.map Prod.fst) s)
      (.outcome (collectTask_collects hrefs)) ?_
    rintro (e | ⟨new, more⟩) s ⟨ended, mid, next, hcollects, hs, hr⟩
    · obtain rfl : ended = true := hr
      exact ⟨mid, next, .ended hcollects, hs⟩
    · obtain ⟨rfl, rfl⟩ : ended = false ∧ new = next := hr
      refine (ih (hcollects.noRefs hrefs) (ready ++ more) s hs).mono ?_
      rintro (e | p) s' hs'
      · exact hs'
      · obtain ⟨db', rows', hwalks, hseen⟩ := hs'
        exact ⟨db', rows', .step hcollects hwalks, hseen⟩

end Cronova.Scheduler
