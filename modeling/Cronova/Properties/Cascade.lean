import Cronova.Scheduler.Sequential
import Mathlib.Logic.Relation

/-! Cancelling a run cascades into the child runs its open tasks wait for. The
cascade goes through active runs only: a child that is over is left alone, and so
are the runs below it. Marking the run before its tasks are visited is what ends
the recursion, whatever the refs are. -/
namespace Cronova.Properties.Cascade
open Cronova.Model Cronova.Store Cronova.Concurrency Cronova.Concurrency.Fallible Cronova.Scheduler Cronova.Text

/-- An open task of run `a` waits for run `b`. -/
def Linked (db : Db) (a b : String) : Prop :=
  ∃ ti ∈ db.tasks.rows, ti.runID = a ∧ ti.state.isTerminal = false ∧ cutPrefix ti.executorRef subdagRefPrefix = some b

/-- The run is queued or running. -/
def Active (db : Db) (id : String) : Prop := ∃ run, db.run? id = some run ∧ run.state.isActive = true

/-- The runs a cancel of `a` gets to. -/
def Reaches (db : Db) : String → String → Prop := Relation.ReflTransGen (fun a b => Linked db a b ∧ Active db b)

/-- The number of queued and running runs. -/
def activeRuns (db : Db) : Nat := db.runs.rows.countP (·.state.isActive)

/-- The run and its open tasks are cancelled, and its other tasks are as they were. -/
structure Cancelled (before after : Db) (id : String) : Prop where
  run : ∃ run fin, before.run? id = some run ∧ after.run? id = some { run with state := .cancelled, finishedAt := some fin }
  opened : ∀ ti ∈ before.tasks.rows, ti.runID = id → ti.state.isTerminal = false →
    ∃ fin, after.task? ti.id = some { ti with state := .cancelled, finishedAt := some fin }
  closed : ∀ ti ∈ before.tasks.rows, ti.runID = id → ti.state.isTerminal = true → after.task? ti.id = some ti

/-- The run and its tasks are as they were. -/
structure Same (before after : Db) (id : String) : Prop where
  run : after.run? id = before.run? id
  tasks : ∀ ti ∈ before.tasks.rows, ti.runID = id → after.task? ti.id = some ti

/-! ### What a cancel does to the rows -/

/-- The run was active and is cancelled. -/
private def Ended (db₀ db : Db) (id : String) : Prop :=
  ∃ run fin, db₀.run? id = some run ∧ run.state.isActive = true ∧
    db.run? id = some { run with state := .cancelled, finishedAt := some fin }

/-- The open task is cancelled. -/
private def Stopped (db : Db) (ti : TaskInstance) : Prop :=
  ∃ fin, db.task? ti.id = some { ti with state := .cancelled, finishedAt := some fin }

/-- Some active runs have been cancelled, and open tasks of theirs. -/
private structure Progress (db₀ db : Db) : Prop where
  runs : ∀ id, db.run? id = db₀.run? id ∨ Ended db₀ db id
  tasks : ∀ ti ∈ db₀.tasks.rows, db.task? ti.id = some ti ∨ ti.state.isTerminal = false ∧ Stopped db ti ∧ Ended db₀ db ti.runID
  only : ∀ ti ∈ db.tasks.rows, ∃ ti₀ ∈ db₀.tasks.rows, taskKey ti = taskKey ti₀

/-- Nothing that was cancelled has been changed since. -/
private structure Grows (db₀ db db' : Db) : Prop where
  ended : ∀ id, Ended db₀ db id → Ended db₀ db' id
  stopped : ∀ ti ∈ db₀.tasks.rows, Stopped db ti → Stopped db' ti

/-- The open tasks of the run are cancelled, and the active runs they wait for. -/
private def Done (db₀ db : Db) (id : String) : Prop :=
  ∀ ti ∈ db₀.tasks.rows, ti.runID = id → ti.state.isTerminal = false → Stopped db ti ∧
    ∀ child, cutPrefix ti.executorRef subdagRefPrefix = some child → Active db₀ child → Ended db₀ db child

namespace Progress
variable {db₀ db db' : Db}

theorem refl (db : Db) : Progress db db where
  runs _ := .inl rfl
  tasks _ h := .inl (Db.task?_of_mem h)
  only ti h := ⟨ti, h, rfl⟩

/-- A run that is still active is as it was. -/
theorem same_run (h : Progress db₀ db) {id : String} {run : DagRun} (hrun : db.run? id = some run)
    (hactive : run.state.isActive = true) : db₀.run? id = some run := by
  rcases h.runs id with heq | ⟨_, fin, _, _, hended⟩
  · rw [← heq]
    exact hrun
  · rw [hrun] at hended
    cases hended
    cases hactive

theorem not_ended {id : String} {run : DagRun} (h : db.run? id = some run) (hactive : run.state.isActive = true) : ¬ Ended db₀ db id := by
  rintro ⟨_, fin, _, _, hended⟩
  rw [h] at hended
  cases hended
  cases hactive

/-- The tasks of a run that is still active are listed as they were. -/
theorem listed (h : Progress db₀ db) {id : String} {run : DagRun} (hrun : db.run? id = some run)
    (hactive : run.state.isActive = true) (ti : TaskInstance) :
    ti ∈ db.listTaskInstances id ↔ ti ∈ db₀.tasks.rows ∧ ti.runID = id := by
  have hkept : ∀ ti₀ ∈ db₀.tasks.rows, ti₀.runID = id → db.task? ti₀.id = some ti₀ := by
    intro ti₀ hti₀ hid
    rcases h.tasks ti₀ hti₀ with heq | ⟨-, -, hended⟩
    · exact heq
    · rw [hid] at hended
      exact absurd hended (not_ended hrun hactive)
  rw [Db.mem_listTaskInstances]
  constructor
  · rintro ⟨hmem, hid⟩
    obtain ⟨ti₀, hti₀, hkey⟩ := h.only ti hmem
    simp only [taskKey, Prod.mk.injEq] at hkey
    have hstored := hkept ti₀ hti₀ (hkey.2.1.symm.trans hid)
    rw [← hkey.1, Db.task?_of_mem hmem] at hstored
    cases hstored
    exact ⟨hti₀, hid⟩
  · rintro ⟨hmem, hid⟩
    exact ⟨(Db.task?_spec (hkept ti hmem hid)).1, hid⟩

/-- Marking an active run. -/
theorem mark (h : Progress db₀ db) {id : String} {run : DagRun} (hrun : db.run? id = some run)
    (hactive : run.state.isActive = true) (fin : Time) :
    Progress db₀ (db.recordState id .cancelled run.startedAt (some fin)) ∧
      Ended db₀ (db.recordState id .cancelled run.startedAt (some fin)) id ∧
      Grows db₀ db (db.recordState id .cancelled run.startedAt (some fin)) ∧
      ∀ v, Ended db₀ (db.recordState id .cancelled run.startedAt (some fin)) v → Ended db₀ db v ∨ v = id := by
  have hended : Ended db₀ (db.recordState id .cancelled run.startedAt (some fin)) id :=
    ⟨run, fin, h.same_run hrun hactive, hactive, Db.run?_recordState_self hrun⟩
  have hkeep : ∀ v, v ≠ id → (Ended db₀ (db.recordState id .cancelled run.startedAt (some fin)) v ↔ Ended db₀ db v) := by
    intro v hv
    unfold Ended
    rw [Db.run?_recordState_ne hv]
  have hgrows : ∀ v, Ended db₀ db v → Ended db₀ (db.recordState id .cancelled run.startedAt (some fin)) v := by
    intro v hv
    by_cases heq : v = id
    · exact heq ▸ hended
    · exact (hkeep v heq).mpr hv
  refine ⟨⟨?_, ?_, h.only⟩, hended, ⟨hgrows, fun _ _ hs => hs⟩, ?_⟩
  · intro v
    by_cases heq : v = id
    · exact .inr (heq ▸ hended)
    · rw [Db.run?_recordState_ne heq]
      exact (h.runs v).imp_right (hkeep v heq).mpr
  · intro ti hti
    exact (h.tasks ti hti).imp_right (fun hstop => ⟨hstop.1, hstop.2.1, hgrows _ hstop.2.2⟩)
  · intro v hv
    by_cases heq : v = id
    · exact .inr heq
    · exact .inl ((hkeep v heq).mp hv)

/-- Cancelling an open task of a run that is marked. -/
theorem write (h : Progress db₀ db) {ti : TaskInstance} (hti : ti ∈ db₀.tasks.rows) (hopen : ti.state.isTerminal = false)
    (hended : Ended db₀ db ti.runID) (fin : Time) :
    Progress db₀ (db.writeTask { ti with state := .cancelled, finishedAt := some fin }) ∧
      Stopped (db.writeTask { ti with state := .cancelled, finishedAt := some fin }) ti ∧
      Grows db₀ db (db.writeTask { ti with state := .cancelled, finishedAt := some fin }) := by
  have hrow : ∃ row, db.task? ti.id = some row ∧ row.runID = ti.runID ∧ row.taskID = ti.taskID := by
    rcases h.tasks ti hti with heq | ⟨-, ⟨fin', heq⟩, -⟩
    · exact ⟨ti, heq, rfl, rfl⟩
    · exact ⟨_, heq, rfl, rfl⟩
  obtain ⟨row, hrow, hrun, htask⟩ := hrow
  have hstopped : Stopped (db.writeTask { ti with state := .cancelled, finishedAt := some fin }) ti := by
    have hid : row.id = ti.id := (Db.task?_spec hrow).2
    refine ⟨fin, ?_⟩
    rw [Db.task?_writeTask, hrow, Option.map_some, if_pos hid]
    simp only [onRow, hid, hrun, htask]
  have hother : ∀ ti' ∈ db₀.tasks.rows, ti' ≠ ti →
      (db.writeTask { ti with state := .cancelled, finishedAt := some fin }).task? ti'.id = db.task? ti'.id := by
    intro ti' hti' hne
    refine Db.task?_writeTask_ne ?_
    intro hid
    have hsame : some ti' = some ti := by rw [← Db.task?_of_mem hti', ← Db.task?_of_mem hti, hid]
    exact hne (Option.some.inj hsame)
  refine ⟨⟨h.runs, ?_, ?_⟩, hstopped, ⟨fun _ hv => hv, ?_⟩⟩
  · intro ti' hti'
    by_cases heq : ti' = ti
    · subst heq
      exact .inr ⟨hopen, hstopped, hended⟩
    · rcases h.tasks ti' hti' with hsame | ⟨hopen', ⟨fin', hstop⟩, hended'⟩
      · exact .inl ((hother ti' hti' heq).trans hsame)
      · exact .inr ⟨hopen', ⟨fin', (hother ti' hti' heq).trans hstop⟩, hended'⟩
  · intro row' hrow'
    obtain ⟨old, hold, heq⟩ := Db.mem_writeTask.mp hrow'
    obtain ⟨ti₀, hti₀, hkey⟩ := h.only old hold
    refine ⟨ti₀, hti₀, ?_⟩
    rw [← hkey, ← heq]
    split <;> rfl
  · intro ti' hti' ⟨fin', hstop⟩
    by_cases heq : ti' = ti
    · subst heq
      exact hstopped
    · exact ⟨fin', (hother ti' hti' heq).trans hstop⟩

end Progress

namespace Grows
variable {db₀ db db' db'' : Db}

theorem refl (db₀ db : Db) : Grows db₀ db db := ⟨fun _ h => h, fun _ _ h => h⟩

theorem trans (h : Grows db₀ db db') (h' : Grows db₀ db' db'') : Grows db₀ db db'' :=
  ⟨fun v hv => h'.ended v (h.ended v hv), fun ti hti hs => h'.stopped ti hti (h.stopped ti hti hs)⟩

theorem done (h : Grows db₀ db db') {id : String} (hd : Done db₀ db id) : Done db₀ db' id := by
  intro ti hti hid hopen
  obtain ⟨hstop, hchild⟩ := hd ti hti hid hopen
  exact ⟨h.stopped ti hti hstop, fun child hcut hactive => h.ended child (hchild child hcut hactive)⟩

end Grows

/-! ### The measure -/

/-- The active runs that are left. -/
private def remaining (db₀ db : Db) : Nat := db₀.runs.rows.countP (fun run => (db.run? run.runID).any (·.state.isActive))

private theorem remaining_start (db : Db) : remaining db db = activeRuns db := by
  refine List.countP_congr ?_
  intro run hrun
  rw [Db.run?_of_mem hrun, Option.any_some]

private theorem active_of_grows {db₀ db db' : Db} (hp : Progress db₀ db) (hp' : Progress db₀ db') (hg : Grows db₀ db db')
    {id : String} (h : (db'.run? id).any (·.state.isActive) = true) : (db.run? id).any (·.state.isActive) = true := by
  obtain ⟨run, hrun, hactive⟩ := (Option.any_eq_true _ _).mp h
  have hstart := hp'.same_run hrun hactive
  rcases hp.runs id with heq | hended
  · rw [heq, hstart, Option.any_some]
    exact hactive
  · exact absurd (hg.ended id hended) (Progress.not_ended hrun hactive)

private theorem remaining_le {db₀ db db' : Db} (hp : Progress db₀ db) (hp' : Progress db₀ db') (hg : Grows db₀ db db') :
    remaining db₀ db' ≤ remaining db₀ db :=
  List.countP_mono_left (fun _ _ h => active_of_grows hp hp' hg h)

/-- Marking a run leaves one active run less. -/
private theorem remaining_lt {db₀ db db' : Db} (hp : Progress db₀ db) (hp' : Progress db₀ db') (hg : Grows db₀ db db')
    {id : String} {run : DagRun} (hrun : db.run? id = some run) (hactive : run.state.isActive = true)
    (hended : Ended db₀ db' id) : remaining db₀ db' < remaining db₀ db := by
  obtain ⟨hmem, hid⟩ := Db.run?_spec (hp.same_run hrun hactive)
  obtain ⟨l, l', hsplit⟩ := List.append_of_mem hmem
  have hbefore : (db.run? run.runID).any (·.state.isActive) = true := by
    rw [hid, hrun, Option.any_some]
    exact hactive
  have hafter : ¬ (db'.run? run.runID).any (·.state.isActive) = true := by
    obtain ⟨_, fin, _, _, heq⟩ := hended
    rw [hid, heq, Option.any_some]
    exact Bool.false_ne_true
  have hle : ∀ l : List DagRun, l.countP (fun r => (db'.run? r.runID).any (·.state.isActive)) ≤
      l.countP (fun r => (db.run? r.runID).any (·.state.isActive)) :=
    fun l => List.countP_mono_left (fun _ _ h => active_of_grows hp hp' hg h)
  have hl := hle l
  have hl' := hle l'
  unfold remaining
  simp only [hsplit, List.countP_append, List.countP_cons, if_pos hbefore, if_neg hafter]
  omega

/-! ### One cancel -/

/-- What a cancel of run `id` has done when it ends. -/
private structure Outcome (db₀ db : Db) (id : String) (r : Except Err Unit) (db' : Db) : Prop where
  progress : Progress db₀ db'
  grows : Grows db₀ db db'
  fresh : ∀ v, Ended db₀ db' v → Ended db₀ db v ∨ (Active db₀ id ∧ Reaches db₀ id v ∧ Done db₀ db' v)
  target : Active db₀ id → Ended db₀ db' id
  ok : r = .ok () → Active db₀ id

/-- While the tasks of the marked run `id` are visited, `rest` are left. -/
private structure Visiting (db₀ db : Db) (levels : Nat) (id : String) (rest : List TaskInstance) (db' : Db) : Prop where
  progress : Progress db₀ db'
  grows : Grows db₀ db db'
  fresh : ∀ v, Ended db₀ db' v → Ended db₀ db v ∨ v = id ∨ (Reaches db₀ id v ∧ Done db₀ db' v)
  self : Ended db₀ db' id
  listed : ∀ ti ∈ rest, ti ∈ db₀.tasks.rows ∧ ti.runID = id
  visited : ∀ ti ∈ db₀.tasks.rows, ti.runID = id → ti.state.isTerminal = false → ti ∈ rest ∨
    (Stopped db' ti ∧ ∀ child, cutPrefix ti.executorRef subdagRefPrefix = some child → Active db₀ child → Ended db₀ db' child)
  levels : remaining db₀ db' < levels

namespace Visiting
variable {db₀ db db' : Db} {levels : Nat} {id : String} {ti : TaskInstance} {rest : List TaskInstance}

/-- The run has just been marked. -/
theorem start {run : DagRun} (hprogress : Progress db₀ db) (hlevels : remaining db₀ db < levels + 1)
    (hrun : db.run? id = some run) (hactive : run.state.isActive = true) (fin : Time) :
    Visiting db₀ db levels id ((db.recordState id .cancelled run.startedAt (some fin)).listTaskInstances id)
      (db.recordState id .cancelled run.startedAt (some fin)) := by
  obtain ⟨hmarked, hself, hgrows, hfresh⟩ := hprogress.mark hrun hactive fin
  have hlisted : ∀ ti, ti ∈ (db.recordState id .cancelled run.startedAt (some fin)).listTaskInstances id ↔
      ti ∈ db₀.tasks.rows ∧ ti.runID = id := fun ti => hprogress.listed hrun hactive ti
  have hless := remaining_lt hprogress hmarked hgrows hrun hactive hself
  exact {
    progress := hmarked
    grows := hgrows
    fresh := fun v hv => (hfresh v hv).imp_right .inl
    self := hself
    listed := fun ti hti => (hlisted ti).mp hti
    visited := fun ti hti hid _ => .inl ((hlisted ti).mpr ⟨hti, hid⟩)
    levels := by omega }

/-- Every task has been visited. -/
theorem outcome (h : Visiting db₀ db levels id [] db') : Outcome db₀ db id (.ok ()) db' := by
  have hdone : Done db₀ db' id := by
    intro ti hti hid hopen
    exact (h.visited ti hti hid hopen).resolve_left List.not_mem_nil
  obtain ⟨run, _, hrun, hactive, -⟩ := h.self
  have hstart : Active db₀ id := ⟨run, hrun, hactive⟩
  refine ⟨h.progress, h.grows, ?_, fun _ => h.self, fun _ => hstart⟩
  intro v hv
  rcases h.fresh v hv with hbefore | rfl | ⟨hreach, hbelow⟩
  · exact .inl hbefore
  · exact .inr ⟨hstart, .refl, hdone⟩
  · exact .inr ⟨hstart, hreach, hbelow⟩

/-- A task that is over needs nothing. -/
theorem settled (h : Visiting db₀ db levels id (ti :: rest) db') (hover : ti.state.isTerminal = true) :
    Visiting db₀ db levels id rest db' where
  progress := h.progress
  grows := h.grows
  fresh := h.fresh
  self := h.self
  listed ti' hti' := h.listed ti' (List.mem_cons_of_mem _ hti')
  visited := by
    intro ti' hti' hid hopen
    rcases h.visited ti' hti' hid hopen with hmem | hdone
    · rcases List.mem_cons.mp hmem with rfl | hrest
      · rw [hover] at hopen
        cases hopen
      · exact .inl hrest
    · exact .inr hdone
  levels := h.levels

/-- The cancel of the child run an open task waits for. -/
theorem child {child : String} {r : Except Err Unit} {db'' : Db} (h : Visiting db₀ db levels id (ti :: rest) db')
    (hopen : ti.state.isTerminal = false) (hcut : cutPrefix ti.executorRef subdagRefPrefix = some child)
    (ho : Outcome db₀ db' child r db'') : Visiting db₀ db levels id (ti :: rest) db'' where
  progress := ho.progress
  grows := h.grows.trans ho.grows
  fresh := by
    intro v hv
    rcases ho.fresh v hv with hbefore | ⟨hactive, hreach, hdone⟩
    · exact (h.fresh v hbefore).imp_right (.imp_right (.imp_right ho.grows.done))
    · obtain ⟨hmem, hid⟩ := h.listed ti List.mem_cons_self
      exact .inr (.inr ⟨.head ⟨⟨ti, hmem, hid, hopen, hcut⟩, hactive⟩ hreach, hdone⟩)
  self := ho.grows.ended _ h.self
  listed := h.listed
  visited := by
    intro ti' hti' hid hopen'
    refine (h.visited ti' hti' hid hopen').imp_right ?_
    rintro ⟨hstop, hchild⟩
    exact ⟨ho.grows.stopped ti' hti' hstop, fun v hv hactive => ho.grows.ended v (hchild v hv hactive)⟩
  levels := Nat.lt_of_le_of_lt (remaining_le h.progress ho.progress ho.grows) h.levels

/-- Marking an open task once the run it waits for is taken care of. -/
theorem marked (h : Visiting db₀ db levels id (ti :: rest) db') (hopen : ti.state.isTerminal = false)
    (hchild : ∀ child, cutPrefix ti.executorRef subdagRefPrefix = some child → Active db₀ child → Ended db₀ db' child)
    (fin : Time) : Visiting db₀ db levels id rest (db'.writeTask { ti with state := .cancelled, finishedAt := some fin }) := by
  obtain ⟨hmem, hid⟩ := h.listed ti List.mem_cons_self
  obtain ⟨hprogress, hstopped, hgrows⟩ := h.progress.write hmem hopen (hid.symm ▸ h.self) fin
  refine ⟨hprogress, h.grows.trans hgrows, ?_, hgrows.ended _ h.self, ?_, ?_, ?_⟩
  · intro v hv
    exact (h.fresh v hv).imp_right (.imp_right (.imp_right hgrows.done))
  · exact fun ti' hti' => h.listed ti' (List.mem_cons_of_mem _ hti')
  · intro ti' hti' hid' hopen'
    rcases h.visited ti' hti' hid' hopen' with hrest | ⟨hstop, hchild'⟩
    · rcases List.mem_cons.mp hrest with rfl | hrest
      · exact .inr ⟨hstopped, fun v hv hactive => hgrows.ended v (hchild v hv hactive)⟩
      · exact .inl hrest
    · exact .inr ⟨hgrows.stopped ti' hti' hstop, fun v hv hactive => hgrows.ended v (hchild' v hv hactive)⟩
  · exact Nat.lt_of_le_of_lt (remaining_le h.progress hprogress hgrows) h.levels

end Visiting

private theorem apply_cancelled {db : Db} {id : String} {run : DagRun} (hrun : db.run? id = some run)
    (hactive : run.state.isActive = true) (fin : Time) :
    db.apply (.updateDagRunState id .cancelled run.startedAt (some fin)) =
      (.ok (), db.recordState id .cancelled run.startedAt (some fin)) := by
  have hlegal : run.state ∈ legalPriorRunStates .cancelled := by
    cases hstate : run.state with
    | queued => decide
    | running => decide
    | _ =>
      rw [hstate] at hactive
      cases hactive
  simp only [Db.apply, hrun, if_pos hlegal]
  rfl

section Programs
variable {k : Kind} {t : Nat} {answers : Answers} {db₀ : Db}

/-- The task loop, given what the next level does. -/
private theorem cancelTask_completes (hfault : Faultless answers) (hfit : Fitting answers) {levels : Nat}
    (hlevel : ∀ db child, Progress db₀ db → remaining db₀ db < levels →
      Completes k t answers (fun w => w.db = db) (cancelRunLocked levels child) (fun r w => Outcome db₀ db child r w.db))
    {db : Db} {id : String} {fin : Time} (ti : TaskInstance) (rest : List TaskInstance) :
    Completes k t answers (fun w => Visiting db₀ db levels id (ti :: rest) w.db) (cancelTask (cancelRunLocked levels) fin ti)
      (Ends (fun _ w => Visiting db₀ db levels id rest w.db) (fun _ => False)) := by
  unfold cancelTask
  refine .ite (fun hover => .pure (fun w hw => hw.settled hover)) ?_
  intro hopen
  rw [Bool.not_eq_true] at hopen
  have hmark : Completes k t answers (fun w => Visiting db₀ db levels id (ti :: rest) w.db ∧
        ∀ child, cutPrefix ti.executorRef subdagRefPrefix = some child → Active db₀ child → Ended db₀ w.db child)
      (attempt (statement (.updateTaskInstance { ti with state := .cancelled, finishedAt := some fin })))
      (Ends (fun _ w => Visiting db₀ db levels id rest w.db) (fun _ => False)) := by
    refine .attempt ((Completes.statement hfault _).mono (fun _ hw => hw) ?_)
    rintro r w' ⟨w, ⟨hw, hchild⟩, rfl, rfl⟩
    obtain ⟨hmem, -⟩ := hw.listed ti List.mem_cons_self
    rcases Db.updateTaskInstance_cases (s := w.db) { ti with state := .cancelled, finishedAt := some fin } with ⟨hnone, -⟩ | ⟨row, -, happly⟩
    · rcases hw.progress.tasks ti hmem with heq | ⟨-, ⟨fin', heq⟩, -⟩
      · rw [heq] at hnone
        cases hnone
      · rw [heq] at hnone
        cases hnone
    · change Visiting db₀ db levels id rest (w.db.apply _).2
      rw [happly]
      exact hw.marked hopen hchild fin
  dsimp only
  refine .ite (fun _ => ?_) ?_
  · refine .next (m := fun _ w => Visiting db₀ db levels id (ti :: rest) w.db ∧
      ∀ child, cutPrefix ti.executorRef subdagRefPrefix = some child → Active db₀ child → Ended db₀ w.db child) ?_ (fun _ => hmark)
    unfold cancelAttempt
    cases hcut : cutPrefix ti.executorRef subdagRefPrefix with
    | none => exact (Completes.ask hfit _).mono (fun _ hw => ⟨hw, nofun⟩) (fun _ _ h => h)
    | some child =>
      refine .attempt ?_
      intro n w hw
      obtain ⟨r, w', hp, hchild⟩ := hlevel w.db child hw.progress hw.levels n w rfl
      refine ⟨r, w', hp, hw.child hopen hcut hchild, ?_⟩
      rintro _ ⟨⟩ hactive
      exact hchild.target hactive
  · intro hempty
    refine hmark.mono (fun w hw => ⟨hw, ?_⟩) (fun _ _ h => h)
    intro child hcut
    rw [not_not.mp hempty] at hcut
    cases hcut

/-- A cancel that has a level for every active run that is left. -/
private theorem cancelRunLocked_completes (hfault : Faultless answers) (hfit : Fitting answers) (levels : Nat) (db : Db)
    (id : String) (hprogress : Progress db₀ db) (hlevels : remaining db₀ db < levels) :
    Completes k t answers (fun w => w.db = db) (cancelRunLocked levels id) (fun r w => Outcome db₀ db id r w.db) := by
  induction levels generalizing db id with
  | zero => exact absurd hlevels (Nat.not_lt_zero _)
  | succ levels ih =>
    -- a run that is not active any more is refused
    have hrefused : ∀ e, (∀ run, db.run? id = some run → run.state.isActive = false) → Outcome db₀ db id (.error e) db := by
      intro e hinactive
      refine ⟨hprogress, Grows.refl _ _, fun v hv => .inl hv, ?_, nofun⟩
      rintro ⟨run, hrun, hactive⟩
      rcases hprogress.runs id with heq | hended
      · rw [hinactive run (heq.trans hrun)] at hactive
        cases hactive
      · exact hended
    refine Completes.marked (A := fun db' => db' = db) (B := fun r db' => Outcome db₀ db id r db') ?_
    refine .bind ((Completes.query hfault (fun db => db.getDagRun id)).mono (fun _ hw => hw) (fun _ _ h => h)) ?_ ?_
    · intro run
      refine .ite ?_ ?_
      · intro hinactive
        refine Completes.throw ?_
        rintro w ⟨hrun, rfl⟩
        refine hrefused _ ?_
        rintro _ hrun'
        rw [Db.getDagRun_ok.mp hrun.symm] at hrun'
        cases hrun'
        simpa using hinactive
      · intro hactive
        rw [Bool.not_eq_true, Bool.not_eq_false'] at hactive
        refine .next (m := fun _ w => db.run? id = some run ∧ w.db = db) ((Completes.ask hfit _).mono ?_ (fun _ _ h => h)) ?_
        · rintro w ⟨hrun, rfl⟩
          exact ⟨Db.getDagRun_ok.mp hrun.symm, rfl⟩
        · intro fin
          refine .next (m := fun _ w => db.run? id = some run ∧ w.db = db.recordState id .cancelled run.startedAt (some fin)) ?_ ?_
          · refine (Completes.statement hfault _).mono (fun _ h => h) ?_
            rintro r w' ⟨w, ⟨hrun, rfl⟩, rfl, rfl⟩
            rw [World.written, apply_cancelled hrun hactive]
            exact ⟨hrun, rfl⟩
          · intro _
            refine .next (Completes.list hfault _) ?_
            intro tis
            refine (Completes.forM_rest (I := fun rest w => Visiting db₀ db levels id rest w.db)
              (cancelTask_completes hfault hfit ih) tis).mono ?_ ?_
            · rintro w ⟨rfl, hrun, hw⟩
              rw [hw]
              exact .start hprogress hlevels hrun hactive fin
            · rintro (e | _) w hw
              · exact hw.elim
              · exact hw.outcome
    · rintro e w ⟨he, rfl⟩
      refine hrefused e ?_
      intro run hrun
      rw [Db.getDagRun_ok.mpr hrun] at he
      cases he

end Programs

/-! ### The whole cascade -/

private theorem not_ended_start (db : Db) (id : String) : ¬ Ended db db id := by
  rintro ⟨run, fin, hrun, hactive, hended⟩
  exact Progress.not_ended hrun hactive ⟨run, fin, hrun, hactive, hended⟩

/-- A cancel that has no child left to go to has been everywhere. -/
private theorem Outcome.everywhere {db db' : Db} {id : String} {r : Except Err Unit} (h : Outcome db db id r db')
    (hstart : Active db id) {b : String} (hreach : Reaches db id b) : Ended db db' b := by
  induction hreach with
  | refl => exact h.target hstart
  | tail _ hlast ih =>
    obtain ⟨⟨ti, hti, hid, hopen, hcut⟩, hactive⟩ := hlast
    have hdone := ((h.fresh _ ih).resolve_left (not_ended_start db _)).2.2
    exact (hdone ti hti hid hopen).2 _ hcut hactive

private theorem Outcome.cancelled {db db' : Db} {id : String} {r : Except Err Unit} (h : Outcome db db id r db') {b : String}
    (hended : Ended db db' b) : Cancelled db db' b := by
  have hdone := ((h.fresh b hended).resolve_left (not_ended_start db b)).2.2
  obtain ⟨run, fin, hrun, -, hafter⟩ := hended
  refine ⟨⟨run, fin, hrun, hafter⟩, fun ti hti hid hopen => (hdone ti hti hid hopen).1, ?_⟩
  intro ti hti _ hover
  rcases h.progress.tasks ti hti with hsame | ⟨hopen, -⟩
  · exact hsame
  · rw [hover] at hopen
    cases hopen

private theorem Outcome.same {db db' : Db} {id : String} {r : Except Err Unit} (h : Outcome db db id r db') {b : String}
    (hreach : ¬ Reaches db id b) : Same db db' b := by
  have hnot : ¬ Ended db db' b := fun hended =>
    hreach ((h.fresh b hended).resolve_left (not_ended_start db b)).2.1
  refine ⟨(h.progress.runs b).resolve_right hnot, ?_⟩
  intro ti hti hid
  rcases h.progress.tasks ti hti with hsame | ⟨-, -, hended⟩
  · exact hsame
  · exact absurd (hid ▸ hended) hnot

/-- A cancel ends, whatever the refs of the stored tasks are. When it succeeds, it
has cancelled the run and, with their open tasks, the runs it gets to through
active runs, and has left every other run alone. -/
theorem cancel_cascades {k : Kind} {t : Nat} {answers : Answers} (hfault : Faultless answers) (hfit : Fitting answers)
    (w : World) (runID : String) (levels : Nat) (hlevels : activeRuns w.db < levels) :
    ∃ r w', w.perform k t answers 0 (cancelRunLocked levels runID).run = some (r, w') ∧
      (r = .ok () → (∀ b, Reaches w.db runID b → Cancelled w.db w'.db b) ∧
        ∀ b, ¬ Reaches w.db runID b → Same w.db w'.db b) := by
  rw [← remaining_start] at hlevels
  obtain ⟨r, w', hp, hout⟩ :=
    cancelRunLocked_completes (k := k) (t := t) hfault hfit levels w.db runID (.refl w.db) hlevels 0 w rfl
  refine ⟨r, w', hp, ?_⟩
  intro hr
  have hstart := hout.ok hr
  exact ⟨fun b hreach => hout.cancelled (hout.everywhere hstart hreach), fun b hreach => hout.same hreach⟩

/-! Two runs that wait for each other. -/

private def waitingRun (id : String) (state : RunState) : DagRun :=
  { runID := id, dagID := id, logicalDate := 0, state := state, triggerType := .subdag, startedAt := some 0 }

private def waitingTask (id : Nat) (runID ref : String) : TaskInstance :=
  { id := id, runID := runID, taskID := "sub", state := .running, tryNumber := 1, executorRef := ref, startedAt := some 0 }

def cyclicWorld : World where
  dags := []
  db := { runs := ⟨[waitingRun "a" .running, waitingRun "b" .running], by decide⟩
          tasks := ⟨[waitingTask 1 "a" "subdag:b", waitingTask 2 "b" "subdag:a"], by decide⟩ }

theorem cancel_cascades_cyclic : ∃ w', cyclicWorld.perform (.call (.cancelRun "a")) 1 fine 0 (cancelRunLocked 3 "a").run =
    some (.ok (), w') ∧ Cancelled cyclicWorld.db w'.db "a" ∧ Cancelled cyclicWorld.db w'.db "b" := by
  obtain ⟨r, w', hp, hok⟩ := cancel_cascades (k := .call (.cancelRun "a")) (t := 1) faultless_fine fitting_fine cyclicWorld "a" 3
    (by decide)
  have hr : (cyclicWorld.perform (.call (.cancelRun "a")) 1 fine 0 (cancelRunLocked 3 "a").run).map (·.1) = some (.ok ()) := by
    decide +kernel
  rw [hp, Option.map_some, Option.some.injEq] at hr
  subst hr
  have hlinked : Linked cyclicWorld.db "a" "b" := ⟨waitingTask 1 "a" "subdag:b", by decide, rfl, rfl, by decide⟩
  have hactive : Active cyclicWorld.db "b" := ⟨waitingRun "b" .running, by decide, rfl⟩
  exact ⟨w', hp, (hok rfl).1 "a" .refl, (hok rfl).1 "b" (.single ⟨hlinked, hactive⟩)⟩

/-- The child is over, with a task left open that waits for another run. -/
def settledWorld : World where
  dags := []
  db := { runs := ⟨[waitingRun "a" .running, waitingRun "b" .success, waitingRun "c" .running], by decide⟩
          tasks := ⟨[waitingTask 1 "a" "subdag:b", waitingTask 2 "b" "subdag:c"], by decide⟩ }

/-- A cancel does not go through a run that is over. -/
theorem cancel_stops_at_settled : Relation.ReflTransGen (Linked settledWorld.db) "a" "b" ∧
    Relation.ReflTransGen (Linked settledWorld.db) "a" "c" ∧
    ∃ w', settledWorld.perform (.call (.cancelRun "a")) 1 fine 0 (cancelRunLocked 4 "a").run = some (.ok (), w') ∧
      (w'.db.task? 2).map (·.state) = some .running ∧ w'.db.runState "c" = some .running := by
  have hab : Linked settledWorld.db "a" "b" := ⟨waitingTask 1 "a" "subdag:b", by decide, rfl, rfl, by decide⟩
  have hbc : Linked settledWorld.db "b" "c" := ⟨waitingTask 2 "b" "subdag:c", by decide, rfl, rfl, by decide⟩
  refine ⟨.single hab, .tail (.single hab) hbc, ?_⟩
  have hrun : (settledWorld.perform (.call (.cancelRun "a")) 1 fine 0 (cancelRunLocked 4 "a").run).map
      (fun p => (p.1, (p.2.db.task? 2).map (·.state), p.2.db.runState "c")) = some (.ok (), some .running, some .running) := by
    decide +kernel
  obtain ⟨⟨r, w'⟩, hp, heq⟩ := Option.map_eq_some_iff.mp hrun
  simp only [Prod.mk.injEq] at heq
  obtain ⟨rfl, htask, hstate⟩ := heq
  exact ⟨w', hp, htask, hstate⟩

end Cronova.Properties.Cascade
