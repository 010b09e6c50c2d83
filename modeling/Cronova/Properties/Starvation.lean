import Cronova.Properties.MutualExclusion

/-! Parents that wait for their children. A running run counts against the limits
of the gate for as long as its sub-workflow tasks wait, and its children wait
behind the same gate. -/
namespace Cronova.Properties.Starvation
open Cronova.Model Cronova.Store Cronova.Concurrency Cronova.Concurrency.Fallible Cronova.Scheduler
open Cronova.Properties.Admission

/-! ### Where a tick lists its runs -/

/-- The part of a tick before it lists the active runs. -/
def tickHead (cfg : Cfg) : M Unit := do
  let now ← ask .now
  processPendingDependencyEvents cfg
  processPendingExternalEvents cfg
  createDueRuns cfg now

def tickRest (cfg : Cfg) : M Unit := do
  processActiveRuns cfg
  processPendingDependencyEvents cfg

variable {cfg : Cfg} {w v w' : World} {known : Known} {k : Kind} {t : Nat}

theorem tickOnce_eq : tickOnce cfg = tickHead cfg >>= fun _ => tickRest cfg := by
  simp only [tickOnce, tickHead, tickRest, bind_assoc]

/-- The program runs alone from `w` to `w'` and no store operation fails. -/
def Runs {α : Type} (x : M α) (w w' : World) : Prop :=
  ∃ answers n r, Faultless answers ∧ w.perform .loop 0 answers n x.run = some (r, w')

/-- A tick from `w` to `w'` that lists its runs in `v`. -/
structure Tick (cfg : Cfg) (w v w' : World) : Prop where
  tick : Takes cfg w .tick w'
  head : Runs (tickHead cfg) w v
  rest : Runs (tickRest cfg) v w'

/-- Ticks and nothing else, with the states in which they list their runs. -/
inductive Ticks (cfg : Cfg) : World → List World → World → Prop where
  | none (w : World) : Ticks cfg w [] w
  | tick {w v u w' : World} {vs : List World} : Tick cfg w v u → Ticks cfg u vs w' → Ticks cfg w (v :: vs) w'

private theorem allDAGs_total : Total allDAGs := .bind (.lift _) (fun _ => .bind (.lift _) (fun _ => .pure _))

private theorem processPendingExternalEvents_total : Total (processPendingExternalEvents cfg) := by
  have hsubscriber : ∀ ev dagID, Total (triggerSubscriber cfg ev dagID) := by
    intro ev dagID
    refine .bind (.lift _) ?_
    intro d
    split
    · exact .pure _
    · split
      · exact .pure _
      · refine .bind (.lift _) (fun now => .bind (.outcome _) ?_)
        intro r
        split <;> exact .pure _
  have hdeliver : ∀ dags ev, Total (deliverExternalEvent cfg dags ev) := by
    intro dags ev
    refine .bind (.foldlM (fun dagID _ deferred => .bind (hsubscriber ev dagID) (fun _ => .pure _)) _) ?_
    intro deferred
    split
    · exact attempt_total _
    · exact .pure _
  refine .bind (.outcome _) ?_
  intro r
  split
  · exact .pure _
  · split
    · exact .pure _
    · exact .bind allDAGs_total (fun dags => .forM (fun ev _ => hdeliver dags ev))

private theorem tickHead_total : Total (tickHead cfg) :=
  .bind (.lift _) (fun _ => .bind processPendingDependencyEvents_total (fun _ =>
    .bind processPendingExternalEvents_total (fun _ => .bind (.outcome _) (fun _ => .bind allDAGs_total (fun _ =>
      .forM (fun _ _ => attempt_total _))))))

/-- Every tick lists its runs in some state. -/
theorem tick_lists (h : Takes cfg w .tick w') : ∃ v, Tick cfg w v w' := by
  have htakes := h
  cases h with
  | @tick _ answers r hanswers hp =>
    rw [tickOnce_eq] at hp
    obtain ⟨b, v, m, hhead, hrest⟩ := perform_bind (p := (tickHead cfg).run) hp
    have htotal : Triple (solo anything .loop 0) (fun _ => True) (tickHead cfg) (fun r _ => True ∧ r.isOk = true) :=
      tickHead_total.triple (solo_keeps (tickHead cfg) (fun _ _ _ _ _ _ => trivial))
    have hok := perform_triple hanswers (anything_holds answers) htotal trivial hhead
    cases b with
    | error e => cases hok.2
    | ok _ => exact ⟨v, htakes, ⟨answers, 0, _, hanswers, hhead⟩, ⟨answers, m, _, hanswers, hrest⟩⟩

/-! ### A parent that waits -/

/-- The instance waits for a child run that is queued and not held. -/
def AwaitsChild (db : Db) (ti : TaskInstance) : Prop :=
  ti.state = .running ∧ childOf ti.executorRef ≠ "" ∧
    ∃ child, db.run? (childOf ti.executorRef) = some child ∧ child.state = .queued ∧ child.held = false

/-- Every task of the run that is not over is a sub-workflow task that waits for its child. -/
def Waits (cfg : Cfg) (db : Db) (run : DagRun) (d : DAG) : Prop :=
  parseDefinition cfg run.definitionYAML = .ok d ∧
    ∀ ti ∈ db.listTaskInstances run.runID, ti.state.isTerminal = false →
      (∀ t ∈ d.tasks, t.id = ti.taskID → t.type = .subdag) ∧ AwaitsChild db ti

/-- A waiting run with its instances in place, one of them not over, and no deadline. -/
structure Stuck (cfg : Cfg) (db : Db) (run : DagRun) (d : DAG) : Prop where
  yaml : run.definitionYAML ≠ ""
  waits : Waits cfg db run d
  rows : d.tasks.length ≤ (db.listTaskInstances run.runID).length
  active : ∃ t ∈ d.tasks, ∃ ti, findTI (db.listTaskInstances run.runID) t.id = some ti ∧ ti.state.isTerminal = false
  noTimeout : d.dagrunTimeout ≤ 0

/-- What a step finds in memory: instances that are over or wait. -/
private def Resting (db : Db) (d : DAG) (byTask : List TaskInstance) : Prop :=
  ∀ ti ∈ byTask, ti.state.isTerminal = false → (∀ t ∈ d.tasks, t.id = ti.taskID → t.type = .subdag) ∧ AwaitsChild db ti

private theorem Resting.open_cases {db : Db} {d : DAG} {byTask : List TaskInstance} (h : Resting db d byTask)
    {ti : TaskInstance} (hti : ti ∈ byTask) : ti.state ≠ .scheduled ∧ ti.state ≠ .upForRetry := by
  refine ⟨?_, ?_⟩
  · intro hstate
    have hrunning := (h ti hti (by rw [hstate]; rfl)).2.1
    rw [hstate] at hrunning
    cases hrunning
  · intro hstate
    have hrunning := (h ti hti (by rw [hstate]; rfl)).2.1
    rw [hstate] at hrunning
    cases hrunning

private theorem propagate_resting {db : Db} {d : DAG} {byTask : List TaskInstance} (h : Resting db d byTask)
    (tasks : List Task) (passes : Nat) : propagate blockTask tasks passes byTask = (pure byTask : M (List TaskInstance)) := by
  have hpass : propagatePass blockTask tasks byTask = (pure (byTask, false) : M (List TaskInstance × Bool)) := by
    unfold propagatePass
    induction tasks with
    | nil => rfl
    | cons t tasks ih =>
      rw [List.foldlM_cons]
      dsimp only
      split
      · rw [pure_bind, ih]
      · rename_i ti hti
        rw [if_neg (fun hcond => (h.open_cases (findTI_spec hti).1).1 hcond.1), pure_bind, ih]
  cases passes with
  | zero => rfl
  | succ passes =>
    rw [propagate, hpass, pure_bind]
    rfl

private theorem requeue_resting {db : Db} {d : DAG} {byTask : List TaskInstance} (h : Resting db d byTask) (now : Time)
    (tasks : List Task) : requeue now tasks byTask = pure byTask := by
  unfold requeue
  induction tasks with
  | nil => rfl
  | cons t tasks ih =>
    rw [List.foldlM_cons]
    dsimp only
    split
    · rw [pure_bind, ih]
    · rename_i ti hti
      rw [if_neg (fun hcond => (h.open_cases (findTI_spec hti).1).2 hcond.1), pure_bind, ih]

private theorem mirrorChild_waits {ti : TaskInstance} (h : AwaitsChild w.db ti) (now : Time) :
    Triple (solo known k t) (Still w) (mirrorChild ti now) (fun r s => r = .ok ti ∧ Still w s) := by
  obtain ⟨-, hne, child, hchild, hqueued, -⟩ := h
  unfold mirrorChild
  rw [if_neg hne]
  refine .bind (m := fun r s => r = .ok (.ok child) ∧ Still w s) (.outcome ((solo_query _).weaken ?_)) ?_ ?_
  · rintro r s ⟨rfl, hs⟩
    refine ⟨?_, hs⟩
    rw [hs.1, Db.getDagRun_ok.mpr hchild]
  · rintro r s ⟨heq, hs⟩
    cases heq
    simp only [hqueued]
    exact ⟨rfl, hs⟩
  · rintro e s ⟨heq, -⟩
    cases heq

private theorem collectTask_resting {d : DAG} {run : DagRun} {task : Task} {byTask : List TaskInstance}
    (htask : task ∈ d.tasks) (h : Resting w.db d byTask) :
    Triple (solo known k t) (Still w) (collectTask cfg d run byTask task)
      (fun r s => (∃ byTask', r = .ok (byTask', []) ∧ Resting w.db d byTask') ∧ Still w s) := by
  unfold collectTask
  split
  · exact .pure (fun s hs => ⟨⟨byTask, rfl, h⟩, hs⟩)
  · rename_i ti hti
    obtain ⟨hmem, hid⟩ := findTI_spec hti
    obtain ⟨hsched, -⟩ := h.open_cases hmem
    refine .ite (fun hsub => ?_) (fun hsub => ?_)
    · have hrunning : ti.state = .running := hsub.2.resolve_left hsched
      have hawaits := (h ti hmem (by rw [hrunning]; rfl)).2
      rw [if_neg (fun hcond => hsched hcond.1)]
      refine .bind (m := fun r s => r = .ok ti ∧ Still w s) ?_ ?_ ?_
      · refine .next (solo_asked _) ?_
        intro now
        rw [if_neg hsched]
        exact mirrorChild_waits hawaits now
      · rintro new s ⟨heq, hs⟩
        cases heq
        refine ⟨⟨_, rfl, ?_⟩, hs⟩
        intro row hrow
        rcases mem_setTI hrow with rfl | hold
        · exact h _ hmem
        · exact h row hold
      · rintro e s ⟨heq, -⟩
        cases heq
    · rw [if_neg (fun hcond => hsched hcond.1)]
      exact .pure (fun s hs => ⟨⟨byTask, rfl, h⟩, hs⟩)

private theorem collect_resting {d : DAG} {run : DagRun} (tasks : List Task) (htasks : tasks ⊆ d.tasks)
    {byTask : List TaskInstance} (h : Resting w.db d byTask) :
    Triple (solo known k t) (Still w) (collect cfg d run tasks byTask []) (fun r s => r = .ok ([], none) ∧ Still w s) := by
  induction tasks generalizing byTask with
  | nil => exact .pure (fun s hs => ⟨rfl, hs⟩)
  | cons task tasks ih =>
    refine .bind (m := fun r s => (∃ byTask', r = .ok (.ok (byTask', [])) ∧ Resting w.db d byTask') ∧ Still w s)
      (.outcome ((collectTask_resting (htasks (by simp)) h).weaken ?_)) ?_ ?_
    · rintro r s ⟨⟨byTask', rfl, hrest⟩, hs⟩
      exact ⟨⟨byTask', rfl, hrest⟩, hs⟩
    · rintro r s ⟨⟨byTask', heq, hrest⟩, hs⟩
      cases heq
      exact ih (List.subset_of_cons_subset htasks) hrest s hs
    · rintro e s ⟨⟨byTask', heq, -⟩, -⟩
      cases heq

private theorem finalState_active {d : DAG} {tis : List TaskInstance} {task : Task} {ti : TaskInstance}
    (htask : task ∈ d.tasks) (hti : findTI tis task.id = some ti) (hactive : ti.state.isTerminal = false) :
    finalState d tis = none := by
  unfold finalState
  dsimp only
  rw [if_neg]
  intro hall
  have hterminal := List.all_eq_true.mp hall _ (List.mem_map_of_mem htask)
  rw [hti] at hterminal
  simp [hactive] at hterminal

/-- A step on a stuck run writes nothing and makes nothing ready. -/
theorem processRun_stuck {run : DagRun} {d : DAG} (hrunning : run.state = .running) (h : Stuck cfg w.db run d) :
    Triple (solo known k t) (Still w) (processRun cfg run) (fun r s => r = .ok [] ∧ Still w s) := by
  have hresting : Resting w.db d (w.db.listTaskInstances run.runID) := h.waits.2
  refine solo_locked (A := fun db dags => db = w.db ∧ dags = w.dags)
    (B := fun r db dags => r = .ok [] ∧ db = w.db ∧ dags = w.dags) ?_
  refine solo_marked (A := fun db dags => db = w.db ∧ dags = w.dags)
    (B := fun r db dags => r = .ok [] ∧ db = w.db ∧ dags = w.dags) ?_
  refine .bind (m := fun r s => r = .ok (d, run) ∧ Still w s) ?_ ?_ ?_
  · unfold dagForRun
    rw [if_pos h.yaml, h.waits.1]
    exact fun s hs => ⟨rfl, hs⟩
  · rintro ⟨d', run'⟩ s ⟨heq, hs⟩
    cases heq
    refine Triple.bind (p := Still w) (m := fun r s => r = .ok (w.db.listTaskInstances run.runID) ∧ Still w s) ?_ ?_ ?_ s hs
    · refine .next (solo_list _) ?_
      rintro tis s' ⟨rfl, hs'⟩
      rw [hs'.1, if_neg (by have := h.rows; omega)]
      exact ⟨rfl, hs'⟩
    · rintro tis s' ⟨heq, hs'⟩
      cases heq
      obtain ⟨task, htask, ti, hti, hactive⟩ := h.active
      have hne : w.db.listTaskInstances run.runID ≠ [] := List.ne_nil_of_mem (findTI_spec hti).1
      rw [if_neg hne]
      unfold driveRun startRun
      rw [if_neg (by rw [hrunning]; nofun), pure_bind, propagate_resting hresting, pure_bind]
      refine Triple.next (solo_asked _) ?_ s' hs'
      intro now
      rw [requeue_resting hresting, pure_bind]
      refine .ite (fun _ => .pure (fun s hs => ⟨rfl, hs⟩)) (fun _ => ?_)
      refine .bind (collect_resting d.tasks (List.Subset.refl _) hresting) ?_ ?_
      · rintro p s'' ⟨heq, hs''⟩
        cases heq
        have hfinalize : Triple (solo known k t) (Still w) (finalizeRun cfg d run) (fun _ => Still w) := by
          refine .next (solo_list _) ?_
          rintro tis s ⟨rfl, hs⟩
          rw [hs.1, finalState_active htask hti hactive]
          dsimp only
          unfold enforceDeadlines
          split
          · exact hs
          · refine Triple.next (solo_asked _) ?_ s hs
            intro now
            rw [if_neg (fun hcond => absurd hcond.1 (by have := h.noTimeout; omega))]
            exact .pure (fun s hs => hs)
        have hattempt := (attempt_total (finalizeRun cfg d run)).triple (Keeps.bind (.outcome hfinalize) (fun _ => .pure _))
        refine Triple.bind hattempt (fun _ => .pure (fun s hs => ⟨rfl, hs.1⟩)) ?_ s'' hs''
        rintro e s ⟨-, hok⟩
        cases hok
      · rintro e s'' ⟨heq, -⟩
        cases heq
    · rintro e s' ⟨heq, -⟩
      cases heq
  · rintro e s ⟨heq, -⟩
    cases heq

/-! ### Ticks -/

/-- The run is the child that a running run waits for. -/
def Awaited (w : World) (id : String) : Prop :=
  ∃ run ∈ w.db.listDagRunsByState .running, ∃ ti ∈ w.db.listTaskInstances run.runID,
    AwaitsChild w.db ti ∧ childOf ti.executorRef = id

private theorem Runs.post {α : Type} {x : M α} {pre : World → Prop} {post : Except Err α → World → Prop} (h : Runs x w w')
    (hx : Triple (solo anything .loop 0) pre x post) (hpre : pre w) : ∃ r, post r w' := by
  obtain ⟨answers, n, r, hanswers, hp⟩ := h
  exact ⟨r, perform_triple hanswers (anything_holds answers) hx hpre hp⟩

private theorem tick_gone {id : String} (h : Tick cfg w v w') (hgone : Gone id w) : Gone id w' := by
  refine h.tick.keeps hgone (fun _ => gone_keeps _) ?_ ?_
  · intro c hc
    cases hc
  · intro n job β c r hn
    cases hn

/-- A run the gate lets through leaves the queue in the same tick. -/
private theorem tick_admitted {run : DagRun} (h : Tick cfg w v w') (hrun : run ∈ admitted cfg v) : Gone run.runID w' := by
  have htriple : Triple (solo anything .loop 0) (· = v) (tickRest cfg) (fun _ => Gone run.runID) :=
    .bind ((processActiveRuns_gone v).weaken fun _ _ hall => hall run hrun) (fun _ => gone_keeps _) (fun _ _ hs => hs)
  obtain ⟨-, hgone⟩ := h.rest.post htriple rfl
  exact hgone

private theorem queue_queued {id : String} {α : Type} {x : M α} (hx : queuePrint.Bounds x) :
    Keeps (solo known k t) (fun s => s.db.runState id = some .queued) x := by
  refine solo_bounds (A := fun db => db.runState id = some .queued) hx ?_
  intro β s db hs h
  exact Db.apply_runState (by cases hs <;> rfl) h

private theorem tickHead_bounds : queuePrint.Bounds (tickHead cfg) :=
  .bind (.ask _) (fun now => .bind processPendingDependencyEvents_bounds (fun _ =>
    .bind processPendingExternalEvents_bounds (fun _ => createDueRuns_bounds now)))

/-- A full process starts nothing. -/
private theorem gateMoves_closed {runningBy : String → Nat} {globalRunning : Nat} {queue : List DagRun}
    (h : cfg.maxActiveRunsGlobal ≤ (globalRunning : Int)) : gateMoves cfg v runningBy globalRunning queue = [] := by
  induction queue with
  | nil => rw [gateMoves]
  | cons run rest ih =>
    rw [gateMoves]
    dsimp only
    rw [if_pos (.inl h)]
    exact ih

/-- A tick that finds every running run stuck and lets nothing through moves no queued run. -/
private theorem tick_stalled {id : String} (h : Tick cfg w v w') (hnone : admitted cfg v = [])
    (hstuck : ∀ run ∈ v.db.listDagRunsByState .running, ∃ d, Stuck cfg v.db run d)
    (hqueued : w.db.runState id = some .queued) : w'.db.runState id = some .queued := by
  obtain ⟨-, hv⟩ := h.head.post (queue_queued tickHead_bounds) hqueued
  have hidle : ∀ run ∈ v.db.listDagRunsByState .running, Triple (solo anything .loop 0) (Still v) (processRun cfg run)
      (fun r s => r = .ok [] ∧ Still v s) := by
    intro run hrun
    obtain ⟨d, hd⟩ := hstuck run hrun
    exact processRun_stuck (mem_listDagRunsByState.mp hrun).2 hd
  have htriple : Triple (solo anything .loop 0) (· = v) (tickRest cfg) (fun _ s => s.db.runState id = some .queued) := by
    have hpass : Triple (solo anything .loop 0) (· = v) (processActiveRuns cfg) (fun _ s => s.db.runState id = some .queued) := by
      refine (processActiveRuns_still v hidle hnone).weaken ?_
      intro r s hs
      rw [hs]
      exact hv
    exact .bind hpass (fun _ => queue_queued processPendingDependencyEvents_bounds) (fun _ _ hs => hs)
  obtain ⟨-, hgoal⟩ := h.rest.post htriple rfl
  exact hgoal

private theorem pending_idle (hdependency : w.db.listPendingEvents .dependency 1000 = []) :
    Keeps (solo known k t) (Still w) (processPendingDependencyEvents cfg) := by
  refine .next (solo_outcome_list _) ?_
  rintro r s ⟨rfl, hs⟩
  simp only [hs.1, hdependency]
  exact hs

/-- With no event pending and no DAG scheduled, the first part of a tick writes nothing. -/
private theorem tickHead_idle (hdependency : w.db.listPendingEvents .dependency 1000 = [])
    (hexternal : w.db.listPendingEvents .external 1000 = []) (hdags : ∀ d ∈ w.dags, d.schedule = "") :
    Triple (solo known k t) (Still w) (tickHead cfg) (fun _ => Still w) := by
  have hdue : ∀ now counts, Keeps (solo known k t) (Still w) (do
      let dags ← allDAGs
      dags.forM (fun d => Scheduler.attempt (createDueRun cfg now counts d)) : M Unit) := by
    intro now counts
    refine Triple.next (m := fun dags s => (∀ d ∈ dags, d.schedule = "") ∧ Still w s) ?_ ?_
    · refine .next (solo_registry _) ?_
      intro dags s hs
      obtain ⟨rfl, hs⟩ := hs
      refine Triple.next (solo_asked _) ?_ s hs
      intro ids
      refine .pure ?_
      intro s' hs'
      refine ⟨?_, hs'⟩
      intro d hd
      obtain ⟨id, -, hfind⟩ := List.mem_filterMap.mp hd
      have hmem : d ∈ s.dags := List.mem_of_find?_eq_some hfind
      rw [hs.2] at hmem
      exact hdags d hmem
    · intro dags s hs
      refine Keeps.forM (A := Still w) ?_ s hs.2
      intro d hd
      refine .bind (.outcome ?_) (fun _ => .pure _)
      unfold createDueRun
      rw [if_pos (.inl (hs.1 d hd))]
      exact .pure _
  refine .next (solo_asked _) ?_
  intro now
  refine .bind (pending_idle hdependency) (fun _ => .bind (m := fun _ => Still w) ?_ (fun _ => ?_) (fun _ _ hs => hs)) (fun _ _ hs => hs)
  · refine .next (solo_outcome_list _) ?_
    rintro r s ⟨rfl, hs⟩
    simp only [hs.1, hexternal]
    exact hs
  · refine .next (solo_outcome_list _) ?_
    rintro counts s ⟨-, hs⟩
    exact hdue now _ s hs

def parentYAML : String := "dag_id: parent\ntasks:\n- id: sub\n  type: subdag\n  subdag: child\n  command: child\n"

def childYAML : String := "dag_id: child\ntasks:\n- id: a\n  command: x\n"

def parentDag : DAG :=
  { dagID := "parent", definitionYAML := parentYAML, tasks := [{ id := "sub", type := .subdag, subdag := "child", command := "child" }] }

def childDag : DAG := { dagID := "child", definitionYAML := childYAML, tasks := [{ id := "a", command := "x" }] }

def familyCfg : Cfg :=
  .ofDocuments
    [(parentYAML, { dagID := "parent", tasks := [{ id := "sub", type := "subdag", subdag := "child", command := "child" }] }),
      (childYAML, { dagID := "child", tasks := [{ id := "a", command := "x" }] })]

/-- One run may run at a time. -/
def singleCfg : Cfg := { familyCfg with maxActiveRunsGlobal := 1 }

def familyWorld : World :=
  { db := { dags := ⟨[{ dagID := "parent", definitionYAML := parentYAML }, { dagID := "child", definitionYAML := childYAML }],
              by decide⟩ }
    dags := [parentDag, childDag] }

/-- The parent has started its child. -/
def starvedWorld : World :=
  (familyWorld.after singleCfg fine [some (.trigger "parent" [] 0), none]).getD {}

def parentRun : DagRun :=
  { runID := "parent__manual_0", dagID := "parent", logicalDate := 0, state := .running, triggerType := .manual
    startedAt := some 0, definitionYAML := parentYAML, definitionHash := parentYAML }

def subRow : TaskInstance :=
  { id := 1, runID := "parent__manual_0", taskID := "sub", state := .running, tryNumber := 1, maxRetries := 0
    pool := "default", priority := 0, definitionHash := parentYAML, executorRef := "subdag:child__sub_0"
    logPath := "logs/parent/parent__manual_0/sub.log", startedAt := some 0 }

def childRun : DagRun :=
  { runID := "child__sub_0", dagID := "child", logicalDate := 0, state := .queued, triggerType := .subdag
    parentRunID := "parent__manual_0" }

theorem starvedWorld_running : starvedWorld.db.listDagRunsByState .running = [parentRun] := by decide +kernel

theorem starvedWorld_tasks : starvedWorld.db.listTaskInstances "parent__manual_0" = [subRow] := by decide +kernel

theorem starvedWorld_dags : starvedWorld.dags = [parentDag, childDag] := by decide +kernel

theorem subRow_awaits : AwaitsChild starvedWorld.db subRow :=
  ⟨rfl, by decide, childRun, by decide +kernel, rfl, rfl⟩

theorem starvedWorld_awaited {id : String} (h : Awaited starvedWorld id) : id = "child__sub_0" := by
  obtain ⟨run, hrun, ti, hti, -, rfl⟩ := h
  rw [starvedWorld_running, List.mem_singleton] at hrun
  subst hrun
  rw [show parentRun.runID = "parent__manual_0" from rfl, starvedWorld_tasks, List.mem_singleton] at hti
  subst hti
  decide

theorem starvedWorld_waits : Waits singleCfg starvedWorld.db parentRun parentDag := by
  refine ⟨by decide +kernel, ?_⟩
  intro ti hti _
  rw [show parentRun.runID = "parent__manual_0" from rfl, starvedWorld_tasks, List.mem_singleton] at hti
  subst hti
  exact ⟨by decide, subRow_awaits⟩

theorem starvedWorld_stuck : Stuck singleCfg starvedWorld.db parentRun parentDag where
  yaml := by decide
  waits := starvedWorld_waits
  rows := by decide +kernel
  active := ⟨{ id := "sub", type := .subdag, subdag := "child", command := "child" }, by decide, subRow, by decide +kernel, rfl⟩
  noTimeout := by decide

/-- Every running run waits for children that are queued and not held, and whose
DAGs are registered with tasks. -/
structure Starving (cfg : Cfg) (w : World) : Prop where
  waits : ∀ run ∈ w.db.listDagRunsByState .running, ∃ d, Waits cfg w.db run d
  children : ∀ id child, Awaited w id → w.db.run? id = some child →
    ∃ d, registered w.dags child.dagID = some d ∧ d.tasks ≠ []
  waiting : ∃ id, Awaited w id

theorem starvedWorld_starving : Starving singleCfg starvedWorld := by
  refine ⟨?_, ?_, ?_⟩
  · intro run hrun
    rw [starvedWorld_running, List.mem_singleton] at hrun
    exact ⟨parentDag, hrun ▸ starvedWorld_waits⟩
  · intro id child hid hchild
    rw [starvedWorld_awaited hid, show starvedWorld.db.run? "child__sub_0" = some childRun by decide +kernel] at hchild
    cases hchild
    rw [starvedWorld_dags]
    exact ⟨childDag, by decide, by decide⟩
  · refine ⟨"child__sub_0", parentRun, ?_, subRow, ?_, subRow_awaits, by decide⟩
    · rw [starvedWorld_running]
      exact List.mem_singleton_self _
    · rw [show parentRun.runID = "parent__manual_0" from rfl, starvedWorld_tasks]
      exact List.mem_singleton_self _

/-- Ticks change nothing once the parent has the only slot. -/
private theorem starved_tick (hstill : Still starvedWorld w) (h : Takes singleCfg w .tick w') : Still starvedWorld w' := by
  have hhead : Triple (solo anything .loop 0) (Still starvedWorld) (tickHead singleCfg) (fun _ => Still starvedWorld) := by
    refine tickHead_idle (by decide +kernel) (by decide +kernel) ?_
    rw [starvedWorld_dags]
    decide
  obtain ⟨v, htick⟩ := tick_lists h
  obtain ⟨-, hdb, hdags⟩ := htick.head.post hhead hstill
  have hidle : ∀ run ∈ v.db.listDagRunsByState .running, Triple (solo anything .loop 0) (Still v) (processRun singleCfg run)
      (fun r s => r = .ok [] ∧ Still v s) := by
    rw [hdb, starvedWorld_running]
    intro run hrun
    obtain rfl := List.mem_singleton.mp hrun
    exact processRun_stuck rfl (hdb ▸ starvedWorld_stuck)
  have hclosed : admitted singleCfg v = [] := gateMoves_closed (by rw [hdb, starvedWorld_running]; decide)
  have hrest : Triple (solo anything .loop 0) (· = v) (tickRest singleCfg) (fun _ => Still starvedWorld) := by
    have hpass : Triple (solo anything .loop 0) (· = v) (processActiveRuns singleCfg) (fun _ => Still starvedWorld) := by
      refine ((processActiveRuns_still v hidle hclosed).and ((solo_dags v.dags _).strengthen (fun s hs => hs ▸ rfl))).weaken ?_
      rintro r s ⟨hs, hs'⟩
      exact ⟨hs.trans hdb, hs'.trans hdags⟩
    exact .bind hpass (fun _ => pending_idle (by decide +kernel)) (fun _ _ hs => hs)
  obtain ⟨-, hgoal⟩ := htick.rest.post hrest rfl
  exact hgoal

end Cronova.Properties.Starvation
