import Cronova.Scheduler.Confined
import Cronova.Scheduler.Stepwise

/-! A held run. The hold check ends a step before the collection, so a held run
is neither finished nor timed out and its sub-workflow tasks do not follow their
children; a step on it has the effect it has on the run that is not held exactly
where the rest of the step has nothing to do. -/
namespace Cronova.Properties.Hold
open Cronova.Model Cronova.Store Cronova.Concurrency Cronova.Concurrency.Fallible Cronova.Scheduler

/-- The same run, held. -/
def onHold (run : DagRun) : DagRun := { run with held := true }

/-- The same world with the stored run held. -/
def hold (w : World) (id : String) : World := { w with db := w.db.modifyRun id onHold (fun _ => rfl) }

/-- A row is the same, or its child run was started. -/
def Near (now : Time) (a b : TaskInstance) : Prop := b = a ∨ (a.state = .scheduled ∧ ∃ child, b = startedAs now child a)

/-- What a step did to the run and its tasks, held and not held. -/
structure SameEffect (now : Time) (id : String) (held free : World) : Prop where
  run : held.db.run? id = (free.db.run? id).map onHold
  rows : List.Forall₂ (Near now) (held.db.listTaskInstances id) (free.db.listTaskInstances id)

/-- The run is past its deadline. -/
def Expired (now : Time) (d : DAG) (run : DagRun) : Prop :=
  0 < d.dagrunTimeout ∧ ∃ started, run.startedAt = some started ∧ d.dagrunTimeout * second ≤ now - started

/-- The end of a step has nothing to do. -/
def AtEnd (now : Time) (d : DAG) (run : DagRun) (rows : List TaskInstance) : Prop :=
  finalState d rows = none ∧ ¬ Expired now d run

/-- Going through the tasks, none is resolved, and the end of the step has nothing
to do. A child that cannot be created ends the step. -/
def Calm (cfg : Cfg) (o : Outside) (dags : List DAG) (d : DAG) (run : DagRun) :
    List Task → Db → List TaskInstance → Prop
  | [], _, rows => AtEnd o.now d run rows
  | t :: tasks, db, rows =>
    match fate cfg o dags d run db rows t with
    | .rests => Calm cfg o dags d run tasks db rows
    | .settles => False
    | .starts =>
      match db.apply (.createDagRunBounded (childRun o.now run t) cfg.maxQueuedRunsGlobal) with
      | (.ok _, db') =>
        Calm cfg o dags d run tasks db' (((findTI rows t.id).map (startedAs o.now (childRun o.now run t).runID)).elim rows (setTI rows))
      | (.error .queueFull, _) => Calm cfg o dags d run tasks db rows
      | (.error _, _) => True

/-- After the hold check a step on the run does nothing but start children. -/
def Quiet (cfg : Cfg) (o : Outside) (w : World) (run : DagRun) : Prop :=
  ∀ d, resolve cfg w run = .ok d →
    let db := expanded cfg (adopted cfg w.db run d) (adopt cfg run d) d
    let rows := settled o.now d.tasks (db.listTaskInstances run.runID)
    db.listTaskInstances run.runID ≠ [] → NoRefs rows ∧ Calm cfg o w.dags d (adopt cfg run d) d.tasks db rows

variable {cfg : Cfg} {o : Outside} {k : Kind} {t : Nat} {dags : List DAG} {d : DAG} {run : DagRun} {db db' : Db}
  {rows rows' : List TaskInstance}

/-! ### The walk over the tasks -/

/-- A row has left the hands of the collection. -/
def Moved (rows rows' : List TaskInstance) : Prop :=
  ∃ a ∈ rows, Collectable a ∧ ∃ b ∈ rows', b.taskID = a.taskID ∧ ¬ Collectable b

private theorem near_refl {now : Time} (rows : List TaskInstance) : List.Forall₂ (Near now) rows rows :=
  List.forall₂_same.mpr (fun _ _ => .inl rfl)

private theorem near_started {now : Time} {ti : TaskInstance} {child : String} (hnd : (rows.map (·.taskID)).Nodup)
    (hti : ti ∈ rows) (hsched : ti.state = .scheduled) : List.Forall₂ (Near now) rows (setTI rows (startedAs now child ti)) := by
  rw [setTI, List.forall₂_map_right_iff, List.forall₂_same]
  intro row hrow
  split
  · rename_i heq
    have hfind := findTI_of_mem hnd hrow
    rw [heq, show (startedAs now child ti).taskID = ti.taskID from rfl, findTI_of_mem hnd hti] at hfind
    cases hfind
    exact .inr ⟨hsched, child, rfl⟩
  · exact .inl rfl

private theorem Near.trans {now : Time} {a b c : TaskInstance} (hab : Near now a b) (hbc : Near now b c) : Near now a c := by
  rcases hab with rfl | ⟨hsched, child, rfl⟩
  · exact hbc
  · rcases hbc with rfl | ⟨hsched', -⟩
    · exact .inr ⟨hsched, child, rfl⟩
    · cases hsched'

private theorem near_trans {now : Time} {a b c : List TaskInstance} (hab : List.Forall₂ (Near now) a b)
    (hbc : List.Forall₂ (Near now) b c) : List.Forall₂ (Near now) a c := by
  induction hab generalizing c with
  | nil => exact hbc
  | cons hhead _ ih =>
    cases hbc with
    | cons hhead' htail' => exact .cons (hhead.trans hhead') (ih htail')

/-- Rows that are near have the same tasks. -/
private theorem near_moved {now : Time} (hnd : (rows.map (·.taskID)).Nodup) (hnear : List.Forall₂ (Near now) rows rows')
    (hmoved : Moved rows rows') : False := by
  obtain ⟨a, ha, hopen, b, hb, htask, hclosed⟩ := hmoved
  obtain ⟨a', ha', hab⟩ : ∃ a' ∈ rows, Near now a' b := by
    clear hnd ha
    induction hnear with
    | nil => cases hb
    | cons hhead _ ih =>
      rcases List.mem_cons.mp hb with rfl | hb
      · exact ⟨_, List.mem_cons_self, hhead⟩
      · obtain ⟨a', ha', hab⟩ := ih hb
        exact ⟨a', List.mem_cons_of_mem _ ha', hab⟩
  rcases hab with rfl | ⟨-, child, rfl⟩
  · have hfind := findTI_of_mem hnd ha'
    rw [htask, findTI_of_mem hnd ha] at hfind
    cases hfind
    exact hclosed hopen
  · exact hclosed (.inr rfl)

/-- A row that is out of the hands of the collection is left alone. -/
private theorem Collects.keeps_closed {task : Task} {ended : Bool} (h : Collects cfg o dags d run db rows task ended db' rows')
    (hnd : (rows.map (·.taskID)).Nodup) {row : TaskInstance} (hrow : row ∈ rows) (hclosed : ¬ Collectable row) : row ∈ rows' := by
  have hset : ∀ ti new : TaskInstance, ti ∈ rows → Collectable ti → new.taskID = ti.taskID → row ∈ setTI rows new := by
    intro ti new hti hopen htask
    refine List.mem_map.mpr ⟨row, hrow, if_neg ?_⟩
    intro heq
    have hfind := findTI_of_mem hnd hrow
    rw [heq, htask, findTI_of_mem hnd hti] at hfind
    cases hfind
    exact hclosed hopen
  cases h with
  | rests => exact hrow
  | settles _ hti hnew => exact hset _ _ hti hnew.before hnew.task
  | starts _ hfind hsched => exact hset _ _ (findTI_spec hfind).1 (.inl hsched) rfl
  | full => exact hrow
  | refused => exact hrow

private theorem Collects.ids {task : Task} {ended : Bool} (h : Collects cfg o dags d run db rows task ended db' rows') :
    rows'.map (·.taskID) = rows.map (·.taskID) := by
  cases h with
  | settles => exact setTI_ids
  | starts => exact setTI_ids
  | _ => rfl

private theorem Walks.keeps_closed {tasks : List Task} {ended : Bool} (h : Walks cfg o dags d run tasks db rows ended db' rows')
    (hnd : (rows.map (·.taskID)).Nodup) {row : TaskInstance} (hrow : row ∈ rows) (hclosed : ¬ Collectable row) : row ∈ rows' := by
  induction h with
  | done => exact hrow
  | ended hcollects => exact Collects.keeps_closed hcollects hnd hrow hclosed
  | step hcollects _ ih =>
    exact ih (by rw [Collects.ids hcollects]; exact hnd) (Collects.keeps_closed hcollects hnd hrow hclosed)

/-- A calm walk leaves the rows as they were, up to started children, and the end
of the step with nothing to do; any other walk moves a row or leaves it something. -/
theorem walks_calm {tasks : List Task} {ended : Bool} (h : Walks cfg o dags d run tasks db rows ended db' rows')
    (hnd : (rows.map (·.taskID)).Nodup) :
    (Calm cfg o dags d run tasks db rows ∧ List.Forall₂ (Near o.now) rows rows' ∧ (ended = true ∨ AtEnd o.now d run rows')) ∨
      (¬ Calm cfg o dags d run tasks db rows ∧ (Moved rows rows' ∨ ¬ (ended = true ∨ AtEnd o.now d run rows'))) := by
  induction h with
  | @done db rows =>
    by_cases hend : AtEnd o.now d run rows
    · exact .inl ⟨hend, near_refl _, .inr hend⟩
    · exact .inr ⟨hend, .inr (by rintro (h | h); cases h; exact hend h)⟩
  | @ended task tasks db db' rows rows' hcollects =>
    cases hcollects with
    | refused hfate hfull hr =>
      refine .inl ⟨?_, near_refl _, .inl rfl⟩
      rename_i e
      rw [Calm, hfate]
      generalize db.apply (.createDagRunBounded (childRun o.now run task) cfg.maxQueuedRunsGlobal) = p at hr
      obtain ⟨r, db'⟩ := p
      obtain rfl : r = .error e := hr
      cases e <;> first | exact absurd rfl hfull | trivial
  | @step task tasks db mid db' rows next rows' ended hcollects hwalks ih =>
    have hnd' : (next.map (·.taskID)).Nodup := by
      rw [Collects.ids hcollects]
      exact hnd
    cases hcollects with
    | rests hfate =>
      rw [Calm, hfate]
      exact ih hnd'
    | @settles ti new hfate hti hnew =>
      have hin : new ∈ setTI rows new := List.mem_map.mpr ⟨ti, hti, if_pos hnew.task.symm⟩
      refine .inr ⟨by rw [Calm, hfate]; exact not_false, .inl ⟨ti, hti, hnew.before, new, ?_, hnew.task, hnew.after⟩⟩
      exact Walks.keeps_closed hwalks hnd' hin hnew.after
    | @starts ti hfate hfind hsched hr =>
      have hti := (findTI_spec hfind).1
      have hcalm : Calm cfg o dags d run (task :: tasks) db rows ↔ Calm cfg o dags d run tasks
          (db.apply (.createDagRunBounded (childRun o.now run task) cfg.maxQueuedRunsGlobal)).2
          (setTI rows (startedAs o.now (childRun o.now run task).runID ti)) := by
        rw [Calm, hfate, hfind]
        generalize db.apply (.createDagRunBounded (childRun o.now run task) cfg.maxQueuedRunsGlobal) = p at hr
        obtain ⟨r, db'⟩ := p
        obtain rfl : r = .ok () := hr
        rfl
      rw [hcalm]
      rcases ih hnd' with ⟨hquiet, hnear, hend⟩ | ⟨hnot, hmoved | hend⟩
      · exact .inl ⟨hquiet, near_trans (near_started hnd hti hsched) hnear, hend⟩
      · refine .inr ⟨hnot, .inl ?_⟩
        obtain ⟨a, ha, hopen, b, hb, htask, hclosed⟩ := hmoved
        rcases mem_setTI ha with rfl | hold
        · exact ⟨ti, hti, .inl hsched, b, hb, htask, hclosed⟩
        · exact ⟨a, hold, hopen, b, hb, htask, hclosed⟩
      · exact .inr ⟨hnot, .inr hend⟩
    | full hfate hr =>
      have hcalm : Calm cfg o dags d run (task :: tasks) db rows ↔ Calm cfg o dags d run tasks db rows := by
        rw [Calm, hfate]
        generalize db.apply (.createDagRunBounded (childRun o.now run task) cfg.maxQueuedRunsGlobal) = p at hr
        obtain ⟨r, db'⟩ := p
        obtain rfl : r = .error .queueFull := hr
        rfl
      rw [hcalm]
      exact ih hnd'

/-! ### The end of a step -/

/-- The run is over. -/
def Over (id : String) (db : Db) : Prop := ∃ a, db.runState id = some a ∧ a.isTerminal = true

/-- A statement that records no state but terminal ones. -/
private def Closing (id : String) {β : Type} (w : Write β) : Prop :=
  ∀ target, w.recordsState id = some target → target.isTerminal = true

private theorem Over.apply {id : String} {β : Type} {w : Write β} (hw : Closing id w) (h : Over id db) : Over id (db.apply w).2 := by
  obtain ⟨a, ha, hterminal⟩ := h
  cases hrec : w.recordsState id with
  | none => exact ⟨a, Db.apply_runState hrec ha, hterminal⟩
  | some target =>
    obtain ⟨b, hb, -⟩ := Db.apply_runState_some w ha
    rcases Db.recorded_state hrec hb with rfl | hold
    · exact ⟨b, hb, hw b hrec⟩
    · exact ⟨a, by rw [hb, ← hold, ha], hterminal⟩

private def closingPrint (id : String) : Footprint where
  writes := Closing id
  marks _ := True

private theorem cancelPrint_le_closing (id : String) : cancelPrint.Le (closingPrint id) where
  writes _ h := by
    cases h with
    | run =>
      intro target hrec
      simp only [Write.recordsState] at hrec
      split at hrec
      · cases hrec
        rfl
      · cases hrec
    | task =>
      intro _ hrec
      cases hrec
  marks _ _ := trivial

private theorem timeoutTask_closing (id : String) (fin : Time) (ti : TaskInstance) :
    (closingPrint id).Bounds (timeoutTask cfg fin ti) := by
  have hcancel : ∀ ref, (closingPrint id).Bounds (cancelAttempt (cancelRunLocked cfg.bound) ref) :=
    cancelAttempt_bounds (fun child => (cancelRunLocked_bounds _ child).mono (cancelPrint_le_closing id))
  refine .ite (.pure _) (.ite (.bind (hcancel _) (fun _ => .attempt (.statement ?_))) (.attempt (.statement ?_)))
  · exact fun _ hrec => nomatch hrec
  · exact fun _ hrec => nomatch hrec

private theorem over_keeps {α : Type} {x : M α} {known : Known} {id : String} (hx : (closingPrint id).Bounds x) :
    Keeps (solo known k t) (fun s => Over id s.db) x :=
  solo_bounds (A := Over id) hx (fun _ _ hw h => h.apply hw)

/-- A terminal state that may follow on `running` is recorded. -/
private theorem records {known : Known} {β : Type} {w : Write β} {target : RunState} (hrec : w.recordsState run.runID = some target)
    (hterminal : target.isTerminal = true) (hlegal : RunState.running ∈ legalPriorRunStates target) {row : DagRun}
    (hrow : db.run? run.runID = some row) (hrunning : row.state = .running) :
    Triple (solo known k t) (Seen run.runID db dags rows) (statement w) (fun r s => r.isOk = true ∧ Over run.runID s.db) := by
  refine (solo_statement w).weaken ?_
  rintro r s' ⟨s, hs, rfl, rfl⟩
  have hrow' : s.db.run? run.runID = some row := by
    rw [Db.run?, hs.runs]
    exact hrow
  cases w with
  | updateDagRunState id target' started finished =>
    simp only [Write.recordsState, Option.ite_none_right_eq_some, Option.some.injEq] at hrec
    obtain ⟨rfl, rfl⟩ := hrec
    have hne : legalPriorRunStates target' ≠ [] := List.ne_nil_of_mem hlegal
    have happly : s.db.apply (.updateDagRunState run.runID target' started finished) =
        (.ok (), s.db.recordState run.runID target' started finished) := by
      simp only [Db.apply, if_neg hne, hrow', hrunning, if_pos hlegal]
      rfl
    rw [World.written, happly]
    exact ⟨rfl, target', by rw [Db.runState, Db.run?_recordState_self hrow', Option.map_some], hterminal⟩
  | updateDagRunSuccess id started finished =>
    simp only [Write.recordsState, Option.ite_none_right_eq_some, Option.some.injEq] at hrec
    obtain ⟨rfl, rfl⟩ := hrec
    rcases s.db.updateDagRunSuccess_cases run.runID started finished with ⟨hnone, -⟩ | ⟨r, hr, heq⟩
    · rw [hrow'] at hnone
      cases hnone
    · rw [World.written, heq]
      exact ⟨rfl, .success, by rw [Db.runState, Db.run?_armEvent, Db.run?_recordState_self hr, Option.map_some], rfl⟩
  | _ => cases hrec

private theorem timeoutRun_over {row : DagRun} (hrow : db.run? run.runID = some row) (hrunning : row.state = .running)
    (tis : List TaskInstance) :
    Triple (solo o.known k t) (Seen run.runID db dags rows) (timeoutRun cfg run tis) (fun _ s => Over run.runID s.db) := by
  refine .next (solo_asked _) (fun fin => ?_)
  have hrec : (Write.updateDagRunState run.runID .timedOut run.startedAt (some fin)).recordsState run.runID = some .timedOut :=
    if_pos rfl
  refine .bind (m := fun _ s => Over run.runID s.db) (.outcome ((records hrec rfl (by decide) hrow hrunning).weaken ?_)) ?_ ?_
  · exact fun r s hs => hs.2
  · intro result
    cases result with
    | error e => exact .pure (fun s hs => hs)
    | ok _ => exact over_keeps (.forM (fun ti _ => timeoutTask_closing run.runID fin ti))
  · exact fun e s hs => hs

private theorem finalState_legal {tis : List TaskInstance} {final : RunState} (h : finalState d tis = some final) :
    final.isTerminal = true ∧ RunState.running ∈ legalPriorRunStates final := by
  unfold finalState at h
  dsimp only at h
  split at h
  · split at h
    · cases h
      decide
    · split at h
      · cases h
        decide
      · cases h
        decide
  · cases h

/-- The end of a step does nothing exactly where it has nothing to do. -/
theorem finalizeRun_ends {row : DagRun} (hrow : db.run? run.runID = some row) (hrunning : row.state = .running) :
    Triple (solo o.known k t) (Seen run.runID db dags rows) (finalizeRun cfg d run)
      (fun _ s => (AtEnd o.now d run rows → Seen run.runID db dags rows s) ∧
        (¬ AtEnd o.now d run rows → Over run.runID s.db)) := by
  refine .next (m := fun tis s => tis = rows ∧ Seen run.runID db dags rows s) ((solo_list _).weaken ?_) (fun tis => .given ?_)
  · rintro (e | tis) s hs
    · exact hs
    · exact ⟨hs.1.trans hs.2.rows, hs.2⟩
  rintro rfl
  cases hfinal : finalState d tis with
  | none =>
    dsimp only
    unfold enforceDeadlines
    cases hstarted : run.startedAt with
    | none =>
      have hend : AtEnd o.now d run tis := by
        refine ⟨hfinal, ?_⟩
        rintro ⟨-, started, h, -⟩
        rw [hstarted] at h
        cases h
      exact .pure (fun s hs => ⟨fun _ => hs, fun hnot => absurd hend hnot⟩)
    | some started =>
      refine .next asks_now (fun now => .given ?_)
      rintro rfl
      refine .ite (fun hexpired => ?_) (fun hexpired => .pure ?_)
      · have hnot : ¬ AtEnd o.now d run tis := fun h => h.2 ⟨hexpired.1, started, hstarted, hexpired.2⟩
        exact (timeoutRun_over hrow hrunning tis).weaken (fun _ _ hs => ⟨fun hend => absurd hend hnot, fun _ => hs⟩)
      · have hend : AtEnd o.now d run tis := by
          refine ⟨hfinal, ?_⟩
          rintro ⟨hpos, started', h, hle⟩
          rw [hstarted] at h
          cases h
          exact hexpired ⟨hpos, hle⟩
        exact fun s hs => ⟨fun _ => hs, fun hnot => absurd hend hnot⟩
  | some final =>
    obtain ⟨hterminal, hlegal⟩ := finalState_legal hfinal
    have hnot : ¬ AtEnd o.now d run tis := by
      rintro ⟨hnone, -⟩
      rw [hnone] at hfinal
      cases hfinal
    have hover : ∀ {w : Write Unit}, w.recordsState run.runID = some final →
        Triple (solo o.known k t) (Seen run.runID db dags tis) (statement w)
          (fun _ s => (AtEnd o.now d run tis → Seen run.runID db dags tis s) ∧ (¬ AtEnd o.now d run tis → Over run.runID s.db)) := by
      intro w hrec
      refine (records hrec hterminal hlegal hrow hrunning).weaken ?_
      exact fun _ _ hs => ⟨fun hend => absurd hend hnot, fun _ => hs.2⟩
    refine .next (solo_asked _) (fun fin => .ite (fun hsuccess => ?_) (fun _ => ?_))
    · rw [hsuccess] at hover
      exact hover (if_pos rfl)
    · exact hover (if_pos rfl)

/-! ### A step -/

private theorem Collects.run? {task : Task} {ended : Bool} (h : Collects cfg o dags d run db rows task ended db' rows')
    {id : String} {row : DagRun} (hrow : db.run? id = some row) : db'.run? id = some row := by
  cases h with
  | starts _ _ _ hr =>
    simp only [Db.apply]
    rcases db.insertRun_cases (childRun o.now run task)
      (db.isActiveDag (childRun o.now run task).dagID && decide ((db.queuedCount : Int) < cfg.maxQueuedRunsGlobal)) with
      ⟨runs, hruns, heq⟩ | ⟨_, heq⟩
    · rw [heq, Db.run?_insert hruns, hrow, Option.some_or]
    · rw [heq]
      exact hrow
  | _ => exact hrow

private theorem Walks.run? {tasks : List Task} {ended : Bool} (h : Walks cfg o dags d run tasks db rows ended db' rows')
    {id : String} {row : DagRun} (hrow : db.run? id = some row) : db'.run? id = some row := by
  induction h with
  | done => exact hrow
  | ended hcollects => exact Collects.run? hcollects hrow
  | step hcollects _ ih => exact ih (Collects.run? hcollects hrow)

/-- The hold check and what comes after it. -/
def driveOn (cfg : Cfg) (d : DAG) (run : DagRun) (byTask : List TaskInstance) : M (List ReadyTask) := do
  if run.held then return []
  match ← collect cfg d run d.tasks byTask [] with
  | (ready, some _) => return ready
  | (ready, none) =>
    attempt (finalizeRun cfg d run)
    return ready

/-- How the step on a run that is not held ends. -/
def Ended (cfg : Cfg) (o : Outside) (dags : List DAG) (d : DAG) (run : DagRun) (db : Db) (rows : List TaskInstance)
    (s : World) : Prop :=
  ∃ ended db' rows', Walks cfg o dags d run d.tasks db rows ended db' rows' ∧
    ((ended = true ∨ AtEnd o.now d run rows') → Seen run.runID db' dags rows' s) ∧
    (¬ (ended = true ∨ AtEnd o.now d run rows') → Over run.runID s.db)

theorem driveOn_ends (hfree : run.held = false) {row : DagRun} (hrow : db.run? run.runID = some row)
    (hrunning : row.state = .running) (hrefs : NoRefs rows) :
    Triple (solo o.known k t) (Seen run.runID db dags rows) (driveOn cfg d run rows)
      (fun _ s => Ended cfg o dags d run db rows s) := by
  unfold driveOn
  rw [if_neg (by rw [hfree]; nofun)]
  refine .next (collect_walks d.tasks hrefs []) ?_
  rintro ⟨ready, err⟩ s ⟨db', rows', hwalks, hs⟩
  cases err with
  | some e => exact ⟨true, db', rows', hwalks, fun _ => hs, fun h => absurd (.inl rfl) h⟩
  | none =>
    have hfinalize : Triple (solo o.known k t) (Seen run.runID db' dags rows') (attempt (finalizeRun cfg d run))
        (Ends (fun _ s => Ended cfg o dags d run db rows s) (fun _ => False)) := by
      refine .next (m := fun _ s => Ended cfg o dags d run db rows s)
        (.outcome ((finalizeRun_ends (Walks.run? hwalks hrow) hrunning).weaken ?_)) (fun _ => .pure (fun _ hs => hs))
      intro r s' hs'
      refine ⟨false, db', rows', hwalks, ?_, fun h => hs'.2 (fun hend => h (.inr hend))⟩
      rintro (h | hend)
      · cases h
      · exact hs'.1 hend
    exact Triple.next hfinalize (fun _ => .pure (fun _ hs => hs)) s hs

theorem driveRun_eq (tis : List TaskInstance) : driveRun cfg d run tis = (do
    let run ← startRun run
    let byTask ← propagate blockTask d.tasks (d.tasks.length + 1) tis
    let now ← ask .now
    let byTask ← requeue now d.tasks byTask
    driveOn cfg d run byTask) := rfl

private theorem adopt_spec (cfg : Cfg) (run : DagRun) (d : DAG) : (adopt cfg run d).runID = run.runID ∧ (adopt cfg run d).state = run.state ∧
    (adopt cfg run d).held = run.held := by
  unfold adopt
  split <;> exact ⟨rfl, rfl, rfl⟩

/-- The world before a step on `run` collects. -/
def Ready (cfg : Cfg) (o : Outside) (w : World) (run : DagRun) (d : DAG) : World → Prop :=
  Seen run.runID (expanded cfg (adopted cfg w.db run d) (adopt cfg run d) d) w.dags
    (settled o.now d.tasks ((expanded cfg (adopted cfg w.db run d) (adopt cfg run d) d).listTaskInstances run.runID))

/-- A step on a running run up to its hold check. -/
theorem processRun_step {w : World} {row : DagRun} (hrow : w.db.run? run.runID = some row) (hrunning : run.state = .running)
    {P : Db → List DAG → Prop} (herror : ∀ e, resolve cfg w run = .error e → P w.db w.dags)
    (hempty : ∀ d, resolve cfg w run = .ok d →
      (expanded cfg (adopted cfg w.db run d) (adopt cfg run d) d).listTaskInstances run.runID = [] →
      P ((expanded cfg (adopted cfg w.db run d) (adopt cfg run d) d).apply
        (.updateDagRunState run.runID .failed (some ((adopt cfg run d).startedAt.getD o.now)) (some o.now))).2 w.dags)
    (htail : ∀ d, resolve cfg w run = .ok d →
      (expanded cfg (adopted cfg w.db run d) (adopt cfg run d) d).listTaskInstances run.runID ≠ [] →
      Triple (solo o.known k t) (Ready cfg o w run d) (driveOn cfg d (adopt cfg run d)
        (settled o.now d.tasks ((expanded cfg (adopted cfg w.db run d) (adopt cfg run d) d).listTaskInstances run.runID)))
        (fun _ s => P s.db s.dags)) :
    Triple (solo o.known k t) (fun s => s.db = w.db ∧ s.dags = w.dags) (processRun cfg run) (fun _ s => P s.db s.dags) := by
  refine solo_locked (A := fun db dags => db = w.db ∧ dags = w.dags) (B := fun _ db dags => P db dags)
    (solo_marked (A := fun db dags => db = w.db ∧ dags = w.dags) (B := fun _ db dags => P db dags) ?_)
  refine .bind (dagForRun_resolves hrow) ?_ ?_
  · rintro ⟨d, new⟩ s ⟨hdags, hres⟩
    cases hd : resolve cfg w run with
    | error e =>
      rw [hd] at hres
      cases hres.1
    | ok d' =>
      rw [hd] at hres
      obtain ⟨heq, hdb⟩ := hres
      cases heq
      obtain ⟨hid, hstate, -⟩ := adopt_spec cfg run d
      refine Triple.next reconcile_expands (fun tis => .given ?_) s ⟨hdb, hdags⟩
      rintro rfl
      rw [hid]
      refine .ite (fun hnil => ?_) (fun hne => ?_)
      · refine .bind (m := fun _ s => P s.db s.dags) (.next asks_now (fun now => .given ?_))
          (fun _ => .pure (fun _ hs => hs)) (fun _ _ hs => hs)
        rintro rfl
        refine (solo_statement _).weaken ?_
        rintro r s' ⟨s, ⟨hdb, hdags⟩, rfl, rfl⟩
        simp only [World.written, hdb, hdags, hid]
        exact hempty d hd hnil
      · rw [driveRun_eq, startRun, if_neg (by rw [hstate, hrunning]; decide), pure_bind]
        have hsteps : Triple (solo o.known k t) (Seen run.runID (expanded cfg (adopted cfg w.db run d) (adopt cfg run d) d) w.dags
            ((expanded cfg (adopted cfg w.db run d) (adopt cfg run d) d).listTaskInstances run.runID)) (do
              let byTask ← propagate blockTask d.tasks (d.tasks.length + 1)
                ((expanded cfg (adopted cfg w.db run d) (adopt cfg run d) d).listTaskInstances run.runID)
              let now ← ask .now
              let byTask ← requeue now d.tasks byTask
              driveOn cfg d (adopt cfg run d) byTask) (fun _ s => P s.db s.dags) := by
          refine .next (propagate_blocks d.tasks (d.tasks.length + 1) _) (fun byTask => .given ?_)
          rintro rfl
          refine .next asks_now (fun now => .given ?_)
          rintro rfl
          refine .next (requeue_requeues d.tasks _) (fun byTask => .given ?_)
          rintro rfl
          exact htail d hd hne
        exact hsteps.strengthen (fun s hs => ⟨by rw [hs.1], by rw [hs.1], hs.2, by rw [hs.1]⟩)
  · rintro e s ⟨hdags, hres⟩
    cases hd : resolve cfg w run with
    | error e' =>
      rw [hd] at hres
      rw [hres.2, hdags]
      exact herror e' hd
    | ok d =>
      rw [hd] at hres
      cases hres.1

/-- What a step on a running run leaves in the database, where `Q` says what comes
of the hold check and the rest. -/
structure Outcome (cfg : Cfg) (o : Outside) (w : World) (run : DagRun) (Q : DAG → Db → Prop) (db : Db) : Prop where
  unresolved : ∀ e, resolve cfg w run = .error e → db = w.db
  empty : ∀ d, resolve cfg w run = .ok d →
    (expanded cfg (adopted cfg w.db run d) (adopt cfg run d) d).listTaskInstances run.runID = [] →
    db = ((expanded cfg (adopted cfg w.db run d) (adopt cfg run d) d).apply
      (.updateDagRunState run.runID .failed (some ((adopt cfg run d).startedAt.getD o.now)) (some o.now))).2
  driven : ∀ d, resolve cfg w run = .ok d →
    (expanded cfg (adopted cfg w.db run d) (adopt cfg run d) d).listTaskInstances run.runID ≠ [] → Q d db

theorem processRun_outcome (w : World) (run : DagRun) {row : DagRun} (hrow : w.db.run? run.runID = some row) (hrunning : run.state = .running)
    {Q : DAG → Db → Prop} (htail : ∀ d, resolve cfg w run = .ok d →
      (expanded cfg (adopted cfg w.db run d) (adopt cfg run d) d).listTaskInstances run.runID ≠ [] →
      Triple (solo o.known k t) (Ready cfg o w run d) (driveOn cfg d (adopt cfg run d)
        (settled o.now d.tasks ((expanded cfg (adopted cfg w.db run d) (adopt cfg run d) d).listTaskInstances run.runID)))
        (fun _ s => Q d s.db)) :
    Triple (solo o.known k t) (fun s => s.db = w.db ∧ s.dags = w.dags) (processRun cfg run)
      (fun _ s => Outcome cfg o w run Q s.db) := by
  refine processRun_step (P := fun db _ => Outcome cfg o w run Q db) hrow hrunning ?_ ?_ ?_
  · intro e he
    have hnone : ∀ d, resolve cfg w run ≠ .ok d := fun d hd => by rw [he] at hd; cases hd
    exact ⟨fun _ _ => rfl, fun d hd => absurd hd (hnone d), fun d hd => absurd hd (hnone d)⟩
  · intro d hd hnil
    refine ⟨fun e he => (by rw [hd] at he; cases he), ?_, ?_⟩
    · intro d' hd'
      rw [hd] at hd'
      cases hd'
      exact fun _ => rfl
    · intro d' hd'
      rw [hd] at hd'
      cases hd'
      exact fun hne => absurd hnil hne
  · intro d hd hne
    refine (htail d hd hne).weaken ?_
    intro _ s hs
    refine ⟨fun e he => (by rw [hd] at he; cases he), ?_, ?_⟩
    · intro d' hd'
      rw [hd] at hd'
      cases hd'
      exact fun hnil => absurd hnil hne
    · intro d' hd'
      rw [hd] at hd'
      cases hd'
      exact fun _ => hs

/-! ### Held and not held -/

private theorem expanded_runs : (expanded cfg db run d).runs = db.runs := by
  have hfold : ∀ (current : List TaskInstance) (tasks : List Task) (db : Db), (tasks.foldl (fun new t =>
      if (findTI current t.id).isSome then new
      else (new.apply (.createTaskInstance (newInstance cfg run d t))).2) db).runs = db.runs := by
    intro current tasks
    induction tasks with
    | nil => exact fun _ => rfl
    | cons task tasks ih =>
      intro db
      rw [List.foldl_cons, ih]
      split
      · rfl
      · simp only [Db.apply]
        split <;> rfl
  unfold expanded
  split
  · exact hfold _ _ db
  · rfl

/-- Expansion only reads the stored instances. -/
private theorem expanded_tasks {db₁ db₂ : Db} {run₁ run₂ : DagRun} (htasks : db₁.tasks = db₂.tasks)
    (hid : run₁.runID = run₂.runID) (hhash : run₁.definitionHash = run₂.definitionHash) :
    (expanded cfg db₁ run₁ d).tasks = (expanded cfg db₂ run₂ d).tasks := by
  have hlist : db₁.listTaskInstances run₁.runID = db₂.listTaskInstances run₂.runID := by
    simp only [Db.listTaskInstances, htasks, hid]
  have hnew : ∀ t : Task, newInstance cfg run₁ d t = newInstance cfg run₂ d t := by
    intro t
    simp only [newInstance, hid, hhash]
  have hcreate : ∀ {a b : Db} (ti : TaskInstance), a.tasks = b.tasks →
      (a.apply (.createTaskInstance ti)).2.tasks = (b.apply (.createTaskInstance ti)).2.tasks := by
    intro a b ti hab
    have hnext : a.nextTaskID = b.nextTaskID := by simp only [Db.nextTaskID, hab]
    simp only [Db.apply, hab, hnext]
    split
    · rfl
    · exact hab
  have hfold : ∀ (current : List TaskInstance) (tasks : List Task) (a b : Db), a.tasks = b.tasks →
      (tasks.foldl (fun new t => if (findTI current t.id).isSome then new
        else (new.apply (.createTaskInstance (newInstance cfg run₁ d t))).2) a).tasks =
      (tasks.foldl (fun new t => if (findTI current t.id).isSome then new
        else (new.apply (.createTaskInstance (newInstance cfg run₂ d t))).2) b).tasks := by
    intro current tasks
    induction tasks with
    | nil => exact fun _ _ hab => hab
    | cons task tasks ih =>
      intro a b hab
      rw [List.foldl_cons, List.foldl_cons, hnew]
      split
      · exact ih a b hab
      · exact ih _ _ (hcreate _ hab)
  unfold expanded
  rw [hlist]
  split
  · exact hfold _ _ _ _ htasks
  · exact htasks

private theorem adopted_tasks : (adopted cfg db run d).tasks = db.tasks := by
  unfold adopted
  split
  · rfl
  · exact Db.apply_tasks rfl

/-- The run keeps the definition it is processed with. -/
private theorem stored_adopted (hrow : db.run? run.runID = some run) :
    (expanded cfg (adopted cfg db run d) (adopt cfg run d) d).run? run.runID = some (adopt cfg run d) := by
  rw [Db.run?, expanded_runs]
  unfold adopted adopt
  split
  · exact hrow
  · simp only [Db.apply, hrow]
    exact Db.run?_modifyRun_self hrow

private theorem adopt_onHold : adopt cfg (onHold run) d = onHold (adopt cfg run d) := by
  by_cases hyaml : run.definitionYAML = ""
  · rw [adopt, adopt, if_neg (not_not.mpr hyaml), if_neg (not_not.mpr (show (onHold run).definitionYAML = "" from hyaml))]
    rfl
  · rw [adopt, adopt, if_pos hyaml, if_pos (show (onHold run).definitionYAML ≠ "" from hyaml)]

/-- Both calls find the same instances. -/
private theorem expanded_held (w : World) :
    (expanded cfg (adopted cfg (hold w run.runID).db (onHold run) d) (adopt cfg (onHold run) d)
      d).listTaskInstances run.runID =
      (expanded cfg (adopted cfg w.db run d) (adopt cfg run d) d).listTaskInstances run.runID := by
  have htasks := @expanded_tasks cfg d _ _ _ _
    (show (adopted cfg (hold w run.runID).db (onHold run) d).tasks = (adopted cfg w.db run d).tasks by
      rw [adopted_tasks, adopted_tasks]; rfl)
    (show (adopt cfg (onHold run) d).runID = (adopt cfg run d).runID by rw [adopt_onHold]; rfl)
    (show (adopt cfg (onHold run) d).definitionHash = (adopt cfg run d).definitionHash by rw [adopt_onHold]; rfl)
  simp only [Db.listTaskInstances, htasks]

/-- The instances a step on the run collects from, and the database they are in. -/
private abbrev found (cfg : Cfg) (w : World) (run : DagRun) (d : DAG) : Db :=
  expanded cfg (adopted cfg w.db run d) (adopt cfg run d) d

private abbrev collected (cfg : Cfg) (o : Outside) (w : World) (run : DagRun) (d : DAG) : List TaskInstance :=
  settled o.now d.tasks ((found cfg w run d).listTaskInstances run.runID)

/-- Two steps from the same state, on the held run and on the run that is not held. -/
structure Calls (cfg : Cfg) (answers : Answers) (w : World) (run : DagRun) (held free : World) : Prop where
  held : ∃ r, (hold w run.runID).perform .loop 0 answers 0 (processRun cfg (onHold run)).run = some (r, held)
  free : ∃ r, w.perform .loop 0 answers 0 (processRun cfg run).run = some (r, free)

private theorem held_outcome {w : World} (hrow : w.db.run? run.runID = some run) (hrunning : run.state = .running) :
    Triple (solo o.known k t) (fun s => s.db = (hold w run.runID).db ∧ s.dags = w.dags) (processRun cfg (onHold run))
      (fun _ s => Outcome cfg o (hold w run.runID) (onHold run)
        (fun d db => db.listTaskInstances run.runID = collected cfg o w run d ∧
          db.run? run.runID = some (onHold (adopt cfg run d))) s.db) := by
  have hheld : (hold w run.runID).db.run? run.runID = some (onHold run) := Db.run?_modifyRun_self hrow
  refine processRun_outcome (hold w run.runID) (onHold run) hheld hrunning ?_
  intro d hd hne
  unfold driveOn
  rw [adopt_onHold, if_pos (show (onHold (adopt cfg run d)).held = true from rfl)]
  refine .pure (fun s hs => ⟨?_, ?_⟩)
  · exact hs.rows.trans (congrArg (settled o.now d.tasks) (expanded_held w))
  · rw [Db.run?, hs.runs]
    exact (stored_adopted hheld).trans (by rw [adopt_onHold])

private theorem free_outcome {w : World} (hrow : w.db.run? run.runID = some run) (hrunning : run.state = .running)
    (hfree : run.held = false) (hrefs : ∀ d, resolve cfg w run = .ok d →
      (found cfg w run d).listTaskInstances run.runID ≠ [] → NoRefs (collected cfg o w run d)) :
    Triple (solo o.known k t) (fun s => s.db = w.db ∧ s.dags = w.dags) (processRun cfg run)
      (fun _ s => Outcome cfg o w run (fun d db => ((collected cfg o w run d).map (·.taskID)).Nodup ∧
        ∃ ended db' rows', Walks cfg o w.dags d (adopt cfg run d) d.tasks (found cfg w run d) (collected cfg o w run d) ended db' rows' ∧
          ((ended = true ∨ AtEnd o.now d (adopt cfg run d) rows') →
            db.listTaskInstances run.runID = rows' ∧ db.run? run.runID = some (adopt cfg run d)) ∧
          (¬ (ended = true ∨ AtEnd o.now d (adopt cfg run d) rows') → Over run.runID db)) s.db) := by
  refine processRun_outcome w run hrow hrunning ?_
  intro d hd hne
  obtain ⟨hid, hstate, hheld⟩ := adopt_spec cfg run d
  have hstored : (found cfg w run d).run? run.runID = some (adopt cfg run d) := stored_adopted hrow
  have hends : Triple (solo o.known k t)
      (Seen (adopt cfg run d).runID (found cfg w run d) w.dags (collected cfg o w run d))
      (driveOn cfg d (adopt cfg run d) (collected cfg o w run d))
      (fun _ s => Ended cfg o w.dags d (adopt cfg run d) (found cfg w run d) (collected cfg o w run d) s) :=
    driveOn_ends (hheld.trans hfree) (by rw [hid]; exact hstored) (hstate.trans hrunning) (hrefs d hd hne)
  rw [hid] at hends
  intro s hs
  refine (hends s hs).mono ?_
  rintro r s' ⟨ended, db', rows', hwalks, hquiet, hover⟩
  refine ⟨hs.nodup, ended, db', rows', hwalks, ?_, ?_⟩
  · intro h
    have hseen := hquiet h
    rw [hid] at hseen
    refine ⟨hseen.rows, ?_⟩
    rw [Db.run?, hseen.runs]
    exact Walks.run? hwalks hstored
  · intro h
    rw [← hid]
    exact hover h

/-- Without refs on scheduled tasks, the two steps have the same effect exactly
where the collection is calm. -/
theorem same_iff_calm {answers : Answers} (hanswers : Faultless answers)
    (hknown : ∀ (n : Nat) {β : Type} (c : Cmd β), o.known c (answers n c)) {w held free : World}
    (hrow : w.db.run? run.runID = some run) (hrunning : run.state = .running) (hfree : run.held = false)
    (hcalls : Calls cfg answers w run held free) (hrefs : ∀ d, resolve cfg w run = .ok d →
      (found cfg w run d).listTaskInstances run.runID ≠ [] → NoRefs (collected cfg o w run d)) :
    SameEffect o.now run.runID held free ↔ ∀ d, resolve cfg w run = .ok d →
      (found cfg w run d).listTaskInstances run.runID ≠ [] →
      Calm cfg o w.dags d (adopt cfg run d) d.tasks (found cfg w run d) (collected cfg o w run d) := by
  obtain ⟨⟨_, hp⟩, ⟨_, hp'⟩⟩ := hcalls
  have hh := perform_triple hanswers hknown (held_outcome hrow hrunning) ⟨rfl, rfl⟩ hp
  have hf := perform_triple hanswers hknown (free_outcome hrow hrunning hfree hrefs) ⟨rfl, rfl⟩ hp'
  have hheld : (hold w run.runID).db.run? run.runID = some (onHold run) := Db.run?_modifyRun_self hrow
  cases hd : resolve cfg w run with
  | error e =>
    refine ⟨fun _ d hd' => (nomatch hd'), fun _ => ⟨?_, ?_⟩⟩
    · rw [hh.unresolved e hd, hf.unresolved e hd, hheld, hrow]
      rfl
    · rw [hh.unresolved e hd, hf.unresolved e hd]
      exact near_refl _
  | ok d =>
    by_cases hnil : (found cfg w run d).listTaskInstances run.runID = []
    · refine ⟨fun _ d' hd' hne => ?_, fun _ => ?_⟩
      · cases hd'
        exact absurd hnil hne
      · have hstate : (adopt cfg run d).state = .running := (adopt_spec cfg run d).2.1.trans hrunning
        have hfailed : ∀ {db : Db} {row : DagRun} (started fin : Option Time), db.run? run.runID = some row → row.state = .running →
            (db.apply (.updateDagRunState run.runID .failed started fin)).2 = db.recordState run.runID .failed started fin := by
          intro db row started fin hrow hstate
          simp only [Db.apply, hrow, hstate]
          rfl
        have hstored : (found cfg w run d).run? run.runID = some (adopt cfg run d) := stored_adopted hrow
        have hstored' := @stored_adopted cfg d (onHold run) _ hheld
        rw [adopt_onHold, show (onHold run).runID = run.runID from rfl] at hstored'
        have heq := hf.empty d hd hnil
        have heq' := hh.empty d hd ((expanded_held w).trans hnil)
        rw [hfailed _ _ hstored hstate] at heq
        rw [adopt_onHold, show (onHold run).runID = run.runID from rfl] at heq'
        rw [hfailed _ _ hstored' hstate] at heq'
        refine ⟨?_, ?_⟩
        · rw [heq, heq', Db.run?_recordState_self hstored, Db.run?_recordState_self hstored']
          rfl
        · have hnil' := @expanded_held cfg d run w
          rw [adopt_onHold] at hnil'
          rw [heq, heq', Db.listTaskInstances, Db.recordState_tasks, ← Db.listTaskInstances, hnil', hnil,
            Db.listTaskInstances, Db.recordState_tasks, ← Db.listTaskInstances, hnil]
          exact .nil
    · obtain ⟨hrows, hrun⟩ := hh.driven d hd (fun h => hnil ((expanded_held w).symm.trans h))
      obtain ⟨hnd, ended, db', rows', hwalks, hquiet, hover⟩ := hf.driven d hd hnil
      constructor
      · rintro hsame d' hd' -
        cases hd'
        rcases walks_calm hwalks hnd with ⟨hcalm, -⟩ | ⟨-, hbad⟩
        · exact hcalm
        · exfalso
          by_cases hend : ended = true ∨ AtEnd o.now d (adopt cfg run d) rows'
          · have hnear := hsame.rows
            rw [hrows, (hquiet hend).1] at hnear
            exact near_moved hnd hnear (hbad.resolve_right (fun h => h hend))
          · obtain ⟨a, ha, hterminal⟩ := hover hend
            obtain ⟨r, hr, rfl⟩ := Option.map_eq_some_iff.mp ha
            have heq := hsame.run
            rw [hrun, hr, Option.map_some, Option.some.injEq] at heq
            have hstate : r.state = .running := by
              rw [← show (adopt cfg run d).state = .running from (adopt_spec cfg run d).2.1.trans hrunning]
              exact (congrArg DagRun.state heq).symm
            rw [hstate] at hterminal
            cases hterminal
      · intro hcalm
        rcases walks_calm hwalks hnd with ⟨-, hnear, hend⟩ | ⟨hnot, -⟩
        · obtain ⟨hrows', hrun'⟩ := hquiet hend
          refine ⟨?_, ?_⟩
          · rw [hrun, hrun', Option.map_some]
          · rw [hrows, hrows']
            exact hnear
        · exact absurd (hcalm d rfl hnil) hnot

/-- One task in a pass of `propagate`. -/
private def passOver (now : Time) (p : List TaskInstance × Bool) (t : Task) : ULift.{1} (List TaskInstance × Bool) :=
  match findTI p.1 t.id with
  | none => pure p
  | some ti =>
    if ti.state = TaskState.scheduled ∧ (taskGate t p.1).2 = true then do
      let ti ← blockAt now ti
      pure (setTI p.1 ti, true)
    else pure p

private theorem blocked_noRefs {now : Time} (tasks : List Task) (hrefs : NoRefs rows) : NoRefs (blocked now tasks rows) := by
  have hpass : ∀ (l : List Task) (rows : List TaskInstance) (changed : Bool), NoRefs rows →
      NoRefs ((l.foldlM (passOver now) (rows, changed)).down.1) := by
    intro l
    induction l with
    | nil => exact fun _ _ h => h
    | cons task l ih =>
      intro rows changed hrefs
      rw [List.foldlM_cons]
      unfold passOver
      dsimp only
      split
      · exact ih rows changed hrefs
      · rename_i ti hti
        split
        · refine ih _ true ?_
          intro row hrow hsched
          rcases mem_setTI hrow with rfl | hold
          · cases hsched
          · exact hrefs row hold hsched
        · exact ih rows changed hrefs
  have hloop : ∀ (passes : Nat) (rows : List TaskInstance), NoRefs rows →
      NoRefs (propagate (blockAt now) tasks passes rows).down := by
    intro passes
    induction passes with
    | zero => exact fun _ h => h
    | succ passes ih =>
      intro rows hrefs
      have hnext : NoRefs (propagatePass (blockAt now) tasks rows).down.1 := hpass tasks rows false hrefs
      have hstep : (propagate (blockAt now) tasks (passes + 1) rows).down =
          (if (propagatePass (blockAt now) tasks rows).down.2 = true then
            propagate (blockAt now) tasks passes (propagatePass (blockAt now) tasks rows).down.1
          else pure (propagatePass (blockAt now) tasks rows).down.1).down := rfl
      rw [hstep]
      generalize (propagatePass (blockAt now) tasks rows).down = p at hnext
      obtain ⟨byTask, changed⟩ := p
      dsimp only at hnext ⊢
      split
      · exact ih byTask hnext
      · exact hnext
  exact hloop _ rows hrefs

private theorem settled_noRefs {now : Time} (tasks : List Task) (hrefs : NoRefs rows) : NoRefs (settled now tasks rows) := by
  have hfold : ∀ (l : List Task) (rows : List TaskInstance), NoRefs rows → NoRefs (requeued now l rows) := by
    intro l
    induction l with
    | nil => exact fun _ h => h
    | cons task l ih =>
      intro rows hrefs
      rw [requeued, List.foldl_cons]
      refine ih _ ?_
      split
      · exact hrefs
      · split
        · intro row hrow hsched
          rcases mem_setTI hrow with rfl | hold
          · rfl
          · exact hrefs row hold hsched
        · exact hrefs
  exact hfold tasks _ (blocked_noRefs tasks hrefs)

private theorem found_cleared {w : World} (hclear : Cleared w.db) : Cleared (found cfg w run d) := by
  have hadopted : Cleared (adopted cfg w.db run d) := by
    unfold Cleared
    rw [adopted_tasks]
    exact hclear
  have hfold : ∀ (current : List TaskInstance) (tasks : List Task) (db : Db), Cleared db → Cleared (tasks.foldl (fun new t =>
      if (findTI current t.id).isSome then new
      else (new.apply (.createTaskInstance (newInstance cfg (adopt cfg run d) d t))).2) db) := by
    intro current tasks
    induction tasks with
    | nil => exact fun _ h => h
    | cons task tasks ih =>
      intro db hdb
      rw [List.foldl_cons]
      refine ih _ ?_
      split
      · exact hdb
      · exact @Cleared.apply (fun _ => True) _ _ _ (fun _ => rfl) hdb
  unfold found expanded
  split
  · exact hfold _ _ _ hadopted
  · exact hadopted

/-- A step on a held run has the effect of the step on the run that is not held if
the rest of the step after the hold check has nothing to do but to start children;
where scheduled tasks carry no refs, only then. -/
theorem hold_stops_only_dispatch (cfg : Cfg) (o : Outside) (answers : Answers) (hanswers : Faultless answers)
    (hknown : ∀ (n : Nat) {β : Type} (c : Cmd β), o.known c (answers n c)) (w held free : World) (run : DagRun)
    (hrow : w.db.run? run.runID = some run) (hrunning : run.state = .running) (hfree : run.held = false)
    (hcalls : Calls cfg answers w run held free) :
    (Quiet cfg o w run → SameEffect o.now run.runID held free) ∧
      (Cleared w.db → SameEffect o.now run.runID held free → Quiet cfg o w run) := by
  refine ⟨?_, ?_⟩
  · intro hquiet
    have hrefs : ∀ d, resolve cfg w run = .ok d → (found cfg w run d).listTaskInstances run.runID ≠ [] →
        NoRefs (collected cfg o w run d) := fun d hd hne => (hquiet d hd hne).1
    exact (same_iff_calm hanswers hknown hrow hrunning hfree hcalls hrefs).mpr (fun d hd hne => (hquiet d hd hne).2)
  · intro hclear hsame
    have hrefs : ∀ d, resolve cfg w run = .ok d → (found cfg w run d).listTaskInstances run.runID ≠ [] →
        NoRefs (collected cfg o w run d) := by
      intro d _ _
      refine settled_noRefs _ ?_
      intro ti hti
      exact found_cleared hclear ti (Db.mem_listTaskInstances.mp hti).1
    have hcalm := (same_iff_calm hanswers hknown hrow hrunning hfree hcalls hrefs).mp hsame
    exact fun d hd hne => ⟨hrefs d hd hne, hcalm d hd hne⟩

/-! ### A held run whose only task is done -/

def pausedYAML : String := "dag_id: job\ntasks:\n- id: a\n  command: x\n"

def pausedDag : DAG := { dagID := "job", definitionYAML := pausedYAML, tasks := [{ id := "a", command := "x" }] }

def pausedCfg : Cfg := .ofDocuments [(pausedYAML, { dagID := "job", tasks := [{ id := "a", command := "x" }] })]

def pausedRun : DagRun :=
  { runID := "job__1", dagID := "job", logicalDate := 1, state := .running, triggerType := .manual, startedAt := some 0
    definitionYAML := pausedYAML, definitionHash := pausedYAML }

def pausedRow (state : TaskState) : TaskInstance :=
  { id := 1, runID := "job__1", taskID := "a", state := state, tryNumber := 1, executorRef := "job__1/a/1" }

def pausedWorld (state : TaskState) : World :=
  { db := { runs := ⟨[pausedRun], List.pairwise_singleton _ _⟩, tasks := ⟨[pausedRow state], List.pairwise_singleton _ _⟩ } }

/-- The clock stands at 0 and every condition holds. -/
def still : Outside := ⟨0, fun _ _ _ => "true"⟩

theorem fine_known (n : Nat) {β : Type} (c : Cmd β) : still.known c (fine n c) := by
  cases c with
  | ask q =>
    cases q with
    | now => rfl
    | renderWhen => rfl
    | _ => trivial
  | _ => trivial

theorem pausedWorld_calls (state : TaskState)
    (hheld : ((hold (pausedWorld state) "job__1").perform .loop 0 fine 0 (processRun pausedCfg (onHold pausedRun)).run).isSome)
    (hfree : ((pausedWorld state).perform .loop 0 fine 0 (processRun pausedCfg pausedRun).run).isSome) :
    ∃ held free, Calls pausedCfg fine (pausedWorld state) pausedRun held free := by
  obtain ⟨⟨r, held⟩, hp⟩ := Option.isSome_iff_exists.mp hheld
  obtain ⟨⟨r', free⟩, hp'⟩ := Option.isSome_iff_exists.mp hfree
  exact ⟨held, free, ⟨r, hp⟩, ⟨r', hp'⟩⟩

theorem pausedDag_resolves (state : TaskState) {d : DAG} (h : resolve pausedCfg (pausedWorld state) pausedRun = .ok d) :
    d = pausedDag := by
  have hparse : resolve pausedCfg (pausedWorld state) pausedRun = .ok pausedDag := by
    rw [resolve, if_pos (by decide)]
    decide +kernel
  rw [hparse] at h
  cases h
  rfl

/-- The only task of the held run has succeeded, and the run stays running. -/
theorem done_run_stays_held :
    ¬ ∀ (cfg : Cfg) (o : Outside) (answers : Answers), Faultless answers →
      (∀ (n : Nat) {β : Type} (c : Cmd β), o.known c (answers n c)) → ∀ (w held free : World) (run : DagRun),
      w.db.run? run.runID = some run → run.state = .running → run.held = false → Calls cfg answers w run held free →
      SameEffect o.now run.runID held free := by
  intro h
  have hheld : ((hold (pausedWorld .success) "job__1").perform .loop 0 fine 0 (processRun pausedCfg (onHold pausedRun)).run).map
      (fun p => p.2.db.runState "job__1") = some (some .running) := by
    decide +kernel
  have hfree : ((pausedWorld .success).perform .loop 0 fine 0 (processRun pausedCfg pausedRun).run).map
      (fun p => p.2.db.runState "job__1") = some (some .success) := by
    decide +kernel
  obtain ⟨⟨r, held⟩, hp, hstate⟩ := Option.map_eq_some_iff.mp hheld
  obtain ⟨⟨r', free⟩, hp', hstate'⟩ := Option.map_eq_some_iff.mp hfree
  have hsame := (h pausedCfg still fine faultless_fine fine_known (pausedWorld .success) held free pausedRun (by decide) rfl rfl
    ⟨⟨r, hp⟩, ⟨r', hp'⟩⟩).run
  have heq : held.db.runState "job__1" = free.db.runState "job__1" := by
    rw [Db.runState, show held.db.run? "job__1" = _ from hsame, Option.map_map]
    rfl
  rw [hstate, hstate'] at heq
  cases heq

/-- The only task of the held run is in the hands of the executor. -/
theorem hold_stops_only_dispatch_queued :
    ∃ held free, Calls pausedCfg fine (pausedWorld .queued) pausedRun held free ∧ SameEffect 0 "job__1" held free := by
  obtain ⟨held, free, hcalls⟩ := pausedWorld_calls .queued (by decide +kernel) (by decide +kernel)
  have hquiet : Quiet pausedCfg still (pausedWorld .queued) pausedRun := by
    intro d hd
    obtain rfl := pausedDag_resolves .queued hd
    intro db rows _
    have hrows : rows = [pausedRow .queued] := by decide +kernel
    have hfate : fate pausedCfg still [] pausedDag (adopt pausedCfg pausedRun pausedDag) db rows { id := "a", command := "x" } =
        .rests := by
      decide +kernel
    have hfinal : finalState pausedDag rows = none := by decide +kernel
    refine ⟨?_, ?_⟩
    · rw [hrows]
      intro ti hti hsched
      obtain rfl := List.mem_singleton.mp hti
      cases hsched
    · show Calm pausedCfg still [] pausedDag _ [{ id := "a", command := "x" }] db rows
      rw [Calm, hfate]
      refine ⟨hfinal, ?_⟩
      rintro ⟨hpos, -⟩
      cases hpos
  exact ⟨held, free, hcalls, (hold_stops_only_dispatch pausedCfg still fine faultless_fine fine_known (pausedWorld .queued) held free
    pausedRun (by decide) rfl rfl hcalls).1 hquiet⟩

end Cronova.Properties.Hold
