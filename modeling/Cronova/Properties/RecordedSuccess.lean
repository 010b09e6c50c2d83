import Cronova.Properties.SuccessSteps

/-! A recorded success is sound in every run whose steps work on the definition that
is stored, and unsound after a step that does not. -/
namespace Cronova.Properties.Success
open Cronova.Model hiding Pool
open Cronova.Store Cronova.Concurrency Cronova.Concurrency.Fallible Cronova.Scheduler

/-! ### Outside the mutex -/

/-- The statements that need no mutex. -/
def Outside (r : String) : {β : Type} → Write β → Prop
  | _, .updateDagRunState id target _ _ => id = r → target ≠ .success
  | _, .publishEvent source _ _ => source ≠ .dependency
  | _, .updateDagRunSuccess _ _ _ | _, .updateDagRunDefinition _ _ _ | _, .createTaskInstance _ | _, .updateTaskInstance _ => False
  | _, _ => True

def outsidePrint (r : String) : Footprint where
  writes := Outside r
  jobs _ := True

section Threads
variable {cfg : Cfg} {r : String} {k : Kind} {t : Nat} {s s' : World}

theorem Fine.stable (hrely : Rely cfg r t s s') (h : Fine cfg r s) : Fine cfg r s' := hrely.fine h

/-- A statement without the mutex. -/
private theorem Fine.write (h : Fine cfg r s) {β : Type} {w : Write β} (hp : Permitted t s w) (hown : Own cfg r t s (.write w)) :
    Fine cfg r (s.written k t w) := by
  refine ⟨?_, h.detached.apply (detaching hp hown)⟩
  intro hnone
  have hfree : s.holder = none := hnone
  have hnot : s.holder ≠ some t := by
    rw [hfree]
    nofun
  exact (h.sound hfree).apply (gentle_outside hnot hp hown)

private theorem Fine.frame (h : Fine cfg r s) (hdb : s'.db = s.db) (hholder : s'.holder = s.holder) : Fine cfg r s' := by
  refine ⟨?_, hdb ▸ h.detached⟩
  rw [hholder, hdb]
  exact h.sound

theorem Fine.keeps {α : Type} {x : M α} (hx : (outsidePrint r).Bounds x) : Keeps (rules cfg r k t) (Fine cfg r) x := by
  refine keeps_of_writes hx (fun _ _ hrely h => h.stable hrely) (fun _ _ hdb hholder h => h.frame hdb hholder) ?_
  intro β w hw s hs hp
  have hown : Own cfg r t s (.write w) := by
    cases w with
    | updateDagRunState id target started finished => exact hw
    | publishEvent source key payload => exact hw
    | updateDagRunSuccess => exact hw.elim
    | createTaskInstance ti => exact hw.elim
    | updateTaskInstance ti => exact hw.elim
    | _ => trivial
  exact ⟨hown, hs.write hp hown⟩

/-- The mutex is taken and given back with every recorded success sound. -/
theorem locked_keeps {α : Type} {body : M α} (hbody : Keeps (rules cfg r k t) (Base cfg r t []) body) :
    Keeps (rules cfg r k t) (Fine cfg r) (locked body) := by
  refine .around (fun _ _ hrely h => h.stable hrely) ?_ hbody (fun _ _ _ hrely h => h.stable hrely) ?_
  · intro s s' hs hsem
    have hspec := sem_spec hsem
    obtain ⟨rfl, hfree⟩ := hspec.effect
    exact ⟨hspec.guar trivial, rfl, hs.sound hfree, hs.detached, fun _ h => by simp at h⟩
  · intro x s s' hs hsem
    have hspec := sem_spec hsem
    obtain rfl := hspec.effect
    exact ⟨hspec.guar hs.sound, fun _ => hs.sound, hs.detached⟩

/-! ### The discard of a queued run -/

/-- The run was cancelled, and the instances are rows of it. -/
private structure Dropped (cfg : Cfg) (r : String) (runID : String) (tis : List TaskInstance) (s : World) : Prop extends Fine cfg r s where
  opened : runID = r → Open r s.db
  stored : ∀ ti ∈ tis, ∃ row, s.db.task? ti.id = some row ∧ row.runID = runID

variable {runID : String} {tis : List TaskInstance}

private theorem Dropped.stable (hrely : Rely cfg r 0 s s') (h : Dropped cfg r runID tis s) : Dropped cfg r runID tis s' := by
  refine ⟨h.toFine.stable hrely, fun hid => hrely.opened (.inr rfl) (h.opened hid), ?_⟩
  intro ti hti
  obtain ⟨row, hrow, hrun⟩ := h.stored ti hti
  obtain ⟨row', hrow', hrun', -⟩ := hrely.rows _ row hrow
  exact ⟨row', hrow', hrun'.trans hrun⟩

private theorem Dropped.row_keeps {ti new : TaskInstance} (hti : ti ∈ tis) (hid : new.id = ti.id) (hstate : new.state = .cancelled) :
    Keeps (rules cfg r k 0) (Dropped cfg r runID tis) (statement (.updateTaskInstance new)) := by
  refine Triple.call (fun _ _ hrely h => h.stable hrely) ?_
  intro s x s' hs hsem
  have hspec := sem_spec hsem
  obtain ⟨rfl, -⟩ := hspec.answered
  have hsched : new.state = .scheduled → new.executorRef = "" := by
    intro h
    rw [hstate] at h
    cases h
  have hown : Own cfg r 0 s (.write (.updateTaskInstance new)) := by
    refine ⟨hsched, .inr ?_⟩
    by_cases hr : runID = r
    · exact .inl (hs.opened hr)
    · refine .inr ?_
      intro row hrow
      obtain ⟨stored, hstored, hrun⟩ := hs.stored ti hti
      rw [hid, hstored] at hrow
      obtain rfl := Option.some.inj hrow
      rw [hrun]
      exact hr
  refine ⟨hspec.guar hown, hs.toFine.write hspec.orderly hown, ?_, ?_⟩
  · exact fun hr => (hs.opened hr).apply (silent_none rfl) (creates_queued hspec.orderly)
  · intro ti hti
    obtain ⟨row, hrow, hrun⟩ := hs.stored ti hti
    obtain ⟨row', hrow', hrun', -⟩ := apply_task (w := .updateTaskInstance new) hrow
    exact ⟨row', hrow', hrun'.trans hrun⟩

/-- What `cancelQueued` does about the tasks of the run. -/
private def cancelRows (run : DagRun) (fin : Option Time) : M Unit := do
  match ← Fallible.outcome (list (fun db => db.listTaskInstances run.runID)) with
  | .error _ => return
  | .ok tis => tis.forM (fun ti =>
      if ti.state.isTerminal then pure ()
      else attempt (statement (.updateTaskInstance { ti with state := .cancelled, finishedAt := fin })))

private theorem cancelQueued_keeps (run : DagRun) : Keeps (rules cfg r k 0) (Fine cfg r) (cancelQueued run) := by
  have hcancel : ∀ started fin, Triple (rules cfg r k 0) (Fine cfg r)
      (statement (.updateDagRunState run.runID .cancelled started fin))
      (Ends (fun _ => Dropped cfg r run.runID []) (Fine cfg r)) := by
    intro started fin
    refine Triple.call (fun _ _ hrely h => h.stable hrely) ?_
    intro s x s' hs hsem
    have hspec := sem_spec hsem
    obtain ⟨rfl, rfl⟩ := hspec.answered
    have hown : Own cfg r 0 s (.write (.updateDagRunState run.runID .cancelled started fin)) := fun _ h => by cases h
    have hfine : Fine cfg r (s.written k 0 (.updateDagRunState run.runID .cancelled started fin)) := hs.write hspec.orderly hown
    refine ⟨hspec.guar hown, ?_⟩
    rcases s.db.updateDagRunState_cases run.runID .cancelled started fin with ⟨e, heq⟩ | ⟨row, hrow, -, heq⟩
    · rw [show (s.db.apply (.updateDagRunState run.runID .cancelled started fin)).1 = .error e by rw [heq]]
      exact hfine
    · rw [show (s.db.apply (.updateDagRunState run.runID .cancelled started fin)).1 = .ok () by rw [heq]]
      refine ⟨hfine, ?_, fun _ h => by simp at h⟩
      rintro rfl hsuccess
      simp only [World.written, heq, Db.runState, Db.run?_recordState_self hrow] at hsuccess
      cases hsuccess
  have hlist : Triple (rules cfg r k 0) (Dropped cfg r run.runID []) (list (fun db => db.listTaskInstances run.runID))
      (Ends (fun tis => Dropped cfg r run.runID tis) (Fine cfg r)) := by
    refine list_triple (fun _ _ hrely h => h.stable hrely) ?_
    intro s hs
    refine ⟨hs.toFine, hs.opened, ?_⟩
    intro ti hti
    obtain ⟨hmem, hrun⟩ := Db.mem_listTaskInstances.mp hti
    exact ⟨ti, Db.task?_of_mem hmem, hrun⟩
  have hrows : ∀ fin, Triple (rules cfg r k 0) (Dropped cfg r run.runID []) (cancelRows run fin) (fun _ => Fine cfg r) := by
    intro fin
    refine Triple.next (m := fun result s => Ends (fun tis => Dropped cfg r run.runID tis) (Fine cfg r) result s)
      (Triple.outcome hlist) ?_
    rintro (e | tis)
    · exact .pure (fun _ hs => hs)
    · have hloop : Keeps (rules cfg r k 0) (Dropped cfg r run.runID tis) (tis.forM (fun ti =>
          if ti.state.isTerminal then pure ()
          else attempt (statement (.updateTaskInstance { ti with state := .cancelled, finishedAt := fin })))) :=
        .forM (fun ti hti => .ite (.pure _) (.bind (.outcome (Dropped.row_keeps hti rfl rfl)) (fun _ => .pure _)))
      exact hloop.weaken (fun _ _ hs => hs.toFine)
  refine Keeps.bind (Fine.keeps (.ask _)) (fun now => ?_)
  refine Triple.next (m := fun result s => Ends (fun _ => Dropped cfg r run.runID []) (Fine cfg r) result s)
    (Triple.outcome (hcancel _ _)) ?_
  rintro (e | u)
  · exact .pure (fun _ hs => hs)
  · exact hrows _

private theorem discardRun_keeps (run : DagRun) : Keeps (rules cfg r k 0) (Fine cfg r) (discardRun run) := by
  refine .around (fun _ _ hrely h => h.stable hrely) ?_ (cancelQueued_keeps run) (fun _ _ _ hrely h => h.stable hrely) ?_
  · intro s s' hs hsem
    have hspec := sem_spec hsem
    obtain rfl := hspec.effect
    exact ⟨hspec.guar trivial, hs.frame rfl rfl⟩
  · intro x s s' hs hsem
    have hspec := sem_spec hsem
    obtain rfl := hspec.effect
    exact ⟨hspec.guar trivial, hs.frame rfl rfl⟩

/-! ### All threads -/

private theorem queuePrint_le_outsidePrint : queuePrint.Le (outsidePrint r) where
  writes _ h := by cases h <;> first | trivial | nofun
  marks _ h := h.elim
  jobs _ h := h.elim

private theorem attempt_outside {id n : Nat} {ref : String} {β : Type} {w : Write β} (h : AttemptWrite id ref n w) : Outside r w := by
  cases h <;> trivial

private theorem loop_keeps : Keeps (rules cfg r k 0) (Fine cfg r) (run cfg) := by
  refine run_keeps (fun _ hx => Fine.keeps (hx.mono queuePrint_le_outsidePrint)) ?_ ?_
    (fun snap => locked_keeps (processRunLocked_keeps snap)) discardRun_keeps
    (fun ready => .ite (.pure _) (locked_keeps (admitInOrder_keeps _)))
  · refine Fine.keeps (recover_bounds.mono ⟨?_, fun _ h => h.elim, fun _ _ => trivial, fun _ => trivial⟩)
    rintro β w ⟨id, ref, n, hw⟩
    exact attempt_outside hw
  · refine .lift (fun _ _ hrely h => h.stable hrely) ?_
    intro s x s' hs hsem
    have hspec := sem_spec hsem
    obtain ⟨hdb, hholder, -, -⟩ := hspec.effect.silent_eq rfl
    exact ⟨hspec.guar trivial, hs.frame hdb hholder⟩

private theorem operator_keeps (c : Call) : Keeps (rules cfg r k t) (Fine cfg r) (c.body cfg) :=
  call_keeps (fun _ hx => Fine.keeps (hx.mono queuePrint_le_outsidePrint))
    (fun _ _ => locked_keeps (cancelRunLocked_keeps _ _ _)) (fun _ _ _ => locked_keeps (retryTaskLocked_keeps _ _))
    (fun _ _ => locked_keeps (retryRunLocked_keeps _)) (fun _ _ _ _ htarget => locked_keeps (markTaskLocked_keeps _ _ htarget))
    (fun _ _ _ => locked_keeps (markRunLocked_keeps _ _))

private theorem starts_rely {p : Program Cmd (Except Err Unit)} (h : Starts cfg t k p s s') (t' : Nat) : Rely cfg r t' s s' := by
  have hundisturbed := starts_undisturbed h t'
  cases h with
  | loop => exact .of_eq hundisturbed rfl rfl (fun h => h.frame rfl rfl)
  | call => exact .refl cfg r t' s
  | goroutine => exact .of_eq hundisturbed rfl rfl (fun h => h.frame rfl rfl)

end Threads

/-- Every thread keeps recorded successes sound. -/
def successes (cfg : Cfg) (r : String) : Discipline (base cfg r) where
  inv := Fine cfg r
  free _ := Fine cfg r
  rely := Rely cfg r
  guar k t _ c s x s' := (rules cfg r k t).guar c s x s'
  rely_refl := .refl cfg r
  rely_trans _ _ _ _ := .trans
  free_rely _ _ _ hrely h := h.stable hrely
  guar_inv _ t _ _ _ _ _ h hguar := (hguar.1 (t + 1) (Nat.succ_ne_self t).symm).fine h
  guar_rely _ _ t' _ _ _ _ _ hne _ hguar := hguar.1 t' hne
  start_inv t _ _ _ _ h _ hstart := (starts_rely hstart t).fine h
  start_rely _ _ _ _ _ _ _ hstart t' _ := starts_rely hstart t'
  start_holds t k p s s' _ hfree hstart := by
    have hfree' := hfree.stable (starts_rely hstart t)
    cases hstart with
    | loop => exact loop_keeps _ hfree'
    | call _ c => exact operator_keeps c _ hfree'
    | goroutine _ n job =>
      refine Fine.keeps ((body_bounds job).mono ⟨fun w hw => attempt_outside hw, fun _ h => h.elim, fun _ h => h.elim, ?_⟩) _ hfree'
      exact fun _ => trivial
  drift_inv s s' h hdrift := by
    obtain ⟨dags, rows, edges, pools, rfl⟩ := hdrift
    exact ⟨h.sound, h.detached⟩
  drift_rely s s' _ hdrift t := by
    obtain ⟨dags, rows, edges, pools, rfl⟩ := hdrift
    exact .of_eq (.of_eq rfl rfl rfl rfl rfl) rfl rfl (fun h => ⟨h.sound, h.detached⟩)
  reset_inv _ _ _ hreset := hreset.1.elim
  reset_free _ _ _ hreset := hreset.1.elim

/-- The scheduler without crashes and store faults, in which the steps of `r` are fair. -/
def fairSystem (cfg : Cfg) (r : String) : System Kind Cmd (Except Err Unit) World :=
  (system cfg False).restrict (fun _ _ _ c w => Fair cfg r w c) calm

/-- A process that has not been started, over a store in which a recorded success of
`r` is sound and no dependency event of `r` is waiting. -/
structure Settled (cfg : Cfg) (r : String) (w : World) : Prop where
  fresh : w.Fresh
  sound : Sound cfg r w.db
  detached : Detached w.db
  unarmed : ¬ Armed r w.db

section Runs
variable {cfg : Cfg} {r : String}

/-- Both disciplines hold of the state. -/
private structure Kept (cfg : Cfg) (r : String) (p : Pool) : Prop where
  mutex : ((mutexDiscipline cfg False).restrict (fun _ _ _ c w => Fair cfg r w c) calm).Sound p
  outcomes : (successes cfg r).Sound p

private theorem Kept.step {p q : Pool} {l : Label Kind Cmd} (h : Kept cfg r p) (hstep : (fairSystem cfg r).Step p l q) : Kept cfg r q :=
  ⟨Discipline.step_sound _ h.mutex hstep, Discipline.step_sound _ h.outcomes (Discipline.step_guarded _ h.mutex hstep)⟩

private theorem Settled.kept {w : World} (h : Settled cfg r w) : Kept cfg r (Pool.off w) := by
  have hfine : Fine cfg r w := ⟨fun _ => h.sound, h.detached⟩
  exact ⟨⟨trivial, fun _ => trivial⟩, hfine, fun _ => hfine⟩

private theorem kept_of_runs {w : World} (hw : Settled cfg r w) {p : Pool} (hruns : (fairSystem cfg r).Runs (Pool.off w) p) : Kept cfg r p :=
  hruns.keeps (fun _ _ _ hstep _ h => h.step hstep) hw.kept

/-- An event for `r` that is new after a step belongs to a success of `r`. -/
private theorem Kept.armed {p q : Pool} {l : Label Kind Cmd} (h : Kept cfg r p) (hstep : (fairSystem cfg r).Step p l q)
    (harmed : Armed r q.world.db) : Armed r p.world.db ∨ q.world.db.runState r = some .success := by
  have hguarded := Discipline.step_guarded _ h.mutex hstep
  cases hguarded with
  | act hthread hsem => exact ((successes cfg r).act_guar h.outcomes hthread hsem).1.2 harmed
  | start hidle hstart => cases hstart <;> exact .inl harmed
  | drift hdrift =>
    obtain ⟨dags, rows, edges, pools, rfl⟩ := hdrift
    exact .inl harmed
  | reset hreset => exact hreset.1.elim

end Runs

/-- In every run whose steps of `r` work on the definition that is stored for it, a
recorded success of `r` is sound whenever no operation holds the mutex, and a
dependency event of `r` means that `r` was in state success before. -/
theorem recorded_success_sound (cfg : Cfg) (r : String) {w : World} (hw : Settled cfg r w) {p : Pool}
    (hruns : (fairSystem cfg r).Runs (Pool.off w) p) :
    (p.world.holder = none → Sound cfg r p.world.db) ∧
      (Armed r p.world.db → ∃ q, (fairSystem cfg r).Runs (Pool.off w) q ∧ (fairSystem cfg r).Runs q p ∧
        q.world.db.runState r = some .success) := by
  refine ⟨(kept_of_runs hw hruns).outcomes.1.sound, ?_⟩
  induction hruns with
  | refl => exact fun harmed => absurd harmed hw.unarmed
  | @tail p q hbefore hlast ih =>
    intro harmed
    obtain ⟨l, hstep, -⟩ := hlast
    have hkept := kept_of_runs hw hbefore
    rcases hkept.armed hstep harmed with hold | hsuccess
    · obtain ⟨mid, hbefore, hafter, hstate⟩ := ih hold
      exact ⟨mid, hbefore, hafter.tail ⟨l, hstep, trivial⟩, hstate⟩
    · exact ⟨q, hbefore.tail ⟨l, hstep, trivial⟩, .refl, hsuccess⟩

/-! ### Concrete runs -/

/-- One definition of the job has the tasks `a` and `b`, the other only `a`. -/
def pairYAML : String := "dag_id: job\ntasks:\n- {id: a, command: x}\n- {id: b, command: x}\n"

def soloYAML : String := "dag_id: job\ntasks:\n- {id: a, command: x}\n"

def pairCfg : Cfg :=
  { Cfg.ofDocuments [(pairYAML, { dagID := "job", tasks := [{ id := "a", command := "x" }, { id := "b", command := "x" }] }),
      (soloYAML, { dagID := "job", tasks := [{ id := "a", command := "x" }] })] with maxConcurrentTasks := 0 }

def task (id : String) : Task := { id := id, command := "x", pool := "default" }

def pair : DAG := { dagID := "job", definitionYAML := pairYAML, tasks := [task "a", task "b"] }

def solo : DAG := { dagID := "job", definitionYAML := soloYAML, tasks := [task "a"] }

/-- The one run of the job, which an operator triggers. -/
def theRun : String := "job__manual_0"

/-- A process that has not been started, over a store in which the job is registered. -/
def jobWorld (d : DAG) : World :=
  { db := { dags := ⟨[{ dagID := "job", definitionYAML := d.definitionYAML }], List.pairwise_singleton _ _⟩ }, dags := [d] }

/-- An operator call from its start to its end. -/
def callMoves (c : Call) (n : Nat) : List Move := .call 1 c :: List.replicate n (.act 1 .fine)

def tickMoves (n : Nat) : List Move := List.replicate n (.act 0 .fine)

/-- The run is triggered and its rows are created; then it is cancelled. -/
def expandMoves : List Move :=
  callMoves (.trigger "job" [] 0) 3 ++ .boot 0 :: tickMoves 29 ++ callMoves (.cancelRun theRun) 10

/-- Under the short definition the run is retried and its only task is marked; the
tick lists the run, which is then cancelled. -/
def shortMoves : List Move :=
  callMoves (.retryTask theRun "a") 12 ++ callMoves (.markTask theRun "a" .success) 9 ++ tickMoves 10 ++
    callMoves (.cancelRun theRun) 8

/-- Under the long definition the run is retried, and the tick goes on with the run it listed. -/
def longMoves : List Move := callMoves (.retryTask theRun "b") 12 ++ tickMoves 9

/-- Another definition of the job is registered. -/
def edit (d : DAG) (p : Pool) : Pool := { p with world := { p.world with dags := [d] } }

/-- No store fault, and no mark of a run. -/
private def unmarked (p : Pool) (m : Move) : Bool :=
  (match m with | .act _ a => decide (a ≠ .fault) | _ => true) &&
    (match p.begins m with | some (.markRun _ _) => false | _ => true)

/-- What the contract allows: no crash, and no mark of the run. -/
private abbrev Allowed (_ : Pool) (l : Label Kind Cmd) (_ : Pool) : Prop :=
  l ≠ .reset ∧ ∀ t k target, l ≠ .act t k (.enter (.markRun theRun target)) ()

private theorem unmarked_runs {p q : Pool} {ms : List Move} (h : p.playIf pairCfg unmarked ms = some q) :
    (system pairCfg False).RunsWhile Allowed p q := by
  refine playIf_runs ?_ h
  intro p m q hok hm
  simp only [unmarked, Bool.and_eq_true] at hok
  have hfault : ∀ t, m = .act t .fault → False := by
    rintro t rfl
    simp at hok
  obtain ⟨l, hstep, hreset, hlabel⟩ := move_step_of hfault hm
  refine ⟨l, hstep, hreset, ?_⟩
  intro t k target hl
  obtain ⟨a, next, rfl, hthread⟩ := hlabel t k _ _ hl
  simp [Pool.begins, hthread] at hok

private theorem edit_runs (d : DAG) (p : Pool) : (system pairCfg False).RunsWhile Allowed p (edit d p) := by
  refine Relation.ReflTransGen.single ⟨.drift, .drift ⟨[d], p.world.db.dags, p.world.db.dependencies, p.world.db.pools, rfl⟩, ?_⟩
  refine ⟨fun h => ?_, fun t k target h => ?_⟩ <;> cases h

/-- The short definition is registered, no store fault happens, and the run is listed
with the definition that is stored for it. -/
private def upToDate (p : Pool) (m : Move) : Bool :=
  decide (p.world.dags = [solo]) && (match m with | .act _ a => decide (a ≠ .fault) | _ => true) &&
    (match p.begins m with
      | some (.processRun snap) => (p.world.db.run? theRun).any (fun run => decide (run.definitionYAML = snap.definitionYAML))
      | some (.markRun _ _) => false
      | _ => true)

private theorem solo_registered : Registered pairCfg [solo] := by
  have htasks : (parseDefinition pairCfg soloYAML).toOption.map (·.tasks) = some solo.tasks := by decide +kernel
  intro d hd
  obtain rfl := List.mem_singleton.mp hd
  obtain ⟨d', hd', heq⟩ := Option.map_eq_some_iff.mp htasks
  refine ⟨d', ?_, heq⟩
  show parseDefinition pairCfg soloYAML = .ok d'
  cases hres : parseDefinition pairCfg soloYAML with
  | error e =>
    rw [hres] at hd'
    cases hd'
  | ok parsed =>
    rw [hres] at hd'
    cases hd'
    rfl

private theorem upToDate_runs {p q : Pool} {ms : List Move} (h : p.playIf pairCfg upToDate ms = some q) :
    (fairSystem pairCfg theRun).Runs p q := by
  refine playIf_runs ?_ h
  intro p m q hok hm
  simp only [upToDate, Bool.and_eq_true, decide_eq_true_eq] at hok
  obtain ⟨⟨hdags, hfault⟩, hop⟩ := hok
  have hfault : ∀ t, m = .act t .fault → False := by
    rintro t rfl
    simp at hfault
  obtain ⟨l, hstep, hreset, hlabel⟩ := move_step_of hfault hm
  refine ⟨l, hstep.restrict ?_ hreset, trivial⟩
  intro t k β c x hl
  obtain ⟨a, next, rfl, hthread⟩ := hlabel t k c x hl
  cases c with
  | registry f =>
    show Registered pairCfg p.world.dags
    rw [hdags]
    exact solo_registered
  | enter op =>
    simp only [Pool.begins, hthread] at hop
    cases op with
    | processRun snap =>
      intro _
      obtain ⟨run, hrun, hyaml⟩ := Option.any_eq_true _ _ |>.mp hop
      exact ⟨run, hrun, by simpa using hyaml⟩
    | markRun id target => cases hop
    | _ => trivial
  | _ => trivial

private theorem solo_settled : Settled pairCfg theRun (jobWorld solo) := by
  refine ⟨⟨_, _, rfl⟩, ?_, ?_, ?_⟩
  · rintro run ⟨⟩
  · intro row hrow
    simp [jobWorld, Relational.Table.empty] at hrow
  · rintro ⟨e, he, -⟩
    simp [jobWorld, Relational.Table.empty] at he

/-- The run is triggered, its only task is marked, and the next tick records the success. -/
theorem recorded_success_sound_run :
    ∃ p : Pool, p.world.db.runState theRun = some .success ∧ Armed theRun p.world.db ∧
      (p.world.holder = none → Sound pairCfg theRun p.world.db) ∧
      (Armed theRun p.world.db → ∃ q, (fairSystem pairCfg theRun).Runs (Pool.off (jobWorld solo)) q ∧
        (fairSystem pairCfg theRun).Runs q p ∧ q.world.db.runState theRun = some .success) := by
  have hplay : ((Pool.off (jobWorld solo)).playIf pairCfg upToDate (callMoves (.trigger "job" [] 0) 3 ++ .boot 0 :: tickMoves 28 ++
      callMoves (.markTask theRun "a" .success) 9 ++ tickMoves 19)).map
        (fun p => (p.world.db.runState theRun, p.world.db.events.rows.any (fun e => e.source = .dependency ∧ e.eventKey = theRun))) =
      some (some .success, true) := by
    decide +kernel
  obtain ⟨p, hp, heq⟩ := Option.map_eq_some_iff.mp hplay
  simp only [Prod.mk.injEq, List.any_eq_true, decide_eq_true_eq] at heq
  exact ⟨p, heq.1, heq.2, recorded_success_sound pairCfg theRun solo_settled (upToDate_runs hp)⟩

/-- A step that works on the definition a retry has since replaced records a success
although a task of the stored definition has not run. -/
theorem outdated_step_records_success :
    ¬ ∀ p : Pool, (system pairCfg False).RunsWhile
        (fun _ l _ => l ≠ .reset ∧ ∀ t k target, l ≠ .act t k (.enter (.markRun theRun target)) ()) (Pool.off (jobWorld pair)) p →
      p.world.holder = none → Sound pairCfg theRun p.world.db := by
  have hplay : ((((Pool.off (jobWorld pair)).playIf pairCfg unmarked expandMoves).bind
      (fun p => (edit solo p).playIf pairCfg unmarked shortMoves)).bind
        (fun p => (edit pair p).playIf pairCfg unmarked longMoves)).map
          (fun p => (p.world.holder, (p.world.db.run? theRun).map (fun run => (run.state, run.definitionYAML)),
            p.world.db.tasks.rows.map (fun row => (row.taskID, row.state)))) =
      some (none, some (.success, pairYAML), [("a", .success), ("b", .scheduled)]) := by
    decide +kernel
  have htasks : (parseDefinition pairCfg pairYAML).toOption.map (·.tasks) = some pair.tasks := by decide +kernel
  obtain ⟨p₃, hlong, heq⟩ := Option.map_eq_some_iff.mp hplay
  obtain ⟨p₂, hshort, hlong⟩ := Option.bind_eq_some_iff.mp hlong
  obtain ⟨p₁, hexpand, hshort⟩ := Option.bind_eq_some_iff.mp hshort
  simp only [Prod.mk.injEq] at heq
  obtain ⟨hfree, hrun, hrows⟩ := heq
  intro h
  have hruns : (system pairCfg False).RunsWhile Allowed (Pool.off (jobWorld pair)) p₃ :=
    (((unmarked_runs hexpand).trans (edit_runs solo p₁)).trans ((unmarked_runs hshort).trans (edit_runs pair p₂))).trans
      (unmarked_runs hlong)
  obtain ⟨run, hstored, hfields⟩ := Option.map_eq_some_iff.mp hrun
  simp only [Prod.mk.injEq] at hfields
  obtain ⟨hstate, hyaml⟩ := hfields
  obtain ⟨d, hd, hdtasks⟩ := Option.map_eq_some_iff.mp htasks
  have hparse : parseDefinition pairCfg run.definitionYAML = .ok d := by
    rw [hyaml]
    cases hres : parseDefinition pairCfg pairYAML with
    | error e =>
      rw [hres] at hd
      cases hd
    | ok d' =>
      rw [hres] at hd
      cases hd
      rfl
  obtain ⟨row, hrow, -, hid, hdone⟩ := (h p₃ hruns hfree run hstored hstate).2 d hparse (task "b") (by rw [hdtasks]; decide)
  have hmem : (row.taskID, row.state) ∈ [("a", TaskState.success), ("b", TaskState.scheduled)] := by
    rw [← hrows]
    exact List.mem_map.mpr ⟨row, hrow, rfl⟩
  rw [hid] at hmem
  revert hmem hdone
  cases row.state <;> simp [task, isDone]

end Cronova.Properties.Success
