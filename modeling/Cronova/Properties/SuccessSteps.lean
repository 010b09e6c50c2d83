import Cronova.Properties.SuccessRetries

/-! The step of a listed run and the admission of ready tasks: the success of a run
is recorded only under the definition that is stored for it. -/
namespace Cronova.Properties.Success
open Cronova.Model Cronova.Store Cronova.Concurrency Cronova.Concurrency.Fallible Cronova.Scheduler

/-- What is known of the in-memory instances of a step: the open ones are spare, and
no scheduled one carries a ref. -/
structure Loaded (known tis : List TaskInstance) : Prop where
  spare : ∀ ti ∈ tis, ti.state.isTerminal = false → ∃ old ∈ known, old.id = ti.id
  detached : ∀ ti ∈ tis, ti.state = .scheduled → ti.executorRef = ""

theorem Loaded.set {known tis : List TaskInstance} (h : Loaded known tis) {ti new : TaskInstance} (hti : ti ∈ tis)
    (hopen : ti.state.isTerminal = false) (hnew : Follows ti new) : Loaded known (setTI tis new) := by
  constructor
  · intro row hrow hrowopen
    rcases mem_setTI hrow with rfl | hold
    · obtain ⟨old, hold, hid⟩ := h.spare ti hti hopen
      rcases hnew with rfl | hnew
      · exact ⟨old, hold, hid⟩
      · exact ⟨old, hold, hid.trans hnew.row.1.symm⟩
    · exact h.spare row hold hrowopen
  · intro row hrow hsched
    rcases mem_setTI hrow with rfl | hold
    · rcases hnew with rfl | hnew
      · exact h.detached row hti hsched
      · exact hnew.scheduled hsched
    · exact h.detached row hold hsched

/-- Every task has ended well. -/
def Finished (r : String) (tasks : List Task) (db : Db) : Prop := ∀ t ∈ tasks, Completed r db t.id

theorem finished_of_final {d : DAG} {db : Db} {runID : String} (h : finalState d (db.listTaskInstances runID) = some .success) :
    Finished runID d.tasks db := by
  intro t ht
  unfold finalState at h
  dsimp only at h
  have hstate : (findTI (db.listTaskInstances runID) t.id).map (·.state) ∈
      d.tasks.map (fun t => (findTI (db.listTaskInstances runID) t.id).map (·.state)) :=
    List.mem_map.mpr ⟨t, ht, rfl⟩
  generalize d.tasks.map (fun t => (findTI (db.listTaskInstances runID) t.id).map (·.state)) = states at h hstate
  split at h
  · rename_i hall
    split at h
    · cases h
    · rename_i hfailed
      split at h
      · cases h
      · rename_i hcancelled
        simp only [List.all_eq_true] at hall
        simp only [List.any_eq_true, not_exists, not_and, Bool.not_eq_true] at hfailed hcancelled
        have hterminal := hall _ hstate
        have hnotfailed := hfailed _ hstate
        have hnotcancelled := hcancelled _ hstate
        cases hfind : findTI (db.listTaskInstances runID) t.id with
        | none =>
          rw [hfind] at hterminal
          cases hterminal
        | some ti =>
          rw [hfind, Option.map_some] at hterminal hnotfailed hnotcancelled
          obtain ⟨hmem, hid⟩ := findTI_spec hfind
          obtain ⟨hrow, hrun⟩ := Db.mem_listTaskInstances.mp hmem
          refine ⟨ti, hrow, hrun, hid, ?_⟩
          revert hterminal hnotfailed hnotcancelled
          cases ti.state <;> simp [isDone, TaskState.isTerminal, Option.any]
  · cases h

section Steps
variable {cfg : Cfg} {r : String} {k : Kind} {t : Nat} {known : List TaskInstance} {runID : String} {tasks : List Task}
  {s s' : World}

/-- The rows of a finished step stay as they are while the loop holds the mutex. -/
theorem Finished.stable (hrely : Rely cfg r 0 s s') (hheld : s.holder = some 0) (h : Finished runID tasks s.db) :
    Finished runID tasks s'.db := by
  intro task htask
  obtain ⟨row, hrow, hrun, hid, hdone⟩ := h task htask
  have hterminal : row.state.isTerminal = true := by
    revert hdone
    cases row.state <;> simp [isDone, TaskState.isTerminal]
  have hkept := hrely.undisturbed.rows hheld rfl row.id row (Db.task?_of_mem hrow) hterminal
  exact ⟨row, (Db.task?_spec hkept).1, hrun, hid, hdone⟩

/-- Listing the instances of a run that is processed. -/
theorem Driven.listing (listed : String) :
    Triple (rules cfg r k t) (Driven cfg r t [] runID tasks) (list (fun db => db.listTaskInstances listed))
      (Ends (fun tis s => Driven cfg r t (unfinished tis) runID tasks s ∧ Loaded (unfinished tis) tis)
        (Driven cfg r t [] runID tasks)) := by
  refine list_triple (fun _ _ hrely h => h.stable hrely) ?_
  intro s hs
  refine ⟨⟨hs.toBase.listed listed, hs.text⟩, ?_, ?_⟩
  · exact fun ti hti hopen => ⟨ti, mem_unfinished.mpr ⟨hti, hopen⟩, rfl⟩
  · exact fun ti hti hsched => hs.detached ti (Db.mem_listTaskInstances.mp hti).1 hsched

theorem reconcile_triple (run : DagRun) (d : DAG) :
    Triple (rules cfg r k t) (Driven cfg r t [] runID tasks) (reconcile cfg run d)
      (Ends (fun tis s => Driven cfg r t (unfinished tis) runID tasks s ∧ Loaded (unfinished tis) tis) (Base cfg r t [])) := by
  have hexpand : ∀ {fewer current}, Keeps (rules cfg r k t) (Driven cfg r t fewer runID tasks) (expandRun cfg run d current) := by
    intro fewer current
    refine Driven.keeps (.forM (fun task _ => .ite (.pure _) (.bind (.outcome (.statement ?_)) ?_)))
    · exact fun _ => rfl
    · intro result
      split
      · exact .pure _
      · exact .pure _
      · exact .throw _
  refine .seq (Driven.listing run.runID) (fun tis => .ite (fun _ => ?_) (fun _ => .pure (fun _ hs => hs)))
    (fun _ _ h => h.toBase)
  refine Triple.strengthen (p := Driven cfg r t [] runID tasks) ?_ (fun _ hs => hs.1.fewer (fun _ h => by simp at h))
  refine .bind hexpand (fun _ => ?_) (fun _ _ h => h.toBase)
  exact (Driven.listing run.runID).weaken (fun x s h => by cases x with
    | ok tis => exact h
    | error e => exact h.toBase)

theorem Driven.stepRules :
    StepRules cfg (rules cfg r k t) (Driven cfg r t known runID tasks) (Loaded known) where
  read _ hx := Driven.keeps (hx.mono (readPrint_le _))
  found id := by
    refine query_triple (fun _ _ hrely h => h.stable hrely) ?_ (fun _ _ hs _ => hs)
    exact fun s run hs hget => ⟨hs, (Db.run?_spec (Db.getDagRun_ok.mp hget)).2⟩
  set hI hmem hopen hnew := hI.set hmem hopen hnew
  update hI hmem hopen hnew := by
    obtain ⟨old, hold, hid⟩ := hI.spare _ hmem hopen
    exact Driven.keeps (.statement ⟨hnew.scheduled, old, hold, hid.trans hnew.row.1.symm⟩)
  guarded _ _ _ _ _ _ := Driven.keeps (.statement trivial)
  retry hI hmem hsched hne := by
    rw [hI.detached _ hmem hsched] at hne
    exact absurd (by decide : childOf "" = "") hne
  create _ := Driven.keeps (.statement trivial)

/-! ### The end of a step -/

private theorem timeoutRun_keeps (run : DagRun) (tis : List TaskInstance) :
    Keeps (rules cfg r k t) (Base cfg r t known) (timeoutRun cfg run tis) := by
  refine .bind (Base.keeps (.ask _)) (fun fin => .bind (.outcome (Base.keeps (.statement (fun _ => nofun)))) ?_)
  intro result
  split
  · exact .pure _
  · refine .forM (fun ti _ => ?_)
    have hwrite : Keeps (rules cfg r k t) (Base cfg r t known) (attempt (statement (.updateTaskInstanceGuarded
        { ti with state := .timedOut, finishedAt := some fin } ti.executorRef))) := Base.keeps (.attempt (.statement trivial))
    have hcancel : Keeps (rules cfg r k t) (Base cfg r t known) (cancelAttempt (cancelRunLocked cfg.bound) ti.executorRef) :=
      cancelAttempt_keeps (fun child => cancelRunLocked_keeps _ _ child) _
    exact Keeps.ite (.pure _) (Keeps.ite (.bind hcancel (fun _ => hwrite)) hwrite)

private theorem parseDefinition_nonempty {yaml : String} {d : DAG} (h : parseDefinition cfg yaml = .ok d) : yaml ≠ "" := by
  rintro rfl
  cases h

/-- The stored definition of `r` has these tasks, and they have ended well. -/
private structure Ripe (cfg : Cfg) (r : String) (tasks : List Task) (s : World) : Prop extends Base cfg r 0 [] s where
  text : Text cfg r tasks s.db
  finished : Finished r tasks s.db

private theorem Ripe.stable (hrely : Rely cfg r 0 s s') (h : Ripe cfg r tasks s) : Ripe cfg r tasks s' :=
  ⟨h.toBase.stable hrely, h.text.stable hrely h.held, h.finished.stable hrely h.held⟩

/-- Recording the success of a run all of whose tasks have ended well. -/
private theorem succeed_triple {started fin : Option Time} :
    Triple (rules cfg r k 0) (Ripe cfg r tasks) (statement (.updateDagRunSuccess r started fin)) (fun _ => Base cfg r 0 []) := by
  refine Triple.call (fun _ _ hrely h => h.stable hrely) ?_
  intro s x s' hs hsem
  have hspec := sem_spec hsem
  obtain ⟨rfl, -⟩ := hspec.answered
  refine ⟨hspec.guar (fun _ => rfl), hs.held, ?_, hs.detached.apply trivial, fun _ h => by simp at h⟩
  obtain ⟨run, d, hrun, hd, rfl⟩ := hs.text
  rcases s.db.updateDagRunSuccess_cases r started fin with ⟨hnone, -⟩ | ⟨_, _, heq⟩
  · rw [hnone] at hrun
    cases hrun
  intro run' hrun' hsuccess
  rw [show (s.written k 0 (.updateDagRunSuccess r started fin)).db = (s.db.apply (.updateDagRunSuccess r started fin)).2 from rfl,
    heq] at hrun' ⊢
  rw [Db.run?_armEvent, Db.run?_recordState_self hrun] at hrun'
  obtain rfl := Option.some.inj hrun'
  refine ⟨parseDefinition_nonempty hd, ?_⟩
  intro d' hd' task htask
  obtain rfl : d = d' := Except.ok.inj (hd.symm.trans hd')
  refine .of_rows ?_ (hs.finished task htask)
  rw [Db.armEvent_tasks, Db.recordState_tasks]

/-- The run is finished as what its listed rows say. -/
theorem finalizeRun_triple {d : DAG} {run : DagRun} (hid : run.runID = runID) (htasks : d.tasks = tasks) :
    Triple (rules cfg r k 0) (Driven cfg r 0 known runID tasks) (finalizeRun cfg d run) (fun _ => Base cfg r 0 []) := by
  subst hid htasks
  have hplain : ∀ {α : Type} {x : M α}, (mildPrint r []).Bounds x →
      Triple (rules cfg r k 0) (Driven cfg r 0 known run.runID d.tasks) x (fun _ => Base cfg r 0 []) :=
    fun hx => (Base.keeps hx).strengthen (fun _ h => h.toBase.fewer (fun _ h => by simp at h))
  have hlist : Triple (rules cfg r k 0) (Driven cfg r 0 known run.runID d.tasks) (list (fun db => db.listTaskInstances run.runID))
      (Ends (fun tis s => Driven cfg r 0 known run.runID d.tasks s ∧
        (finalState d tis = some .success → Finished run.runID d.tasks s.db)) (Base cfg r 0 [])) := by
    refine list_triple (fun _ _ hrely h => h.stable hrely) ?_
    exact fun s hs => ⟨hs, finished_of_final⟩
  refine .seq hlist (fun tis => ?_) (fun _ _ h => h)
  split
  · refine Triple.strengthen (p := Base cfg r 0 []) ?_ (fun _ h => h.1.toBase.fewer (fun _ h => by simp at h))
    show Keeps _ _ _
    unfold enforceDeadlines
    split
    · exact .pure _
    · exact .bind (Base.keeps (.ask _)) (fun _ => Keeps.ite (timeoutRun_keeps run tis) (.pure _))
  · rename_i final hfinal
    by_cases hsuccess : final = .success
    · subst hsuccess
      by_cases hr : run.runID = r
      · have hripe : ∀ s, Driven cfg r 0 known run.runID d.tasks s ∧
            (finalState d tis = some .success → Finished run.runID d.tasks s.db) → Ripe cfg r d.tasks s := by
          intro s hs
          refine ⟨hs.1.toBase.fewer (fun _ h => by simp at h), hs.1.text hr, ?_⟩
          rw [← hr]
          exact hs.2 hfinal
        have hask : Keeps (rules cfg r k 0) (Ripe cfg r d.tasks) (ask .now) := by
          refine keeps_of_writes (F := readPrint) (.ask _) (fun _ _ hrely h => h.stable hrely) ?_ (fun _ h => h.elim)
          intro s s' hdb hholder h
          refine ⟨⟨hholder.trans h.held, hdb ▸ h.sound, hdb ▸ h.detached, fun _ h => by simp at h⟩, hdb ▸ h.text, hdb ▸ h.finished⟩
        refine Triple.strengthen ?_ hripe
        rw [hr]
        exact .bind hask (fun fin => .ite (fun _ => succeed_triple) (fun h => absurd rfl h)) (fun _ _ h => h.toBase)
      · refine (hplain (.bind (.ask _) (fun fin => ?_))).strengthen (fun _ h => h.1)
        rw [if_pos rfl]
        exact .statement (show Mild r [] (.updateDagRunSuccess run.runID run.startedAt (some fin)) from hr)
    · refine (hplain (.bind (.ask _) (fun fin => ?_))).strengthen (fun _ h => h.1)
      rw [if_neg hsuccess]
      exact .statement (fun _ => hsuccess)

/-- The part of a step from its start on. -/
theorem driveRun_triple {d : DAG} {run : DagRun} {tis : List TaskInstance} (hid : run.runID = runID) (htasks : d.tasks = tasks)
    (hloaded : Loaded known tis) :
    Triple (rules cfg r k 0) (Driven cfg r 0 known runID tasks) (driveRun cfg d run tis) (fun _ => Base cfg r 0 []) := by
  have hrules : StepRules cfg (rules cfg r k 0) (Driven cfg r 0 known runID tasks) (Loaded known) := Driven.stepRules
  have hnone : ∀ s, Driven cfg r 0 known runID tasks s → Base cfg r 0 [] s :=
    fun s hs => hs.toBase.fewer (fun _ h => by simp at h)
  have hstart : Gives (rules cfg r k 0) (Driven cfg r 0 known runID tasks) (fun run' => run'.runID = runID) (startRun run) := by
    refine .ite (fun _ => .bind (Driven.keeps (.ask _)).gives (fun now _ => ?_)) (fun _ => .pure hid)
    have hwrite : (mildPrint r known).Bounds (statement (.updateDagRunState run.runID .running (some now) none)) :=
      .statement (fun _ => nofun)
    exact .bind (Driven.keeps hwrite).gives (fun _ _ => .pure hid)
  refine .bind hstart ?_ (fun _ s h => hnone s h)
  rintro run' s ⟨hs, hid'⟩
  refine Triple.bind (hrules.propagate _ hloaded) ?_ (fun _ s h => hnone s h) s hs
  rintro byTask s ⟨hs, hloaded⟩
  refine Triple.bind (m := fun _ => Driven cfg r 0 known runID tasks) (hrules.read _ (.ask _)) ?_ (fun _ s h => hnone s h) s hs
  intro now
  refine Triple.bind (hrules.requeue hloaded) ?_ (fun _ s h => hnone s h)
  rintro byTask s ⟨hs, hloaded⟩
  refine Triple.ite (fun _ => .pure (fun s h => hnone s h)) (fun _ => ?_) s hs
  have hcollect := hrules.collect (Q := fun _ => True) d run' d.tasks (fun _ _ _ _ _ _ _ _ => trivial)
    hloaded [] (fun _ _ => trivial)
  refine .bind hcollect ?_ (fun _ s h => hnone s h)
  rintro ⟨ready, err⟩ s ⟨hs, -⟩
  cases err with
  | some e => exact hnone s hs
  | none =>
    exact Triple.bind (m := fun _ => Base cfg r 0 []) (.bind (m := fun _ => Base cfg r 0 [])
      (.outcome (finalizeRun_triple hid' htasks)) (fun _ => .pure (fun _ h => h)) (fun _ _ h => h))
      (fun _ => .pure (fun _ h => h)) (fun _ _ h => h) s hs

/-- A step of a listed run, whose stored definition is the listed one. -/
theorem processRunLocked_keeps (snap : DagRun) :
    Keeps (rules cfg r k 0) (Base cfg r 0 []) (processRunLocked cfg snap) := by
  refine Triple.around (i := fun s => Base cfg r 0 [] s ∧ (snap.runID = r → Current r snap s.db)) (d := fun _ => Base cfg r 0 [])
    (fun _ _ hrely h => h.stable hrely) ?_ ?_ (fun _ _ _ hrely h => h.stable hrely) ?_
  · intro s s' hs hsem
    have hspec := sem_spec hsem
    obtain ⟨hown, hbase⟩ := hs.step hspec trivial
    have hfair := hspec.fair
    obtain rfl := hspec.effect
    exact ⟨hspec.guar hown, hbase, hfair⟩
  · refine .seq ((dagForRun_yields snap).triple (dagForRun_triple snap)) ?_ (fun _ _ h => h)
    rintro ⟨d, run⟩ s ⟨hs, hrun⟩
    refine Triple.seq (reconcile_triple run d) ?_ (fun _ _ h => h) s hs
    rintro tis s ⟨hs, hloaded⟩
    refine Triple.ite (fun _ => ?_) (fun _ => driveRun_triple hrun.runID rfl hloaded) s hs
    refine Triple.strengthen (p := Base cfg r 0 []) ?_ (fun s h => h.toBase.fewer (fun _ h => by simp at h))
    exact Base.keeps (.bind (.bind (.ask _) (fun _ => .statement (fun _ => nofun))) (fun _ => .pure _))
  · intro x s s' hs hsem
    have hspec := sem_spec hsem
    obtain ⟨hown, hbase⟩ := hs.step hspec trivial
    exact ⟨hspec.guar hown, hbase⟩

end Steps
/-! ### Marks of a run and the admission -/

section Operations
variable {cfg : Cfg} {r : String} {k : Kind} {t : Nat} {s s' : World}

/-- A mark of another run. -/
theorem markRunLocked_keeps (runID : String) (target : RunState) :
    Keeps (rules cfg r k t) (Base cfg r t []) (markRunLocked cfg runID target) := by
  by_cases hid : runID = r
  · refine Triple.around (i := fun _ => False) (d := fun _ _ => False) (fun _ _ hrely h => h.stable hrely) ?_
      (fun _ h => h.elim) (fun _ _ _ _ h => h) (fun _ _ _ h => h.elim)
    intro s s' _ hsem
    exact absurd hid (sem_spec hsem).fair
  · refine Base.keeps (markRunLocked_bounds trivial ?_ (fun _ _ => hid) (fun _ _ heq => absurd heq hid))
    refine ⟨fun w hw => ?_, fun _ h => h.elim, fun _ h => h.elim, fun _ => trivial⟩
    cases hw <;> first | trivial | nofun

/-- What `admitTask` does about a row it may dispatch. -/
private def dispatchWithin (b : Budget) (rt : ReadyTask) (cur : TaskInstance) (rem : Int) : M Budget := do
  match ← Fallible.outcome (dispatch rt.run rt.task cur) with
  | .error _ => return b
  | .ok _ =>
    let dagRemaining := if 0 < rt.dagMaxTasks then
        b.dagRemaining.set rt.run.dagID ((b.dagRemaining.get rt.run.dagID).getD 0 - 1)
      else b.dagRemaining
    return { b with
      poolRemaining := b.poolRemaining.set rt.ti.pool (rem - 1)
      globalRemaining := b.globalRemaining - 1
      dagRemaining := dagRemaining }

private theorem admitTask_keeps (b : Budget) (rt : ReadyTask) : Keeps (rules cfg r k t) (Base cfg r t []) (admitTask cfg b rt) := by
  have hquery : Triple (rules cfg r k t) (Base cfg r t []) (query (fun db => db.getTaskInstance rt.ti.id))
      (Ends (fun cur s => Base cfg r t [] s ∧ (cur.state = .scheduled → Base cfg r t [cur] s)) (Base cfg r t [])) := by
    refine query_triple (fun _ _ hrely h => h.stable hrely) ?_ (fun _ _ hs _ => hs)
    intro s cur hs hget
    refine ⟨hs, fun hsched => hs.more ?_⟩
    intro ti hti
    obtain rfl := List.mem_singleton.mp hti
    refine hs.sound.spare ?_ (by rw [hsched]; rfl)
    unfold Db.getTaskInstance at hget
    split at hget
    · rename_i row hrow
      cases hget
      exact (Db.task?_spec hrow).1
    · cases hget
  have hcur : Triple (rules cfg r k t) (Base cfg r t []) (Fallible.outcome (query (fun db => db.getTaskInstance rt.ti.id)))
      (Ends (fun result s => Base cfg r t [] s ∧ ∀ cur, result = .ok cur → cur.state = .scheduled → Base cfg r t [cur] s)
        (fun _ => False)) := by
    refine Triple.outcome (hquery.weaken ?_)
    rintro (e | cur) s hs
    · exact ⟨hs, fun _ h => by cases h⟩
    · refine ⟨hs.1, ?_⟩
      rintro _ ⟨⟩
      exact hs.2
  unfold admitTask
  refine Keeps.ite (.pure _) (Keeps.bind (Base.keeps (checkGroup_bounds b _)) ?_)
  rintro ⟨b, up⟩
  refine Keeps.ite (.pure _) (Keeps.bind (Base.keeps (checkDag_bounds b rt)) ?_)
  rintro ⟨b, room⟩
  refine Keeps.ite (.pure _) (Keeps.bind (Base.keeps (checkPool_bounds b _)) ?_)
  rintro ⟨b, rem⟩
  cases rem with
  | none => exact .pure _
  | some rem =>
    refine Triple.next hcur ?_
    rintro (e | cur)
    · exact .pure (fun _ hs => hs.1)
    · refine .ite (fun _ => .pure (fun _ hs => hs.1)) (fun hsched => ?_)
      rw [not_not] at hsched
      refine Triple.strengthen (p := Base cfg r t [cur]) ?_ (fun _ hs => hs.2 cur rfl hsched)
      have hdispatch : (mildPrint r [cur]).Bounds (dispatch rt.run rt.task cur) :=
        .bind (.statement ⟨(fun h => by cases h), cur, List.mem_singleton.mpr rfl, rfl⟩) (fun _ => .go trivial)
      have hrest : Keeps (rules cfg r k t) (Base cfg r t [cur]) (dispatchWithin b rt cur rem) := by
        refine .bind (.outcome (Base.keeps hdispatch)) ?_
        intro result
        split <;> exact .pure _
      exact hrest.weaken (fun _ _ hs => hs.fewer (fun _ h => by simp at h))

theorem admitInOrder_keeps (ready : List ReadyTask) : Keeps (rules cfg r k t) (Base cfg r t []) (admitInOrder cfg ready) := by
  refine .bind (.outcome (Base.keeps (.list _))) ?_
  intro active
  split
  · exact .pure _
  · exact .bind (.foldlM (fun rt _ b => admitTask_keeps b rt) _) (fun _ => .pure _)

end Operations
end Cronova.Properties.Success
