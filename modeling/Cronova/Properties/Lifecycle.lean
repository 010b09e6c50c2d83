import Cronova.Properties.RunStates
import Cronova.Scheduler.Steps

/-! Processing one listed run, by what is known of the run when its operation
begins, and the discipline of all threads that follows. -/
namespace Cronova.Properties.RunStates
open Cronova.Model Cronova.Store Cronova.Concurrency Cronova.Concurrency.Fallible Cronova.Scheduler

/-- What is known of the in-memory instances: the pinned row is there as it
failed, and no scheduled instance names the pinned run as its child. -/
structure Loaded (pin : Option TaskInstance) (tis : List TaskInstance) : Prop where
  failed : ∀ f ∈ pin, ∀ ti ∈ tis, ti.id = f.id → ti.state.isFailure = true
  noSelf : ∀ f ∈ pin, ∀ ti ∈ tis, ti.state = .scheduled → childOf ti.executorRef ≠ "" →
    childOf ti.executorRef ≠ f.runID

theorem Loaded.none (tis : List TaskInstance) : Loaded none tis :=
  ⟨fun _ h => by simp at h, fun _ h => by simp at h⟩

/-- An instance that is not terminal is not the pinned one. -/
theorem Loaded.other {pin : Option TaskInstance} {tis : List TaskInstance} (h : Loaded pin tis) {ti : TaskInstance}
    (hti : ti ∈ tis) (hopen : ti.state.isTerminal = false) : ∀ f ∈ pin, ti.id ≠ f.id := by
  intro f hf hid
  have hterminal := TaskState.isTerminal_of_isFailure (h.failed f hf ti hti hid)
  rw [hopen] at hterminal
  cases hterminal

private theorem childOf_empty : childOf "" = "" := by decide

theorem Loaded.set {pin : Option TaskInstance} {tis : List TaskInstance} (h : Loaded pin tis) {ti new : TaskInstance}
    (hti : ti ∈ tis) (hopen : ti.state.isTerminal = false) (hnew : Follows ti new) : Loaded pin (setTI tis new) := by
  constructor
  · intro f hf row hrow hid
    rcases mem_setTI hrow with rfl | hold
    · have hsame : row.id = ti.id := by
        rcases hnew with rfl | hnew
        · rfl
        · exact hnew.row.1
      exact absurd (hsame ▸ hid) (h.other hti hopen f hf)
    · exact h.failed f hf row hold hid
  · intro f hf row hrow hsched hne
    rcases mem_setTI hrow with rfl | hold
    · rcases hnew with rfl | hnew
      · exact h.noSelf f hf row hti hsched hne
      · rw [hnew.scheduled hsched] at hne
        exact absurd childOf_empty hne
    · exact h.noSelf f hf row hold hsched hne

section Steps
variable {cfg : Cfg} {faults : Prop} {aim : Aim} {r : String} {k : Kind} {t : Nat} {free : Prop}
  {pin : Option TaskInstance} {cond : Kind → Nat → {β : Type} → Cmd β → World → Prop} {calm : World → Prop}
  (hcond : ∀ {k t β} {c : Cmd β} {w}, cond k t c w → Fair cfg aim r w c) (hapt : Apt t free pin)
include hcond hapt

theorem Base.stepRules :
    StepRules cfg (rules cfg faults cond calm aim r k t) (Base aim r t free pin) (Loaded pin) where
  read _ hx := Base.keeps hcond hapt (hx.mono (readPrint_le _))
  found id := Base.query hcond hapt (fun _ _ _ hrun => (Db.run?_spec (Db.getDagRun_ok.mp hrun)).2)
  set hI hmem hopen hnew := hI.set hmem hopen hnew
  update hI hmem hopen hnew := by
    refine Base.keeps hcond hapt (.statement ?_)
    intro f hf
    rw [hnew.row.1]
    exact hI.other hmem hopen f hf
  guarded _ _ _ _ _ _ := Base.keeps hcond hapt (.statement (by trivial))
  retry hI hmem hsched hne := retryRunLocked_keeps hcond hapt (fun f hf => (hI.noSelf f hf _ hmem hsched hne).symm)
  create _ := Base.keeps hcond hapt (.statement (by trivial))

/-! ### The end of a step -/

omit hcond hapt in
private theorem finalState_ne_running {d : DAG} {tis : List TaskInstance} : finalState d tis ≠ some .running := by
  unfold finalState
  dsimp only
  split
  · split
    · nofun
    · split <;> nofun
  · nofun

omit hcond hapt in
private theorem timeoutRun_respectful {run : DagRun} {tis : List TaskInstance} :
    (respectful aim r False none).Bounds (timeoutRun cfg run tis) := by
  have hcancel : ∀ ref, (respectful aim r False none).Bounds (cancelAttempt (cancelRunLocked cfg.bound) ref) :=
    cancelAttempt_bounds (fun child => (cancelRunLocked_bounds _ child).mono (cancelPrint_le_respectful aim r))
  refine .bind (.ask _) (fun fin => .bind (.outcome (.statement ?_)) ?_)
  · exact fun _ => ⟨fun _ h => (nomatch h), False.elim⟩
  · intro result
    split
    · exact .pure _
    · refine .forM (fun ti _ => .ite (.pure _) (.ite (.bind (hcancel _) (fun _ => ?_)) ?_))
      · exact .attempt (.statement (by trivial))
      · exact .attempt (.statement (by trivial))

/-- The run is finished as a success only if that is allowed. -/
theorem finalizeRun_triple {d : DAG} {run : DagRun}
    (hsuccess : ∀ s, Base aim r t free pin s → finalState d (s.db.listTaskInstances run.runID) = some .success →
      run.runID = r → free) :
    Triple (rules cfg faults cond calm aim r k t) (Base aim r t free pin) (finalizeRun cfg d run)
      (fun _ => Base aim r t False none) := by
  have hlist : Gives (rules cfg faults cond calm aim r k t) (Base aim r t free pin)
      (fun tis => finalState d tis = some .success → run.runID = r → free)
      (list (fun db => db.listTaskInstances run.runID)) := by
    refine Base.query hcond hapt ?_
    rintro s tis hs ⟨⟩
    exact hsuccess s hs
  refine .bind hlist ?_ (fun _ _ h => h.plain)
  intro tis s hs
  obtain ⟨hbase, hfree⟩ := hs
  split
  · refine Triple.strengthen (Base.keeps hcond (.plain t) ?_) (fun _ h => h.plain) s hbase
    unfold enforceDeadlines
    split
    · exact .pure _
    · exact .bind (.ask _) (fun _ => .ite timeoutRun_respectful (.pure _))
  · rename_i final hfinal
    refine Triple.bind (m := fun _ => Base aim r t free pin) (Base.keeps hcond hapt (.ask _)) ?_ (fun _ _ h => h.plain)
      s hbase
    intro fin
    refine .ite (fun hsucc => ?_) (fun _ => ?_)
    · subst hsucc
      refine (Base.keeps hcond hapt (.statement ?_)).weaken (fun _ _ h => h.plain)
      exact fun hid => hfree hfinal hid
    · refine (Base.keeps hcond (.plain t) (.statement ?_)).strengthen (fun _ h => h.plain)
      refine fun _ => ⟨fun _ hrunning => ?_, False.elim⟩
      rw [hrunning] at hfinal
      exact absurd hfinal finalState_ne_running

/-- The part of a step from its start on. -/
theorem driveRun_triple {pre : World → Prop} {d : DAG} {run : DagRun} {tis : List TaskInstance} (hloaded : Loaded pin tis)
    (hstart : Triple (rules cfg faults cond calm aim r k t) pre (startRun run)
      (Ends (fun run' s => Base aim r t free pin s ∧ run'.runID = run.runID ∧ run'.held = run.held)
        (Base aim r t False none)))
    (hsuccess : run.held = false → ∀ s, Base aim r t free pin s →
      finalState d (s.db.listTaskInstances run.runID) = some .success → run.runID = r → free) :
    Triple (rules cfg faults cond calm aim r k t) pre (driveRun cfg d run tis) (fun _ => Base aim r t False none) := by
  have hrules : StepRules cfg (rules cfg faults cond calm aim r k t) (Base aim r t free pin) (Loaded pin) :=
    Base.stepRules hcond hapt
  refine .bind hstart ?_ (fun _ _ h => h)
  rintro run' s ⟨hbase, hid, hheld⟩
  refine Triple.bind (hrules.propagate _ hloaded) ?_ (fun _ _ h => h.plain) s hbase
  rintro byTask s ⟨hbase, hloaded⟩
  refine Triple.bind (m := fun _ => Base aim r t free pin) (hrules.read _ (.ask _)) ?_ (fun _ _ h => h.plain) s hbase
  intro now
  refine Triple.bind (hrules.requeue hloaded) ?_ (fun _ _ h => h.plain)
  rintro byTask s ⟨hbase, hloaded⟩
  refine Triple.ite (fun _ => .pure (fun _ h => h.plain)) (fun hnot => ?_) s hbase
  have hcollect := hrules.collect (Q := fun _ => True) d run' d.tasks (fun _ _ _ _ _ _ _ _ => trivial)
    hloaded [] (fun _ _ => trivial)
  refine .bind hcollect ?_ (fun _ _ h => h.plain)
  rintro ⟨ready, err⟩ s ⟨hbase, -⟩
  cases err with
  | some e => exact hbase.plain
  | none =>
    refine Triple.bind (m := fun _ => Base aim r t False none) (.bind (m := fun _ => Base aim r t False none)
      (.outcome (finalizeRun_triple hcond hapt ?_)) (fun _ => .pure (fun _ h => h)) (fun _ _ h => h))
      (fun _ => .pure (fun _ h => h)) (fun _ _ h => h) s hbase
    rw [hid]
    exact hsuccess (by rw [← hheld]; simpa using hnot)

/-! ### The beginning of a step -/

/-- In addition no scheduled row of the pinned run names the run itself as its child. -/
structure Prepared (aim : Aim) (r : String) (t : Nat) (free : Prop) (pin : Option TaskInstance) (s : World) : Prop
    extends Base aim r t free pin s where
  noSelf : ∀ f ∈ pin, ∀ row ∈ s.db.tasks.rows, row.runID = f.runID → row.state = .scheduled →
    childOf row.executorRef ≠ "" → childOf row.executorRef ≠ f.runID

omit hcond in
theorem Prepared.stable {s s' : World} (hrely : Rely aim r t s s') (h : Prepared aim r t free pin s) :
    Prepared aim r t free pin s' := by
  refine ⟨h.toBase.stable hapt hrely, ?_⟩
  intro f hf row hrow hrun hsched hne
  have ht := hapt.loop (.inr (Option.isSome_of_mem hf))
  subst ht
  rcases hrely.undisturbed.refs h.held rfl row hrow hsched with hold | href
  · exact h.noSelf f hf row hold hrun hsched hne
  · rw [href] at hne
    exact absurd childOf_empty hne

omit hcond hapt in
private theorem adopted_rows {db : Db} {β : Type} {w : Write β} (hw : AdoptWrite w) {row : TaskInstance}
    (hrow : row ∈ (db.apply w).2.tasks.rows) : row ∈ db.tasks.rows ∨ row.executorRef = "" := by
  cases hw with
  | definition runID yaml hash =>
    rw [Db.apply_tasks rfl] at hrow
    exact .inl hrow
  | @create ti _ href =>
    rcases db.createTaskInstance_cases ti with ⟨_, heq⟩ | ⟨tasks, htasks, heq⟩ <;> rw [heq] at hrow
    · exact .inl hrow
    · rw [show _ = _ from Relational.Table.rows_insert? htasks] at hrow
      rcases List.mem_append.mp hrow with hold | hnew
      · exact .inl hold
      · obtain rfl := List.mem_singleton.mp hnew
        exact .inr href

theorem Prepared.keeps {α : Type} {x : M α} (hx : adoptPrint.Bounds x) :
    Keeps (rules cfg faults cond calm aim r k t) (Prepared aim r t free pin) x := by
  refine Triple.of_uses hx (fun s s' hrely h => h.stable hapt hrely) ?_
  intro β c hc s x s' hs hsem
  have hspec := sem_spec hcond hsem
  have hallowed : (respectful aim r free pin).allows c := by
    cases c with
    | write w => exact (adoptPrint_le_respectful aim r free pin).writes w hc
    | lock => exact hc
    | unlock => exact hc
    | recovered => exact hc
    | _ => trivial
  obtain ⟨hown, hbase⟩ := hs.toBase.step hapt hspec hallowed
  refine ⟨hspec.guar hown, hbase, ?_⟩
  have hrows : ∀ row ∈ s'.db.tasks.rows, row ∈ s.db.tasks.rows ∨ row.executorRef = "" := by
    have heffect := hspec.effect
    intro row hrow
    cases c with
    | write w =>
      obtain ⟨rfl, -⟩ | ⟨rfl, -⟩ := heffect
      · exact .inl hrow
      · exact adopted_rows hc hrow
    | enter op => exact hc.elim
    | leave op ok => exact hc.elim
    | lock => exact hc.elim
    | unlock => exact hc.elim
    | _ =>
      rw [(heffect.silent_eq rfl).1] at hrow
      exact .inl hrow
  intro f hf row hrow hrun hsched hne
  rcases hrows row hrow with hold | href
  · exact hs.noSelf f hf row hold hrun hsched hne
  · rw [href] at hne
    exact absurd childOf_empty hne

omit hcond in
private theorem Prepared.loaded {s : World} (h : Prepared aim r t free pin s) {runID : String}
    (hpin : ∀ f ∈ pin, f.runID = runID) : Loaded pin (s.db.listTaskInstances runID) := by
  constructor
  · intro f hf ti hti hid
    have hrow := Db.task?_of_mem (Db.mem_listTaskInstances.mp hti).1
    rw [hid, h.pinned f hf] at hrow
    cases hrow
    exact hapt.failed f hf
  · intro f hf ti hti
    obtain ⟨hmem, hrun⟩ := Db.mem_listTaskInstances.mp hti
    exact h.noSelf f hf ti hmem (hrun.trans (hpin f hf).symm)

theorem reconcile_gives (run : DagRun) (d : DAG) (hpin : ∀ f ∈ pin, f.runID = run.runID) :
    Gives (rules cfg faults cond calm aim r k t) (Prepared aim r t free pin) (Loaded pin) (reconcile cfg run d) := by
  have hlist : Gives (rules cfg faults cond calm aim r k t) (Prepared aim r t free pin) (Loaded pin)
      (list (fun db => db.listTaskInstances run.runID)) := by
    refine Triple.call (fun s s' hrely h => h.stable hapt hrely) ?_
    intro s v s' hs hsem
    have hspec := sem_spec hcond hsem
    obtain ⟨rfl, hv⟩ := hspec.effect
    refine ⟨hspec.guar trivial, ?_⟩
    cases v with
    | error e => exact hs
    | ok tis =>
      rcases hv with hv | hv
      · cases hv
        exact ⟨hs, hs.loaded hapt hpin⟩
      · cases hv
  refine .bind hlist (fun tis htis => .ite (fun _ => ?_) (fun _ => .pure htis))
  exact .bind (Prepared.keeps hcond hapt (expandRun_bounds run d tis)).gives (fun _ _ => hlist)

private theorem dagForRun_gives (snap : DagRun) :
    Gives (rules cfg faults cond calm aim r k t) (Prepared aim r t free pin) (fun p => Resolved cfg snap p.1 p.2)
      (dagForRun cfg snap) :=
  (dagForRun_yields snap).gives (Prepared.keeps hcond hapt (dagForRun_bounds snap))

end Steps

section Processing
variable {cfg : Cfg} {faults : Prop} {aim : Aim} {r : String} {k : Kind} {before free : Prop}
  {pin : Option TaskInstance} {cond : Kind → Nat → {β : Type} → Cmd β → World → Prop} {calm : World → Prop}
  (hcond : ∀ {k t β} {c : Cmd β} {w}, cond k t c w → Fair cfg aim r w c)
include hcond

omit hcond in
private theorem Apt.unpinned {free : Prop} : Apt 0 free none := ⟨fun _ => rfl, fun _ h => by simp at h⟩

/-- One step of a listed run. What is known of `r` may improve when the run is started. -/
private theorem step_triple {snap : DagRun} (hbefore : Apt 0 before pin) (hafter : Apt 0 free pin)
    (hpin : ∀ f ∈ pin, f.runID = snap.runID)
    (hstart : ∀ run d, Resolved cfg snap d run → Triple (rules cfg faults cond calm aim r k 0) (Base aim r 0 before pin)
      (startRun run) (Ends (fun run' s => Base aim r 0 free pin s ∧ run'.runID = run.runID ∧ run'.held = run.held)
        (Base aim r 0 False none)))
    (hsuccess : ∀ d, (snap.definitionYAML ≠ "" → parseDefinition cfg snap.definitionYAML = .ok d) → snap.held = false →
      ∀ s, Base aim r 0 free pin s → finalState d (s.db.listTaskInstances snap.runID) = some .success →
        snap.runID = r → free) :
    Triple (rules cfg faults cond calm aim r k 0) (Prepared aim r 0 before pin) (do
      let (d, run) ← dagForRun cfg snap
      let tis ← reconcile cfg run d
      if tis = [] then
        failEmptyRun run
        return []
      else driveRun cfg d run tis) (fun _ => Base aim r 0 False none) := by
  refine .bind (dagForRun_gives hcond hbefore snap) ?_ (fun _ _ h => h.toBase.plain)
  rintro ⟨d, run⟩ s ⟨hs, hrun⟩
  refine Triple.bind (reconcile_gives hcond hbefore run d ?_) ?_ (fun _ _ h => h.toBase.plain) s hs
  · intro f hf
    rw [hrun.runID]
    exact hpin f hf
  rintro tis s ⟨hs, hloaded⟩
  refine Triple.ite (fun _ => ?_) (fun _ => ?_) s hs.toBase
  · refine Triple.strengthen (Base.keeps hcond (.plain 0) (.bind (.bind (.ask _) (fun _ => .statement ?_))
      (fun _ => .pure _))) (fun _ h => h.plain)
    exact fun _ => ⟨fun _ h => (nomatch h), False.elim⟩
  · refine driveRun_triple hcond hafter hloaded (hstart run d hrun) ?_
    rw [hrun.held, hrun.runID]
    exact hsuccess d hrun.parsed

omit hcond in
/-- A run that is not queued is not written when its step starts. -/
private theorem startRun_skip {run : DagRun} (hne : run.state ≠ .queued) :
    Triple (rules cfg faults cond calm aim r k 0) (Base aim r 0 free pin) (startRun run)
      (Ends (fun run' s => Base aim r 0 free pin s ∧ run'.runID = run.runID ∧ run'.held = run.held)
        (Base aim r 0 False none)) :=
  .ite (fun h => absurd h hne) (fun _ => .pure (fun _ h => ⟨h, rfl, rfl⟩))

/-- Starting a run that may be started. -/
private theorem startRun_keeps {run : DagRun} (hapt : Apt 0 free none) (hallowed : run.runID = r → free) :
    Triple (rules cfg faults cond calm aim r k 0) (Base aim r 0 free none) (startRun run)
      (Ends (fun run' s => Base aim r 0 free none s ∧ run'.runID = run.runID ∧ run'.held = run.held)
        (Base aim r 0 False none)) := by
  refine .ite (fun _ => ?_) (fun _ => .pure (fun _ h => ⟨h, rfl, rfl⟩))
  refine .bind (m := fun _ => Base aim r 0 free none) (Base.keeps hcond hapt (.ask _)) (fun now => ?_)
    (fun _ _ h => h.plain)
  refine .bind (m := fun _ => Base aim r 0 free none) (Base.keeps hcond hapt (.statement ?_))
    (fun _ => .pure (fun _ h => ⟨h, rfl, rfl⟩)) (fun _ _ h => h.plain)
  refine fun hid => ⟨fun _ _ => hallowed hid, fun _ => ?_⟩
  cases aim <;> rfl

/-- For legality a queued snapshot may restart its run, which is unprotected then. -/
private theorem startRun_legal {run : DagRun} (haim : aim = .legality) (hqueued : run.state = .queued)
    (hid : run.runID = r) :
    Triple (rules cfg faults cond calm aim r k 0) (Base aim r 0 False none) (startRun run)
      (Ends (fun run' s => Base aim r 0 True none s ∧ run'.runID = run.runID ∧ run'.held = run.held)
        (Base aim r 0 False none)) := by
  refine .ite (fun _ => ?_) (fun h => absurd hqueued h)
  refine .bind (m := fun _ => Base aim r 0 False none) (Base.keeps hcond (.plain 0) (.ask _)) (fun now => ?_)
    (fun _ _ h => h)
  refine .bind (m := Ends (fun _ => Base aim r 0 True none) (Base aim r 0 False none)) ?_
    (fun _ => .pure (fun _ h => ⟨h, rfl, rfl⟩)) (fun _ _ h => h)
  refine Triple.call (fun s s' hrely h => h.stable (.plain 0) hrely) ?_
  intro s v s' hs hsem
  have hspec := sem_spec hcond hsem
  have hfinal : aim ≠ .finality := by rw [haim]; nofun
  have hrespects : (respectful aim r False none).allows
      (.write (.updateDagRunState run.runID .running (some now) none)) :=
    fun _ => ⟨fun h => absurd h hfinal, False.elim⟩
  obtain ⟨hown, hbase⟩ := hs.step (.plain 0) hspec hrespects
  refine ⟨hspec.guar hown, ?_⟩
  cases v with
  | error e => exact hbase
  | ok u =>
    refine ⟨⟨hbase.held, fun _ => ?_, hbase.pinned⟩, hbase.unrevived⟩
    obtain ⟨-, hv⟩ | ⟨rfl, hv⟩ := hspec.effect
    · cases hv
    · rcases s.db.updateDagRunState_cases run.runID .running (some now) none with ⟨e, heq⟩ | ⟨row, hrow, -, heq⟩
      · rw [heq] at hv
        cases hv
      · intro a ha
        simp only [World.written, heq, Db.runState, ← hid, Db.run?_recordState_self hrow, Option.map_some,
          Option.some.injEq] at ha
        subst ha
        cases aim <;> rfl

omit hcond in
private theorem finalState_failed {d : DAG} {db : Db} {f : TaskInstance} (hrow : db.task? f.id = some f)
    (htask : f.taskID ∈ d.tasks.map (·.id)) (hfailed : f.state.isFailure = true) :
    finalState d (db.listTaskInstances f.runID) ≠ some .success := by
  have hmem : f ∈ db.listTaskInstances f.runID := Db.mem_listTaskInstances.mpr ⟨(Db.task?_spec hrow).1, rfl⟩
  have hfind : findTI (db.listTaskInstances f.runID) f.taskID = some f := by
    have hsome : (findTI (db.listTaskInstances f.runID) f.taskID).isSome := by
      unfold findTI
      rw [List.find?_isSome]
      exact ⟨f, hmem, by simp⟩
    obtain ⟨g, hg⟩ := Option.isSome_iff_exists.mp hsome
    obtain ⟨hgmem, hgid⟩ := findTI_spec hg
    rw [hg, Db.listTaskInstances_unique hgmem hmem hgid]
  obtain ⟨task, htaskmem, htaskid⟩ := List.mem_map.mp htask
  have hstate : some f.state ∈ d.tasks.map (fun t => (findTI (db.listTaskInstances f.runID) t.id).map (·.state)) :=
    List.mem_map.mpr ⟨task, htaskmem, by rw [htaskid, hfind]; rfl⟩
  unfold finalState
  dsimp only
  generalize d.tasks.map (fun t => (findTI (db.listTaskInstances f.runID) t.id).map (·.state)) = states at hstate ⊢
  split
  · split
    · intro h
      cases h
    · rename_i hnone
      split
      · intro h
        cases h
      · rename_i hnot
        simp only [List.any_eq_true, not_exists, not_and, Bool.not_eq_true] at hnone hnot
        have h1 := hnone _ hstate
        have h2 := hnot _ hstate
        revert hfailed h1 h2
        cases f.state <;> simp [TaskState.isFailure]
  · intro h
    cases h

/-- What the beginning of a step of `snap` tells about `r`. -/
private inductive Outlook (cfg : Cfg) (aim : Aim) (r : String) (snap : DagRun) (s : World) : Prop where
  | other : snap.runID ≠ r → Base aim r 0 False none s → Outlook cfg aim r snap s
  | free : Base aim r 0 True none s → Outlook cfg aim r snap s
  | broken {e : Err} : snap.definitionYAML ≠ "" → parseDefinition cfg snap.definitionYAML = .error e →
      Base aim r 0 False none s → Outlook cfg aim r snap s
  | legal : aim = .legality → snap.state = .queued → snap.runID = r → Base aim r 0 False none s →
      Outlook cfg aim r snap s
  | held : snap.state ≠ .queued → snap.held = true → Base aim r 0 False none s → Outlook cfg aim r snap s
  | spoiled {d : DAG} {f : TaskInstance} : snap.state ≠ .queued → snap.definitionYAML ≠ "" →
      parseDefinition cfg snap.definitionYAML = .ok d → f.runID = snap.runID → f.taskID ∈ d.tasks.map (·.id) →
      f.state.isFailure = true → Prepared aim r 0 False (some f) s → Outlook cfg aim r snap s

omit hcond in
private theorem Base.prepared {s : World} {t : Nat} (h : Base aim r t free none s) : Prepared aim r t free none s :=
  ⟨h, fun _ h => by simp at h⟩

omit hcond in
private theorem outlook {snap : DagRun} {s : World} (hs : Base aim r 0 False none s)
    (hfair : snap.runID = r → ¬ Unprotected aim r s.db → Harmless cfg aim snap s.db) : Outlook cfg aim r snap s := by
  by_cases hid : snap.runID = r
  swap
  · exact .other hid hs
  by_cases hfree : Unprotected aim r s.db
  · exact .free ⟨⟨hs.held, fun _ => hfree, hs.pinned⟩, hs.unrevived⟩
  rcases hfair hid hfree with ⟨hyaml, e, he⟩ | ⟨haim, hqueued⟩ | ⟨hne, hheld | ⟨hyaml, d, hd, hspoiled⟩⟩
  · exact .broken hyaml he hs
  · exact .legal haim hqueued hid hs
  · exact .held hne hheld hs
  · obtain ⟨f, hmem, hrun, htask, hfailed⟩ := hspoiled.failed
    refine .spoiled hne hyaml hd hrun htask hfailed ⟨⟨⟨hs.held, False.elim, ?_⟩, hs.unrevived⟩, ?_⟩
    · rintro g ⟨⟩
      exact Db.task?_of_mem hmem
    · rintro g ⟨⟩ row hrow hrowrun hsched hchild
      rw [hrun] at hrowrun ⊢
      exact hspoiled.noSelf row hrow hrowrun hsched hchild

private theorem step_outlook {snap : DagRun} :
    Triple (rules cfg faults cond calm aim r k 0) (Outlook cfg aim r snap) (do
      let (d, run) ← dagForRun cfg snap
      let tis ← reconcile cfg run d
      if tis = [] then
        failEmptyRun run
        return []
      else driveRun cfg d run tis) (fun _ => Base aim r 0 False none) := by
  intro s hs
  cases hs with
  | other hne hbase =>
    refine step_triple hcond (.plain 0) (.plain 0) (fun _ h => by simp at h) ?_ (fun _ _ _ _ _ _ hid => hne hid) s
      hbase.prepared
    intro run d hrun
    exact startRun_keeps hcond (.plain 0) (fun hid => hne (hrun.runID ▸ hid))
  | free hbase =>
    refine step_triple hcond .unpinned .unpinned (fun _ h => by simp at h) ?_ (fun _ _ _ _ _ _ _ => trivial) s
      hbase.prepared
    exact fun run d hrun => startRun_keeps hcond .unpinned (fun _ => trivial)
  | broken hyaml he hbase =>
    -- the definition does not parse, so nothing is written
    have hfails : Triple (rules cfg faults cond calm aim r k 0) (Base aim r 0 False none) (dagForRun cfg snap)
        (Ends (fun _ _ => False) (Base aim r 0 False none)) := by
      refine .ite (fun _ => ?_) (fun hempty => absurd hyaml hempty)
      rw [he]
      exact fun s hs => hs
    exact Triple.bind (q := fun _ => Base aim r 0 False none) hfails (fun _ _ h => h.elim) (fun _ _ h => h) s hbase
  | legal haim hqueued hid hbase =>
    refine step_triple hcond (.plain 0) .unpinned (fun _ h => by simp at h) ?_ (fun _ _ _ _ _ _ _ => trivial) s
      hbase.prepared
    exact fun run d hrun => startRun_legal hcond haim (hrun.state.trans hqueued) (hrun.runID.trans hid)
  | held hne hheld hbase =>
    refine step_triple hcond (.plain 0) (.plain 0) (fun _ h => by simp at h) ?_ ?_ s hbase.prepared
    · intro run d hrun
      exact startRun_skip (hrun.state ▸ hne)
    · intro d _ hnot
      rw [hheld] at hnot
      cases hnot
  | @spoiled d f hne hyaml hd hrun htask hfailed hprepared =>
    have hapt : Apt 0 False (some f) := ⟨fun _ => rfl, by rintro g ⟨⟩; exact hfailed⟩
    refine step_triple hcond hapt hapt (by rintro g ⟨⟩; exact hrun) ?_ ?_ s hprepared
    · intro run d' hresolved
      exact startRun_skip (hresolved.state ▸ hne)
    · intro d' hd' _ s hs hsucc _
      have hsame := hd' hyaml
      rw [hd] at hsame
      cases hsame
      rw [← hrun] at hsucc
      exact finalState_failed (hs.pinned f rfl) htask hfailed hsucc

theorem processRunLocked_keeps (snap : DagRun) :
    Keeps (rules cfg faults cond calm aim r k 0) (Base aim r 0 False none) (processRunLocked cfg snap) := by
  refine Triple.around (i := Outlook cfg aim r snap) (d := fun _ => Base aim r 0 False none)
    (fun s s' hrely h => h.stable (.plain 0) hrely) ?_ (step_outlook hcond)
    (fun _ s s' hrely h => h.stable (.plain 0) hrely) ?_
  · intro s s' hs hsem
    have hspec := sem_spec hcond hsem
    obtain ⟨hown, hbase⟩ := hs.step (.plain 0) hspec trivial
    refine ⟨hspec.guar hown, outlook hbase ?_⟩
    obtain rfl := hspec.effect
    exact hspec.fair
  · intro v s s' hs hsem
    have hspec := sem_spec hcond hsem
    obtain ⟨hown, hbase⟩ := hs.step (.plain 0) hspec trivial
    exact ⟨hspec.guar hown, hbase⟩

end Processing
/-! ### All threads -/

/-- Outside its operations a thread has revived nothing. -/
def Unrevived (aim : Aim) (r : String) (t : Nat) (s : World) : Prop := aim = .finality → (t, r) ∉ s.revived

/-- The statement records no state but cancellations. -/
def Mild {β : Type} (w : Write β) : Prop := ∀ id target, w.recordsState id = some target → target = .cancelled

def mildPrint : Footprint where
  writes := Mild
  marks _ := True
  jobs _ := True

theorem queuePrint_le_mildPrint : queuePrint.Le mildPrint where
  writes _ h := by
    cases h <;> nofun
  marks _ h := h.elim
  jobs _ h := h.elim

theorem discardPrint_le_mildPrint (id : String) : (discardPrint id).Le mildPrint where
  writes w h := by
    obtain ⟨hw, -⟩ := h
    cases hw with
    | run runID _ _ =>
      intro id target htarget
      simp only [Write.recordsState, Option.ite_none_right_eq_some, Option.some.injEq] at htarget
      exact htarget.2.symm
    | task _ =>
      intro _ _ h
      cases h
  marks _ h := h.elim
  jobs _ h := h.elim

private theorem attempt_mild {id n : Nat} {ref : String} {β : Type} {w : Write β} (h : AttemptWrite id ref n w) : Mild w := by
  cases h <;> nofun

section Threads
variable {cfg : Cfg} {faults : Prop} {aim : Aim} {r : String} {k : Kind} {t : Nat}
  {cond : Kind → Nat → {β : Type} → Cmd β → World → Prop} {calm : World → Prop}
  (hcond : ∀ {k t β} {c : Cmd β} {w}, cond k t c w → Fair cfg aim r w c)
include hcond

omit hcond in
theorem Unrevived.stable {s s' : World} (hrely : Rely aim r t s s') (h : Unrevived aim r t s) : Unrevived aim r t s' :=
  fun haim hmem => h haim ((hrely.undisturbed.revived r).mpr hmem)

omit hcond in
private theorem Mild.respects {β : Type} {w : Write β} (hw : Mild w) : Respects aim r False none w := by
  cases w with
  | updateTaskInstance ti => exact fun _ h => by simp at h
  | updateDagRunState id target _ _ =>
    have htarget := hw id target (by simp [Write.recordsState])
    subst htarget
    exact fun _ => ⟨fun _ h => (by cases h), False.elim⟩
  | updateDagRunSuccess id _ _ =>
    have htarget := hw id .success (by simp [Write.recordsState])
    cases htarget
  | _ => trivial

theorem Unrevived.keeps {α : Type} {x : M α} (hx : mildPrint.Bounds x) :
    Keeps (rules cfg faults cond calm aim r k t) (Unrevived aim r t) x := by
  refine Triple.of_uses hx (fun s s' hrely h => h.stable hrely) ?_
  intro β c hc s v s' hs hsem
  have hspec := sem_spec hcond hsem
  have hforget : Unrevived aim r t { s with revived := s.forget t } := by
    intro _ hmem
    simp [World.forget] at hmem
  have heffect := hspec.effect
  cases c with
  | write w =>
    refine ⟨hspec.guar ?_, ?_⟩
    · cases w with
      | updateDagRunSuccess id _ _ =>
        have := hc id .success (by simp [Write.recordsState])
        cases this
      | _ => trivial
    · obtain ⟨rfl, -⟩ | ⟨rfl, -⟩ := heffect
      · exact hs
      · exact revived_written hs (respects_cancelled (Mild.respects hc) False.elim)
  | enter op =>
    obtain rfl := heffect
    exact ⟨hspec.guar hs, hforget⟩
  | leave op ok =>
    obtain rfl := heffect
    exact ⟨hspec.guar (fun haim hmem => absurd hmem (hs haim)), hforget⟩
  | lock => exact hc.elim
  | unlock => exact hc.elim
  | _ =>
    obtain ⟨-, -, -, hrevived⟩ := heffect.silent_eq rfl
    refine ⟨hspec.guar trivial, ?_⟩
    intro haim
    rw [hrevived]
    exact hs haim

theorem locked_keeps {α : Type} {body : M α}
    (hbody : Keeps (rules cfg faults cond calm aim r k t) (Base aim r t False none) body) :
    Keeps (rules cfg faults cond calm aim r k t) (Unrevived aim r t) (locked body) := by
  refine .around (fun s s' hrely h => h.stable hrely) ?_ hbody (fun _ s s' hrely h => h.stable (.plain t) hrely) ?_
  · intro s s' hs hsem
    have hspec := sem_spec hcond hsem
    obtain ⟨rfl, -⟩ := hspec.effect
    exact ⟨hspec.guar trivial, ⟨rfl, False.elim, fun _ h => by simp at h⟩, hs⟩
  · intro v s s' hs hsem
    have hspec := sem_spec hcond hsem
    obtain rfl := hspec.effect
    exact ⟨hspec.guar trivial, hs.unrevived⟩

private theorem loop_keeps : Keeps (rules cfg faults cond calm aim r k 0) (Unrevived aim r 0) (run cfg) := by
  refine run_keeps (fun _ hx => Unrevived.keeps hcond (hx.mono queuePrint_le_mildPrint)) ?_ ?_
    (fun snap => locked_keeps hcond (processRunLocked_keeps hcond snap)) ?_ ?_
  · refine Unrevived.keeps hcond (recover_bounds.mono ?_)
    exact ⟨fun w hw => by obtain ⟨_, _, _, hw⟩ := hw; exact attempt_mild hw, fun _ _ => trivial, fun _ _ => trivial,
      fun _ => trivial⟩
  · refine .lift (fun s s' hrely h => h.stable hrely) ?_
    intro s v s' hs hsem
    have hspec := sem_spec hcond hsem
    obtain ⟨-, -, -, hrevived⟩ := hspec.effect.silent_eq rfl
    refine ⟨hspec.guar trivial, ?_⟩
    intro haim
    rw [hrevived]
    exact hs haim
  · intro snap
    refine Unrevived.keeps hcond (.marked trivial ((cancelQueued_bounds snap).mono (discardPrint_le_mildPrint _)))
  · intro ready
    refine .ite (.pure _) (locked_keeps hcond (Base.keeps hcond (.plain 0) ((admitInOrder_bounds _).mono ?_)))
    refine ⟨fun w hw => ?_, fun _ _ => trivial, fun _ _ => trivial, fun _ => trivial⟩
    cases hw
    exact fun _ h => by simp at h

private theorem operator_keeps (c : Call) :
    Keeps (rules cfg faults cond calm aim r k t) (Unrevived aim r t) (c.body cfg) :=
  call_keeps (fun _ hx => Unrevived.keeps hcond (hx.mono queuePrint_le_mildPrint))
    (fun _ _ => locked_keeps hcond (cancelRunLocked_keeps hcond _ _))
    (fun _ _ _ => locked_keeps hcond (retryTaskLocked_keeps hcond (.plain t) (fun _ h => by simp at h)))
    (fun _ _ => locked_keeps hcond (retryRunLocked_keeps hcond (.plain t) (fun _ h => by simp at h)))
    (fun _ _ _ _ _ => locked_keeps hcond (markTaskLocked_keeps hcond _ _ _))
    (fun _ _ _ => locked_keeps hcond (markRunLocked_keeps hcond _ _))

omit hcond in
private theorem Rely.of_eq {s s' : World} (hundisturbed : Undisturbed t s s') (hactive : s'.active = s.active)
    (hruns : s'.db.runs = s.db.runs) : Rely aim r t s s' := by
  have hstate : s'.db.runState r = s.db.runState r := by
    unfold Db.runState Db.run?
    rw [hruns]
  refine ⟨hundisturbed, ?_⟩
  intro _ _ _ hno
  rw [hactive]
  exact ⟨hno, ⟨fun a ha => hstate.trans ha, fun hnone => .inl (hstate.trans hnone)⟩⟩

omit hcond in
private theorem starts_rely {p : Program Cmd (Except Err Unit)} {s s' : World} (h : Starts cfg t k p s s') (t' : Nat) :
    Rely aim r t' s s' := by
  have hundisturbed := starts_undisturbed h t'
  cases h <;> exact .of_eq hundisturbed rfl rfl

end Threads

/-- Every thread of the scheduler keeps to the aim. -/
def lifecycle (cfg : Cfg) (faults : Prop) (aim : Aim) (r : String) (cond : Kind → Nat → {β : Type} → Cmd β → World → Prop)
    (calm : World → Prop) (hcond : ∀ {k t β} {c : Cmd β} {w}, cond k t c w → Fair cfg aim r w c) :
    Discipline (base cfg faults cond calm) where
  inv _ := True
  free := Unrevived aim r
  rely := Rely aim r
  guar k t _ c s x s' := (rules cfg faults cond calm aim r k t).guar c s x s'
  rely_refl := .refl aim r
  rely_trans _ _ _ _ := .trans
  free_rely _ _ _ hrely h := h.stable hrely
  guar_inv _ _ _ _ _ _ _ _ _ := trivial
  guar_rely _ _ t' _ _ _ _ _ hne _ hguar := hguar.1 t' hne
  start_inv _ _ _ _ _ _ _ _ := trivial
  start_rely _ _ _ _ _ _ _ hstart t' _ := starts_rely hstart t'
  start_holds t k p s s' _ hfree hstart := by
    have hfree' := hfree.stable (starts_rely hstart t)
    cases hstart with
    | loop => exact loop_keeps hcond _ hfree'
    | call _ c => exact operator_keeps hcond c _ hfree'
    | goroutine _ n job =>
      refine Unrevived.keeps hcond ((body_bounds job).mono ?_) _ hfree'
      exact ⟨fun w hw => attempt_mild hw, fun _ h => h.elim, fun _ h => h.elim, fun _ => trivial⟩
  drift_inv _ _ _ _ := trivial
  drift_rely s s' _ hdrift t := by
    obtain ⟨dags, rows, edges, pools, rfl⟩ := hdrift
    exact .of_eq (.of_eq rfl rfl rfl rfl rfl) rfl rfl
  reset_inv _ _ _ _ := trivial
  reset_free s s' _ hreset t := by
    obtain ⟨-, dags, rfl⟩ := hreset
    exact fun _ hmem => by simp at hmem

end Cronova.Properties.RunStates
