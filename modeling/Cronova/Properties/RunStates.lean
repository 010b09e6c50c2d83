import Cronova.Scheduler.Mutex

/-! Which threads take a run out of an ended state. The two store writers differ:
one checks the prior state and one does not, and processing works on a snapshot
that was listed before the mutex was taken. The discipline here says when neither
lets go of a state that is to be kept. -/
namespace Cronova.Properties.RunStates
open Cronova.Model Cronova.Store Cronova.Concurrency Cronova.Concurrency.Fallible Cronova.Scheduler

/-- What is asked of a run: that a cancellation is final, or that its state moves
along the lifecycle only. -/
inductive Aim where
  | finality | legality
  deriving DecidableEq

/-- The states that must not be left without a reason. -/
def Aim.protects : Aim → RunState → Bool
  | _, .cancelled => true
  | .legality, .timedOut => true
  | _, _ => false

/-- The operations that are there to override the outcome of run `r`. -/
def Overrides (r : String) : Op → Prop
  | .retryTask id _ | .retryRun id | .markTask id _ _ | .markRun id _ => id = r
  | _ => False

instance (r : String) : DecidablePred (Overrides r)
  | .retryTask id _ | .retryRun id | .markTask id _ _ | .markRun id _ => inferInstanceAs (Decidable (id = r))
  | .processRun _ | .discardRun _ | .cancelRun _ => inferInstanceAs (Decidable False)

/-- The stored state of `r` is not a protected one. -/
def Unprotected (aim : Aim) (r : String) (db : Db) : Prop :=
  ∀ a, db.runState r = some a → aim.protects a = false

/-- A task of the definition has failed in the run, and no scheduled task of the
run names the run itself as its child. -/
structure Spoiled (r : String) (d : DAG) (db : Db) : Prop where
  failed : ∃ row ∈ db.tasks.rows, row.runID = r ∧ row.taskID ∈ d.tasks.map (·.id) ∧ row.state.isFailure = true
  noSelf : ∀ row ∈ db.tasks.rows, row.runID = r → row.state = .scheduled → childOf row.executorRef ≠ "" →
    childOf row.executorRef ≠ r

/-- A snapshot that may be processed although its run has ended meanwhile: its
definition does not parse, or it was listed as running and is held or has a failed
task. For legality alone a queued snapshot does no harm either. -/
def Harmless (cfg : Cfg) (aim : Aim) (snap : DagRun) (db : Db) : Prop :=
  (snap.definitionYAML ≠ "" ∧ ∃ e, parseDefinition cfg snap.definitionYAML = .error e) ∨
  (aim = .legality ∧ snap.state = .queued) ∨
  (snap.state ≠ .queued ∧ (snap.held = true ∨ (snap.definitionYAML ≠ "" ∧
    ∃ d, parseDefinition cfg snap.definitionYAML = .ok d ∧ Spoiled snap.runID d db)))

/-- The condition under which a command is executed. -/
def Fair (cfg : Cfg) (aim : Aim) (r : String) (w : World) : {β : Type} → Cmd β → Prop
  | _, .enter (.processRun snap) => snap.runID = r → ¬ Unprotected aim r w.db → Harmless cfg aim snap w.db
  | _, .enter (.markRun id .success) => aim = .legality → id = r →
      Unprotected aim r w.db ∧ (0, Op.discardRun r) ∉ w.active
  | _, .enter (.discardRun id) => aim = .legality → id = r → ∀ t, (t, Op.markRun r .success) ∉ w.active
  | _, _ => True

/-- The run keeps its state, or is created in the meantime. -/
structure Stays (r : String) (db db' : Db) : Prop where
  same : ∀ a, db.runState r = some a → db'.runState r = some a
  created : db.runState r = none → db'.runState r = none ∨ db'.runState r = some .queued

/-- No thread but `t` comes between a success mark of `r` and its write. -/
def Watched (aim : Aim) (r : String) (t : Nat) (s s' : World) : Prop :=
  aim = .legality → s.holder = some t → (t, Op.markRun r .success) ∈ s.active → (0, Op.discardRun r) ∉ s.active →
    (0, Op.discardRun r) ∉ s'.active ∧ Stays r s.db s'.db

structure Rely (aim : Aim) (r : String) (t : Nat) (s s' : World) : Prop where
  undisturbed : Undisturbed t s s'
  watched : Watched aim r t s s'

/-- What a command must satisfy for the aim. -/
def Own (aim : Aim) (r : String) (t : Nat) (s : World) : {β : Type} → Cmd β → Prop
  | _, .write (.updateDagRunSuccess id _ _) => aim = .legality → id = r → Unprotected aim r s.db
  | _, .enter _ => aim = .finality → (t, r) ∉ s.revived
  | _, .leave op ok => aim = .finality → (t, r) ∈ s.revived → ok = true ∧ Overrides r op
  | _, _ => True

section Rules
variable {cfg : Cfg} {faults : Prop} {aim : Aim} {r : String} {k : Kind} {t : Nat}
  {cond : Kind → Nat → {β : Type} → Cmd β → World → Prop} {calm : World → Prop}

/-- The scheduler under a condition, with the mutex discipline built in. -/
def base (cfg : Cfg) (faults : Prop) (cond : Kind → Nat → {β : Type} → Cmd β → World → Prop) (calm : World → Prop) :
    System Kind Cmd (Except Err Unit) World :=
  ((mutexDiscipline cfg faults).restrict cond calm).guarded

def rules (cfg : Cfg) (faults : Prop) (cond : Kind → Nat → {β : Type} → Cmd β → World → Prop) (calm : World → Prop)
    (aim : Aim) (r : String) (k : Kind) (t : Nat) : Rules Cmd World where
  sem := (base cfg faults cond calm).sem k t
  rely := Rely aim r t
  guar c s _ s' := (∀ t', t ≠ t' → Rely aim r t' s s') ∧ Own aim r t s c

theorem Stays.refl (r : String) (db : Db) : Stays r db db := ⟨fun _ ha => ha, .inl⟩

theorem Stays.trans {a b c : Db} (hab : Stays r a b) (hbc : Stays r b c) : Stays r a c := by
  refine ⟨fun x hx => hbc.same x (hab.same x hx), ?_⟩
  intro hnone
  rcases hab.created hnone with h | h
  · exact hbc.created h
  · exact .inr (hbc.same _ h)

theorem Stays.unprotected {db db' : Db} (h : Stays r db db') (hdb : Unprotected aim r db) : Unprotected aim r db' := by
  intro a ha
  cases hs : db.runState r with
  | some b =>
    rw [h.same b hs] at ha
    cases ha
    exact hdb _ hs
  | none =>
    rcases h.created hs with hnone | hqueued
    · rw [hnone] at ha
      cases ha
    · rw [hqueued] at ha
      cases ha
      cases aim <;> rfl

/-- A statement that records no state of `r` lets it stay. -/
theorem stays_of_recordsState {s : World} {β : Type} {w : Write β} (hw : Permitted t s w)
    (hrec : w.recordsState r = none) : Stays r s.db (s.db.apply w).2 := by
  refine ⟨fun a ha => Db.apply_runState hrec ha, fun hnone => Db.apply_runState_none hnone ?_⟩
  intro run hrun
  cases w <;> cases hrun <;> exact hw

theorem Rely.refl (aim : Aim) (r : String) (t : Nat) (s : World) : Rely aim r t s s :=
  ⟨.refl t s, fun _ _ _ hno => ⟨hno, .refl r s.db⟩⟩

theorem Rely.trans {a b c : World} (hab : Rely aim r t a b) (hbc : Rely aim r t b c) : Rely aim r t a c := by
  refine ⟨hab.undisturbed.trans hbc.undisturbed, ?_⟩
  intro haim hheld hactive hno
  obtain ⟨hno', hstays⟩ := hab.watched haim hheld hactive hno
  obtain ⟨hno'', hstays'⟩ := hbc.watched haim (hab.undisturbed.holder hheld) ((hab.undisturbed.active _).mp hactive) hno'
  exact ⟨hno'', hstays.trans hstays'⟩

/-- What the semantics of a command says. -/
structure Sem (cfg : Cfg) (aim : Aim) (r : String) (k : Kind) (t : Nat) {β : Type} (c : Cmd β) (s : World) (x : β)
    (s' : World) : Prop where
  effect : World.Effect k t c s x s'
  fair : Fair cfg aim r s c
  orderly : Orderly t s c
  undisturbed : ∀ t', t ≠ t' → Undisturbed t' s s'

theorem sem_spec (hcond : ∀ {k t β} {c : Cmd β} {w}, cond k t c w → Fair cfg aim r w c) {β : Type} {c : Cmd β}
    {s s' : World} {x : β} (h : (rules cfg faults cond calm aim r k t).sem c s x s') : Sem cfg aim r k t c s x s' := by
  obtain ⟨-, ⟨hc, a, -, hexec⟩, horderly, hundisturbed⟩ := h
  exact ⟨World.exec_effect hexec, hcond hc, horderly, hundisturbed⟩

private theorem watched_write {s : World} {t' : Nat} (hne : t ≠ t') {β : Type} {w : Write β} (hw : Permitted t s w) :
    Watched aim r t' s (s.written k t w) := by
  intro _ hheld _ hno
  refine ⟨hno, stays_of_recordsState hw ?_⟩
  have hnot : s.holder ≠ some t := by
    rw [hheld]
    exact fun h => hne (Option.some.inj h).symm
  cases w with
  | updateDagRunSuccess id _ _ => exact absurd hw hnot
  | updateDagRunState id target _ _ =>
    have hid : id ≠ r := by
      rintro rfl
      cases target <;> first | exact hnot hw | exact hno (hw.resolve_left hnot).2
    simp [Write.recordsState, hid]
  | _ => rfl

theorem Sem.watched {β : Type} {c : Cmd β} {s s' : World} {x : β} (h : Sem cfg aim r k t c s x s') {t' : Nat}
    (hne : t ≠ t') : Watched aim r t' s s' := by
  have heffect := h.effect
  have hsame : s'.active = s.active → s'.db = s.db → Watched aim r t' s s' := by
    intro hactive hdb _ _ _ hno
    rw [hactive, hdb]
    exact ⟨hno, .refl r s.db⟩
  cases c with
  | write w =>
    obtain ⟨rfl, -⟩ | ⟨rfl, -⟩ := heffect
    · exact hsame rfl rfl
    · exact watched_write hne h.orderly
  | enter op =>
    obtain rfl := heffect
    intro haim hheld hactive hno
    refine ⟨?_, .refl r s.db⟩
    simp only [List.mem_cons, Prod.mk.injEq, not_or]
    refine ⟨?_, hno⟩
    rintro ⟨rfl, rfl⟩
    exact h.fair haim rfl t' hactive
  | leave op ok =>
    obtain rfl := heffect
    intro _ _ _ hno
    exact ⟨fun hmem => hno (List.mem_of_mem_erase hmem), .refl r s.db⟩
  | lock =>
    obtain ⟨rfl, -⟩ := heffect
    exact hsame rfl rfl
  | unlock =>
    obtain rfl := heffect
    exact hsame rfl rfl
  | _ =>
    obtain ⟨hdb, -, hactive, -⟩ := heffect.silent_eq rfl
    exact hsame hactive hdb

/-- A command keeps the promises to the others; what is left is its own part. -/
theorem Sem.guar {β : Type} {c : Cmd β} {s s' : World} {x : β} (h : Sem cfg aim r k t c s x s') (hown : Own aim r t s c) :
    (rules cfg faults cond calm aim r k t).guar c s x s' :=
  ⟨fun t' hne => ⟨h.undisturbed t' hne, h.watched hne⟩, hown⟩

end Rules

/-! ### What a thread under the mutex keeps -/

/-- The thread holds the mutex; if `free` then `r` is unprotected; the row of
`pin` is stored as it is. -/
structure Ground (aim : Aim) (r : String) (t : Nat) (free : Prop) (pin : Option TaskInstance) (s : World) : Prop where
  held : s.holder = some t
  unprotected : free → Unprotected aim r s.db
  pinned : ∀ f ∈ pin, s.db.task? f.id = some f

/-- In addition the thread has not revived `r`. -/
structure Base (aim : Aim) (r : String) (t : Nat) (free : Prop) (pin : Option TaskInstance) (s : World) : Prop
    extends Ground aim r t free pin s where
  unrevived : aim = .finality → (t, r) ∉ s.revived

/-- The parameters make sense: only the loop's thread may rely on the state of `r`
and on a row, and that row has failed. -/
structure Apt (t : Nat) (free : Prop) (pin : Option TaskInstance) : Prop where
  loop : free ∨ pin.isSome = true → t = 0
  failed : ∀ f ∈ pin, f.state.isFailure = true

/-- The statement neither takes `r` out of a protected state nor touches the pinned row. -/
def Respects (aim : Aim) (r : String) (free : Prop) (pin : Option TaskInstance) : {β : Type} → Write β → Prop
  | _, .updateTaskInstance ti => ∀ f ∈ pin, ti.id ≠ f.id
  | _, .updateDagRunState id target _ _ => id = r → (aim = .finality → target = .running → free) ∧
      (free → aim.protects target = false)
  | _, .updateDagRunSuccess id _ _ => id = r → free
  | _, _ => True

section Base
variable {cfg : Cfg} {faults : Prop} {aim : Aim} {r : String} {k : Kind} {t : Nat} {free : Prop}
  {pin : Option TaskInstance} {cond : Kind → Nat → {β : Type} → Cmd β → World → Prop} {calm : World → Prop}

theorem mem_revivedBy_self {before after : Db} :
    (t, r) ∈ revivedBy t before after ↔
      before.runState r = some .cancelled ∧ after.runState r ≠ some .cancelled := by
  constructor
  · intro h
    obtain ⟨run, hrun, heq⟩ := List.mem_map.mp h
    cases heq
    simp only [Relational.Table.filter, List.mem_filter, decide_eq_true_eq] at hrun
    refine ⟨?_, hrun.2.2⟩
    simp only [Db.runState, Db.run?_of_mem hrun.1, Option.map_some, hrun.2.1]
  · rintro ⟨hbefore, hafter⟩
    obtain ⟨run, hrun, hstate⟩ := Option.map_eq_some_iff.mp hbefore
    obtain ⟨hmem, rfl⟩ := Db.run?_spec hrun
    refine List.mem_map.mpr ⟨run, ?_, rfl⟩
    simp only [Relational.Table.filter, List.mem_filter, decide_eq_true_eq]
    exact ⟨hmem, hstate, hafter⟩

private theorem undisturbed_stays {s s' : World} (h : Undisturbed 0 s s') (hheld : s.holder = some 0) :
    Stays r s.db s'.db :=
  ⟨fun a ha => h.runs hheld r a ha (.inr rfl), fun hnone => (h.created hheld r hnone).imp id (Or.resolve_right · (· rfl))⟩

theorem Ground.stable (hapt : Apt t free pin) {s s' : World} (hrely : Rely aim r t s s')
    (h : Ground aim r t free pin s) : Ground aim r t free pin s' := by
  refine ⟨hrely.undisturbed.holder h.held, ?_, ?_⟩
  · intro hfree
    have ht := hapt.loop (.inl hfree)
    subst ht
    exact (undisturbed_stays hrely.undisturbed h.held).unprotected (h.unprotected hfree)
  · intro f hf
    have ht := hapt.loop (.inr (Option.isSome_of_mem hf))
    subst ht
    exact hrely.undisturbed.rows h.held rfl f.id f (h.pinned f hf)
      (TaskState.isTerminal_of_isFailure (hapt.failed f hf))

theorem Base.stable (hapt : Apt t free pin) {s s' : World} (hrely : Rely aim r t s s')
    (h : Base aim r t free pin s) : Base aim r t free pin s' :=
  ⟨h.toGround.stable hapt hrely, fun haim hmem => h.unrevived haim ((hrely.undisturbed.revived r).mpr hmem)⟩

/-- An unprotected run stays so unless a protected state is recorded. -/
theorem unprotected_write {s : World} {β : Type} {w : Write β} (hw : Permitted t s w)
    (hrec : ∀ target, w.recordsState r = some target → aim.protects target = false) (h : Unprotected aim r s.db) :
    Unprotected aim r (s.db.apply w).2 := by
  cases htarget : w.recordsState r with
  | none => exact (stays_of_recordsState hw htarget).unprotected h
  | some target =>
    intro a ha
    rcases Db.recorded_state htarget ha with rfl | hold
    · exact hrec a htarget
    · exact h a hold

private theorem Respects.recorded {β : Type} {w : Write β} (hw : Respects aim r free pin w) (hfree : free)
    {target : RunState} (h : w.recordsState r = some target) : aim.protects target = false := by
  cases w with
  | updateDagRunState id target' started finished =>
    simp only [Write.recordsState, Option.ite_none_right_eq_some, Option.some.injEq] at h
    obtain ⟨rfl, rfl⟩ := h
    exact (hw rfl).2 hfree
  | updateDagRunSuccess id started finished =>
    simp only [Write.recordsState, Option.ite_none_right_eq_some, Option.some.injEq] at h
    obtain ⟨rfl, rfl⟩ := h
    cases aim <;> rfl
  | _ => cases h

/-- A respectful statement revives nothing. -/
theorem respects_cancelled {s : World} {β : Type} {w : Write β} (hw : Respects .finality r free pin w)
    (hfree : free → Unprotected .finality r s.db) (h : s.db.runState r = some .cancelled) :
    (s.db.apply w).2.runState r = some .cancelled := by
  have hnot : ¬ free := by
    intro hf
    have := hfree hf .cancelled h
    cases this
  cases hrec : w.recordsState r with
  | none => exact Db.apply_runState hrec h
  | some target =>
    cases w with
    | updateDagRunState id target' started finished =>
      have hid : id = r := by
        by_contra hid
        simp [Write.recordsState, hid] at hrec
      subst hid
      rcases s.db.updateDagRunState_cases id target' started finished with ⟨_, heq⟩ | ⟨run, hrun, hlegal, heq⟩
      · rw [heq]
        exact h
      · have hstate : run.state = .cancelled := by simpa [Db.runState, hrun] using h
        rw [hstate] at hlegal
        -- only `running` may follow a cancellation
        have htarget : target' = .running := by
          revert hlegal
          cases target' <;> simp [legalPriorRunStates]
        exact absurd ((hw rfl).1 rfl htarget) hnot
    | updateDagRunSuccess id started finished =>
      have hid : id = r := by
        by_contra hid
        simp [Write.recordsState, hid] at hrec
      exact absurd (hw hid) hnot
    | _ => cases hrec

private theorem pinned_write {db : Db} {β : Type} {w : Write β} (htouch : w.touchesTasks = false) {f : TaskInstance}
    (h : db.task? f.id = some f) : (db.apply w).2.task? f.id = some f := by
  have htasks := Db.apply_tasks (s := db) htouch
  unfold Db.task? at h ⊢
  rw [htasks]
  exact h

/-- A respectful statement leaves a failed row alone. -/
private theorem respects_pinned {db : Db} {β : Type} {w : Write β} (hw : Respects aim r free pin w)
    {f : TaskInstance} (hf : f ∈ pin) (hfailed : f.state.isFailure = true) (h : db.task? f.id = some f) :
    (db.apply w).2.task? f.id = some f := by
  cases w with
  | createTaskInstance ti =>
    rcases db.createTaskInstance_cases ti with ⟨_, heq⟩ | ⟨tasks, htasks, heq⟩ <;> rw [heq]
    · exact h
    · exact Db.task?_insert htasks h
  | updateTaskInstance ti =>
    rcases db.updateTaskInstance_cases ti with ⟨_, heq⟩ | ⟨_, _, heq⟩ <;> rw [heq]
    · exact h
    · exact (Db.task?_writeTask_ne (Ne.symm (hw f hf))).trans h
  | updateTaskInstanceGuarded ti ref => exact Db.guarded_terminal h (TaskState.isTerminal_of_isFailure hfailed)
  | _ => exact pinned_write rfl h

/-- The commands of a respectful program. -/
def respectful (aim : Aim) (r : String) (free : Prop) (pin : Option TaskInstance) : Footprint where
  writes := Respects aim r free pin
  marks _ := True
  jobs _ := True

theorem Base.step (hapt : Apt t free pin) {β : Type} {c : Cmd β} {s s' : World} {x : β}
    (hsem : Sem cfg aim r k t c s x s') (hc : (respectful aim r free pin).allows c) (h : Base aim r t free pin s) :
    Own aim r t s c ∧ Base aim r t free pin s' := by
  have heffect := hsem.effect
  have hmarks : (aim = .finality → (t, r) ∉ s.forget t) := by
    intro _ hmem
    simp [World.forget] at hmem
  cases c with
  | write w =>
    have hw : Respects aim r free pin w := hc
    refine ⟨?_, ?_⟩
    · cases w with
      | updateDagRunSuccess id _ _ => exact fun _ hid => h.unprotected (hw hid)
      | _ => trivial
    · obtain ⟨rfl, -⟩ | ⟨rfl, -⟩ := heffect
      · exact h
      · refine ⟨⟨h.held, fun hfree => unprotected_write hsem.orderly (fun _ => hw.recorded hfree) (h.unprotected hfree),
          fun f hf => respects_pinned hw hf (hapt.failed f hf) (h.pinned f hf)⟩, ?_⟩
        rintro rfl hmem
        rcases List.mem_append.mp hmem with hnew | hold
        · obtain ⟨hbefore, hafter⟩ := mem_revivedBy_self.mp hnew
          exact hafter (respects_cancelled hw h.unprotected hbefore)
        · exact h.unrevived rfl hold
  | enter op =>
    obtain rfl := heffect
    exact ⟨h.unrevived, ⟨h.held, h.unprotected, h.pinned⟩, hmarks⟩
  | leave op ok =>
    obtain rfl := heffect
    exact ⟨fun haim hmem => absurd hmem (h.unrevived haim), ⟨h.held, h.unprotected, h.pinned⟩, hmarks⟩
  | lock => exact hc.elim
  | unlock => exact hc.elim
  | _ =>
    obtain ⟨hdb, hholder, -, hrevived⟩ := heffect.silent_eq rfl
    refine ⟨trivial, ⟨hholder.trans h.held, ?_, ?_⟩, ?_⟩
    · rw [hdb]
      exact h.unprotected
    · rw [hdb]
      exact h.pinned
    · rw [hrevived]
      exact h.unrevived

end Base

section Programs
variable {cfg : Cfg} {faults : Prop} {aim : Aim} {r : String} {k : Kind} {t : Nat} {free : Prop}
  {pin : Option TaskInstance} {cond : Kind → Nat → {β : Type} → Cmd β → World → Prop} {calm : World → Prop}
  (hcond : ∀ {k t β} {c : Cmd β} {w}, cond k t c w → Fair cfg aim r w c) (hapt : Apt t free pin)
include hcond hapt

theorem Base.keeps {α : Type} {x : M α} (hx : (respectful aim r free pin).Bounds x) :
    Keeps (rules cfg faults cond calm aim r k t) (Base aim r t free pin) x := by
  refine Triple.of_uses hx (fun s s' hrely h => h.stable hapt hrely) ?_
  intro β c hc s x s' hs hsem
  have hspec := sem_spec hcond hsem
  obtain ⟨hown, hbase⟩ := hs.step hapt hspec hc
  exact ⟨hspec.guar hown, hbase⟩

/-- A read under the mutex: what the answer says about the state is known. -/
theorem Base.query {α : Type} {q : Db → Except Err α} {p : α → Prop}
    (h : ∀ s v, Base aim r t free pin s → q s.db = .ok v → p v) :
    Gives (rules cfg faults cond calm aim r k t) (Base aim r t free pin) p (query q) := by
  refine Triple.call (fun s s' hrely h => h.stable hapt hrely) ?_
  intro s v s' hs hsem
  have hspec := sem_spec hcond hsem
  obtain ⟨rfl, hv⟩ := hspec.effect
  refine ⟨hspec.guar trivial, ?_⟩
  cases v with
  | error e => exact hs
  | ok a =>
    rcases hv with hv | hv
    · exact ⟨hs, h s' a hs hv.symm⟩
    · cases hv

omit hcond hapt in
theorem revived_written {s : World} {β : Type} {w : Write β} (hs : aim = .finality → (t, r) ∉ s.revived)
    (hkeep : s.db.runState r = some .cancelled → (s.db.apply w).2.runState r = some .cancelled) :
    aim = .finality → (t, r) ∉ (s.written k t w).revived := by
  intro haim hmem
  rcases List.mem_append.mp hmem with hnew | hold
  · obtain ⟨hbefore, hafter⟩ := mem_revivedBy_self.mp hnew
    exact hafter (hkeep hbefore)
  · exact hs haim hold

/-- After the last write of an operation on `runID` the thread may have revived
that run. -/
def Ended (aim : Aim) (r : String) (t : Nat) (free : Prop) (pin : Option TaskInstance) (runID : String) (s : World) :
    Prop :=
  Ground aim r t free pin s ∧ (runID ≠ r → Base aim r t free pin s)

omit hcond in
theorem Ended.stable {runID : String} {s s' : World} (hrely : Rely aim r t s s')
    (h : Ended aim r t free pin runID s) : Ended aim r t free pin runID s' :=
  ⟨h.1.stable hapt hrely, fun hne => (h.2 hne).stable hapt hrely⟩

/-- The write that ends an operation: it may revive the run, but not when it fails. -/
theorem Base.last_write {w : Write Unit} {runID : String} (hid : ∀ id, (w.recordsState id).isSome → id = runID)
    (htouch : w.touchesTasks = false) (hprotects : free → ∀ target, w.recordsState r = some target →
      aim.protects target = false) (hown : ∀ s, Base aim r t free pin s → Own aim r t s (.write w)) :
    Triple (rules cfg faults cond calm aim r k t) (Base aim r t free pin) (statement w)
      (Ends (fun _ => Ended aim r t free pin runID) (Base aim r t free pin)) := by
  refine Triple.call (fun s s' hrely h => h.stable hapt hrely) ?_
  intro s v s' hs hsem
  have hspec := sem_spec hcond hsem
  refine ⟨hspec.guar (hown s hs), ?_⟩
  obtain ⟨rfl, rfl⟩ | ⟨rfl, rfl⟩ := hspec.effect
  · exact hs
  · have hground : Ground aim r t free pin (s.written k t w) :=
      ⟨hs.held, fun hfree => unprotected_write hspec.orderly (hprotects hfree) (hs.unprotected hfree),
        fun f hf => pinned_write htouch (hs.pinned f hf)⟩
    cases hv : (s.db.apply w).1 with
    | ok a =>
      refine ⟨hground, fun hne => ⟨hground, revived_written hs.unrevived ?_⟩⟩
      have hrec : w.recordsState r = none := by
        cases hrec : w.recordsState r with
        | none => rfl
        | some target => exact absurd (hid r (by rw [hrec]; rfl)).symm hne
      exact fun h => Db.apply_runState hrec h
    | error e =>
      refine ⟨hground, revived_written hs.unrevived ?_⟩
      rw [Db.apply_error hv]
      exact id

/-- An operation on `runID` that ends with its last write. -/
theorem Base.operation {α : Type} {op : Op} {body : M α} (runID : String) (hop : runID = r → Overrides r op)
    (hbody : Triple (rules cfg faults cond calm aim r k t) (Base aim r t free pin) body
      (Ends (fun _ => Ended aim r t free pin runID) (Base aim r t free pin))) :
    Keeps (rules cfg faults cond calm aim r k t) (Base aim r t free pin) (marked op body) := by
  have hforget : ∀ s, aim = .finality → (t, r) ∉ World.forget s t := by
    intro s _ hmem
    simp [World.forget] at hmem
  refine Triple.around (fun s s' hrely h => h.stable hapt hrely) ?_ hbody ?_ ?_
  · intro s s' hs hsem
    have hspec := sem_spec hcond hsem
    obtain ⟨hown, hbase⟩ := hs.step hapt hspec trivial
    exact ⟨hspec.guar hown, hbase⟩
  · intro v s s' hrely h
    cases v with
    | ok a => exact Ended.stable hapt hrely h
    | error e => exact Base.stable hapt hrely h
  · intro v s s' hs hsem
    have hspec := sem_spec hcond hsem
    obtain rfl := hspec.effect
    cases v with
    | ok a =>
      refine ⟨hspec.guar ?_, ⟨hs.1.held, hs.1.unprotected, hs.1.pinned⟩, hforget s⟩
      intro haim hmem
      by_cases hid : runID = r
      · exact ⟨rfl, hop hid⟩
      · exact absurd hmem ((hs.2 hid).unrevived haim)
    | error e =>
      exact ⟨hspec.guar (fun haim hmem => absurd hmem (hs.unrevived haim)),
        ⟨hs.held, hs.unprotected, hs.pinned⟩, hforget s⟩

/-! ### Retries -/

/-- None of the instances is the pinned row. -/
def Spare (pin : Option TaskInstance) (tis : List TaskInstance) : Prop := ∀ f ∈ pin, ∀ ti ∈ tis, ti.id ≠ f.id

omit hcond hapt in
private theorem spare_of_listed {runID : String} {db : Db} (hother : ∀ f ∈ pin, f.runID ≠ runID)
    (hpinned : ∀ f ∈ pin, db.task? f.id = some f) : Spare pin (db.listTaskInstances runID) := by
  intro f hf ti hti hid
  obtain ⟨hmem, hrun⟩ := Db.mem_listTaskInstances.mp hti
  have hrow := Db.task?_of_mem hmem
  rw [hid, hpinned f hf] at hrow
  cases hrow
  exact hother f hf hrun

theorem retryContext_gives {runID : String} (hother : ∀ f ∈ pin, f.runID ≠ runID) :
    Gives (rules cfg faults cond calm aim r k t) (Base aim r t free pin)
      (fun c => c.1.runID = runID ∧ Spare pin c.2.2) (retryContext runID) := by
  refine .bind (Base.query hcond hapt (p := fun run => run.runID = runID) ?_) ?_
  · intro s run _ hrun
    exact (Db.run?_spec (Db.getDagRun_ok.mp hrun)).2
  · intro run hrun
    refine .refuse (fun _ => .bind (Base.keeps hcond hapt (.cachedDAG _)).gives ?_)
    intro d _
    split
    · exact .throw _
    · refine .bind (Base.query hcond hapt (p := Spare pin) ?_) (fun tis htis => .pure ⟨hrun, htis⟩)
      intro s tis hs htis
      cases htis
      exact spare_of_listed hother hs.pinned

private theorem createTask_gives (ti : TaskInstance) :
    Gives (rules cfg faults cond calm aim r k t) (Base aim r t free pin) (fun id => ∀ f ∈ pin, id ≠ f.id)
      (statement (.createTaskInstance ti)) := by
  refine Triple.call (fun s s' hrely h => h.stable hapt hrely) ?_
  intro s v s' hs hsem
  have hspec := sem_spec hcond hsem
  obtain ⟨hown, hbase⟩ := hs.step hapt hspec trivial
  refine ⟨hspec.guar hown, ?_⟩
  cases v with
  | error e => exact hbase
  | ok id =>
    refine ⟨hbase, ?_⟩
    intro f hf hid
    obtain ⟨-, hv⟩ | ⟨-, hv⟩ := hspec.effect
    · cases hv
    · rcases s.db.createTaskInstance_cases ti with ⟨_, heq⟩ | ⟨_, _, heq⟩ <;> rw [heq] at hv <;> cases hv
      have hlt := Db.id_lt_nextTaskID (Db.task?_spec (hs.pinned f hf)).1
      omega

private theorem adoptTask_gives {run : DagRun} {d : DAG} {hash : String} {reset : List String}
    {byTask : List TaskInstance} {task : Task} (hspare : Spare pin byTask) :
    Gives (rules cfg faults cond calm aim r k t) (Base aim r t free pin) (Spare pin)
      (adoptTask cfg run d hash reset byTask task) := by
  unfold adoptTask
  split
  · refine .bind (createTask_gives hcond hapt _) (fun id hid => .pure ?_)
    intro f hf ti hti
    rcases List.mem_append.mp hti with hold | hnew
    · exact hspare f hf ti hold
    · rw [List.mem_singleton] at hnew
      subst hnew
      exact hid f hf
  · rename_i row hrow
    refine .ite (fun _ => .pure ?_) (fun _ => .pure hspare)
    intro f hf ti hti
    rcases mem_setTI hti with rfl | hold
    · exact hspare f hf row (findTI_spec hrow).1
    · exact hspare f hf ti hold

/-- The reset rows are not the pinned one, and the run becomes active last. -/
theorem retryTasks_triple {run : DagRun} {d : DAG} {tis : List TaskInstance} {ids : List String}
    (hspare : Spare pin tis) :
    Triple (rules cfg faults cond calm aim r k t) (Base aim r t free pin) (retryTasks cfg run d tis ids)
      (Ends (fun _ => Ended aim r t free pin run.runID) (Base aim r t free pin)) := by
  have hprepare : Gives (rules cfg faults cond calm aim r k t) (Base aim r t free pin) (Spare pin)
      (prepareRetryDefinition cfg run d tis ids) := by
    refine .bind (Base.keeps hcond hapt (.statement (by trivial))).gives (fun _ _ => ?_)
    exact .foldlM _ (fun task _ byTask hbyTask => adoptTask_gives hcond hapt hbyTask) hspare
  refine .bind hprepare ?_ (fun _ _ h => h)
  intro byTask s hs
  refine Triple.bind (m := fun _ => Base aim r t free pin) (Base.keeps hcond hapt (.ask _)) ?_ (fun _ _ h => h) s hs.1
  intro order
  refine Triple.bind (m := fun _ => Base aim r t free pin) (Base.keeps hcond hapt (.forM (fun id _ => ?_))) ?_
    (fun _ _ h => h)
  · split
    · exact .pure _
    · rename_i ti hti
      exact .statement (fun f hf => hs.2 f hf ti (findTI_spec hti).1)
  · intro _
    refine Triple.bind (m := fun _ => Base aim r t free pin) (Base.keeps hcond hapt (.ask _)) ?_ (fun _ _ h => h)
    intro now
    refine Base.last_write hcond hapt ?_ rfl ?_ (fun _ _ => trivial)
    · intro id hid
      by_contra hne
      simp [Write.recordsState, Ne.symm hne] at hid
    · intro _ target htarget
      simp only [Write.recordsState, Option.ite_none_right_eq_some, Option.some.injEq] at htarget
      obtain ⟨-, rfl⟩ := htarget
      cases aim <;> rfl

theorem retryRunLocked_keeps {runID : String} (hother : ∀ f ∈ pin, f.runID ≠ runID) :
    Keeps (rules cfg faults cond calm aim r k t) (Base aim r t free pin) (retryRunLocked cfg runID) := by
  refine Base.operation hcond hapt runID id ?_
  refine .bind (retryContext_gives hcond hapt hother) ?_ (fun _ _ h => h)
  rintro ⟨run, d, tis⟩ s ⟨hs, rfl, hspare⟩
  dsimp only
  split
  · exact hs
  · exact retryTasks_triple hcond hapt hspare s hs

theorem retryTaskLocked_keeps {runID taskID : String} (hother : ∀ f ∈ pin, f.runID ≠ runID) :
    Keeps (rules cfg faults cond calm aim r k t) (Base aim r t free pin) (retryTaskLocked cfg runID taskID) := by
  refine Base.operation hcond hapt runID id ?_
  refine .bind (retryContext_gives hcond hapt hother) ?_ (fun _ _ h => h)
  rintro ⟨run, d, tis⟩ s ⟨hs, rfl, hspare⟩
  dsimp only
  split
  · exact hs
  · exact retryTasks_triple hcond hapt hspare s hs

end Programs

/-! ### Operator calls -/

theorem Apt.plain (t : Nat) : Apt t False none := ⟨fun h => by simp at h, fun _ h => by simp at h⟩

theorem Base.plain {aim : Aim} {r : String} {t : Nat} {free : Prop} {pin : Option TaskInstance} {s : World}
    (h : Base aim r t free pin s) : Base aim r t False none s :=
  ⟨⟨h.held, False.elim, fun _ h => by simp at h⟩, h.unrevived⟩

theorem cancelPrint_le_respectful (aim : Aim) (r : String) : cancelPrint.Le (respectful aim r False none) where
  writes w h := by
    cases h with
    | run id _ _ => exact fun _ => ⟨fun _ h => (nomatch h), False.elim⟩
    | task _ => exact fun _ h => by simp at h
  marks _ _ := trivial
  jobs _ _ := trivial

theorem adoptPrint_le_respectful (aim : Aim) (r : String) (free : Prop) (pin : Option TaskInstance) :
    adoptPrint.Le (respectful aim r free pin) where
  writes w h := by cases h <;> trivial
  marks _ _ := trivial
  jobs _ _ := trivial

theorem taskPrint_le_respectful (aim : Aim) (r : String) (free : Prop) : taskPrint.Le (respectful aim r free none) where
  writes w h := by
    cases h
    exact fun _ h => by simp at h
  marks _ _ := trivial
  jobs _ _ := trivial

theorem queuePrint_le_respectful (aim : Aim) (r : String) (free : Prop) (pin : Option TaskInstance) :
    queuePrint.Le (respectful aim r free pin) where
  writes w h := by cases h <;> trivial
  marks _ _ := trivial
  jobs _ _ := trivial

section Calls
variable {cfg : Cfg} {faults : Prop} {aim : Aim} {r : String} {k : Kind} {t : Nat}
  {cond : Kind → Nat → {β : Type} → Cmd β → World → Prop} {calm : World → Prop}
  (hcond : ∀ {k t β} {c : Cmd β} {w}, cond k t c w → Fair cfg aim r w c)
include hcond

theorem cancelRunLocked_keeps (levels : Nat) (runID : String) :
    Keeps (rules cfg faults cond calm aim r k t) (Base aim r t False none) (cancelRunLocked levels runID) :=
  Base.keeps hcond (.plain t) ((cancelRunLocked_bounds levels runID).mono (cancelPrint_le_respectful aim r))

omit hcond in
private theorem Base.ended {free : Prop} {pin : Option TaskInstance} {runID : String} {s : World}
    (h : Base aim r t free pin s) : Ended aim r t free pin runID s :=
  ⟨h.toGround, fun _ => h⟩

private theorem seq_keeps {α β : Type} {x : M β} {f : β → M α} {post : Except Err α → World → Prop}
    (hx : (respectful aim r False none).Bounds x)
    (hf : ∀ b, Triple (rules cfg faults cond calm aim r k t) (Base aim r t False none) (f b) post)
    (he : ∀ e s, Base aim r t False none s → post (.error e) s) :
    Triple (rules cfg faults cond calm aim r k t) (Base aim r t False none) (x >>= f) post :=
  Triple.bind (m := fun _ => Base aim r t False none) (Base.keeps hcond (.plain t) hx) hf he

theorem markTaskLocked_keeps (runID taskID : String) (target : TaskState) :
    Keeps (rules cfg faults cond calm aim r k t) (Base aim r t False none) (markTaskLocked cfg runID taskID target) := by
  refine Base.operation hcond (.plain t) runID id ?_
  have hcontext : (respectful aim r False none).Bounds (markContext cfg runID) :=
    .bind (.query _) (fun _ => .bind ((dagForRun_bounds _).mono (adoptPrint_le_respectful aim r _ _)) (fun _ =>
      .bind (.list _) (fun _ => .pure _)))
  have hcancel : ∀ ref, (respectful aim r False none).Bounds (cancelAttempt (cancelRunLocked cfg.bound) ref) :=
    cancelAttempt_bounds (fun child => (cancelRunLocked_bounds _ child).mono (cancelPrint_le_respectful aim r))
  refine seq_keeps hcond hcontext ?_ (fun _ _ h => h)
  rintro ⟨run, d, tis⟩
  dsimp only
  split
  · exact .throw (fun _ h => h)
  · rename_i ti hti
    have hlast : ∀ now, Triple (rules cfg faults cond calm aim r k t) (Base aim r t False none) (do
        statement (.updateTaskInstance { ti with state := target, finishedAt := some now })
        if run.state.isTerminal then statement (.updateDagRunState runID .running (some now) none))
        (Ends (fun _ => Ended aim r t False none runID) (Base aim r t False none)) := by
      intro now
      refine seq_keeps hcond (.statement (fun _ h => by simp at h)) (fun _ => ?_) (fun _ _ h => h)
      split
      · refine Base.last_write hcond (.plain t) ?_ rfl False.elim (fun _ _ => trivial)
        intro id hid
        by_contra hne
        simp [Write.recordsState, Ne.symm hne] at hid
      · exact .pure (fun _ h => h.ended)
    have hrelease : ∀ now, Triple (rules cfg faults cond calm aim r k t) (Base aim r t False none) (do
        if target = .success ∨ target = .skipped then releaseDownstream d tis taskID
        statement (.updateTaskInstance { ti with state := target, finishedAt := some now })
        if run.state.isTerminal then statement (.updateDagRunState runID .running (some now) none))
        (Ends (fun _ => Ended aim r t False none runID) (Base aim r t False none)) := by
      intro now
      refine .ite (fun _ => seq_keeps hcond ?_ (fun _ => hlast now) (fun _ _ h => h)) (fun _ => hlast now)
      exact releaseDownstream_bounds (fun _ => (taskPrint_le_respectful aim r _).writes _ (.update _)) d tis taskID
    refine .refuse (fun _ h => h) (fun _ => seq_keeps hcond (.ask _) (fun now => ?_) (fun _ _ h => h))
    exact .ite (fun _ => seq_keeps hcond (hcancel _) (fun _ => hrelease now) (fun _ _ h => h)) (fun _ => hrelease now)

/-- A success mark of `r` in progress, on a run it may be set on. -/
private structure Marking (aim : Aim) (r : String) (t : Nat) (s : World) : Prop where
  held : s.holder = some t
  marked : (t, Op.markRun r .success) ∈ s.active
  alone : (0, Op.discardRun r) ∉ s.active
  unprotected : Unprotected aim r s.db

omit hcond in
private theorem Marking.stable (haim : aim = .legality) {s s' : World} (hrely : Rely aim r t s s')
    (h : Marking aim r t s) : Marking aim r t s' := by
  obtain ⟨halone, hstays⟩ := hrely.watched haim h.held h.marked h.alone
  exact ⟨hrely.undisturbed.holder h.held, (hrely.undisturbed.active _).mp h.marked, halone,
    hstays.unprotected h.unprotected⟩

private theorem Marking.silent {α : Type} {c : Cmd α} (hc : World.silent c = true) :
    ∀ s x s', Marking aim r t s → (rules cfg faults cond calm aim r k t).sem c s x s' →
      (rules cfg faults cond calm aim r k t).guar c s x s' ∧ Marking aim r t s' := by
  intro s x s' hs hsem
  have hspec := sem_spec hcond hsem
  obtain ⟨hdb, hholder, hactive, -⟩ := hspec.effect.silent_eq hc
  refine ⟨hspec.guar ?_, hholder.trans hs.held, hactive ▸ hs.marked, hactive ▸ hs.alone, hdb ▸ hs.unprotected⟩
  cases c <;> trivial

/-- The success mark of `r` finds it unprotected from its beginning to its write. -/
private theorem markSuccess_keeps (haim : aim = .legality) :
    Keeps (rules cfg faults cond calm aim r k t) (Base aim r t False none) (markRunLocked cfg r .success) := by
  have hstable : Stable (rules cfg faults cond calm aim r k t) (Marking aim r t) := fun _ _ hrely h =>
    h.stable haim hrely
  have hbase : ∀ s, Marking aim r t s → Base aim r t False none s := fun s h =>
    ⟨⟨h.held, False.elim, fun _ h => by simp at h⟩, fun hfinal => by rw [haim] at hfinal; cases hfinal⟩
  refine Triple.around (i := Marking aim r t) (d := fun _ => Base aim r t False none)
    (fun s s' hrely h => h.stable (.plain t) hrely) ?_ ?_ (fun _ s s' hrely h => h.stable (.plain t) hrely) ?_
  · intro s s' hs hsem
    have hspec := sem_spec hcond hsem
    obtain ⟨hown, hbase⟩ := hs.step (.plain t) hspec trivial
    obtain ⟨hunprotected, halone⟩ := hspec.fair haim rfl
    obtain rfl := hspec.effect
    refine ⟨hspec.guar hown, hs.held, List.mem_cons_self, ?_, hunprotected⟩
    simp [halone]
  · have hwrite : ∀ (run : DagRun) (fin : Time), Triple (rules cfg faults cond calm aim r k t) (Marking aim r t) (do
        statement (.updateDagRunSuccess r run.startedAt (some fin))
        processPendingDependencyEvents cfg) (fun _ => Base aim r t False none) := by
      intro run fin
      refine Triple.bind (m := fun _ => Base aim r t False none) (Triple.call hstable ?_) (fun _ => ?_) (fun _ _ h => h)
      · intro s v s' hs hsem
        have hspec := sem_spec hcond hsem
        refine ⟨hspec.guar (fun _ _ => hs.unprotected), ?_⟩
        refine ⟨⟨?_, False.elim, fun _ h => by simp at h⟩, fun hfinal => by rw [haim] at hfinal; cases hfinal⟩
        obtain ⟨rfl, -⟩ | ⟨rfl, -⟩ := hspec.effect <;> exact hs.held
      · exact Base.keeps hcond (.plain t)
          (processPendingDependencyEvents_bounds.mono (queuePrint_le_respectful aim r _ _))
    refine Triple.bind (m := fun _ => Marking aim r t) (Triple.call hstable (Marking.silent hcond rfl)) ?_
      (fun _ s h => hbase s h)
    intro run
    refine .refuse (fun s h => hbase s h) (fun _ => .ite (fun _ => .pure (fun s h => hbase s h)) (fun _ => ?_))
    dsimp only
    split
    · exact Triple.bind (m := fun _ => Marking aim r t) (.pure (fun _ h => h)) (fun fin => hwrite run fin)
        (fun _ s h => hbase s h)
    · exact Triple.bind (m := fun _ => Marking aim r t) (Triple.lift hstable (Marking.silent hcond rfl))
        (fun fin => hwrite run fin) (fun _ s h => hbase s h)
  · intro v s s' hs hsem
    have hspec := sem_spec hcond hsem
    obtain ⟨hown, hbase⟩ := hs.step (.plain t) hspec trivial
    exact ⟨hspec.guar hown, hbase⟩

omit hcond in
private theorem QueueWrite.own {β : Type} {w : Write β} (h : QueueWrite w) (s : World) : Own aim r t s (.write w) := by
  cases h <;> trivial

private theorem queue_ended {runID : String} {x : M Unit} (hx : queuePrint.Bounds x) (htotal : Total x) :
    Triple (rules cfg faults cond calm aim r k t) (Ended aim r t False none runID) x
      (Ends (fun _ => Ended aim r t False none runID) (Base aim r t False none)) := by
  have hkeeps : Keeps (rules cfg faults cond calm aim r k t) (Ended aim r t False none runID) x := by
    refine Triple.of_uses hx (fun _ _ hrely h => h.stable (.plain t) hrely) ?_
    intro β c hc s v s' hs hsem
    have hspec := sem_spec hcond hsem
    refine ⟨hspec.guar ?_, ⟨?_, False.elim, fun _ h => by simp at h⟩, ?_⟩
    · cases c with
      | write w => exact QueueWrite.own hc s
      | enter op => exact hc.elim
      | leave op ok => exact hc.elim
      | _ => trivial
    · exact ((effect_frame hspec.effect hc).1).trans hs.1.held
    · intro hne
      refine ((hs.2 hne).step (.plain t) hspec ?_).2
      cases c with
      | write w => exact (queuePrint_le_respectful aim r False none).writes w hc
      | enter op => trivial
      | leave op ok => trivial
      | go job => trivial
      | lock => exact hc
      | unlock => exact hc
      | recovered => exact hc
      | _ => trivial
  refine (htotal.triple hkeeps).weaken ?_
  intro v s hs
  cases v with
  | ok a => exact hs.1
  | error e => cases hs.2

theorem markRunLocked_keeps (runID : String) (target : RunState) :
    Keeps (rules cfg faults cond calm aim r k t) (Base aim r t False none) (markRunLocked cfg runID target) := by
  by_cases hwatch : aim = .legality ∧ runID = r ∧ target = .success
  · obtain ⟨haim, rfl, rfl⟩ := hwatch
    exact markSuccess_keeps hcond haim
  refine Base.operation hcond (.plain t) runID id ?_
  have hid : ∀ {w : Write Unit} (target : RunState) {a b : Option Time},
      w = .updateDagRunState runID target a b ∨ w = .updateDagRunSuccess runID a b →
      ∀ id, (w.recordsState id).isSome → id = runID := by
    rintro w target a b (rfl | rfl) id hrec <;> by_contra hne <;> simp [Write.recordsState, Ne.symm hne] at hrec
  have hwrite : ∀ (run : DagRun) (fin : Time), Triple (rules cfg faults cond calm aim r k t) (Base aim r t False none) (do
      if target = .success then
        statement (.updateDagRunSuccess runID run.startedAt (some fin))
        processPendingDependencyEvents cfg
      else statement (.updateDagRunState runID target run.startedAt (some fin)))
      (Ends (fun _ => Ended aim r t False none runID) (Base aim r t False none)) := by
    intro run fin
    refine .ite (fun htarget => ?_) (fun _ => ?_)
    · refine Triple.bind (Base.last_write hcond (.plain t) (hid target (.inr rfl)) rfl False.elim ?_)
        (fun _ => queue_ended hcond processPendingDependencyEvents_bounds processPendingDependencyEvents_total)
        (fun _ _ h => h)
      exact fun _ _ haim hr => absurd ⟨haim, hr, htarget⟩ hwatch
    · exact Base.last_write hcond (.plain t) (hid target (.inl rfl)) rfl False.elim (fun _ _ => trivial)
  refine seq_keeps hcond (.query _) (fun run => ?_) (fun _ _ h => h)
  refine .refuse (fun _ h => h) (fun _ => .ite (fun _ => .pure (fun _ h => h.ended)) (fun _ => ?_))
  dsimp only
  split
  · exact seq_keeps hcond (.pure _) (fun fin => hwrite run fin) (fun _ _ h => h)
  · exact seq_keeps hcond (.ask _) (fun fin => hwrite run fin) (fun _ _ h => h)

end Calls
end Cronova.Properties.RunStates
