import Cronova.Properties.Success
import Cronova.Scheduler.Catalogue

/-! Recorded successes over whole runs of the scheduler: what each operation under
the mutex leaves behind, and the run in which a listed definition is out of date. -/
namespace Cronova.Properties.Success
open Cronova.Model Cronova.Store Cronova.Concurrency Cronova.Concurrency.Fallible Cronova.Scheduler

/-- The thread holds the mutex, a recorded success of `r` is sound, and it does not
rest on the rows of `known`. -/
structure Base (cfg : Cfg) (r : String) (t : Nat) (known : List TaskInstance) (s : World) : Prop where
  held : s.holder = some t
  sound : Sound cfg r s.db
  detached : Detached s.db
  spare : ∀ ti ∈ known, Spare cfg r s.db ti

/-- The statements that keep this. -/
def Mild (r : String) (known : List TaskInstance) : {β : Type} → Write β → Prop
  | _, .updateDagRunSuccess id _ _ | _, .updateDagRunDefinition id _ _ => id ≠ r
  | _, .updateDagRunState id target _ _ => id = r → target ≠ .success
  | _, .updateTaskInstance ti => (ti.state = .scheduled → ti.executorRef = "") ∧ ∃ old ∈ known, old.id = ti.id
  | _, .createTaskInstance ti => ti.state = .scheduled → ti.executorRef = ""
  | _, .publishEvent source _ _ => source ≠ .dependency
  | _, _ => True

def mildPrint (r : String) (known : List TaskInstance) : Footprint where
  writes := Mild r known
  marks _ := True
  jobs _ := True

section Base
variable {cfg : Cfg} {r : String} {k : Kind} {t : Nat} {known : List TaskInstance} {s s' : World}

theorem Spare.stable (hrely : Rely cfg r t s s') (hheld : s.holder = some t) {ti : TaskInstance} (h : Spare cfg r s.db ti) :
    Spare cfg r s'.db ti := by
  obtain ⟨row, hrow, hrun, htask⟩ := h.stored
  obtain ⟨row', hrow', hrun', htask'⟩ := hrely.rows _ row hrow
  refine ⟨⟨row', hrow', hrun'.trans hrun, htask'.trans htask⟩, ?_⟩
  intro hid run' hafter hsuccess d hd
  have hnot : ¬ Open r s.db := fun hopen => open_iff.mp (hrely.opened (.inl hheld) hopen) run' hafter hsuccess
  rw [open_iff] at hnot
  push Not at hnot
  obtain ⟨run, hbefore, hstate⟩ := hnot
  obtain ⟨run'', hsame, hyaml⟩ := hrely.text hheld run hbefore
  rw [hafter] at hsame
  cases hsame
  exact h.unneeded hid run hbefore hstate d (hyaml ▸ hd)

theorem Base.stable (hrely : Rely cfg r t s s') (h : Base cfg r t known s) : Base cfg r t known s' :=
  ⟨hrely.undisturbed.holder h.held, hrely.sound h.held h.sound, hrely.detached h.detached,
    fun ti hti => (h.spare ti hti).stable hrely h.held⟩

theorem Base.fewer {fewer : List TaskInstance} (h : Base cfg r t known s) (hle : ∀ ti ∈ fewer, ti ∈ known) :
    Base cfg r t fewer s :=
  ⟨h.held, h.sound, h.detached, fun ti hti => h.spare ti (hle ti hti)⟩

theorem Base.more {more : List TaskInstance} (h : Base cfg r t known s) (hmore : ∀ ti ∈ more, Spare cfg r s.db ti) :
    Base cfg r t (known ++ more) s := by
  refine ⟨h.held, h.sound, h.detached, ?_⟩
  intro ti hti
  rcases List.mem_append.mp hti with hold | hnew
  · exact h.spare ti hold
  · exact hmore ti hnew

private theorem Mild.records {β : Type} {w : Write β} (hw : Mild r known w) : w.recordsState r ≠ some .success := by
  cases w with
  | updateDagRunState id target started finished =>
    simp only [Write.recordsState]
    split
    · rename_i hid
      exact fun h => hw hid (Option.some.inj h)
    · intro h
      cases h
  | updateDagRunSuccess id started finished =>
    simp only [Write.recordsState, if_neg (show ¬ id = r from hw)]
    intro h
    cases h
  | _ =>
    intro h
    cases h

private theorem Mild.text {β : Type} {w : Write β} (hw : Mild r known w) : redefines w ≠ some r := by
  cases w with
  | updateDagRunDefinition id yaml hash => exact fun h => hw (Option.some.inj h)
  | _ =>
    intro h
    cases h

private theorem Mild.gentle {β : Type} {w : Write β} (hw : Mild r known w) (h : Base cfg r t known s) (hp : Permitted t s w) :
    Gentle cfg r s.db w := by
  refine ⟨hw.records, creates_queued hp, fun htext => absurd htext hw.text, ?_⟩
  intro run d task hrun hsuccess hd htask row hrow hid hname hdone
  cases hrewrites : rewrites w with
  | none => exact rows_untouched hrewrites hrow
  | some id =>
    cases w with
    | updateTaskInstance ti =>
      obtain ⟨-, old, hold, hsame⟩ := hw
      exact rows_kept (w := .updateTaskInstance ti) (h.spare old hold) (congrArg some hsame.symm) run d task hrun hsuccess hd htask row hrow hid hname hdone
    | updateTaskInstanceGuarded ti ref =>
      refine Db.guarded_terminal (Db.task?_of_mem hrow) ?_
      revert hdone
      cases row.state <;> simp [isDone, TaskState.isTerminal]
    | _ => cases hrewrites

private theorem Mild.detaching {β : Type} {w : Write β} (hw : Mild r known w) (hp : Permitted t s w) : Detaching w := by
  cases w with
  | createTaskInstance ti => exact hw
  | updateTaskInstance ti => exact hw.1
  | updateTaskInstanceGuarded ti ref => exact hp
  | _ => trivial

theorem Base.step (h : Base cfg r t known s) {β : Type} {c : Cmd β} {x : β} (hsem : Sem cfg r k t c s x s')
    (hc : (mildPrint r known).allows c) : Own cfg r t s c ∧ Base cfg r t known s' := by
  have heffect := hsem.effect
  cases c with
  | write w =>
    have hw : Mild r known w := hc
    obtain ⟨rfl, -⟩ := hsem.answered
    refine ⟨?_, h.held, h.sound.apply (hw.gentle h hsem.orderly), h.detached.apply (hw.detaching hsem.orderly), ?_⟩
    · cases w with
      | updateDagRunSuccess id started finished => exact fun hid => absurd hid hw
      | updateDagRunState id target started finished => exact hw
      | updateTaskInstance ti => exact ⟨hw.1, .inl h.held⟩
      | createTaskInstance ti => exact hw
      | publishEvent source key payload => exact hw
      | _ => trivial
    · exact fun ti hti => (h.spare ti hti).apply hw.records (creates_queued hsem.orderly) (fun htext => absurd htext hw.text)
  | enter op =>
    obtain rfl := heffect
    exact ⟨trivial, h.held, h.sound, h.detached, h.spare⟩
  | leave op ok =>
    obtain rfl := heffect
    exact ⟨trivial, h.held, h.sound, h.detached, h.spare⟩
  | lock => exact hc.elim
  | unlock => exact hc.elim
  | _ =>
    obtain ⟨hdb, hholder, -, -⟩ := heffect.silent_eq rfl
    exact ⟨trivial, hholder.trans h.held, hdb ▸ h.sound, hdb ▸ h.detached, hdb ▸ h.spare⟩

theorem Base.keeps {α : Type} {x : M α} (hx : (mildPrint r known).Bounds x) :
    Keeps (rules cfg r k t) (Base cfg r t known) x := by
  refine Triple.of_uses hx (fun s s' hrely h => h.stable hrely) ?_
  intro β c hc s x s' hs hsem
  have hspec := sem_spec hsem
  obtain ⟨hown, hbase⟩ := hs.step hspec hc
  exact ⟨hspec.guar hown, hbase⟩

/-- A program keeps what its statements keep. -/
theorem keeps_of_writes {F : Footprint} {A : World → Prop} {α : Type} {x : M α} (hx : F.Bounds x)
    (hstable : Stable (rules cfg r k t) A) (hframe : ∀ s s', s'.db = s.db → s'.holder = s.holder → A s → A s')
    (hwrite : ∀ {β : Type} (w : Write β), F.writes w → ∀ s, A s → Permitted t s w →
      Own cfg r t s (.write w) ∧ A (s.written k t w)) : Keeps (rules cfg r k t) A x := by
  refine Triple.of_uses hx hstable ?_
  intro β c hc s x s' hs hsem
  have hspec := sem_spec hsem
  have heffect := hspec.effect
  cases c with
  | write w =>
    obtain ⟨rfl, -⟩ := hspec.answered
    obtain ⟨hown, hafter⟩ := hwrite w hc s hs hspec.orderly
    exact ⟨hspec.guar hown, hafter⟩
  | enter op =>
    obtain rfl := heffect
    exact ⟨hspec.guar trivial, hframe s _ rfl rfl hs⟩
  | leave op ok =>
    obtain rfl := heffect
    exact ⟨hspec.guar trivial, hframe s _ rfl rfl hs⟩
  | lock => exact hc.elim
  | unlock => exact hc.elim
  | _ =>
    obtain ⟨hdb, hholder, -, -⟩ := heffect.silent_eq rfl
    exact ⟨hspec.guar trivial, hframe s s' hdb hholder hs⟩

/-- A query under the mutex reads the state it is answered in. -/
theorem query_triple {A : World → Prop} {β : Type} {q : Db → Except Err β} {post : β → World → Prop} {E : World → Prop}
    (hstable : Stable (rules cfg r k t) A) (hok : ∀ s v, A s → q s.db = .ok v → post v s) (herr : ∀ s e, A s → q s.db = .error e → E s) :
    Triple (rules cfg r k t) A (query q) (Ends post E) := by
  refine Triple.call hstable ?_
  intro s v s' hs hsem
  have hspec := sem_spec hsem
  obtain ⟨rfl, -⟩ := hspec.effect
  refine ⟨hspec.guar trivial, ?_⟩
  have hv : v = q s'.db := hspec.answered
  cases v with
  | error e => exact herr s' e hs hv.symm
  | ok a => exact hok s' a hs hv.symm

theorem list_triple {A : World → Prop} {β : Type} {q : Db → β} {post : β → World → Prop} {E : World → Prop}
    (hstable : Stable (rules cfg r k t) A) (hok : ∀ s, A s → post (q s.db) s) :
    Triple (rules cfg r k t) A (list q) (Ends post E) := by
  refine query_triple hstable ?_ ?_
  · rintro s v hs ⟨⟩
    exact hok s hs
  · rintro s e hs ⟨⟩

/-- The instances of a list that have not ended. -/
def unfinished (tis : List TaskInstance) : List TaskInstance := tis.filter (fun ti => !ti.state.isTerminal)

theorem mem_unfinished {tis : List TaskInstance} {ti : TaskInstance} :
    ti ∈ unfinished tis ↔ ti ∈ tis ∧ ti.state.isTerminal = false := by
  simp [unfinished]

/-- What the holder lists and finds unfinished is spare. -/
theorem Base.listed (h : Base cfg r t known s) (runID : String) :
    Base cfg r t (known ++ unfinished (s.db.listTaskInstances runID)) s := by
  refine h.more ?_
  intro ti hti
  obtain ⟨hmem, hopen⟩ := mem_unfinished.mp hti
  exact h.sound.spare (Db.mem_listTaskInstances.mp hmem).1 hopen

theorem Base.listing (runID : String) :
    Triple (rules cfg r k t) (Base cfg r t known) (list (fun db => db.listTaskInstances runID))
      (Ends (fun tis => Base cfg r t (known ++ unfinished tis)) (Base cfg r t known)) :=
  list_triple (fun _ _ hrely h => h.stable hrely) (fun _ hs => hs.listed runID)

end Base

/-! ### Cancellation -/

section Cancel
variable {cfg : Cfg} {r : String} {k : Kind} {t : Nat} {known : List TaskInstance}

theorem cancelAttempt_keeps {cancelChild : String → M Unit}
    (h : ∀ child, Keeps (rules cfg r k t) (Base cfg r t known) (cancelChild child)) (ref : String) :
    Keeps (rules cfg r k t) (Base cfg r t known) (cancelAttempt cancelChild ref) := by
  unfold cancelAttempt
  split
  · exact .bind (.outcome (h _)) (fun _ => .pure _)
  · exact Base.keeps (.ask _)

private theorem cancelTask_keeps {levels : Nat} (ih : ∀ known child, Keeps (rules cfg r k t) (Base cfg r t known) (cancelRunLocked levels child))
    {fin : Time} {ti : TaskInstance} (hti : ti.state.isTerminal = false → ti ∈ known) :
    Keeps (rules cfg r k t) (Base cfg r t known) (cancelTask (cancelRunLocked levels) fin ti) := by
  have hwrite : ti.state.isTerminal = false → Keeps (rules cfg r k t) (Base cfg r t known)
      (attempt (statement (.updateTaskInstance { ti with state := .cancelled, finishedAt := some fin }))) :=
    fun hopen => Base.keeps (.attempt (.statement ⟨nofun, ti, hti hopen, rfl⟩))
  refine Triple.ite (fun _ => .pure (fun _ h => h)) (fun hnot => ?_)
  have hopen : ti.state.isTerminal = false := by simpa using hnot
  exact Keeps.ite (Keeps.bind (cancelAttempt_keeps (ih known) _) (fun _ => hwrite hopen)) (hwrite hopen)

theorem cancelRunLocked_keeps (levels : Nat) (known : List TaskInstance) (runID : String) :
    Keeps (rules cfg r k t) (Base cfg r t known) (cancelRunLocked levels runID) := by
  induction levels generalizing known runID with
  | zero => exact Base.keeps (.halt trivial)
  | succ levels ih =>
    have hmark : ∀ c, (mildPrint r known).allows c → ∀ s s', Base cfg r t known s → (rules cfg r k t).sem c s () s' →
        (rules cfg r k t).guar c s () s' ∧ Base cfg r t known s' := by
      intro c hc s s' hs hsem
      have hspec := sem_spec hsem
      obtain ⟨hown, hbase⟩ := hs.step hspec hc
      exact ⟨hspec.guar hown, hbase⟩
    refine Triple.around (i := Base cfg r t known) (d := fun _ => Base cfg r t known) (fun _ _ hrely h => h.stable hrely)
      (hmark _ trivial) ?_ (fun _ _ _ hrely h => h.stable hrely) (fun _ => hmark _ trivial)
    refine Keeps.bind (Base.keeps (.query _)) (fun run => Triple.refuse (fun _ h => h) (fun _ => ?_))
    refine Keeps.bind (Base.keeps (.ask _)) (fun fin => Keeps.bind (Base.keeps (.statement (fun _ => nofun))) (fun _ => ?_))
    refine Triple.bind (Base.listing runID) (fun tis => ?_) (fun _ _ h => h)
    have hloop : Keeps (rules cfg r k t) (Base cfg r t (known ++ unfinished tis))
        (tis.forM (cancelTask (cancelRunLocked levels) fin)) :=
      .forM (fun ti hti => cancelTask_keeps ih (fun hopen => List.mem_append_right _ (mem_unfinished.mpr ⟨hti, hopen⟩)))
    exact hloop.weaken (fun _ _ h => h.fewer (fun ti hti => List.mem_append_left _ hti))

end Cancel

/-! ### The definition of a run -/

/-- The definition stored for `r` has these tasks. -/
def Text (cfg : Cfg) (r : String) (tasks : List Task) (db : Db) : Prop :=
  ∃ run d, db.run? r = some run ∧ parseDefinition cfg run.definitionYAML = .ok d ∧ d.tasks = tasks

/-- In addition the stored definition is known, if the operation is about `r`. -/
structure Driven (cfg : Cfg) (r : String) (t : Nat) (known : List TaskInstance) (runID : String) (tasks : List Task) (s : World) :
    Prop extends Base cfg r t known s where
  text : runID = r → Text cfg r tasks s.db

section Definition
variable {cfg : Cfg} {r : String} {k : Kind} {t : Nat} {known : List TaskInstance} {s s' : World} {runID : String}
  {tasks : List Task}

theorem Current.stable (hrely : Rely cfg r t s s') (hheld : s.holder = some t) {snap : DagRun} (h : Current r snap s.db) :
    Current r snap s'.db := by
  obtain ⟨run, hrun, hyaml⟩ := h
  obtain ⟨run', hrun', hsame⟩ := hrely.text hheld run hrun
  exact ⟨run', hrun', hsame.trans hyaml⟩

theorem Text.stable (hrely : Rely cfg r t s s') (hheld : s.holder = some t) (h : Text cfg r tasks s.db) : Text cfg r tasks s'.db := by
  obtain ⟨run, d, hrun, hd, htasks⟩ := h
  obtain ⟨run', hrun', hsame⟩ := hrely.text hheld run hrun
  exact ⟨run', d, hrun', hsame ▸ hd, htasks⟩

theorem Driven.stable (hrely : Rely cfg r t s s') (h : Driven cfg r t known runID tasks s) : Driven cfg r t known runID tasks s' :=
  ⟨h.toBase.stable hrely, fun hid => (h.text hid).stable hrely h.held⟩

theorem Driven.fewer {fewer : List TaskInstance} (h : Driven cfg r t known runID tasks s) (hle : ∀ ti ∈ fewer, ti ∈ known) :
    Driven cfg r t fewer runID tasks s :=
  ⟨h.toBase.fewer hle, h.text⟩

theorem Driven.step (h : Driven cfg r t known runID tasks s) {β : Type} {c : Cmd β} {x : β} (hsem : Sem cfg r k t c s x s')
    (hc : (mildPrint r known).allows c) : Own cfg r t s c ∧ Driven cfg r t known runID tasks s' := by
  obtain ⟨hown, hbase⟩ := h.toBase.step hsem hc
  refine ⟨hown, hbase, ?_⟩
  intro hid
  obtain ⟨run, d, hrun, hd, htasks⟩ := h.text hid
  have hsame : s'.db = s.db → Text cfg r tasks s'.db := by
    intro hdb
    rw [hdb]
    exact ⟨run, d, hrun, hd, htasks⟩
  cases c with
  | write w =>
    obtain ⟨rfl, -⟩ := hsem.answered
    obtain ⟨run', hrun', hyaml⟩ := apply_definition (w := w) (Mild.text hc) hrun
    exact ⟨run', d, hrun', hyaml ▸ hd, htasks⟩
  | _ => exact hsame (hsem.effect.db rfl)

theorem Driven.keeps {α : Type} {x : M α} (hx : (mildPrint r known).Bounds x) :
    Keeps (rules cfg r k t) (Driven cfg r t known runID tasks) x := by
  refine Triple.of_uses hx (fun s s' hrely h => h.stable hrely) ?_
  intro β c hc s x s' hs hsem
  have hspec := sem_spec hsem
  obtain ⟨hown, hbase⟩ := hs.step hspec hc
  exact ⟨hspec.guar hown, hbase⟩

/-- A run without a definition is not a sound success. -/
private theorem open_of_blank {snap : DagRun} {db : Db} (hsound : Sound cfg r db) (hcurrent : Current r snap db)
    (hblank : snap.definitionYAML = "") : Open r db := by
  obtain ⟨run, hrun, hyaml⟩ := hcurrent
  rw [open_iff]
  intro run' hrun' hsuccess
  rw [hrun] at hrun'
  cases hrun'
  exact (hsound run hrun hsuccess).1 (hyaml.trans hblank)

/-- A statement that overwrites no row and replaces no definition of a recorded success. -/
private theorem Base.redefine (h : Base cfg r t known s) {β : Type} {w : Write β} (hp : Permitted t s w)
    (hrec : w.recordsState r ≠ some .success) (hrewrites : rewrites w = none) (hdetaching : Detaching w)
    (htext : redefines w = some r → Open r s.db) : Base cfg r t known (s.written k t w) := by
  have hgentle : Gentle cfg r s.db w :=
    ⟨hrec, creates_queued hp, htext, fun _ _ _ _ _ _ _ row hrow _ _ _ => rows_untouched hrewrites hrow⟩
  refine ⟨h.held, h.sound.apply hgentle, h.detached.apply hdetaching, ?_⟩
  exact fun ti hti => (h.spare ti hti).apply hrec (creates_queued hp) htext

/-- The definition that a statement stores. -/
private theorem text_of_definition {db : Db} {id yaml hash : String} {run : DagRun} {d : DAG} (hrun : db.run? id = some run)
    (hd : parseDefinition cfg yaml = .ok d) : Text cfg id d.tasks (db.apply (.updateDagRunDefinition id yaml hash)).2 := by
  refine ⟨{ run with definitionYAML := yaml, definitionHash := hash }, d, ?_, hd, rfl⟩
  simp only [Db.apply, hrun]
  exact Db.run?_modifyRun_self hrun

/-- Storing a parsed definition for a run that has none. -/
private theorem adopt_triple {snap : DagRun} (hblank : snap.definitionYAML = "") {yaml hash : String} {d : DAG}
    (hd : parseDefinition cfg yaml = .ok d) :
    Triple (rules cfg r k t) (fun s => Base cfg r t known s ∧ (snap.runID = r → Current r snap s.db))
      (statement (.updateDagRunDefinition snap.runID yaml hash))
      (Ends (fun _ => Driven cfg r t known snap.runID d.tasks) (Base cfg r t known)) := by
  refine Triple.call (fun s s' hrely h => ⟨h.1.stable hrely, fun hid => (h.2 hid).stable hrely h.1.held⟩) ?_
  rintro s x s' ⟨hbase, hcurrent⟩ hsem
  have hspec := sem_spec hsem
  obtain ⟨rfl, hx⟩ := hspec.answered
  have hopen : snap.runID = r → Open r s.db := fun hid => open_of_blank hbase.sound (hcurrent hid) hblank
  have hafter : Base cfg r t known (s.written k t (.updateDagRunDefinition snap.runID yaml hash)) :=
    hbase.redefine hspec.orderly (silent_none rfl) rfl trivial (fun h => hopen (Option.some.inj h))
  refine ⟨hspec.guar trivial, ?_⟩
  cases x with
  | error e => exact hafter
  | ok u =>
    refine ⟨hafter, ?_⟩
    intro hid
    obtain ⟨run, hrun, -⟩ := hcurrent hid
    rw [← hid] at hrun ⊢
    exact text_of_definition hrun hd

/-- The definition a run is processed with is the one that is stored for it. -/
theorem dagForRun_triple (snap : DagRun) :
    Triple (rules cfg r k t) (fun s => Base cfg r t known s ∧ (snap.runID = r → Current r snap s.db)) (dagForRun cfg snap)
      (Ends (fun p => Driven cfg r t known snap.runID p.1.tasks) (Base cfg r t known)) := by
  have hstable : Stable (rules cfg r k t) (fun s => Base cfg r t known s ∧ (snap.runID = r → Current r snap s.db)) :=
    fun s s' hrely h => ⟨h.1.stable hrely, fun hid => (h.2 hid).stable hrely h.1.held⟩
  unfold dagForRun
  refine Triple.ite (fun hyaml => ?_) (fun hblank => ?_)
  · have hparsed : Triple (rules cfg r k t) (fun s => Base cfg r t known s ∧ (snap.runID = r → Current r snap s.db))
        (Fallible.ofExcept (parseDefinition cfg snap.definitionYAML))
        (Ends (fun d => Driven cfg r t known snap.runID d.tasks) (Base cfg r t known)) := by
      refine .ofExcept ?_
      rintro s ⟨hbase, hcurrent⟩
      cases hd : parseDefinition cfg snap.definitionYAML with
      | error e => exact hbase
      | ok d =>
        refine ⟨hbase, ?_⟩
        intro hid
        obtain ⟨run, hrun, hsame⟩ := hcurrent hid
        exact ⟨run, d, hrun, hsame ▸ hd, rfl⟩
    exact Triple.seq hparsed (fun d => .pure (fun _ h => h)) (fun _ _ h => h)
  · rw [not_not] at hblank
    have hcached : Triple (rules cfg r k t) (fun s => Base cfg r t known s ∧ (snap.runID = r → Current r snap s.db))
        (cachedDAG snap.dagID) (Ends (fun d s => (∀ d' ∈ d, ∃ p, parseDefinition cfg d'.definitionYAML = .ok p ∧ p.tasks = d'.tasks) ∧
          (Base cfg r t known s ∧ (snap.runID = r → Current r snap s.db))) (Base cfg r t known)) := by
      refine .lift hstable ?_
      intro s x s' hs hsem
      have hspec := sem_spec hsem
      obtain ⟨rfl, hx⟩ := hspec.effect
      refine ⟨hspec.guar trivial, ?_, hs⟩
      intro d hd
      rw [hx] at hd
      exact hspec.fair d (List.mem_of_find?_eq_some hd)
    have hadopt : ∀ (d : DAG) {p : DAG}, parseDefinition cfg d.definitionYAML = .ok p → p.tasks = d.tasks →
        Triple (rules cfg r k t) (fun s => Base cfg r t known s ∧ (snap.runID = r → Current r snap s.db)) (do
          let run := snapshotRun cfg snap d
          statement (.updateDagRunDefinition run.runID run.definitionYAML run.definitionHash)
          return (d, run) : M (DAG × DagRun))
          (Ends (fun p => Driven cfg r t known snap.runID p.1.tasks) (Base cfg r t known)) := by
      intro d p hp htasks
      refine Triple.seq (adopt_triple hblank hp) (fun _ => .pure ?_) (fun _ _ h => h)
      intro s hs
      rw [htasks] at hs
      exact hs
    refine .bind hcached ?_ (fun _ _ h => h)
    rintro (_ | d) <;> dsimp only
    · refine Triple.strengthen (p := fun s => Base cfg r t known s ∧ (snap.runID = r → Current r snap s.db)) ?_ (fun _ h => h.2)
      have hrow : Triple (rules cfg r k t) (fun s => Base cfg r t known s ∧ (snap.runID = r → Current r snap s.db))
          (query (fun db => db.getDAG snap.dagID))
          (Ends (fun _ s => Base cfg r t known s ∧ (snap.runID = r → Current r snap s.db)) (Base cfg r t known)) :=
        query_triple hstable (fun _ _ hs _ => hs) (fun _ _ hs _ => hs.1)
      refine .seq hrow (fun row => ?_) (fun _ _ h => h)
      have hparsed : Triple (rules cfg r k t) (fun s => Base cfg r t known s ∧ (snap.runID = r → Current r snap s.db))
          (Fallible.ofExcept (parseDefinition cfg row.definitionYAML))
          (Ends (fun d s => parseDefinition cfg d.definitionYAML = .ok d ∧
            (Base cfg r t known s ∧ (snap.runID = r → Current r snap s.db))) (Base cfg r t known)) := by
        refine .ofExcept ?_
        intro s hs
        cases hd : parseDefinition cfg row.definitionYAML with
        | error e => exact hs.1
        | ok d => exact ⟨by rw [(parseDefinition_source hd).1, hd], hs⟩
      exact .seq hparsed (fun d => Triple.given (fun hd => hadopt d hd rfl)) (fun _ _ h => h)
    · exact Triple.given (fun hd => by
        obtain ⟨p, hp, htasks⟩ := hd d rfl
        exact hadopt d hp htasks)

end Definition

end Cronova.Properties.Success
