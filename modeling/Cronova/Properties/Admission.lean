import Cronova.Properties.Reconcile

/-! The gate from queued to running. It looks at a window of the oldest queued
runs and drops the held ones and those of saturated DAGs only afterwards, so what
it admits depends on what fills the window. -/
namespace Cronova.Properties.Admission
open Cronova.Model Cronova.Store Cronova.Concurrency Cronova.Concurrency.Fallible Cronova.Scheduler
variable (cfg : Cfg)

def registered (dags : List DAG) (dagID : String) : Option DAG := dags.find? (fun d => d.dagID = dagID)

def policyOf (d : Option DAG) : ExecutionPolicy := (d.map (·.executionPolicy)).getD .parallel

/-- How many runs of a DAG the gate lets run at once. -/
def limitOf (d : Option DAG) : Int :=
  let configured : Int := match d with
    | some d => if 0 < d.maxActiveRuns then d.maxActiveRuns else 1
    | none => 1
  if policyOf d = .parallel then configured else 1

/-- The definition a step would process the run with can be found. -/
def resolves (w : World) (run : DagRun) : Bool :=
  if run.definitionYAML ≠ "" then (parseDefinition cfg run.definitionYAML).isOk
  else (registered w.dags run.dagID).isSome ||
    (w.db.dags.find? (fun d => d.dagID = run.dagID)).any (fun row => (parseDefinition cfg row.definitionYAML).isOk)

/-- The queued runs the gate sees, in the order it takes them. -/
def window (w : World) : List DagRun :=
  let queued := w.db.listDagRunsByStateLimited .queued (cfg.maxActiveRunsGlobal + 500)
  let needs := (queued.map (·.dagID)).eraseDups.filter
    (fun dagID => (registered w.dags dagID).any (fun d => d.executionPolicy = .serialPriority))
  reorderQueue needs queued

/-- The runs the gate takes out of the queue: those it starts and those it
discards. A run whose definition cannot be found still uses up its slot. -/
def gateMoves (w : World) : (runningBy : String → Nat) → (globalRunning : Nat) → List DagRun → List DagRun
  | _, _, [] => []
  | runningBy, globalRunning, run :: rest =>
    let d := registered w.dags run.dagID
    if cfg.maxActiveRunsGlobal ≤ globalRunning ∨ run.held then gateMoves w runningBy globalRunning rest
    else if limitOf d ≤ runningBy run.dagID then
      if policyOf d = .serialDiscard then run :: gateMoves w runningBy globalRunning rest
      else gateMoves w runningBy globalRunning rest
    else
      let moved := gateMoves w (Function.update runningBy run.dagID (runningBy run.dagID + 1)) (globalRunning + 1) rest
      if resolves cfg w run then run :: moved else moved

def runningCount (w : World) (dagID : String) : Nat :=
  ((w.db.listDagRunsByState .running).filter (fun r => r.dagID = dagID)).length

/-- What one pass over the active runs takes out of the queue. -/
def admitted (w : World) : List DagRun :=
  gateMoves cfg w (runningCount w) (w.db.listDagRunsByState .running).length (window cfg w)

/-- A queued run has left the queue. -/
def Moved (w w' : World) : Prop :=
  ∃ run ∈ w.db.runs.rows, run.state = .queued ∧ ∃ b, w'.db.runState run.runID = some b ∧ b ≠ .queued

variable {cfg} {known : Known} {k : Kind} {t : Nat} {w : World} {id : String}

/-! ### What every command keeps -/

/-- The definitions are those of `w`. -/
private def Catalogue (w s : World) : Prop := s.dags = w.dags ∧ s.db.dags = w.db.dags

/-- The run is stored and has left the queue. -/
def Gone (id : String) (s : World) : Prop := ∃ b, s.db.runState id = some b ∧ b ≠ .queued

private def Present (id : String) (s : World) : Prop := ∃ b, s.db.runState id = some b

/-- What the writes of one statement keep, every command keeps. -/
private theorem keeps_of_apply {A : Db → Prop} {α : Type} (x : M α)
    (h : ∀ {β : Type} (s : Write β) (db : Db), A db → A (db.apply s).2) : Keeps (solo known k t) (fun s => A s.db) x := by
  refine solo_keeps x ?_
  intro β c s r s' hs heffect
  cases c with
  | write st =>
    rcases heffect with ⟨rfl, -⟩ | ⟨rfl, -⟩
    · exact hs
    · exact h st s.db hs
  | lock =>
    rw [heffect.1]
    exact hs
  | unlock =>
    rw [show s' = _ from heffect]
    exact hs
  | enter op =>
    rw [show s' = _ from heffect]
    exact hs
  | leave op ok =>
    rw [show s' = _ from heffect]
    exact hs
  | _ =>
    rw [(heffect.silent_eq rfl).1]
    exact hs

theorem gone_keeps {α : Type} (x : M α) : Keeps (solo known k t) (Gone id) x := by
  refine keeps_of_apply (A := fun db => ∃ b, db.runState id = some b ∧ b ≠ .queued) x ?_
  rintro β s db ⟨a, ha, hne⟩
  obtain ⟨b, hb, hqueued⟩ := Db.apply_runState_some s ha
  exact ⟨b, hb, fun heq => hne (hqueued heq)⟩

private theorem present_keeps {α : Type} (x : M α) : Keeps (solo known k t) (Present id) x := by
  refine keeps_of_apply (A := fun db => ∃ b, db.runState id = some b) x ?_
  rintro β s db ⟨a, ha⟩
  obtain ⟨b, hb, -⟩ := Db.apply_runState_some s ha
  exact ⟨b, hb⟩

private theorem catalogue_keeps {α : Type} (x : M α) : Keeps (solo known k t) (Catalogue w) x := by
  have hdb : Keeps (solo known k t) (fun s => s.db.dags = w.db.dags) x :=
    keeps_of_apply (A := fun db => db.dags = w.db.dags) x (fun s _ h => (Db.apply_dags s).trans h)
  exact (((solo_dags w.dags x).strengthen (fun _ h => h.1)).and (hdb.strengthen (fun _ h => h.2))).weaken (fun _ _ h => h)

/-! ### One step on a queued run -/

/-- A statement that may follow on `queued` takes a stored run out of the queue. -/
private theorem record_gone {target : RunState} (hlegal : .queued ∈ legalPriorRunStates target)
    (startedAt finishedAt : Option Time) :
    Triple (solo known k t) (Present id) (statement (.updateDagRunState id target startedAt finishedAt))
      (fun _ => Gone id) := by
  refine (solo_statement _).weaken ?_
  rintro r s' ⟨s, ⟨a, ha⟩, -, rfl⟩
  obtain ⟨row, hrow, rfl⟩ := Option.map_eq_some_iff.mp ha
  have htarget : target ≠ .queued := by
    rintro rfl
    cases hlegal
  simp only [Gone, World.written]
  rcases s.db.updateDagRunState_cases id target startedAt finishedAt with ⟨e, heq⟩ | ⟨_, _, _, heq⟩
  · rw [heq]
    refine ⟨row.state, ha, ?_⟩
    intro hqueued
    simp only [Db.apply, hrow, hqueued, if_pos hlegal] at heq
    split at heq
    · rename_i hnil
      rw [hnil] at hlegal
      cases hlegal
    · cases heq
  · rw [heq]
    exact ⟨target, by rw [Db.runState, Db.run?_recordState_self hrow, Option.map_some], htarget⟩

private theorem dagForRun_found {run : DagRun} (hres : resolves cfg w run = true) :
    Triple (solo known k t) (fun s => Catalogue w s ∧ Present run.runID s) (dagForRun cfg run)
      (fun r s => ∃ d new, r = .ok (d, new) ∧ new.runID = run.runID ∧ new.state = run.state ∧ Present run.runID s) := by
  unfold dagForRun
  unfold resolves at hres
  split
  · rename_i hyaml
    rw [if_pos hyaml] at hres
    cases hparse : parseDefinition cfg run.definitionYAML with
    | error e =>
      rw [hparse] at hres
      cases hres
    | ok d => exact fun s hs => ⟨d, run, rfl, rfl, rfl, hs.2⟩
  · rename_i hyaml
    rw [if_neg hyaml] at hres
    have hadopt : ∀ d, Triple (solo known k t) (fun s => Catalogue w s ∧ Present run.runID s) (do
        statement (.updateDagRunDefinition (snapshotRun cfg run d).runID (snapshotRun cfg run d).definitionYAML
          (snapshotRun cfg run d).definitionHash)
        return (d, snapshotRun cfg run d) : M (DAG × DagRun))
        (fun r s => ∃ d new, r = .ok (d, new) ∧ new.runID = run.runID ∧ new.state = run.state ∧ Present run.runID s) := by
      intro d
      refine .bind (m := fun r s => r = .ok () ∧ Present run.runID s) ?_ ?_ ?_
      · refine (((solo_statement _).and (present_keeps _)).strengthen (fun s hs => hs.2)).weaken ?_
        rintro r s' ⟨⟨s, ⟨a, ha⟩, rfl, -⟩, hpresent⟩
        obtain ⟨row, hrow, -⟩ := Option.map_eq_some_iff.mp ha
        have hrow' : s.db.run? (snapshotRun cfg run d).runID = some row := hrow
        exact ⟨by simp only [Db.apply, hrow'], hpresent⟩
      · exact fun _ => .pure (fun s hs => ⟨d, _, rfl, rfl, rfl, hs.2⟩)
      · rintro e s ⟨hok, -⟩
        cases hok
    refine .seq (solo_registry _) ?_ (fun _ _ h => h.elim)
    intro d s hs
    obtain ⟨rfl, hcat, hpresent⟩ := hs
    rw [hcat.1]
    cases hreg : registered w.dags run.dagID with
    | some d =>
      have hreg' : w.dags.find? (fun d => d.dagID = run.dagID) = some d := hreg
      simp only [hreg']
      exact hadopt d s ⟨hcat, hpresent⟩
    | none =>
      have hreg' : w.dags.find? (fun d => d.dagID = run.dagID) = none := hreg
      simp only [hreg']
      rw [hreg, Option.isSome_none, Bool.false_or] at hres
      obtain ⟨row, hrow, hparse⟩ := (Option.any_eq_true _ _).mp hres
      cases hd : parseDefinition cfg row.definitionYAML with
      | error e =>
        rw [hd] at hparse
        cases hparse
      | ok d =>
        refine Triple.bind (m := fun r s => r = .ok row ∧ Catalogue w s ∧ Present run.runID s)
          (p := fun s => Catalogue w s ∧ Present run.runID s) ?_ ?_ ?_ s ⟨hcat, hpresent⟩
        · refine (solo_query _).weaken ?_
          rintro r s' ⟨rfl, hs'⟩
          refine ⟨?_, hs'⟩
          simp only [Db.getDAG]
          rw [hs'.1.2, hrow]
        · intro row' s' hs'
          obtain ⟨heq, hs'⟩ := hs'
          cases heq
          rw [hd]
          exact hadopt d s' hs'
        · rintro e s' ⟨heq, -⟩
          cases heq

private theorem driveRun_gone {run : DagRun} (hqueued : run.state = .queued) (d : DAG) (tis : List TaskInstance) :
    Triple (solo known k t) (Present run.runID) (driveRun cfg d run tis) (fun _ => Gone run.runID) := by
  refine .bind (m := fun _ => Gone run.runID) ?_ (fun run' => gone_keeps _) (fun _ _ h => h)
  unfold startRun
  rw [if_pos hqueued]
  refine .seq (solo_asked _) ?_ (fun _ _ h => h.elim)
  intro now
  exact .bind (record_gone (by decide) _ _) (fun _ => .pure (fun _ h => h)) (fun _ _ h => h)

private theorem reconcile_present (id : String) {run : DagRun} (d : DAG) :
    Triple (solo known k t) (Present id) (reconcile cfg run d)
      (fun r s => (∃ tis, r = .ok tis) ∧ Present id s) := by
  refine Triple.and ?_ (present_keeps _)
  intro s _
  refine (Reconcile.reconcile_triple s).weaken ?_ s rfl
  rintro r s' ⟨tis, rfl, -⟩
  exact ⟨tis, rfl⟩

/-- A step takes a queued run out of the queue when it finds its definition. -/
private theorem processRun_gone {run : DagRun} (hqueued : run.state = .queued) (hres : resolves cfg w run = true) :
    Triple (solo known k t) (fun s => Catalogue w s ∧ Present run.runID s) (processRun cfg run)
      (fun _ => Gone run.runID) := by
  refine solo_locked (A := fun db dags => (dags = w.dags ∧ db.dags = w.db.dags) ∧ ∃ b, db.runState run.runID = some b)
    (B := fun _ db _ => ∃ b, db.runState run.runID = some b ∧ b ≠ .queued) ?_
  refine solo_marked (A := fun db dags => (dags = w.dags ∧ db.dags = w.db.dags) ∧ ∃ b, db.runState run.runID = some b)
    (B := fun _ db _ => ∃ b, db.runState run.runID = some b ∧ b ≠ .queued) ?_
  refine .bind (dagForRun_found hres) ?_ ?_
  · rintro ⟨d, new⟩ s ⟨d', new', heq, hid, hstate, hpresent⟩
    cases heq
    refine Triple.bind (reconcile_present run.runID d) ?_ ?_ s hpresent
    · intro tis
      refine .ite (fun _ => ?_) (fun _ => ?_)
      · refine .seq (m := fun _ => Gone run.runID) (E := Gone run.runID) ?_ ?_ (fun _ _ h => h)
        · refine .seq (solo_asked _) ?_ (fun _ _ h => h.elim)
          intro fin
          rw [hid]
          refine ((record_gone (by decide) _ _).strengthen (fun _ h => h.2)).weaken ?_
          rintro (e | _) s' h
          · exact h
          · exact h
        · exact fun _ => .pure (fun _ h => h)
      · rw [← hid]
        exact (driveRun_gone (hstate.trans hqueued) d tis).strengthen (fun _ h => h.2)
    · rintro e s' ⟨⟨tis, htis⟩, -⟩
      cases htis
  · rintro e s ⟨d, new, heq, -⟩
    cases heq

private theorem cancelQueued_total (run : DagRun) : Total (cancelQueued run) := by
  refine .bind (.lift _) (fun now => .bind (.outcome _) ?_)
  intro r
  split
  · exact .pure _
  · refine .bind (.outcome _) ?_
    intro r
    split
    · exact .pure _
    · refine .forM (fun ti _ => ?_)
      split
      · exact .pure _
      · exact .bind (.outcome _) (fun _ => .pure _)

private theorem discardRun_gone (run : DagRun) :
    Triple (solo known k t) (Present run.runID) (discardRun run) (fun r s => Gone run.runID s ∧ r.isOk = true) := by
  refine solo_marked (A := fun db _ => ∃ b, db.runState run.runID = some b)
    (B := fun r db _ => (∃ b, db.runState run.runID = some b ∧ b ≠ .queued) ∧ r.isOk = true) ?_
  refine (cancelQueued_total run).triple ?_
  refine .seq (solo_asked _) ?_ (fun _ _ h => h.elim)
  intro now
  refine .bind (m := fun _ => Gone run.runID) (.outcome (record_gone (by decide) _ _)) ?_ (fun _ _ h => h)
  exact fun r => gone_keeps _

/-! ### The gate -/

/-- The runs of the queue are stored, and the definitions are those of `w`. -/
private def Listed (w : World) (queue : List DagRun) (s : World) : Prop :=
  Catalogue w s ∧ ∀ run ∈ queue, Present run.runID s

private theorem listed_keeps {α : Type} (queue : List DagRun) (x : M α) : Keeps (solo known k t) (Listed w queue) x := by
  have hcat : Triple (solo known k t) (Listed w queue) x (fun _ s => Catalogue w s) :=
    (catalogue_keeps x).strengthen (fun _ h => h.1)
  refine hcat.and (hcat.all (fun run => hcat.all (fun hrun => ?_)))
  exact (present_keeps x).strengthen (fun _ h => h.2 run hrun)

private theorem processListed_keeps (queue : List DagRun) (ready : List ReadyTask) (run : DagRun) :
    Triple (solo known k t) (Listed w queue) (processListed cfg ready run) (Ends (fun _ => Listed w queue) (fun _ => False)) := by
  have htotal : Total (processListed cfg ready run) := by
    refine .bind (.outcome _) ?_
    intro r
    split <;> exact .pure _
  refine (htotal.triple (listed_keeps queue _)).weaken ?_
  rintro (e | _) s ⟨hs, hok⟩
  · cases hok
  · exact hs

private theorem processListed_gone {queue : List DagRun} {run : DagRun} (hmem : run ∈ queue) (hqueued : run.state = .queued)
    (hres : resolves cfg w run = true) (ready : List ReadyTask) :
    Triple (solo known k t) (Listed w queue) (processListed cfg ready run)
      (Ends (fun _ s => Listed w queue s ∧ Gone run.runID s) (fun _ => False)) := by
  have hgone : Triple (solo known k t) (Listed w queue) (processListed cfg ready run) (fun _ => Gone run.runID) := by
    refine .bind (m := fun _ => Gone run.runID) (.outcome ?_) (fun _ => gone_keeps _) (fun _ _ h => h)
    exact (processRun_gone hqueued hres).strengthen (fun _ h => ⟨h.1, h.2 run hmem⟩)
  refine ((processListed_keeps queue ready run).and hgone).weaken ?_
  rintro (e | _) s ⟨hs, hs'⟩
  · exact hs
  · exact ⟨hs, hs'⟩

private theorem gateMoves_cons (runningBy : String → Nat) (globalRunning : Nat) (run : DagRun) (rest : List DagRun) :
    gateMoves cfg w runningBy globalRunning (run :: rest) =
      if cfg.maxActiveRunsGlobal ≤ globalRunning ∨ run.held then gateMoves cfg w runningBy globalRunning rest
      else if limitOf (registered w.dags run.dagID) ≤ runningBy run.dagID then
        if policyOf (registered w.dags run.dagID) = .serialDiscard then run :: gateMoves cfg w runningBy globalRunning rest
        else gateMoves cfg w runningBy globalRunning rest
      else if resolves cfg w run then
        run :: gateMoves cfg w (Function.update runningBy run.dagID (runningBy run.dagID + 1)) (globalRunning + 1) rest
      else gateMoves cfg w (Function.update runningBy run.dagID (runningBy run.dagID + 1)) (globalRunning + 1) rest :=
  rfl

/-- One run at the gate: what the gate moves from here on is what it has moved or
what it will move from the rest. -/
private theorem gateQueued_step {queue : List DagRun} {run : DagRun} (rest : List DagRun) (hmem : run ∈ queue)
    (hqueued : run.state = .queued) (g : Gate) :
    Triple (solo known k t) (Listed w queue) (gateQueued cfg g run)
      (Ends (fun g' s => Listed w queue s ∧ ∀ r ∈ gateMoves cfg w g.runningBy g.globalRunning (run :: rest),
        Gone r.runID s ∨ r ∈ gateMoves cfg w g'.runningBy g'.globalRunning rest) (fun _ => False)) := by
  rw [gateMoves_cons]
  unfold gateQueued
  refine .ite (fun hskip => ?_) (fun hopen => ?_)
  · simp only [if_pos hskip]
    exact .pure (fun s hs => ⟨hs, fun r hr => .inr hr⟩)
  · simp only [if_neg hopen]
    refine .seq (m := fun d s => d = registered w.dags run.dagID ∧ Listed w queue s) ?_ ?_ (fun _ _ h => h)
    · refine (solo_registry _).weaken ?_
      rintro (e | d) s hs
      · exact hs
      · obtain ⟨rfl, hlisted⟩ := hs
        rw [hlisted.1.1]
        exact ⟨rfl, hlisted⟩
    · intro d s hs
      obtain ⟨rfl, hlisted⟩ := hs
      refine Triple.ite (c := limitOf (registered w.dags run.dagID) ≤ g.runningBy run.dagID) (fun hfull => ?_)
        (fun hroom => ?_) s hlisted
      · simp only [if_pos hfull]
        refine .ite (c := policyOf (registered w.dags run.dagID) = .serialDiscard) (fun hdiscard => ?_) (fun hkeep => ?_)
        · simp only [if_pos hdiscard]
          refine .bind (m := fun r s => Listed w queue s ∧ Gone run.runID s ∧ r.isOk = true) ?_ ?_ ?_
          · exact (listed_keeps queue _).and ((discardRun_gone run).strengthen (fun _ h => h.2 run hmem))
          · refine fun _ => .pure (fun s hs => ⟨hs.1, ?_⟩)
            intro r hr
            rcases List.mem_cons.mp hr with rfl | hr
            · exact .inl hs.2.1
            · exact .inr hr
          · rintro e s ⟨-, -, hok⟩
            cases hok
        · simp only [if_neg hkeep]
          exact .pure (fun s hs => ⟨hs, fun r hr => .inr hr⟩)
      · simp only [if_neg hroom]
        cases hres : resolves cfg w run with
        | true =>
          refine .seq (processListed_gone hmem hqueued hres g.ready) ?_ (fun _ _ h => h)
          refine fun ready => .pure (fun s hs => ⟨hs.1, ?_⟩)
          intro r hr
          rcases List.mem_cons.mp hr with rfl | hr
          · exact .inl hs.2
          · exact .inr hr
        | false =>
          simp only [Bool.false_eq_true, if_false]
          refine .seq (processListed_keeps queue g.ready run) ?_ (fun _ _ h => h)
          exact fun ready => .pure (fun s hs => ⟨hs, fun r hr => .inr hr⟩)

private theorem gate_gone (all : List DagRun) {queue : List DagRun} (hsub : queue ⊆ all)
    (hqueued : ∀ run ∈ all, run.state = .queued) (g : Gate) :
    Triple (solo known k t) (Listed w all) (queue.foldlM (gateQueued cfg) g)
      (Ends (fun _ s => ∀ r ∈ gateMoves cfg w g.runningBy g.globalRunning queue, Gone r.runID s) (fun _ => False)) := by
  induction queue generalizing g with
  | nil =>
    refine .pure ?_
    intro s _ r hr
    rw [gateMoves] at hr
    cases hr
  | cons run rest ih =>
    have hrun : run ∈ all := hsub (by simp)
    refine .seq (gateQueued_step rest hrun (hqueued run hrun) g) ?_ (fun _ _ h => h)
    intro g' s hs
    obtain ⟨hlisted, hmoves⟩ := hs
    have hrest := ih (List.subset_of_cons_subset hsub) g'
    have hgone : ∀ r, Gone r s → Triple (solo known k t) (· = s) (rest.foldlM (gateQueued cfg) g') (fun _ => Gone r) :=
      fun r hr => (gone_keeps _).strengthen (fun _ heq => heq ▸ hr)
    have hstart := hrest.strengthen (o := (· = s)) (fun _ heq => heq ▸ hlisted)
    refine (hstart.and (hstart.all (fun r => hstart.all (fun hr => hgone r hr)))).weaken ?_ s rfl
    rintro (e | g'') s' ⟨hs', hkept⟩
    · exact hs'
    · intro r hr
      rcases hmoves r hr with hgone | hlater
      · exact hkept r.runID hgone
      · exact hs' r hlater

/-! ### The queue -/

private theorem mem_reorderQueue {needs : List String} {queued : List DagRun} {run : DagRun}
    (h : run ∈ reorderQueue needs queued) : run ∈ queued := by
  have hslot : ∀ (runs : List DagRun) (j : Nat) (r : DagRun), runs ⊆ queued → r ∈ queued →
      (runs[j]?).getD r ∈ queued := by
    intro runs j r hruns hr
    cases hj : runs[j]? with
    | none => exact hr
    | some x => exact hruns (List.mem_of_getElem? hj)
  simp only [reorderQueue, List.mem_mapIdx] at h
  obtain ⟨i, hi, rfl⟩ := h
  refine hslot _ _ _ ?_ (List.getElem_mem hi)
  split
  · intro x hx
    exact (List.mem_filter.mp ((List.mem_insertionSort _).mp hx)).1
  · exact List.filter_subset_self _

theorem mem_listDagRunsByState {db : Db} {state : RunState} {run : DagRun} :
    run ∈ db.listDagRunsByState state ↔ run ∈ db.runs.rows ∧ run.state = state := by
  simp [Db.listDagRunsByState, Relational.Table.filter]

private theorem mem_listDagRunsByStateLimited {db : Db} {state : RunState} {limit : Int} {run : DagRun}
    (h : run ∈ db.listDagRunsByStateLimited state limit) : run ∈ db.runs.rows ∧ run.state = state := by
  unfold Db.listDagRunsByStateLimited at h
  split at h
  · exact mem_listDagRunsByState.mp h
  · exact mem_listDagRunsByState.mp (List.mem_of_mem_take h)

theorem mem_window {run : DagRun} (h : run ∈ window cfg w) : run ∈ w.db.runs.rows ∧ run.state = .queued :=
  mem_listDagRunsByStateLimited (mem_reorderQueue h)

private theorem gateMoves_subset {runningBy : String → Nat} {globalRunning : Nat} {queue : List DagRun} :
    gateMoves cfg w runningBy globalRunning queue ⊆ queue := by
  induction queue generalizing runningBy globalRunning with
  | nil =>
    rw [gateMoves]
    exact List.Subset.refl _
  | cons run rest ih =>
    rw [gateMoves_cons]
    split
    · exact List.subset_cons_of_subset _ ih
    · split
      · split
        · exact List.cons_subset_cons _ ih
        · exact List.subset_cons_of_subset _ ih
      · split
        · exact List.cons_subset_cons _ ih
        · exact List.subset_cons_of_subset _ ih

private theorem priorityDags_triple {A : World → Prop} (hA : ∀ s, A s → s.dags = w.dags) (ids : List String) :
    Triple (solo known k t) A (priorityDags ids) (Ends (fun needs s => needs = ids.filter
      (fun dagID => (registered w.dags dagID).any (fun d => d.executionPolicy = .serialPriority)) ∧ A s)
      (fun _ => False)) := by
  induction ids with
  | nil => exact .pure (fun _ hs => ⟨rfl, hs⟩)
  | cons dagID ids ih =>
    refine .seq (solo_registry _) ?_ (fun _ _ h => h)
    rintro d s ⟨rfl, hs⟩
    refine Triple.seq ih ?_ (fun _ _ h => h) s hs
    intro needs
    refine .pure ?_
    rintro s' ⟨rfl, hs'⟩
    refine ⟨?_, hs'⟩
    rw [List.filter_cons, hA s hs]
    rfl

theorem reorder_triple {A : World → Prop} (hA : ∀ s, A s → s.dags = w.dags) :
    Triple (solo known k t) A (reorderPriorityQueues (w.db.listDagRunsByStateLimited .queued (cfg.maxActiveRunsGlobal + 500)))
      (Ends (fun queue s => queue = window cfg w ∧ A s) (fun _ => False)) := by
  refine .seq (priorityDags_triple hA _) ?_ (fun _ _ h => h)
  intro needs
  refine .pure ?_
  rintro s ⟨rfl, hs⟩
  exact ⟨rfl, hs⟩

/-- What the gate should move, one pass over the active runs moves. -/
theorem processActiveRuns_gone (w : World) :
    Triple (solo known k t) (· = w) (processActiveRuns cfg)
      (fun _ s => ∀ run ∈ admitted cfg w, ∃ b, s.db.runState run.runID = some b ∧ b ≠ .queued) := by
  have hlisted : Listed w (window cfg w) w := by
    refine ⟨⟨rfl, rfl⟩, ?_⟩
    intro run hrun
    exact ⟨run.state, by rw [Db.runState, Db.run?_of_mem (mem_window hrun).1, Option.map_some]⟩
  refine .seq (solo_outcome_list _) ?_ (fun _ _ h => h.elim)
  intro queued s hs
  obtain ⟨hqueued, hs⟩ := hs
  rw [hs] at hqueued ⊢
  refine Triple.seq (p := (· = w)) (solo_outcome_list _) ?_ (fun _ _ h => h.elim) w rfl
  intro running s' hs'
  obtain ⟨hrunning, hs'⟩ := hs'
  rw [hs'] at hrunning ⊢
  subst hqueued hrunning
  refine Triple.bind (m := Ends (fun _ => Listed w (window cfg w)) (fun _ => False)) ?_ ?_ (fun _ _ h => h.elim) w hlisted
  · exact Triple.foldlM (I := fun _ => Listed w (window cfg w))
      (fun run _ ready => processListed_keeps (window cfg w) ready run) []
  · intro ready
    refine .seq (reorder_triple (fun _ hs => hs.1.1)) ?_ (fun _ _ h => h.elim)
    rintro queue s₁ ⟨rfl, hs₁⟩
    refine Triple.seq (gate_gone (window cfg w) (List.Subset.refl _) (fun run hrun => (mem_window hrun).2) _) ?_
      (fun _ _ h => h.elim) s₁ hs₁
    intro gate
    refine Triple.mono (p := fun s => ∀ run ∈ admitted cfg w, Gone run.runID s)
      (q := fun _ s => ∀ run ∈ admitted cfg w, Gone run.runID s) ?_ (fun _ h => h) (fun _ _ h => h)
    have hany : Keeps (solo known k t) (fun _ => True) (admitReady cfg gate.ready) :=
      solo_keeps _ (fun _ _ _ _ _ _ => trivial)
    have hbase := hany.strengthen (o := fun s => ∀ run ∈ admitted cfg w, Gone run.runID s) (fun _ _ => trivial)
    refine hbase.all (fun run => hbase.all (fun hrun => ?_))
    exact (gone_keeps _).strengthen (fun _ h => h run hrun)

/-! ### A gate that moves nothing -/

/-- Nothing has been written. -/
def Still (w s : World) : Prop := s.db = w.db ∧ s.dags = w.dags

private theorem dagForRun_lost {run : DagRun} (hres : resolves cfg w run = false) :
    Triple (solo known k t) (Still w) (dagForRun cfg run) (fun r s => r.isOk = false ∧ Still w s) := by
  unfold dagForRun
  unfold resolves at hres
  split
  · rename_i hyaml
    rw [if_pos hyaml] at hres
    cases hparse : parseDefinition cfg run.definitionYAML with
    | error e => exact fun s hs => ⟨rfl, hs⟩
    | ok d =>
      rw [hparse] at hres
      cases hres
  · rename_i hyaml
    rw [if_neg hyaml, Bool.or_eq_false_iff] at hres
    refine .seq (solo_registry _) ?_ (fun _ _ h => h.elim)
    intro d s hs
    obtain ⟨rfl, hstill⟩ := hs
    have hreg : w.dags.find? (fun d => d.dagID = run.dagID) = none := Option.isSome_eq_false_iff.mp hres.1 |> Option.isNone_iff_eq_none.mp
    rw [hstill.2]
    simp only [hreg]
    refine Triple.bind (m := fun r s => r = w.db.getDAG run.dagID ∧ Still w s) (p := Still w) ?_ ?_ ?_ s hstill
    · refine (solo_query _).weaken ?_
      rintro r s' ⟨rfl, hs'⟩
      exact ⟨by rw [hs'.1], hs'⟩
    · intro row s' hs'
      obtain ⟨hrow, hs'⟩ := hs'
      have hfind : w.db.dags.find? (fun d => d.dagID = run.dagID) = some row := by
        unfold Db.getDAG at hrow
        split at hrow
        · rename_i d hd
          cases hrow
          exact hd
        · cases hrow
      cases hparse : parseDefinition cfg row.definitionYAML with
      | error e => exact ⟨rfl, hs'⟩
      | ok d =>
        have := hres.2
        rw [hfind, Option.any_some, hparse] at this
        cases this
    · rintro e s' ⟨-, hs'⟩
      exact ⟨rfl, hs'⟩

private theorem processListed_still {run : DagRun} (hres : resolves cfg w run = false) (ready : List ReadyTask) :
    Triple (solo known k t) (Still w) (processListed cfg ready run)
      (Ends (fun ready' s => ready' = ready ∧ Still w s) (fun _ => False)) := by
  have hprocess : Triple (solo known k t) (Still w) (processRun cfg run) (fun r s => r.isOk = false ∧ Still w s) := by
    refine solo_locked (A := fun db dags => db = w.db ∧ dags = w.dags)
      (B := fun r db dags => r.isOk = false ∧ db = w.db ∧ dags = w.dags) ?_
    refine solo_marked (A := fun db dags => db = w.db ∧ dags = w.dags)
      (B := fun r db dags => r.isOk = false ∧ db = w.db ∧ dags = w.dags) ?_
    refine .bind (dagForRun_lost hres) ?_ ?_
    · rintro ⟨d, new⟩ s ⟨hok, -⟩
      cases hok
    · rintro e s ⟨-, hs⟩
      exact ⟨rfl, hs⟩
  refine .bind (m := fun r s => ∃ x, r = .ok x ∧ x.isOk = false ∧ Still w s)
    (.outcome (hprocess.weaken fun r s h => ⟨r, rfl, h⟩)) ?_ ?_
  · rintro r s ⟨x, heq, hok, hs⟩
    cases heq
    cases r with
    | ok new => cases hok
    | error e => exact ⟨rfl, hs⟩
  · rintro e s ⟨x, heq, -⟩
    cases heq

private theorem gate_still {queue : List DagRun} (g : Gate)
    (hmoves : gateMoves cfg w g.runningBy g.globalRunning queue = []) :
    Triple (solo known k t) (Still w) (queue.foldlM (gateQueued cfg) g)
      (Ends (fun g' s => g'.ready = g.ready ∧ Still w s) (fun _ => False)) := by
  induction queue generalizing g with
  | nil => exact .pure (fun _ hs => ⟨rfl, hs⟩)
  | cons run rest ih =>
    rw [gateMoves_cons] at hmoves
    refine .seq (m := fun g' s => (g'.ready = g.ready ∧ gateMoves cfg w g'.runningBy g'.globalRunning rest = []) ∧ Still w s)
      ?_ ?_ (fun _ _ h => h)
    · unfold gateQueued
      refine .ite (fun hskip => ?_) (fun hopen => ?_)
      · rw [if_pos hskip] at hmoves
        exact .pure (fun _ hs => ⟨⟨rfl, hmoves⟩, hs⟩)
      · rw [if_neg hopen] at hmoves
        refine .seq (solo_registry _) ?_ (fun _ _ h => h)
        intro d s hs
        obtain ⟨rfl, hs⟩ := hs
        have hreg : s.dags.find? (fun d => d.dagID = run.dagID) = registered w.dags run.dagID := by
          rw [hs.2]
          rfl
        rw [hreg]
        refine Triple.ite (c := limitOf (registered w.dags run.dagID) ≤ g.runningBy run.dagID) (fun hfull => ?_)
          (fun hroom => ?_) s hs
        · rw [if_pos hfull] at hmoves
          refine .ite (c := policyOf (registered w.dags run.dagID) = .serialDiscard) (fun hdiscard => ?_) (fun hkeep => ?_)
          · rw [if_pos hdiscard] at hmoves
            cases hmoves
          · rw [if_neg hkeep] at hmoves
            exact .pure (fun _ hs => ⟨⟨rfl, hmoves⟩, hs⟩)
        · rw [if_neg hroom] at hmoves
          cases hres : resolves cfg w run with
          | true =>
            rw [if_pos hres] at hmoves
            cases hmoves
          | false =>
            rw [hres, if_neg Bool.false_ne_true] at hmoves
            refine .seq (processListed_still hres g.ready) ?_ (fun _ _ h => h)
            intro ready
            refine .pure ?_
            rintro s' ⟨rfl, hs'⟩
            exact ⟨⟨rfl, hmoves⟩, hs'⟩
    · intro g' s hs
      obtain ⟨⟨hready, hrest⟩, hs⟩ := hs
      refine (ih g' hrest).weaken ?_ s hs
      rintro (e | g'') s' hs'
      · exact hs'
      · exact ⟨hs'.1.trans hready, hs'.2⟩

/-- A pass whose gate moves nothing and whose running runs stand still writes nothing. -/
theorem processActiveRuns_still (w : World) (hidle : ∀ run ∈ w.db.listDagRunsByState .running,
      Triple (solo known k t) (Still w) (processRun cfg run) (fun r s => r = .ok [] ∧ Still w s))
    (hnone : admitted cfg w = []) :
    Triple (solo known k t) (· = w) (processActiveRuns cfg) (fun _ s => s.db = w.db) := by
  have hlisted : ∀ run ∈ w.db.listDagRunsByState .running, ∀ ready : List ReadyTask, Triple (solo known k t)
      (fun s => ready = [] ∧ Still w s) (processListed cfg ready run)
      (Ends (fun ready s => ready = [] ∧ Still w s) (fun _ => False)) := by
    intro run hrun ready s hs
    obtain ⟨rfl, hs⟩ := hs
    refine Triple.bind (m := fun r s => r = .ok (.ok []) ∧ Still w s)
      (.outcome ((hidle run hrun).weaken fun r s h => ⟨congrArg _ h.1, h.2⟩)) ?_ ?_ s hs
    · rintro r s' ⟨heq, hs'⟩
      cases heq
      exact ⟨rfl, hs'⟩
    · rintro e s' ⟨heq, -⟩
      cases heq
  refine .seq (solo_outcome_list _) ?_ (fun _ _ h => h.elim)
  intro queued s hs
  obtain ⟨hqueued, hs⟩ := hs
  rw [hs] at hqueued ⊢
  refine Triple.seq (p := (· = w)) (solo_outcome_list _) ?_ (fun _ _ h => h.elim) w rfl
  intro running s' hs'
  obtain ⟨hrunning, hs'⟩ := hs'
  rw [hs'] at hrunning ⊢
  subst hqueued hrunning
  refine Triple.seq (Triple.foldlM hlisted []) ?_ (fun _ _ h => h.elim) w ⟨rfl, rfl, rfl⟩
  rintro ready s₀ ⟨rfl, hs₀⟩
  refine Triple.seq (p := Still w) (reorder_triple (fun _ hs => hs.2)) ?_ (fun _ _ h => h.elim) s₀ hs₀
  rintro queue s₁ ⟨rfl, hs₁⟩
  refine Triple.seq (gate_still ⟨_, _, []⟩ hnone) ?_ (fun _ _ h => h.elim) s₁ hs₁
  rintro gate s₂ ⟨hready, hs₂⟩
  rw [hready]
  exact hs₂.1

/-- A queue whose first 501 runs are held by their operator. -/
def heldRun (n : Nat) : DagRun :=
  { runID := manualRunID "job" n, dagID := "job", logicalDate := n, state := .queued, triggerType := .manual, held := true }

def freeRun : DagRun :=
  { runID := manualRunID "free" 501, dagID := "free", logicalDate := 501, state := .queued, triggerType := .manual }

def freeDag : DAG := { dagID := "free", tasks := [{ id := "a", command := "x" }] }

def crowdedRows : List DagRun := (List.range 501).map heldRun ++ [freeRun]

theorem crowdedRows_distinct : crowdedRows.Pairwise (fun a b => ¬ runClash (runKey a) (runKey b)) := by
  rw [crowdedRows, List.pairwise_append, List.pairwise_map]
  refine ⟨List.pairwise_lt_range.imp ?_, List.pairwise_singleton _ _, ?_⟩
  · intro m n hlt hclash
    rcases hclash with hid | hperiod
    · have : m = n := toString_nat_inj ((String.append_right_inj _).mp hid)
      omega
    · have : (m : Int) = n := congrArg Prod.snd hperiod
      omega
  · intro a ha b hb hclash
    obtain ⟨n, -, rfl⟩ := List.mem_map.mp ha
    obtain rfl := List.mem_singleton.mp hb
    rcases hclash with hid | hperiod
    · have hchar := congrArg (fun id : String => id.toList.head?) hid
      simp [runKey, heldRun, freeRun, manualRunID, String.toList_append] at hchar
    · have hdag : "job" = "free" := congrArg Prod.fst hperiod
      exact absurd hdag (by decide)

def crowdedWorld : World := { db := { runs := ⟨crowdedRows, crowdedRows_distinct⟩ }, dags := [freeDag] }

def narrowCfg : Cfg := { Cfg.ofDocuments [] with maxActiveRunsGlobal := 1 }

private theorem crowdedRows_queued : ∀ run ∈ crowdedRows, run.state = .queued := by
  intro run hrun
  rcases List.mem_append.mp hrun with hheld | hfree
  · obtain ⟨n, -, rfl⟩ := List.mem_map.mp hheld
    rfl
  · obtain rfl := List.mem_singleton.mp hfree
    rfl

private theorem crowdedRows_sorted : crowdedRows.Pairwise (fun a b => a.logicalDate ≤ b.logicalDate) := by
  rw [crowdedRows, List.pairwise_append, List.pairwise_map]
  refine ⟨List.pairwise_lt_range.imp ?_, List.pairwise_singleton _ _, ?_⟩
  · intro m n hlt
    exact Int.ofNat_le.mpr (Nat.le_of_lt hlt)
  · intro a ha b hb
    obtain ⟨n, hn, rfl⟩ := List.mem_map.mp ha
    obtain rfl := List.mem_singleton.mp hb
    exact Int.ofNat_le.mpr (Nat.le_of_lt (List.mem_range.mp hn))

private theorem crowdedWorld_held : ∀ run ∈ window narrowCfg crowdedWorld, run.held = true := by
  intro run hrun
  have hlisted : crowdedWorld.db.listDagRunsByState .queued = crowdedRows := by
    have hfilter : crowdedRows.filter (fun r => r.state = .queued) = crowdedRows :=
      List.filter_eq_self.mpr (fun run hrun => decide_eq_true (crowdedRows_queued run hrun))
    simp only [Db.listDagRunsByState, Relational.Table.filter, crowdedWorld, hfilter]
    exact List.Pairwise.insertionSort_eq crowdedRows_sorted
  have hmem := mem_reorderQueue hrun
  have hlimited : crowdedWorld.db.listDagRunsByStateLimited .queued (narrowCfg.maxActiveRunsGlobal + 500) =
      (List.range 501).map heldRun := by
    rw [Db.listDagRunsByStateLimited, if_neg (by decide), hlisted, crowdedRows, List.take_left' (by simp; decide)]
  rw [hlimited] at hmem
  obtain ⟨n, -, rfl⟩ := List.mem_map.mp hmem
  rfl

private theorem gateMoves_held {runningBy : String → Nat} {globalRunning : Nat} {queue : List DagRun}
    (h : ∀ run ∈ queue, run.held = true) : gateMoves cfg w runningBy globalRunning queue = [] := by
  induction queue with
  | nil => rw [gateMoves]
  | cons run rest ih =>
    rw [gateMoves_cons, if_pos (.inr (h run (by simp)))]
    exact ih (fun r hr => h r (by simp [hr]))

/-- An empty system starts its only queued run. -/
def idleWorld : World := { db := { runs := ⟨[freeRun], List.pairwise_singleton _ _⟩ }, dags := [freeDag] }

end Cronova.Properties.Admission
