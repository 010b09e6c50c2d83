import Cronova.Parser.Accepted
import Cronova.Properties.Admission
import Cronova.Scheduler.Confined

/-! Run-level mutual exclusion. The gate counts what is running and what it has
started itself; the operations that make a finished run active again do not. -/
namespace Cronova.Properties.MutualExclusion
open Cronova.Model Cronova.Store Cronova.Concurrency Cronova.Concurrency.Fallible Cronova.Scheduler
open Cronova.Properties.Admission

/-- The stored runs that are running respect the limits of their DAGs and of the process. -/
structure Limited (cfg : Cfg) (dags : List DAG) (db : Db) : Prop where
  perDag : ∀ dagID, (((db.listDagRunsByState .running).filter (fun r => r.dagID = dagID)).length : Int) ≤
    limitOf (registered dags dagID)
  overall : ((db.listDagRunsByState .running).length : Int) ≤ cfg.maxActiveRunsGlobal

/-! ### Counting by snapshots -/

/-- Each snapshot is one of a stored run. -/
def Rooted (l : List DagRun) (db : Db) : Prop := ∀ run ∈ l, ∃ row, db.run? run.runID = some row ∧ row.dagID = run.dagID

/-- Each running run has a snapshot in the list. -/
def Covered (l : List DagRun) (db : Db) : Prop := ∀ row ∈ db.runs.rows, row.state = .running → ∃ run ∈ l, run.runID = row.runID

/-- What the gate counts: the runs of `l` and no other are running. -/
def Counted (l queue : List DagRun) (db : Db) : Prop := Rooted (l ++ queue) db ∧ Covered l db

variable {cfg : Cfg} {dags : List DAG} {db : Db} {l queue : List DagRun}

/-- The running runs of a DAG are no more than its snapshots. -/
private theorem length_running_le (h : Counted l queue db) (p : String → Bool) :
    ((db.listDagRunsByState .running).filter (fun r => p r.dagID)).length ≤ (l.filter (fun r => p r.dagID)).length := by
  have hdistinct : (((db.listDagRunsByState .running).filter (fun r => p r.dagID)).map (·.runID)).Nodup := by
    have hperm : (db.listDagRunsByState .running).Perm (db.runs.rows.filter (fun r => r.state = .running)) :=
      List.perm_insertionSort _ _
    rw [((hperm.filter _).map _).nodup_iff, List.Nodup, List.pairwise_map]
    refine ((db.runs.distinct.filter _).filter _).imp ?_
    intro a b hclash hid
    exact hclash (.inl hid)
  have hsub : ((db.listDagRunsByState .running).filter (fun r => p r.dagID)).map (·.runID) ⊆
      (l.filter (fun r => p r.dagID)).map (·.runID) := by
    intro id hid
    obtain ⟨row, hrow, rfl⟩ := List.mem_map.mp hid
    obtain ⟨hlisted, hp⟩ := List.mem_filter.mp hrow
    obtain ⟨hmem, hstate⟩ := mem_listDagRunsByState.mp hlisted
    obtain ⟨run, hrun, heq⟩ := h.2 row hmem hstate
    obtain ⟨stored, hstored, hdag⟩ := h.1 run (List.mem_append_left _ hrun)
    rw [heq, Db.run?_of_mem hmem, Option.some.injEq] at hstored
    refine List.mem_map.mpr ⟨run, List.mem_filter.mpr ⟨hrun, ?_⟩, heq⟩
    rw [← hdag, ← hstored]
    exact hp
  have hle := hdistinct.length_le_of_subset hsub
  rwa [List.length_map, List.length_map] at hle

private theorem Counted.limited (h : Counted l queue db)
    (hdag : ∀ dagID, ((l.filter (fun r => r.dagID = dagID)).length : Int) ≤ limitOf (registered dags dagID))
    (hall : (l.length : Int) ≤ cfg.maxActiveRunsGlobal) : Limited cfg dags db := by
  refine ⟨fun dagID => ?_, ?_⟩
  · have hle := length_running_le h (fun id => decide (id = dagID))
    have := hdag dagID
    omega
  · have hle := length_running_le h (fun _ => true)
    simp only [List.filter_true] at hle
    omega

/-- The listed running runs count themselves. -/
private theorem counted_running (db : Db) (queue : List DagRun) (hqueue : queue ⊆ db.runs.rows) :
    Counted (db.listDagRunsByState .running) queue db := by
  refine ⟨?_, ?_⟩
  · intro run hrun
    have hmem : run ∈ db.runs.rows := by
      rcases List.mem_append.mp hrun with h | h
      · exact (mem_listDagRunsByState.mp h).1
      · exact hqueue h
    exact ⟨run, Db.run?_of_mem hmem, rfl⟩
  · exact fun row hrow hstate => ⟨row, mem_listDagRunsByState.mpr ⟨hrow, hstate⟩, rfl⟩

/-- A run is made running by a statement that says so. -/
private theorem running_after {β : Type} {w : Write β} (hnew : ∀ run, w.creates = some run → run.state = .queued)
    {id : String} (h : (db.apply w).2.runState id = some .running) :
    db.runState id = some .running ∨ w.recordsState id = some .running := by
  cases hbefore : db.runState id with
  | none =>
    rcases Db.apply_runState_none hbefore hnew with hafter | hafter <;> rw [hafter] at h <;> cases h
  | some a =>
    by_cases hrec : w.recordsState id = none
    · have hafter := Db.apply_runState hrec hbefore
      rw [hafter] at h
      exact .inl h
    · cases w with
      | updateDagRunState id' target started finished =>
        obtain rfl : id' = id := by
          by_contra hne
          simp [Write.recordsState, hne] at hrec
        rcases db.updateDagRunState_cases id' target started finished with ⟨_, heq⟩ | ⟨row, hrow, _, heq⟩
        · rw [heq] at h
          exact .inl (hbefore ▸ h)
        · rw [heq, Db.runState, Db.run?_recordState_self hrow, Option.map_some, Option.some.injEq] at h
          rw [Write.recordsState, if_pos rfl, show target = .running from h]
          exact .inr rfl
      | updateDagRunSuccess id' started finished =>
        obtain rfl : id' = id := by
          by_contra hne
          simp [Write.recordsState, hne] at hrec
        rcases db.updateDagRunSuccess_cases id' started finished with ⟨_, heq⟩ | ⟨row, hrow, heq⟩
        · rw [heq] at h
          exact .inl (hbefore ▸ h)
        · rw [heq, Db.runState, Db.run?_armEvent, Db.run?_recordState_self hrow, Option.map_some] at h
          cases h
      | _ => exact absurd rfl hrec

/-- Snapshots keep counting what is running while no other run is made running. -/
private theorem Counted.apply {β : Type} {w : Write β} (hnew : ∀ run, w.creates = some run → run.state = .queued)
    (hown : ∀ id, w.recordsState id = some .running → ∃ run ∈ l, run.runID = id) (h : Counted l queue db) :
    Counted l queue (db.apply w).2 := by
  have hrooted : Rooted (l ++ queue) (db.apply w).2 := by
    intro run hrun
    obtain ⟨row, hrow, hdag⟩ := h.1 run hrun
    obtain ⟨row', hrow', hkey, -⟩ := Db.apply_run?_some w hrow
    exact ⟨row', hrow', (congrArg (fun key => key.2.1) hkey).trans hdag⟩
  refine ⟨hrooted, ?_⟩
  intro row hrow hstate
  have hrun : (db.apply w).2.runState row.runID = some .running := by
    rw [Db.runState, Db.run?_of_mem hrow, Option.map_some, hstate]
  rcases running_after hnew hrun with hbefore | hrec
  · obtain ⟨old, hold, hrunning⟩ := Option.map_eq_some_iff.mp hbefore
    obtain ⟨hmem, hid⟩ := Db.run?_spec hold
    obtain ⟨run, hl, heq⟩ := h.2 old hmem hrunning
    exact ⟨run, hl, heq.trans hid⟩
  · exact hown _ hrec

/-- A statement that makes no run running keeps the limits. -/
private theorem Limited.apply {β : Type} {w : Write β} (hnew : ∀ run, w.creates = some run → run.state = .queued)
    (hcalm : ∀ id, w.recordsState id ≠ some .running) (h : Limited cfg dags db) : Limited cfg dags (db.apply w).2 :=
  ((counted_running db [] (List.nil_subset _)).apply hnew (fun id hid => absurd hid (hcalm id))).limited h.perDag h.overall

private theorem counted_framed : Framed (fun id => ∃ run ∈ l, run.runID = id) (Counted l queue) :=
  fun _ _ hw _ h => h.apply hw.creates_queued (fun _ => hw.own_running)

private theorem limited_framed : Framed (fun _ => False) (Limited cfg dags) :=
  fun _ _ hw _ h => h.apply hw.creates_queued (fun _ => hw.own_running)

/-! ### A tick -/

/-- What holds between turns, for the definitions `dags`. -/
def Held (cfg : Cfg) (dags : List DAG) (s : World) : Prop := s.dags = dags ∧ Within (Limited cfg dags) s

/-- The gate's counters count the runs of `l`, and these are within the limits. -/
private structure Tallied (cfg : Cfg) (dags : List DAG) (l : List DagRun) (g : Gate) : Prop where
  runningBy : ∀ dagID, g.runningBy dagID = (l.filter (fun r => r.dagID = dagID)).length
  globalRunning : g.globalRunning = l.length
  perDag : ∀ dagID, ((l.filter (fun r => r.dagID = dagID)).length : Int) ≤ limitOf (registered dags dagID)
  overall : (l.length : Int) ≤ cfg.maxActiveRunsGlobal

/-- What the gate keeps: it has counted every running run. -/
private def Gated (cfg : Cfg) (dags : List DAG) (queue : List DagRun) (g : Gate) (s : World) : Prop :=
  s.dags = dags ∧ ∃ l, Tallied cfg dags l g ∧ Within (Counted l queue) s

variable {known : Known} {k : Kind} {t : Nat} {α : Type}

private theorem Gated.held {g : Gate} {s : World} (h : Gated cfg dags queue g s) : Held cfg dags s := by
  obtain ⟨hdags, l, htally, hcleared, hcounted⟩ := h
  exact ⟨hdags, hcleared, hcounted.limited htally.perDag htally.overall⟩

private theorem held_keeps {P : Db → Prop} {x : M α} (hx : Keeps (solo known k t) (Within P) x) :
    Keeps (solo known k t) (fun s => s.dags = dags ∧ Within P s) x :=
  ((solo_dags dags x).strengthen (fun _ h => h.1)).and (hx.strengthen (fun _ h => h.2))

private theorem processListed_counted {run : DagRun} (hrun : run ∈ l) (ready : List ReadyTask) :
    Triple (solo known k t) (fun s => s.dags = dags ∧ Within (Counted l queue) s) (processListed cfg ready run)
      (Ends (fun _ s => s.dags = dags ∧ Within (Counted l queue) s) (fun _ => False)) := by
  have htotal : Total (processListed cfg ready run) := by
    refine .bind (.outcome _) ?_
    intro r
    split <;> exact .pure _
  have hkeeps : Keeps (solo known k t) (Within (Counted l queue)) (processListed cfg ready run) := by
    refine .bind (.outcome (processRun_confined counted_framed ⟨run, hrun, rfl⟩)) ?_
    intro r
    cases r <;> exact .pure _
  refine (htotal.triple (held_keeps hkeeps)).weaken ?_
  rintro (e | _) s ⟨hs, hok⟩
  · cases hok
  · exact hs

private theorem count_append (l : List DagRun) (run : DagRun) (dagID : String) :
    ((l ++ [run]).filter (fun r => r.dagID = dagID)).length =
      (l.filter (fun r => r.dagID = dagID)).length + if run.dagID = dagID then 1 else 0 := by
  rw [List.filter_append, List.length_append]
  by_cases hdag : run.dagID = dagID
  · simp [hdag]
  · simp [hdag]

/-- A run the gate starts is one more run that it counts. -/
private theorem Tallied.start {g : Gate} {run : DagRun} (h : Tallied cfg dags l g)
    (hall : ¬ cfg.maxActiveRunsGlobal ≤ (g.globalRunning : Int))
    (hroom : ¬ limitOf (registered dags run.dagID) ≤ (g.runningBy run.dagID : Int)) (ready : List ReadyTask) :
    Tallied cfg dags (l ++ [run])
      { runningBy := Function.update g.runningBy run.dagID (g.runningBy run.dagID + 1)
        globalRunning := g.globalRunning + 1, ready := ready } := by
  have hglobal := h.globalRunning
  refine ⟨?_, ?_, ?_, ?_⟩
  · intro dagID
    dsimp only
    rw [count_append]
    by_cases hdag : run.dagID = dagID
    · subst hdag
      rw [Function.update_self, h.runningBy, if_pos rfl]
    · rw [Function.update_of_ne (Ne.symm hdag), h.runningBy, if_neg hdag]
      rfl
  · rw [List.length_append, hglobal]
    rfl
  · intro dagID
    rw [count_append]
    by_cases hdag : run.dagID = dagID
    · subst hdag
      rw [if_pos rfl, ← h.runningBy]
      omega
    · rw [if_neg hdag]
      exact h.perDag dagID
  · rw [List.length_append, List.length_singleton]
    omega

private theorem gateQueued_gated {run : DagRun} (hrun : run ∈ queue) (g : Gate) :
    Triple (solo known k t) (Gated cfg dags queue g) (gateQueued cfg g run)
      (Ends (Gated cfg dags queue) (fun s => Held cfg dags s)) := by
  rintro s ⟨hdags, l, htally, hs⟩
  have hkeep : ∀ {A : World → Prop}, (∀ s, A s → s.dags = dags ∧ Within (Counted l queue) s) →
      Triple (solo known k t) A (pure g : M Gate) (Ends (Gated cfg dags queue) (fun s => Held cfg dags s)) :=
    fun hA => .pure (fun s h => ⟨(hA s h).1, l, htally, (hA s h).2⟩)
  refine Triple.ite (p := fun s => s.dags = dags ∧ Within (Counted l queue) s) (fun _ => hkeep (fun _ h => h)) (fun hopen => ?_)
    s ⟨hdags, hs⟩
  rw [not_or] at hopen
  refine .seq (solo_registry _) ?_ (fun _ _ h => h.elim)
  intro d s' hs'
  obtain ⟨rfl, hdags', hs'⟩ := hs'
  rw [hdags']
  refine Triple.ite (c := limitOf (registered dags run.dagID) ≤ g.runningBy run.dagID)
    (p := fun s => s.dags = dags ∧ Within (Counted l queue) s) (fun _ => ?_) (fun hroom => ?_) s' ⟨hdags', hs'⟩
  · refine .ite (fun _ => ?_) (fun _ => hkeep (fun _ h => h))
    have hdiscard : Keeps (solo known k t) (Within (Counted l queue)) (discardRun run) :=
      within_marked (confined_keeps counted_framed ((cancelQueued_bounds run).mono (discardPrint_le_confined _ run.runID)))
    refine .bind (held_keeps hdiscard) (fun _ => hkeep (fun _ h => h)) ?_
    intro _ s'' hs''
    exact Gated.held ⟨hs''.1, l, htally, hs''.2⟩
  · have hstart : ∀ s, s.dags = dags ∧ Within (Counted l queue) s → s.dags = dags ∧ Within (Counted (l ++ [run]) queue) s := by
      rintro s ⟨hdags, hcleared, hrooted, hcovered⟩
      refine ⟨hdags, hcleared, ?_, ?_⟩
      · intro r hr
        rw [List.append_assoc, List.mem_append, List.mem_append, List.mem_singleton] at hr
        rcases hr with hr | rfl | hr
        · exact hrooted r (List.mem_append_left _ hr)
        · exact hrooted r (List.mem_append_right _ hrun)
        · exact hrooted r (List.mem_append_right _ hr)
      · intro row hrow hstate
        obtain ⟨r, hr, hid⟩ := hcovered row hrow hstate
        exact ⟨r, List.mem_append_left _ hr, hid⟩
    refine .seq ((processListed_counted (by simp) g.ready).strengthen hstart) ?_ (fun _ _ h => h.elim)
    intro ready
    exact .pure (fun s hs => ⟨hs.1, l ++ [run], htally.start hopen.1 hroom ready, hs.2⟩)

private theorem processActiveRuns_held : Keeps (solo known k t) (Held cfg dags) (processActiveRuns cfg) := by
  intro w hw
  have hstart : w.dags = dags ∧ Within (Counted (w.db.listDagRunsByState .running) (window cfg w)) w :=
    ⟨hw.1, hw.2.1, counted_running w.db _ (fun _ hr => (mem_window hr).1)⟩
  have htally : ∀ ready, Tallied cfg dags (w.db.listDagRunsByState .running)
      { runningBy := fun dagID => ((w.db.listDagRunsByState .running).filter (fun r => r.dagID = dagID)).length
        globalRunning := (w.db.listDagRunsByState .running).length, ready := ready } :=
    fun ready => ⟨fun _ => rfl, rfl, hw.2.2.perDag, hw.2.2.overall⟩
  refine Triple.seq (p := (· = w)) (solo_outcome_list _) ?_ (fun _ _ h => h.elim) w rfl
  rintro queued s ⟨hqueued, hs⟩
  rw [hs] at hqueued ⊢
  refine Triple.seq (p := (· = w)) (solo_outcome_list _) ?_ (fun _ _ h => h.elim) w rfl
  rintro running s' ⟨hrunning, hs'⟩
  rw [hs'] at hrunning ⊢
  subst hqueued hrunning
  refine Triple.seq (Triple.foldlM
    (I := fun _ s => s.dags = dags ∧ Within (Counted (w.db.listDagRunsByState .running) (window cfg w)) s)
    (fun run hrun ready => processListed_counted hrun ready) []) ?_ (fun _ _ h => h.elim) w hstart
  intro ready
  refine .seq (reorder_triple (w := w) (fun s hs => hs.1.trans hw.1.symm)) ?_ (fun _ _ h => h.elim)
  rintro queue s₁ ⟨rfl, hs₁⟩
  refine Triple.seq (Triple.foldlM (I := Gated cfg dags (window cfg w)) (fun run hrun g => gateQueued_gated hrun g) _) ?_
    (fun _ _ h => h) s₁ ⟨hs₁.1, _, htally ready, hs₁.2⟩
  intro gate
  have hadmit : Keeps (solo known k t) (Within (Limited cfg dags)) (admitReady cfg gate.ready) := by
    refine .ite (.pure _) (within_locked ?_)
    exact confined_keeps limited_framed ((admitInOrder_bounds _).mono (admitPrint_le_confined _))
  exact (held_keeps hadmit).strengthen (fun _ h => h.held)

private theorem queue_held {x : M α} (hx : queuePrint.Bounds x) : Keeps (solo known k t) (Held cfg dags) x :=
  held_keeps (confined_keeps limited_framed (hx.mono (queuePrint_le_confined _)))

private theorem tickOnce_held : Keeps (solo known k t) (Held cfg dags) (tickOnce cfg) :=
  .bind (queue_held (.ask _)) (fun now => .bind (queue_held processPendingDependencyEvents_bounds) (fun _ =>
    .bind (queue_held processPendingExternalEvents_bounds) (fun _ => .bind (queue_held (createDueRuns_bounds now)) (fun _ =>
      .bind processActiveRuns_held (fun _ => queue_held processPendingDependencyEvents_bounds)))))

/-! ### An operator call -/

/-- The run a call may make active again. -/
def reactivates : Call → Option String
  | .retryTask runID _ | .retryRun runID | .markTask runID _ _ => some runID
  | _ => none

/-- There is room for the run, should it be over: its DAG and the process are below
their limits. -/
def Room (cfg : Cfg) (w : World) (runID : String) : Prop :=
  ∀ row, w.db.run? runID = some row → row.state.isTerminal = true →
    (runningCount w row.dagID : Int) < limitOf (registered w.dags row.dagID) ∧
      ((w.db.listDagRunsByState .running).length : Int) < cfg.maxActiveRunsGlobal

/-- A program that makes no other run active than one that there is room for. -/
private theorem room_held {runID : String} {row : DagRun} {x : M α} {w : World} (hw : Held cfg dags w)
    (hrow : w.db.run? runID = some row) (hterminal : row.state.isTerminal = true) (hroom : Room cfg w runID)
    (hx : ∀ P, Framed (fun id => ∃ run ∈ w.db.listDagRunsByState .running ++ [row], run.runID = id) P →
      Keeps (solo known k t) (Within P) x) :
    Triple (solo known k t) (· = w) x (fun _ => Held cfg dags) := by
  obtain ⟨hdag, hall⟩ := hroom row hrow hterminal
  have hmem : row ∈ w.db.runs.rows := (Db.run?_spec hrow).1
  have hcounted : Counted (w.db.listDagRunsByState .running ++ [row]) [] w.db := by
    refine ⟨?_, ?_⟩
    · intro r hr
      rw [List.append_nil] at hr
      rcases List.mem_append.mp hr with hr | hr
      · exact ⟨r, Db.run?_of_mem (mem_listDagRunsByState.mp hr).1, rfl⟩
      · obtain rfl := List.mem_singleton.mp hr
        exact ⟨r, Db.run?_of_mem hmem, rfl⟩
    · exact fun r hr hstate => ⟨r, List.mem_append_left _ (mem_listDagRunsByState.mpr ⟨hr, hstate⟩), rfl⟩
  have hkeeps : Keeps (solo known k t) (fun s => s.dags = dags ∧ Within (Counted _ []) s) x :=
    held_keeps (hx _ counted_framed)
  refine hkeeps.mono (fun s hs => by rw [hs]; exact ⟨hw.1, hw.2.1, hcounted⟩) ?_
  rintro r s ⟨hdags, hcleared, hs⟩
  refine ⟨hdags, hcleared, hs.limited ?_ ?_⟩
  · intro dagID
    rw [count_append]
    by_cases heq : row.dagID = dagID
    · subst heq
      rw [hw.1] at hdag
      rw [if_pos rfl]
      exact hdag
    · rw [if_neg heq]
      exact hw.2.2.perDag dagID
  · rw [List.length_append, List.length_singleton]
    omega

/-- A run that is not over is not retried. -/
private theorem retryContext_refused {runID : String} {w : World}
    (hactive : ∀ row, w.db.run? runID = some row → row.state.isTerminal = false) :
    Triple (solo known k t) (fun s => s.db = w.db) (retryContext runID)
      (Ends (fun _ _ => False) (fun s => s.db = w.db)) := by
  refine .bind (m := fun r s => r = w.db.getDagRun runID ∧ s.db = w.db) ?_ ?_ ?_
  · refine (solo_query _).weaken ?_
    rintro r s ⟨rfl, hs⟩
    exact ⟨by rw [hs], hs⟩
  · intro run s hs
    obtain ⟨hrun, hs⟩ := hs
    have hopen := hactive run (Db.getDagRun_ok.mp hrun.symm)
    have hrefused : run.state.isActive = true := by
      revert hopen
      cases run.state <;> simp [RunState.isActive, RunState.isTerminal]
    rw [hrefused]
    exact hs
  · rintro e s ⟨-, hs⟩
    exact hs

private theorem retry_refused {runID : String} {op : Op} {w : World} (hw : Held cfg dags w)
    (hactive : ∀ row, w.db.run? runID = some row → row.state.isTerminal = false)
    (f : DagRun × DAG × List TaskInstance → M Unit) :
    Triple (solo known k t) (· = w) (locked (marked op (retryContext runID >>= f))) (fun _ => Held cfg dags) := by
  have hsame : Triple (solo known k t) (fun s => s.db = w.db) (locked (marked op (retryContext runID >>= f)))
      (fun _ s => s.db = w.db) := by
    refine solo_locked (A := fun db _ => db = w.db) (B := fun _ db _ => db = w.db) ?_
    refine solo_marked (A := fun db _ => db = w.db) (B := fun _ db _ => db = w.db) ?_
    exact .seq (retryContext_refused hactive) (fun _ _ h => h.elim) (fun _ _ h => h)
  have hboth := ((solo_dags w.dags _).strengthen (o := (· = w)) (fun s hs => hs ▸ rfl)).and
    (hsame.strengthen (fun s hs => hs ▸ rfl))
  refine hboth.weaken ?_
  rintro r s ⟨hdags, hdb⟩
  refine ⟨hdags.trans hw.1, ?_⟩
  unfold Within
  rw [hdb]
  exact hw.2

/-- Statements that make no run running. -/
private def calmPrint : Footprint where
  writes s := Confined (fun _ => True) s ∧ ∀ id, s.recordsState id ≠ some .running
  marks _ := True
  jobs _ := True

private theorem calm_limited {x : M α} (hx : calmPrint.Bounds x) : Keeps (solo known k t) (Within (Limited cfg dags)) x :=
  solo_bounds (A := fun db => Cleared db ∧ Limited cfg dags db) hx
    (fun _ _ hs h => ⟨h.1.apply hs.1, h.2.apply hs.1.creates_queued hs.2⟩)

private theorem calm_held {x : M α} (hx : calmPrint.Bounds x) : Keeps (solo known k t) (Held cfg dags) x :=
  held_keeps (calm_limited hx)

private theorem confinedPrint_le_calm : (confinedPrint (fun _ => False)).Le calmPrint where
  writes s h := by
    refine ⟨?_, fun id hid => h.own_running hid⟩
    cases s with
    | updateDagRunState run state _ _ => exact .inl trivial
    | updateDagRunSuccess run _ _ => exact trivial
    | _ => exact h
  marks _ _ := trivial
  jobs _ _ := trivial

/-- A task of a run that is not over is marked without making the run active. -/
private theorem markTask_open {runID taskID : String} {target : TaskState} {w : World} (hw : Held cfg dags w)
    (hactive : ∀ row, w.db.run? runID = some row → row.state.isTerminal = false) (htarget : target.isTerminal = true) :
    Triple (solo known k t) (· = w) (locked (markTaskLocked cfg runID taskID target)) (fun _ => Held cfg dags) := by
  have hcontext : Triple (solo known k t)
      (fun s => Held cfg dags s ∧ ∀ row, s.db.run? runID = some row → row.state.isTerminal = false)
      (markContext cfg runID) (Ends (fun p s => Held cfg dags s ∧ p.1.state.isTerminal = false) (Held cfg dags)) := by
    refine .seq (m := fun run s => Held cfg dags s ∧ run.state.isTerminal = false) (E := Held cfg dags) ?_ ?_ (fun _ _ h => h)
    · refine (solo_query _).weaken ?_
      rintro (e | run) s ⟨hr, hs, hopen⟩
      · exact hs
      · exact ⟨hs, hopen run (Db.getDagRun_ok.mp hr.symm)⟩
    · rintro run s ⟨hs, hopen⟩
      have hdag : (confinedPrint (fun _ => False)).Bounds (dagForRun cfg run) :=
        (dagForRun_bounds run).mono (adoptPrint_le_confined _)
      refine Gives.bind ((dagForRun_yields run).gives (calm_held (hdag.mono confinedPrint_le_calm))) ?_ s hs
      rintro ⟨d, new⟩ hresolved
      have hnew : new.state.isTerminal = false := by rw [hresolved.state]; exact hopen
      exact .bind (calm_held (.list _)).gives (fun tis _ => .pure hnew)
  have hbody : Triple (solo known k t)
      (fun s => Held cfg dags s ∧ ∀ row, s.db.run? runID = some row → row.state.isTerminal = false)
      (locked (markTaskLocked cfg runID taskID target)) (fun _ => Held cfg dags) := by
    refine solo_locked
      (A := fun db dags' => (dags' = dags ∧ Cleared db ∧ Limited cfg dags db) ∧
        ∀ row, db.run? runID = some row → row.state.isTerminal = false)
      (B := fun _ db dags' => dags' = dags ∧ Cleared db ∧ Limited cfg dags db) ?_
    refine solo_marked
      (A := fun db dags' => (dags' = dags ∧ Cleared db ∧ Limited cfg dags db) ∧
        ∀ row, db.run? runID = some row → row.state.isTerminal = false)
      (B := fun _ db dags' => dags' = dags ∧ Cleared db ∧ Limited cfg dags db) ?_
    refine .seq hcontext ?_ (fun _ _ h => h)
    rintro ⟨run, d, tis⟩ s ⟨hs, hopen⟩
    refine calm_held (markListed_bounds ?_ ?_ ?_ ?_) s hs
    · exact fun child => ((cancelRunLocked_bounds _ child).mono (cancelPrint_le_confined _)).mono confinedPrint_le_calm
    · exact fun _ => ⟨fun _ => rfl, nofun⟩
    · intro ti hti
      refine ⟨?_, nofun⟩
      intro hsched
      rw [← hti, hsched] at htarget
      cases htarget
    · intro hterminal
      rw [hopen] at hterminal
      cases hterminal
  exact hbody.strengthen (fun s hs => hs ▸ ⟨hw, hactive⟩)

/-- A call that may make a run active again finds room for it, or leaves it alone. -/
private theorem reactivate_held {runID : String} {x : M α} {w : World} (hw : Held cfg dags w) (hroom : Room cfg w runID)
    (hx : ∀ {own : String → Prop} {P : Db → Prop}, Framed own P → own runID → Keeps (solo known k t) (Within P) x)
    (hopen : (∀ row, w.db.run? runID = some row → row.state.isTerminal = false) →
      Triple (solo known k t) (· = w) x (fun _ => Held cfg dags)) :
    Triple (solo known k t) (· = w) x (fun _ => Held cfg dags) := by
  by_cases hactive : ∀ row, w.db.run? runID = some row → row.state.isTerminal = false
  · exact hopen hactive
  · rw [not_forall] at hactive
    obtain ⟨row, hrow⟩ := hactive
    rw [Classical.not_imp, Bool.not_eq_false] at hrow
    refine room_held hw hrow.1 hrow.2 hroom ?_
    intro P hP
    exact hx hP ⟨row, List.mem_append_right _ (List.mem_singleton_self _), (Db.run?_spec hrow.1).2⟩

private theorem call_held {c : Call} {w : World} (hw : Held cfg dags w)
    (hroom : ∀ runID, reactivates c = some runID → Room cfg w runID) :
    Triple (solo known k t) (· = w) (c.body cfg) (fun _ => Held cfg dags) := by
  have hkeeps : ∀ {c : Call}, Keeps (solo known k t) (Held cfg dags) (c.body cfg) →
      Triple (solo known k t) (· = w) (c.body cfg) (fun _ => Held cfg dags) :=
    fun h => h.strengthen (fun s hs => hs ▸ hw)
  cases c with
  | trigger dagID params priority =>
    exact hkeeps (queue_held (.bind (triggerManualPriority_bounds dagID params priority) (fun _ => .pure _)))
  | backfill dagID first last => exact hkeeps (queue_held (.bind (backfill_bounds dagID first last) (fun _ => .pure _)))
  | hold runID held => exact hkeeps (queue_held (.statement (.hold _ _)))
  | publish key payload => exact hkeeps (queue_held (.bind (.statement (.publish _ _)) (fun _ => .pure _)))
  | cancelRun runID => exact hkeeps (held_keeps (cancelRun_confined limited_framed runID))
  | retryTask runID taskID =>
    exact reactivate_held hw (hroom runID rfl) (fun hP hown => retryTask_confined hP hown)
      (fun hactive => retry_refused hw hactive _)
  | retryRun runID =>
    exact reactivate_held hw (hroom runID rfl) (fun hP hown => retryRun_confined hP hown)
      (fun hactive => retry_refused hw hactive _)
  | markTask runID taskID target =>
    change Triple (solo known k t) (· = w) (markTask cfg runID taskID target) (fun _ => Held cfg dags)
    unfold markTask
    refine .refuse (fun s hs => hs ▸ hw) (fun hlegal => ?_)
    have htarget : target.isTerminal = true := by
      revert hlegal
      cases target <;> simp [TaskState.isTerminal]
    exact reactivate_held hw (hroom runID rfl) (fun hP hown => markTask_confined hP hown htarget)
      (fun hactive => markTask_open hw hactive htarget)
  | markRun runID target =>
    change Triple (solo known k t) (· = w) (markRun cfg runID target) (fun _ => Held cfg dags)
    unfold markRun
    refine .refuse (fun s hs => hs ▸ hw) (fun hlegal => ?_)
    have htarget : target ≠ .running := by
      rintro rfl
      exact hlegal ⟨by decide, by decide⟩
    refine Triple.strengthen (p := Held cfg dags) (held_keeps (within_locked (calm_limited (markRunLocked_bounds
      trivial ?_ ?_ ?_)))) (fun s hs => hs ▸ hw)
    · exact ⟨fun s h => confinedPrint_le_calm.writes s ((queuePrint_le_confined _).writes s h), fun _ _ => trivial,
        fun _ _ => trivial, fun _ => trivial⟩
    · intro startedAt finishedAt
      refine ⟨trivial, fun id h => ?_⟩
      simp only [Write.recordsState] at h
      split at h <;> cases h
    · intro startedAt finishedAt
      refine ⟨.inl trivial, fun id h => ?_⟩
      simp only [Write.recordsState] at h
      split at h
      · exact htarget (Option.some.inj h)
      · cases h

/-! ### Every turn -/

/-- The limits as the definitions state them. -/
structure Exclusive (cfg : Cfg) (w : World) : Prop where
  serial : ∀ dagID d, registered w.dags dagID = some d → d.executionPolicy ≠ .parallel → runningCount w dagID ≤ 1
  parallel : ∀ dagID d, registered w.dags dagID = some d → d.executionPolicy = .parallel →
    (runningCount w dagID : Int) ≤ d.maxActiveRuns
  overall : ((w.db.listDagRunsByState .running).length : Int) ≤ cfg.maxActiveRunsGlobal

/-- Nothing has run yet, and every registered definition was accepted by the parser. -/
structure Empty (cfg : Cfg) (w : World) : Prop where
  runs : w.db.runs.rows = []
  tasks : w.db.tasks.rows = []
  dags : ∀ d ∈ w.dags, ∃ raw parsed, Parser.parse cfg.parser raw = .ok parsed ∧ d = { parsed with paused := d.paused }

/-- A turn that makes a finished run active again finds room for it. -/
def Orderly (cfg : Cfg) (w : World) (turn : Turn) : Prop :=
  ∀ c runID, turn = .call c → reactivates c = some runID → Room cfg w runID

private theorem takes_held {turn : Turn} {w w' : World} (h : Takes cfg w turn w') (horderly : Orderly cfg w turn)
    (hw : Held cfg dags w) : Held cfg dags w' := by
  refine h.keeps hw (fun _ => tickOnce_held) ?_ ?_
  · intro c hc
    exact call_held hw (fun runID hid => horderly c runID hc hid)
  · intro n job β c r _ hc heffect
    refine ⟨heffect.dags.trans hw.1, ?_⟩
    cases c with
    | write s =>
      rcases heffect with ⟨rfl, -⟩ | ⟨rfl, -⟩
      · exact hw.2
      · have hconfined := (attemptPrint_le_confined (fun _ => False) job.ti).writes s hc
        exact ⟨hw.2.1.apply hconfined, limited_framed s w.db hconfined hw.2.1 hw.2.2⟩
    | lock => exact hc.elim
    | unlock => exact hc.elim
    | enter op => exact hc.elim
    | leave op ok => exact hc.elim
    | _ =>
      unfold Within
      rw [(heffect.silent_eq rfl).1]
      exact hw.2

/-- In every sequence of turns that leaves room for the runs it makes active
again, the limits on running runs hold throughout. -/
theorem mutual_exclusion (cfg : Cfg) (hglobal : 0 < cfg.maxActiveRunsGlobal) (w w' : World) (hempty : Empty cfg w)
    (hturns : Relation.ReflTransGen (fun a b => ∃ turn, Takes cfg a turn b ∧ Orderly cfg a turn) w w') :
    Exclusive cfg w' := by
  have hnone : w.db.listDagRunsByState .running = [] := by
    simp [Db.listDagRunsByState, Relational.Table.filter, hempty.runs]
  have hlimit : ∀ d, 0 ≤ limitOf d := by
    intro d
    unfold limitOf
    dsimp only
    split
    · split
      · split <;> omega
      · omega
    · omega
  have hinit : Held cfg w.dags w := by
    refine ⟨rfl, ?_, ?_, ?_⟩
    · intro row hrow
      rw [hempty.tasks] at hrow
      cases hrow
    · intro dagID
      rw [hnone]
      exact hlimit _
    · rw [hnone]
      exact le_of_lt hglobal
  have hheld : Held cfg w.dags w' := by
    induction hturns with
    | refl => exact hinit
    | tail _ hturn ih =>
      obtain ⟨turn, htakes, horderly⟩ := hturn
      exact takes_held htakes horderly ih
  refine ⟨?_, ?_, hheld.2.2.overall⟩
  · intro dagID d hd hserial
    have hle := hheld.2.2.perDag dagID
    rw [← hheld.1, hd, limitOf, if_neg (by exact hserial)] at hle
    exact Int.ofNat_le.mp hle
  · intro dagID d hd hparallel
    have hle := hheld.2.2.perDag dagID
    rw [← hheld.1, hd, limitOf, if_pos (by exact hparallel)] at hle
    rw [hheld.1] at hd
    obtain ⟨raw, parsed, hparse, heq⟩ := hempty.dags d (List.mem_of_find?_eq_some hd)
    have hpos : 0 < d.maxActiveRuns := by
      have hparsed := Parser.parse_maxActiveRuns hparse
      rw [heq]
      exact hparsed
    simp only [if_pos hpos] at hle
    exact hle

def serialYAML : String := "dag_id: job\nexecution_policy: serial_wait\ntasks:\n- id: a\n  command: x\n"

def serialDocument : Parser.DagYAML :=
  { dagID := "job", executionPolicy := "serial_wait", tasks := [{ id := "a", command := "x" }] }

def serialDag : DAG :=
  { dagID := "job", executionPolicy := .serialWait, definitionYAML := serialYAML, tasks := [{ id := "a", command := "x" }] }

def serialCfg : Cfg := .ofDocuments [(serialYAML, serialDocument)]

def serialWorld : World :=
  { db := { dags := ⟨[{ dagID := "job", definitionYAML := serialYAML }], List.pairwise_singleton _ _⟩ }, dags := [serialDag] }

theorem serialWorld_empty : Empty serialCfg serialWorld := by
  refine ⟨rfl, rfl, ?_⟩
  intro d hd
  obtain rfl := List.mem_singleton.mp hd
  exact ⟨serialYAML, serialDag, by decide +kernel, rfl⟩

theorem mutual_exclusion_started :
    ∃ w', Relation.ReflTransGen (fun a b => ∃ turn, Takes serialCfg a turn b ∧ Orderly serialCfg a turn) serialWorld w' ∧
      runningCount w' "job" = 1 ∧ Exclusive serialCfg w' := by
  have hplay : (serialWorld.after serialCfg fine [some (.trigger "job" [] 0), none]).map (fun w => runningCount w "job") =
      some 1 := by
    decide +kernel
  obtain ⟨w', hw', hcount⟩ := Option.map_eq_some_iff.mp hplay
  have hturns : Relation.ReflTransGen (fun a b => ∃ turn, Takes serialCfg a turn b ∧ Orderly serialCfg a turn)
      serialWorld w' := by
    refine Relation.ReflTransGen.mono ?_ _ _ (World.after_takes faultless_fine hw')
    rintro a b ⟨turn, htakes, hcalls⟩
    refine ⟨turn, htakes, ?_⟩
    intro c runID hc hreact
    have hmem := hcalls c hc
    simp only [List.mem_cons, Option.some.injEq, reduceCtorEq, List.not_mem_nil, or_false] at hmem
    subst hmem
    cases hreact
  exact ⟨w', hturns, hcount, mutual_exclusion serialCfg (by decide) serialWorld w' serialWorld_empty hturns⟩

/-- The first run is cancelled and the second is running when the first is retried. -/
theorem serial_dag_runs_twice :
    ¬ ∀ (cfg : Cfg) (w w' : World), 0 < cfg.maxActiveRunsGlobal → Empty cfg w →
      Relation.ReflTransGen (fun a b => ∃ turn, Takes cfg a turn b) w w' → Exclusive cfg w' := by
  have hplay : (serialWorld.after serialCfg fine [some (.trigger "job" [] 0), none, some (.cancelRun "job__manual_0"),
      some (.trigger "job" [] 0), none, some (.retryRun "job__manual_0")]).map (fun w =>
        (registered w.dags "job", runningCount w "job")) = some (some serialDag, 2) := by
    decide +kernel
  obtain ⟨w', hw', hcount⟩ := Option.map_eq_some_iff.mp hplay
  simp only [Prod.mk.injEq] at hcount
  intro h
  have hturns : Relation.ReflTransGen (fun a b => ∃ turn, Takes serialCfg a turn b) serialWorld w' := by
    refine Relation.ReflTransGen.mono ?_ _ _ (World.after_takes faultless_fine hw')
    rintro a b ⟨turn, htakes, -⟩
    exact ⟨turn, htakes⟩
  have hserial := (h serialCfg serialWorld w' (by decide) serialWorld_empty hturns).serial "job" serialDag hcount.1 nofun
  rw [hcount.2] at hserial
  exact absurd hserial (by decide)

end Cronova.Properties.MutualExclusion
