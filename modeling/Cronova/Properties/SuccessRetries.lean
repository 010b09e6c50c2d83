import Cronova.Properties.SuccessRuns

/-! Retries and marks of a finished run: from the moment its definition or its rows
are changed until it is active again, nothing can fail. -/
namespace Cronova.Properties.Success
open Cronova.Model Cronova.Store Cronova.Concurrency Cronova.Concurrency.Fallible Cronova.Scheduler

/-- The run is stored as finished. -/
def Over (runID : String) (db : Db) : Prop := ∃ a, db.runState runID = some a ∧ a.isTerminal = true

/-- The run is over, and the instances are those of its rows. -/
structure Ready (runID : String) (t : Nat) (byTask : List TaskInstance) (s : World) : Prop where
  held : s.holder = some t
  ended : Over runID s.db
  stored : ∀ ti ∈ byTask, ∃ row, s.db.task? ti.id = some row ∧ row.runID = runID ∧ row.taskID = ti.taskID
  complete : ∀ row ∈ s.db.tasks.rows, row.runID = runID → row.taskID ∈ byTask.map (·.taskID)

/-- The run is being reset: a recorded success of another run is sound. -/
structure Retrying (cfg : Cfg) (r : String) (t : Nat) (runID : String) (byTask : List TaskInstance) (s : World) : Prop
    extends Ready runID t byTask s where
  sound : runID ≠ r → Sound cfg r s.db
  detached : Detached s.db

section Retries
variable {cfg : Cfg} {r : String} {k : Kind} {t : Nat} {runID : String} {byTask : List TaskInstance} {s s' : World}

theorem Over.stable (hrely : Rely cfg r t s s') (hheld : s.holder = some t) (h : Over runID s.db) : Over runID s'.db := by
  obtain ⟨a, ha, hover⟩ := h
  exact ⟨a, hrely.undisturbed.runs hheld runID a ha (.inl hover), hover⟩

theorem Ready.stable (hrely : Rely cfg r t s s') (h : Ready runID t byTask s) : Ready runID t byTask s' := by
  refine ⟨hrely.undisturbed.holder h.held, h.ended.stable hrely h.held, ?_, ?_⟩
  · intro ti hti
    obtain ⟨row, hrow, hrun, htask⟩ := h.stored ti hti
    obtain ⟨row', hrow', hrun', htask'⟩ := hrely.rows _ row hrow
    exact ⟨row', hrow', hrun'.trans hrun, htask'.trans htask⟩
  · intro row' hrow' hrun
    obtain ⟨row, hrow, hsamerun, hsametask⟩ := hrely.known h.held row' hrow'
    rw [hsametask]
    exact h.complete row hrow (hsamerun.symm.trans hrun)

theorem Retrying.stable (hrely : Rely cfg r t s s') (h : Retrying cfg r t runID byTask s) : Retrying cfg r t runID byTask s' :=
  ⟨h.toReady.stable hrely, fun hne => hrely.sound h.held (h.sound hne), hrely.detached h.detached⟩

/-- The instances of a list that is complete. -/
theorem Ready.listed (hheld : s.holder = some t) (hover : Over runID s.db) :
    Ready runID t (s.db.listTaskInstances runID) s := by
  refine ⟨hheld, hover, ?_, ?_⟩
  · intro ti hti
    obtain ⟨hmem, hrun⟩ := Db.mem_listTaskInstances.mp hti
    exact ⟨ti, Db.task?_of_mem hmem, hrun, rfl⟩
  · intro row hrow hrun
    exact List.mem_map.mpr ⟨row, Db.mem_listTaskInstances.mpr ⟨hrow, hrun⟩, rfl⟩

/-- The statements of a reset that create no row. -/
structure Resets (runID : String) (byTask : List TaskInstance) {β : Type} (w : Write β) : Prop where
  silent : ∀ id, w.recordsState id = none
  text : ∀ id, redefines w = some id → id = runID
  rows : ∀ id, rewrites w = some id → ∃ ti ∈ byTask, ti.id = id
  known : createsTask w = false
  detaching : Detaching w

theorem Over.apply {db : Db} {β : Type} {w : Write β} (h : Over runID db) (hrec : w.recordsState runID = none) :
    Over runID (db.apply w).2 := by
  obtain ⟨a, ha, hover⟩ := h
  exact ⟨a, Db.apply_runState hrec ha, hover⟩

theorem Ready.write (h : Ready runID t byTask s) {β : Type} {w : Write β} (hover : Over runID (s.db.apply w).2)
    (hknown : createsTask w = false) : Ready runID t byTask (s.written k t w) := by
  refine ⟨h.held, hover, ?_, ?_⟩
  · intro ti hti
    obtain ⟨row, hrow, hrun, htask⟩ := h.stored ti hti
    obtain ⟨row', hrow', hrun', htask', -⟩ := apply_task (w := w) hrow
    exact ⟨row', hrow', hrun'.trans hrun, htask'.trans htask⟩
  · intro row' hrow' hrun
    obtain ⟨row, hrow, hsamerun, hsametask⟩ := apply_known hknown hrow'
    rw [hsametask]
    exact h.complete row hrow (hsamerun.symm.trans hrun)

theorem Retrying.write (h : Retrying cfg r t runID byTask s) {β : Type} {w : Write β} (hp : Permitted t s w)
    (hw : Resets runID byTask w) : Retrying cfg r t runID byTask (s.written k t w) := by
  refine ⟨h.toReady.write (h.ended.apply (hw.silent runID)) hw.known, ?_, h.detached.apply hw.detaching⟩
  intro hne
  refine (h.sound hne).apply ⟨silent_none (hw.silent r), creates_queued hp, fun htext => absurd (hw.text r htext).symm hne, ?_⟩
  intro run d task _ _ _ _ row hrow hid _ _
  refine rows_elsewhere ?_ hrow hid
  intro id hrewrites old hold
  obtain ⟨ti, hti, rfl⟩ := hw.rows id hrewrites
  obtain ⟨stored, hstored, hrun, -⟩ := h.stored ti hti
  rw [hold] at hstored
  cases hstored
  rw [hrun]
  exact hne

/-- A statement of a reset, which the run and its rows being there cannot fail. -/
private theorem Retrying.statement {β : Type} {w : Write β} {post : β → World → Prop}
    (hown : ∀ s, Retrying cfg r t runID byTask s → Own cfg r t s (.write w))
    (hok : ∀ s, Retrying cfg r t runID byTask s → Permitted t s w →
      ∃ b, (s.db.apply w).1 = .ok b ∧ post b (s.written k t w)) :
    Triple (rules cfg r k t) (Retrying cfg r t runID byTask) (Scheduler.statement w) (Ends post (fun _ => False)) := by
  refine Triple.call (fun s s' hrely h => h.stable hrely) ?_
  intro s x s' hs hsem
  have hspec := sem_spec hsem
  obtain ⟨rfl, rfl⟩ := hspec.answered
  refine ⟨hspec.guar (hown s hs), ?_⟩
  obtain ⟨b, hb, hpost⟩ := hok s hs hspec.orderly
  rw [hb]
  exact hpost

private theorem Retrying.ask {β : Type} (a : Ask β) :
    Triple (rules cfg r k t) (Retrying cfg r t runID byTask) (Scheduler.ask a)
      (Ends (fun _ => Retrying cfg r t runID byTask) (fun _ => False)) := by
  refine Triple.lift (fun s s' hrely h => h.stable hrely) ?_
  intro s x s' hs hsem
  have hspec := sem_spec hsem
  obtain ⟨hdb, hholder, -, -⟩ := hspec.effect.silent_eq rfl
  exact ⟨hspec.guar trivial, ⟨⟨hholder.trans hs.held, hdb ▸ hs.ended, hdb ▸ hs.stored, hdb ▸ hs.complete⟩, hdb ▸ hs.sound,
    hdb ▸ hs.detached⟩⟩

/-- Replacing the definition. -/
private theorem definition_triple (yaml hash : String) :
    Triple (rules cfg r k t) (Retrying cfg r t runID byTask) (statement (.updateDagRunDefinition runID yaml hash))
      (Ends (fun _ => Retrying cfg r t runID byTask) (fun _ => False)) := by
  refine Retrying.statement (fun _ _ => trivial) ?_
  intro s hs hp
  refine ⟨(), ?_, hs.write hp ⟨fun _ => rfl, ?_, nofun, rfl, trivial⟩⟩
  · obtain ⟨a, ha, -⟩ := hs.ended
    obtain ⟨run, hrun, -⟩ := Option.map_eq_some_iff.mp ha
    simp only [Db.apply, hrun]
  · rintro id ⟨⟩
    rfl

/-- Overwriting a row of the run. -/
private theorem row_triple {ti new : TaskInstance} (hti : ti ∈ byTask) (hid : new.id = ti.id)
    (hdetaching : new.state = .scheduled → new.executorRef = "") :
    Triple (rules cfg r k t) (Retrying cfg r t runID byTask) (statement (.updateTaskInstance new))
      (Ends (fun _ => Retrying cfg r t runID byTask) (fun _ => False)) := by
  refine Retrying.statement (fun s hs => ⟨hdetaching, .inl hs.held⟩) ?_
  intro s hs hp
  refine ⟨(), ?_, hs.write hp ⟨fun _ => rfl, nofun, ?_, rfl, hdetaching⟩⟩
  · obtain ⟨row, hrow, -⟩ := hs.stored ti hti
    rw [← hid] at hrow
    simp only [Db.apply, hrow]
  · rintro id ⟨⟩
    exact ⟨ti, hti, hid.symm⟩

/-- Creating the row of a task that has none. -/
private theorem create_triple {ti : TaskInstance} (hrun : ti.runID = runID) (hnew : findTI byTask ti.taskID = none)
    (href : ti.executorRef = "") :
    Triple (rules cfg r k t) (Retrying cfg r t runID byTask) (statement (.createTaskInstance ti))
      (Ends (fun id => Retrying cfg r t runID (byTask ++ [{ ti with id := id }])) (fun _ => False)) := by
  refine Retrying.statement (fun _ _ => fun _ => href) ?_
  intro s hs hp
  have hfree : ∀ row ∈ s.db.tasks.rows, ¬ taskClash (taskKey row) (taskKey { ti with id := s.db.nextTaskID }) := by
    intro row hrow hclash
    rcases hclash with hid | hkey
    · have hlt := Db.id_lt_nextTaskID hrow
      rw [show row.id = s.db.nextTaskID from hid] at hlt
      omega
    · simp only [taskKey, Prod.mk.injEq] at hkey
      have hmem := hs.complete row hrow (hkey.1.trans hrun)
      obtain ⟨known, hknown, hid⟩ := List.mem_map.mp hmem
      have hnone := List.find?_eq_none.mp hnew known hknown
      exact hnone (by simpa using hid.trans hkey.2)
  obtain ⟨tasks, htasks⟩ := Relational.Table.insert?_isSome_iff.mpr hfree
  have happly : s.db.apply (.createTaskInstance ti) = (.ok s.db.nextTaskID, { s.db with tasks := tasks }) := by
    simp only [Db.apply, htasks]
  have hrows := Relational.Table.rows_insert? htasks
  refine ⟨s.db.nextTaskID, by rw [happly], ⟨hs.held, hs.ended.apply rfl, ?_, ?_⟩, ?_, hs.detached.apply (fun _ => href)⟩
  · intro known hknown
    rcases List.mem_append.mp hknown with hold | hlast
    · obtain ⟨row, hrow, hrowrun, hrowtask⟩ := hs.stored known hold
      obtain ⟨row', hrow', hrun', htask', -⟩ := apply_task (w := .createTaskInstance ti) hrow
      exact ⟨row', hrow', hrun'.trans hrowrun, htask'.trans hrowtask⟩
    · obtain rfl := List.mem_singleton.mp hlast
      refine ⟨{ ti with id := s.db.nextTaskID }, ?_, hrun, rfl⟩
      simp only [World.written, happly]
      have hmem : { ti with id := s.db.nextTaskID } ∈ tasks.rows := by
        rw [hrows]
        exact List.mem_append_right _ (List.mem_singleton.mpr rfl)
      exact Db.task?_of_mem (s := { s.db with tasks := tasks }) hmem
  · intro row hrow hid
    simp only [World.written, happly, hrows] at hrow
    rw [List.map_append, List.mem_append]
    rcases List.mem_append.mp hrow with hold | hlast
    · exact .inl (hs.complete row hold hid)
    · obtain rfl := List.mem_singleton.mp hlast
      exact .inr (List.mem_singleton.mpr rfl)
  · intro hne
    refine (hs.sound hne).apply ⟨silent_none rfl, creates_queued hp, (by simp [redefines]), ?_⟩
    exact fun _ _ _ _ _ _ _ row hrow _ _ _ => rows_untouched rfl hrow

theorem Ready.set (h : Ready runID t byTask s) {ti new : TaskInstance} (hti : ti ∈ byTask) (hid : new.id = ti.id)
    (htask : new.taskID = ti.taskID) : Ready runID t (setTI byTask new) s := by
  refine ⟨h.held, h.ended, ?_, ?_⟩
  · intro row hrow
    rcases mem_setTI hrow with rfl | hold
    · rw [hid, htask]
      exact h.stored ti hti
    · exact h.stored row hold
  · rw [setTI_ids]
    exact h.complete

private theorem adoptTask_triple {run : DagRun} (hrun : run.runID = runID) {d : DAG} {hash : String} {reset : List String}
    (task : Task) : Triple (rules cfg r k t) (Retrying cfg r t runID byTask) (adoptTask cfg run d hash reset byTask task)
      (Ends (fun byTask' => Retrying cfg r t runID byTask') (fun _ => False)) := by
  unfold adoptTask
  split
  · rename_i hnew
    exact Triple.next (create_triple hrun hnew rfl) (fun id => .pure (fun _ hs => hs))
  · rename_i ti hti
    refine .ite (fun _ => .pure ?_) (fun _ => .pure (fun _ hs => hs))
    exact fun s hs => ⟨hs.toReady.set (findTI_spec hti).1 rfl rfl, hs.sound, hs.detached⟩

private theorem reactivate_triple {now : Time} :
    Triple (rules cfg r k t) (Retrying cfg r t runID byTask) (statement (.updateDagRunState runID .running (some now) none))
      (Ends (fun _ => Base cfg r t []) (fun _ => False)) := by
  refine Retrying.statement (fun _ _ _ h => by cases h) ?_
  intro s hs hp
  obtain ⟨a, ha, hover⟩ := hs.ended
  obtain ⟨run, hrun, rfl⟩ := Option.map_eq_some_iff.mp ha
  have hlegal : run.state ∈ legalPriorRunStates .running := by
    revert hover
    cases run.state <;> simp [RunState.isTerminal, legalPriorRunStates]
  have heq : s.db.apply (.updateDagRunState runID .running (some now) none) =
      (.ok (), s.db.recordState runID .running (some now) none) := by
    simp only [Db.apply, hrun, if_pos hlegal]
    rfl
  refine ⟨(), by rw [heq], hs.held, ?_, hs.detached.apply trivial, fun _ h => by simp at h⟩
  by_cases hid : runID = r
  · subst hid
    refine Open.sound ?_
    simp only [World.written, heq, Open, Db.runState, Db.run?_recordState_self hrun]
    intro h
    cases h
  · refine (hs.sound hid).apply ⟨silent_none ?_, creates_queued hp, (by simp [redefines]), ?_⟩
    · simp [Write.recordsState, hid]
    · exact fun _ _ _ _ _ _ _ row hrow _ _ _ => rows_untouched rfl hrow

/-- A retry of a finished run ends with the run active. -/
theorem retryTasks_triple {run : DagRun} (hrun : run.runID = runID) (d : DAG) (ids : List String) :
    Triple (rules cfg r k t) (Retrying cfg r t runID byTask) (retryTasks cfg run d byTask ids)
      (Ends (fun _ => Base cfg r t []) (fun _ => False)) := by
  subst hrun
  have hadopt : Triple (rules cfg r k t) (Retrying cfg r t run.runID byTask) (prepareRetryDefinition cfg run d byTask ids)
      (Ends (fun byTask' => Retrying cfg r t run.runID byTask') (fun _ => False)) :=
    Triple.next (definition_triple _ _) (fun _ => Triple.foldlM (fun task _ byTask => adoptTask_triple rfl task) byTask)
  refine Triple.next hadopt (fun byTask => Triple.next (Retrying.ask _) (fun order => ?_))
  have hclear : ∀ (id : String) (x : M Unit),
      (∀ ti, findTI byTask id = some ti → x = statement (.updateTaskInstance (clearTask ti))) →
      (findTI byTask id = none → x = pure ()) → Triple (rules cfg r k t) (Retrying cfg r t run.runID byTask) x
      (Ends (fun _ => Retrying cfg r t run.runID byTask) (fun _ => False)) := by
    intro id x hsome hnone
    cases hti : findTI byTask id with
    | none =>
      rw [hnone hti]
      exact .pure (fun _ hs => hs)
    | some ti =>
      rw [hsome ti hti]
      exact row_triple (findTI_spec hti).1 rfl (fun _ => rfl)
  exact Triple.next (Triple.forM_mem (fun id _ => hclear id _ (fun ti hti => by rw [hti]) (fun hti => by rw [hti]))) (fun _ => Triple.next (Retrying.ask _) (fun now => reactivate_triple))

/-! ### What a retry works on -/

private theorem over_of_inactive {run : DagRun} {db : Db} (hrun : db.run? runID = some run) (hover : run.state.isActive = false) :
    Over runID db := by
  refine ⟨run.state, by rw [Db.runState, hrun, Option.map_some], ?_⟩
  revert hover
  cases run.state <;> simp [RunState.isActive, RunState.isTerminal]

private theorem retryContext_triple :
    Triple (rules cfg r k t) (Base cfg r t []) (retryContext runID)
      (Ends (fun p s => p.1.runID = runID ∧ Base cfg r t [] s ∧ Ready runID t p.2.2 s) (Base cfg r t [])) := by
  have hrun : Triple (rules cfg r k t) (Base cfg r t []) (query (fun db => db.getDagRun runID))
      (Ends (fun run s => run.runID = runID ∧ Base cfg r t [] s ∧ (run.state.isActive = false → Over runID s.db)) (Base cfg r t [])) := by
    refine query_triple (fun _ _ hrely h => h.stable hrely) ?_ (fun _ _ hs _ => hs)
    intro s run hs hget
    have hstored := Db.getDagRun_ok.mp hget
    exact ⟨(Db.run?_spec hstored).2, hs, over_of_inactive hstored⟩
  refine Triple.seq hrun (fun run => Triple.given (fun hid => ?_)) (fun _ _ h => h)
  refine Triple.refuse (fun _ h => h.1) (fun hinactive => ?_)
  have hinactive : run.state.isActive = false := by simpa using hinactive
  have hstable : Stable (rules cfg r k t) (fun s => Base cfg r t [] s ∧ Over runID s.db) :=
    fun _ _ hrely h => ⟨h.1.stable hrely, h.2.stable hrely h.1.held⟩
  have hcached : Triple (rules cfg r k t) (fun s => Base cfg r t [] s ∧ (run.state.isActive = false → Over runID s.db))
      (cachedDAG run.dagID) (Ends (fun _ s => Base cfg r t [] s ∧ Over runID s.db) (fun _ => False)) := by
    refine Triple.strengthen (p := fun s => Base cfg r t [] s ∧ Over runID s.db) (Triple.lift hstable ?_)
      (fun s hs => ⟨hs.1, hs.2 hinactive⟩)
    intro s x s' hs hsem
    have hspec := sem_spec hsem
    obtain ⟨rfl, -⟩ := hspec.effect
    exact ⟨hspec.guar trivial, hs⟩
  refine Triple.next hcached ?_
  rintro (_ | d)
  · exact .throw (fun _ h => h.1)
  · have hlist : Triple (rules cfg r k t) (fun s => Base cfg r t [] s ∧ Over runID s.db) (list (fun db => db.listTaskInstances runID))
        (Ends (fun tis s => Base cfg r t [] s ∧ Ready runID t tis s) (Base cfg r t [])) :=
      list_triple hstable (fun s hs => ⟨hs.1, Ready.listed hs.1.held hs.2⟩)
    exact Triple.seq hlist (fun tis => .pure (fun _ hs => ⟨hid, hs⟩)) (fun _ _ h => h)

private theorem Ready.retrying (hbase : Base cfg r t [] s) (h : Ready runID t byTask s) : Retrying cfg r t runID byTask s :=
  ⟨h, fun _ => hbase.sound, hbase.detached⟩

/-- An operation that is marked at its beginning and end. -/
theorem marked_keeps {op : Op} {α : Type} {x : M α} (hx : Keeps (rules cfg r k t) (Base cfg r t []) x) :
    Keeps (rules cfg r k t) (Base cfg r t []) (marked op x) := by
  refine Triple.around (i := Base cfg r t []) (d := fun _ => Base cfg r t []) (fun _ _ hrely h => h.stable hrely) ?_ hx
    (fun _ _ _ hrely h => h.stable hrely) ?_
  · intro s s' hs hsem
    have hspec := sem_spec hsem
    obtain ⟨hown, hbase⟩ := hs.step hspec trivial
    exact ⟨hspec.guar hown, hbase⟩
  · intro x s s' hs hsem
    have hspec := sem_spec hsem
    obtain ⟨hown, hbase⟩ := hs.step hspec trivial
    exact ⟨hspec.guar hown, hbase⟩

private theorem retry_keeps {op : Op} {e : Err} (refused : DagRun × DAG × List TaskInstance → Prop) [DecidablePred refused]
    (ids : DagRun × DAG × List TaskInstance → List String) :
    Keeps (rules cfg r k t) (Base cfg r t []) (marked op do
      let p ← retryContext runID
      if refused p then throw e
      retryTasks cfg p.1 p.2.1 p.2.2 (ids p) : M Unit) := by
  refine marked_keeps (Triple.seq retryContext_triple ?_ (fun _ _ h => h))
  rintro ⟨run, d, tis⟩
  refine Triple.given (fun hid => Triple.refuse (fun _ h => h.1) (fun _ => ?_))
  refine ((retryTasks_triple hid d _).strengthen (fun s hs => hs.2.retrying hs.1)).weaken ?_
  intro x s hs
  cases x with
  | ok u => exact hs
  | error e => exact hs.elim

theorem retryTaskLocked_keeps (runID taskID : String) : Keeps (rules cfg r k t) (Base cfg r t []) (retryTaskLocked cfg runID taskID) :=
  retry_keeps (fun p => (findTI p.2.2 taskID).isNone ∨ taskID ∉ p.2.1.tasks.map (·.id))
    (fun p => validIDs p.2.1 ((downstreamClosure p.2.1.tasks taskID).contains ·))

theorem retryRunLocked_keeps (runID : String) : Keeps (rules cfg r k t) (Base cfg r t []) (retryRunLocked cfg runID) :=
  retry_keeps (fun p => retryIDs p.2.1 p.2.2 = []) (fun p => retryIDs p.2.1 p.2.2)

end Retries

/-! ### Marks -/

/-- What is known of a run that is being marked, by whether it was read as finished. -/
structure Standing (r : String) (t : Nat) (runID : String) (finished : Bool) (s : World) : Prop where
  held : s.holder = some t
  ended : finished = true → Over runID s.db
  opened : finished = false → runID = r → Open r s.db

section Marks
variable {cfg : Cfg} {r : String} {k : Kind} {t : Nat} {runID : String} {finished : Bool} {tis : List TaskInstance} {s s' : World}

theorem Standing.stable (hrely : Rely cfg r t s s') (h : Standing r t runID finished s) : Standing r t runID finished s' :=
  ⟨hrely.undisturbed.holder h.held, fun hover => (h.ended hover).stable hrely h.held,
    fun hopen hid => hrely.opened (.inl h.held) (h.opened hopen hid)⟩

private theorem Standing.adopt {α : Type} {x : M α} (hx : adoptPrint.Bounds x) :
    Keeps (rules cfg r k t) (Standing r t runID finished) x := by
  refine keeps_of_writes hx (fun _ _ hrely h => h.stable hrely) ?_ ?_
  · intro s s' hdb hholder h
    exact ⟨hholder.trans h.held, hdb ▸ h.ended, hdb ▸ h.opened⟩
  · intro β w hw s hs hp
    have hsilent : ∀ id, w.recordsState id = none := by
      cases hw <;> exact fun _ => rfl
    refine ⟨?_, hs.held, fun hover => (hs.ended hover).apply (hsilent runID), ?_⟩
    · cases hw with
      | definition => trivial
      | create _ href => exact fun _ => href
    · exact fun hopen hid => (hs.opened hopen hid).apply (silent_none (hsilent r)) (creates_queued hp)

/-- A cancel leaves a finished run and its instances in place. -/
private theorem Ready.cancel {α : Type} {x : M α} (hx : cancelPrint.Bounds x) :
    Keeps (rules cfg r k t) (Ready runID t tis) x := by
  refine keeps_of_writes hx (fun _ _ hrely h => h.stable hrely) ?_ ?_
  · intro s s' hdb hholder h
    exact ⟨hholder.trans h.held, hdb ▸ h.ended, hdb ▸ h.stored, hdb ▸ h.complete⟩
  · intro β w hw s hs hp
    cases hw with
    | task hstate =>
      refine ⟨⟨fun hsched => ?_, .inl hs.held⟩, hs.write (hs.ended.apply rfl) rfl⟩
      rw [hstate] at hsched
      cases hsched
    | run id started fin =>
      refine ⟨fun _ => nofun, hs.write ?_ rfl⟩
      obtain ⟨a, ha, hover⟩ := hs.ended
      rcases s.db.updateDagRunState_cases id .cancelled started fin with ⟨_, heq⟩ | ⟨run, hrun, hlegal, heq⟩ <;> rw [heq]
      · exact ⟨a, ha, hover⟩
      · refine ⟨a, ?_, hover⟩
        have hne : runID ≠ id := by
          rintro rfl
          rw [Db.runState, hrun, Option.map_some] at ha
          obtain rfl := Option.some.inj ha
          revert hlegal hover
          cases run.state <;> simp [legalPriorRunStates, RunState.isTerminal]
        rw [Db.runState, Db.run?_recordState_ne hne]
        exact ha

/-- The context of a mark: a finished run is ready to be reset, and the rows of an
unfinished one carry no success. -/
private theorem markContext_triple :
    Triple (rules cfg r k t) (Base cfg r t []) (markContext cfg runID)
      (Ends (fun p s => (p.1.state.isTerminal = true → Base cfg r t [] s ∧ Ready runID t p.2.2 s) ∧
        (p.1.state.isTerminal = false → Base cfg r t p.2.2 s)) (Base cfg r t [])) := by
  have hrun : Triple (rules cfg r k t) (Base cfg r t []) (query (fun db => db.getDagRun runID))
      (Ends (fun run s => (Base cfg r t [] s ∧ (run.runID = r → Current r run s.db)) ∧ Standing r t runID run.state.isTerminal s)
        (Base cfg r t [])) := by
    refine query_triple (fun _ _ hrely h => h.stable hrely) ?_ (fun _ _ hs _ => hs)
    intro s run hs hget
    have hstored := Db.getDagRun_ok.mp hget
    have hid := (Db.run?_spec hstored).2
    have hstate : s.db.runState runID = some run.state := by rw [Db.runState, hstored, Option.map_some]
    refine ⟨⟨hs, ?_⟩, hs.held, fun hover => ⟨run.state, hstate, hover⟩, ?_⟩
    · intro hr
      rw [← hr, hid]
      exact ⟨run, hstored, rfl⟩
    · rintro hopen rfl hsuccess
      rw [hstate] at hsuccess
      rw [Option.some.inj hsuccess] at hopen
      cases hopen
  refine Triple.seq hrun (fun run => ?_) (fun _ _ h => h)
  have hdag : Triple (rules cfg r k t) (fun s => (Base cfg r t [] s ∧ (run.runID = r → Current r run s.db)) ∧
        Standing r t runID run.state.isTerminal s) (dagForRun cfg run)
      (Ends (fun p s => Base cfg r t [] s ∧ Standing r t runID p.2.state.isTerminal s) (Base cfg r t [])) := by
    have hstanding : Gives (rules cfg r k t) (Standing r t runID run.state.isTerminal) (fun p => Resolved cfg run p.1 p.2)
        (dagForRun cfg run) := (dagForRun_yields run).gives (Standing.adopt (dagForRun_bounds run))
    refine (Triple.and ((dagForRun_triple run).strengthen (fun _ hs => hs.1)) (hstanding.strengthen (fun _ hs => hs.2))).weaken ?_
    rintro (e | p) s hs
    · exact hs.1
    · have hstate := hs.2.2.state
      refine ⟨hs.1.toBase, ?_⟩
      rw [hstate]
      exact hs.2.1
  refine Triple.seq hdag ?_ (fun _ _ h => h)
  rintro ⟨d, run⟩
  have hlist : Triple (rules cfg r k t) (fun s => Base cfg r t [] s ∧ Standing r t runID run.state.isTerminal s)
      (list (fun db => db.listTaskInstances runID))
      (Ends (fun tis s => (run.state.isTerminal = true → Base cfg r t [] s ∧ Ready runID t tis s) ∧
        (run.state.isTerminal = false → Base cfg r t tis s)) (Base cfg r t [])) := by
    refine list_triple (fun _ _ hrely h => ⟨h.1.stable hrely, h.2.stable hrely⟩) ?_
    rintro s ⟨hbase, hstanding⟩
    refine ⟨fun hover => ⟨hbase, .listed hbase.held (hstanding.ended hover)⟩, ?_⟩
    intro hopen
    refine hbase.more ?_
    intro ti hti
    obtain ⟨hmem, hrun⟩ := Db.mem_listTaskInstances.mp hti
    have hstored : ∃ row, s.db.task? ti.id = some row ∧ row.runID = ti.runID ∧ row.taskID = ti.taskID :=
      ⟨ti, Db.task?_of_mem hmem, rfl, rfl⟩
    by_cases hid : runID = r
    · exact .of_open hstored (hstanding.opened hopen hid)
    · exact .of_other hstored (by rw [hrun]; exact hid)
  exact Triple.seq hlist (fun tis => .pure (fun _ hs => hs)) (fun _ _ h => h)

/-- Releasing the blocked tasks downstream overwrites listed rows only. -/
private theorem releaseDownstream_triple {A E : World → Prop} {d : DAG} {taskID : String}
    (hask : ∀ {β : Type} (a : Ask β), Triple (rules cfg r k t) A (ask a) (Ends (fun _ => A) E))
    (hclear : ∀ ti ∈ tis, Triple (rules cfg r k t) A (statement (.updateTaskInstance (clearTask ti))) (Ends (fun _ => A) E)) :
    Triple (rules cfg r k t) A (releaseDownstream d tis taskID) (Ends (fun _ => A) E) := by
  refine Triple.seq (hask _) (fun order => Triple.forM_mem (fun id _ => ?_)) (fun _ _ h => h)
  split
  · exact .pure (fun _ hs => hs)
  · rename_i dt hdt
    exact .ite (fun _ => .pure (fun _ hs => hs)) (fun _ => hclear dt (findTI_spec hdt).1)

/-- The statements of a mark: the released rows, the marked one, and the run if it
was finished. -/
private theorem markRows_triple {A E B : World → Prop} {d : DAG} {taskID : String} {target : TaskState} {new : TaskInstance}
    {last : M Unit} (hask : ∀ {β : Type} (a : Ask β), Triple (rules cfg r k t) A (ask a) (Ends (fun _ => A) E))
    (hclear : ∀ ti ∈ tis, Triple (rules cfg r k t) A (statement (.updateTaskInstance (clearTask ti))) (Ends (fun _ => A) E))
    (hwrite : Triple (rules cfg r k t) A (statement (.updateTaskInstance new)) (Ends (fun _ => A) E))
    (hlast : Triple (rules cfg r k t) A last (fun _ => B)) (herr : ∀ s, E s → B s) :
    Triple (rules cfg r k t) A (do
      if target = .success ∨ target = .skipped then releaseDownstream d tis taskID
      statement (.updateTaskInstance new)
      last) (fun _ => B) := by
  have hrest : Triple (rules cfg r k t) A (do
      statement (.updateTaskInstance new)
      last) (fun _ => B) := Triple.seq hwrite (fun _ => hlast) (fun _ s h => herr s h)
  exact .ite (fun _ => Triple.seq (releaseDownstream_triple hask hclear) (fun _ => hrest) (fun _ s h => herr s h)) (fun _ => hrest)

/-- The body of a mark after its context, in terms of what its parts keep. -/
private theorem markListed_triple {A B : World → Prop} {run : DagRun} {d : DAG} {taskID : String} {target : TaskState}
    (hweak : ∀ s, A s → B s) (hask : ∀ {β : Type} (a : Ask β), Triple (rules cfg r k t) A (ask a) (Ends (fun _ => A) A))
    (hcancel : ∀ ref, Keeps (rules cfg r k t) A (cancelAttempt (cancelRunLocked cfg.bound) ref))
    (hrest : ∀ ti ∈ tis, ∀ now, Triple (rules cfg r k t) A (do
      if target = .success ∨ target = .skipped then releaseDownstream d tis taskID
      statement (.updateTaskInstance { ti with state := target, finishedAt := some now })
      if run.state.isTerminal then statement (.updateDagRunState runID .running (some now) none)) (fun _ => B)) :
    Triple (rules cfg r k t) A (match findTI tis taskID with
      | none => throw .notFound
      | some ti => do
        if taskID ∉ d.tasks.map (·.id) then throw .notFound
        let now ← ask .now
        if !ti.state.isTerminal ∧ ti.executorRef ≠ "" then
          cancelAttempt (cancelRunLocked cfg.bound) ti.executorRef
        if target = .success ∨ target = .skipped then releaseDownstream d tis taskID
        statement (.updateTaskInstance { ti with state := target, finishedAt := some now })
        if run.state.isTerminal then statement (.updateDagRunState runID .running (some now) none) : M Unit) (fun _ => B) := by
  split
  · exact .throw hweak
  · rename_i ti hti
    refine .refuse hweak (fun _ => Triple.seq (hask _) (fun now => ?_) (fun _ s h => hweak s h))
    have hlast := hrest ti (findTI_spec hti).1 now
    exact .ite (fun _ => .bind (hcancel _) (fun _ => hlast) (fun _ s h => hweak s h)) (fun _ => hlast)

/-- Marking a task keeps recorded successes sound: a finished run is made active
again, and an unfinished one has none. -/
theorem markTaskLocked_keeps (runID taskID : String) {target : TaskState} (htarget : target.isTerminal = true) :
    Keeps (rules cfg r k t) (Base cfg r t []) (markTaskLocked cfg runID taskID target) := by
  have hsched : target ≠ .scheduled := by
    rintro rfl
    cases htarget
  refine marked_keeps (Triple.seq markContext_triple ?_ (fun _ _ h => h))
  rintro ⟨run, d, tis⟩
  cases hover : run.state.isTerminal with
  | true =>
    refine Triple.strengthen (p := fun s => Base cfg r t [] s ∧ Ready runID t tis s)
      (markListed_triple (fun _ hs => hs.1) ?_ ?_ ?_) (fun _ hs => hs.1 rfl)
    · intro β a
      refine Triple.lift (fun _ _ hrely h => ⟨h.1.stable hrely, h.2.stable hrely⟩) ?_
      intro s x s' hs hsem
      have hspec := sem_spec hsem
      obtain ⟨hdb, hholder, -, -⟩ := hspec.effect.silent_eq rfl
      obtain ⟨hown, hbase⟩ := hs.1.step hspec trivial
      exact ⟨hspec.guar hown, hbase, hholder.trans hs.2.held, hdb ▸ hs.2.ended, hdb ▸ hs.2.stored, hdb ▸ hs.2.complete⟩
    · intro ref
      have hbase : Keeps (rules cfg r k t) (Base cfg r t []) (cancelAttempt (cancelRunLocked cfg.bound) ref) :=
        cancelAttempt_keeps (fun child => cancelRunLocked_keeps _ _ child) ref
      have hready : Keeps (rules cfg r k t) (Ready runID t tis) (cancelAttempt (cancelRunLocked cfg.bound) ref) :=
        Ready.cancel (cancelAttempt_bounds (fun child => cancelRunLocked_bounds _ child) ref)
      exact Triple.and (hbase.strengthen (fun _ hs => hs.1)) (hready.strengthen (fun _ hs => hs.2))
    · intro ti hti now
      rw [hover, if_pos rfl]
      refine Triple.strengthen (p := Retrying cfg r t runID tis) ?_ (fun _ hs => hs.2.retrying hs.1)
      refine markRows_triple (fun a => Retrying.ask a) (fun ti hti => row_triple hti rfl (fun _ => rfl))
        (row_triple hti rfl (fun h => absurd h hsched)) ?_ (fun _ h => h.elim)
      refine reactivate_triple.weaken ?_
      rintro (e | u) s hs
      · exact hs.elim
      · exact hs
  | false =>
    have hends : ∀ {α : Type} {x : M α}, Keeps (rules cfg r k t) (Base cfg r t tis) x →
        Triple (rules cfg r k t) (Base cfg r t tis) x (Ends (fun _ => Base cfg r t tis) (Base cfg r t tis)) := by
      intro α x hx
      refine hx.weaken ?_
      rintro (e | a) s hs
      · exact hs
      · exact hs
    refine Triple.strengthen (p := Base cfg r t tis) ?_ (fun _ hs => hs.2 rfl)
    refine markListed_triple (fun _ hs => hs.fewer (fun _ h => by simp at h)) (fun a => hends (Base.keeps (.ask a)))
      (cancelAttempt_keeps (fun child => cancelRunLocked_keeps _ _ child)) ?_
    intro ti hti now
    have hclear : ∀ ti ∈ tis, Keeps (rules cfg r k t) (Base cfg r t tis) (statement (.updateTaskInstance (clearTask ti))) :=
      fun ti hti => Base.keeps (.statement ⟨fun _ => rfl, ti, hti, rfl⟩)
    have hwrite : Keeps (rules cfg r k t) (Base cfg r t tis)
        (statement (.updateTaskInstance { ti with state := target, finishedAt := some now })) :=
      Base.keeps (.statement ⟨fun h => absurd h hsched, ti, hti, rfl⟩)
    have hnone : ∀ s, Base cfg r t tis s → Base cfg r t [] s := fun s hs => hs.fewer (fun _ h => by simp at h)
    rw [hover, if_neg Bool.false_ne_true]
    exact markRows_triple (fun a => hends (Base.keeps (.ask a))) (fun ti hti => hends (hclear ti hti)) (hends hwrite)
      (.pure hnone) hnone

end Marks
end Cronova.Properties.Success
