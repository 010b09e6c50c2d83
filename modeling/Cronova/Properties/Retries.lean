import Cronova.Scheduler.Resets

/-! A manual retry resets the tasks downstream of what failed, under the newest
definition, and nothing else. -/
namespace Cronova.Properties.Retries
open Cronova.Model Cronova.Store Cronova.Concurrency Cronova.Concurrency.Fallible Cronova.Scheduler

/-- The instances of the tasks in `reset` are scheduled; every other instance, of
this run and of any other, has the state it had. -/
def ResetTo (runID : String) (reset : String → Prop) (before after : Db) : Prop :=
  ∀ id x, (id = runID ∧ reset x → statesOf after id x = some .scheduled) ∧
    (¬ (id = runID ∧ reset x) → statesOf after id x = statesOf before id x)

/-- What a retry of the tasks in `chosen` resets: those that the definition has,
and the tasks it has without an instance. -/
def Target (d : DAG) (before : Db) (runID : String) (chosen : String → Prop) (x : String) : Prop :=
  x ∈ d.tasks.map (·.id) ∧ (chosen x ∨ statesOf before runID x = none)

/-- The run may still be made active. -/
def Over (db : Db) (runID : String) : Prop := ∃ run, db.run? runID = some run ∧ run.state.isActive = false

/-- Every listed instance has its row. -/
def Stored (runID : String) (byTask : List TaskInstance) (db : Db) : Prop :=
  ∀ ti ∈ byTask, ∃ row ∈ db.tasks.rows, row.id = ti.id ∧ row.runID = runID ∧ row.taskID = ti.taskID

namespace ResetTo
variable {runID : String} {reset : String → Prop} {before db : Db}

theorem refl (runID : String) (db : Db) : ResetTo runID (fun _ => False) db db :=
  fun _ _ => ⟨fun h => h.2.elim, fun _ => rfl⟩

theorem congr (h : ResetTo runID reset before db) {db' : Db} (htasks : db'.tasks = db.tasks) : ResetTo runID reset before db' := by
  intro id x
  rw [statesOf_congr htasks]
  exact h id x

/-- One more instance is scheduled. -/
theorem add (h : ResetTo runID reset before db) {db' : Db} {task : String}
    (hone : ∀ id x, statesOf db' id x = if id = runID ∧ x = task then some .scheduled else statesOf db id x) :
    ResetTo runID (fun x => reset x ∨ x = task) before db' := by
  intro id x
  rw [hone]
  constructor
  · rintro ⟨rfl, hreset | rfl⟩
    · split
      · rfl
      · exact (h id x).1 ⟨rfl, hreset⟩
    · rw [if_pos ⟨rfl, rfl⟩]
  · intro hnot
    rw [if_neg (fun hkey => hnot ⟨hkey.1, .inr hkey.2⟩)]
    exact (h id x).2 (fun hkey => hnot ⟨hkey.1, .inl hkey.2⟩)

theorem weaken (h : ResetTo runID reset before db) {reset' : String → Prop} (hiff : ∀ x, reset x ↔ reset' x) :
    ResetTo runID reset' before db := by
  intro id x
  rw [← hiff x]
  exact h id x

end ResetTo

namespace Stored
variable {runID : String} {byTask : List TaskInstance} {db : Db}

theorem write (h : Stored runID byTask db) (new : TaskInstance) : Stored runID byTask (db.writeTask new) := by
  intro ti hti
  obtain ⟨row, hrow, hid, hrun, htask⟩ := h ti hti
  refine ⟨_, Db.mem_writeTask.mpr ⟨row, hrow, rfl⟩, ?_⟩
  split
  · exact ⟨hid, hrun, htask⟩
  · exact ⟨hid, hrun, htask⟩

theorem list (db : Db) (runID : String) : Stored runID (db.listTaskInstances runID) db := by
  intro ti hti
  obtain ⟨hrow, hrun⟩ := Db.mem_listTaskInstances.mp hti
  exact ⟨ti, hrow, rfl, hrun, rfl⟩

/-- An instance is cleared where it is stored. -/
theorem cleared (h : Stored runID byTask db) {ti new : TaskInstance} (hti : ti ∈ byTask) (hid : new.id = ti.id)
    (hstate : new.state = .scheduled) :
    db.apply (.updateTaskInstance new) = (.ok (), db.writeTask new) ∧
      ∀ id x, statesOf (db.writeTask new) id x = if id = runID ∧ x = ti.taskID then some .scheduled else statesOf db id x := by
  obtain ⟨row, hrow, hrowID, hrun, htask⟩ := h ti hti
  have hsame : new.id = row.id := hid.trans hrowID.symm
  constructor
  · rcases db.updateTaskInstance_cases new with ⟨hnone, -⟩ | ⟨_, -, happly⟩
    · rw [hsame, Db.task?_of_mem hrow] at hnone
      cases hnone
    · exact happly
  · intro id x
    rw [statesOf_writeTask hrow hsame, hrun, htask, hstate]

end Stored

/-- While the definition is adopted: `rest` is left, and `reset` are the instances
created so far. -/
structure Adopting (runID : String) (d : DAG) (before : Db) (rest : List Task) (byTask : List TaskInstance) (db : Db) : Prop where
  run : Over db runID
  stored : Stored runID byTask db
  known : ∀ x, findTI byTask x = none → statesOf db runID x = none
  covered : ∀ t ∈ d.tasks, t ∈ rest ∨ findTI byTask t.id ≠ none
  created : ∃ reset, ResetTo runID reset before db ∧ ∀ x, reset x → x ∈ d.tasks.map (·.id) ∧ statesOf before runID x = none

/-- While tasks are cleared: `rest` is left of `ids`. -/
structure Clearing (runID : String) (d : DAG) (before : Db) (byTask : List TaskInstance) (ids rest : List String) (db : Db) :
    Prop where
  run : Over db runID
  stored : Stored runID byTask db
  covered : ∀ x ∈ d.tasks.map (·.id), findTI byTask x ≠ none
  within : ∀ x ∈ ids, x ∈ d.tasks.map (·.id)
  left : ∀ x ∈ rest, x ∈ ids
  cleared : ∃ reset, ResetTo runID reset before db ∧ (∀ x, reset x → Target d before runID (· ∈ ids) x) ∧
    ∀ x, Target d before runID (· ∈ ids) x → x ∈ rest ∨ reset x

theorem findTI_append {byTask : List TaskInstance} {ti : TaskInstance} (x : String) (h : findTI byTask x = none) :
    findTI (byTask ++ [ti]) x = if ti.taskID = x then some ti else none := by
  rw [findTI] at h ⊢
  rw [List.find?_append, h, Option.none_or, List.find?_singleton]
  simp only [decide_eq_true_eq]

namespace Adopting
variable {runID : String} {d : DAG} {before db : Db} {t : Task} {rest : List Task} {byTask : List TaskInstance}

/-- The task has an instance already, brought up to date or not. -/
theorem skip (h : Adopting runID d before (t :: rest) byTask db) (ht : findTI byTask t.id ≠ none) :
    Adopting runID d before rest byTask db := by
  refine { h with covered := ?_ }
  intro u hu
  rcases h.covered u hu with hmem | hfound
  · rcases List.mem_cons.mp hmem with rfl | hrest
    · exact .inr ht
    · exact .inl hrest
  · exact .inr hfound

theorem update (h : Adopting runID d before rest byTask db) {ti new : TaskInstance} (hfind : findTI byTask t.id = some ti)
    (hid : new.id = ti.id) (htask : new.taskID = ti.taskID) : Adopting runID d before rest (setTI byTask new) db := by
  have hnone : ∀ x, findTI (setTI byTask new) x = none ↔ findTI byTask x = none := by
    intro x
    have hstates : (findTI (setTI byTask new) x).map (·.state) =
        Function.update (states byTask) t.id (some new.state) x := congrFun (states_setTI hfind htask) x
    by_cases hx : x = t.id
    · rw [hx, Function.update_self] at hstates
      rw [hx, hfind]
      cases hfound : findTI (setTI byTask new) t.id with
      | none =>
        rw [hfound] at hstates
        cases hstates
      | some _ => simp
    · rw [Function.update_of_ne hx, states] at hstates
      rw [← Option.map_eq_none_iff (f := (·.state)), hstates, Option.map_eq_none_iff]
  refine ⟨h.run, ?_, fun x hx => h.known x ((hnone x).mp hx), fun u hu => (h.covered u hu).imp_right (mt (hnone u.id).mp), h.created⟩
  intro row hrow
  rcases mem_setTI hrow with rfl | hold
  · obtain ⟨stored, hstored, hsid, hsrun, hstask⟩ := h.stored ti (findTI_spec hfind).1
    exact ⟨stored, hstored, hsid.trans hid.symm, hsrun, hstask.trans htask.symm⟩
  · exact h.stored row hold

/-- A task the run did not have gets an instance. -/
theorem create (h : Adopting runID d before (t :: rest) byTask db) (ht : t ∈ d.tasks) (hfind : findTI byTask t.id = none)
    {new : TaskInstance} (hrun : new.runID = runID) (htask : new.taskID = t.id) (hstate : new.state = .scheduled) :
    ∃ db', db.apply (.createTaskInstance new) = (.ok db.nextTaskID, db') ∧
      Adopting runID d before rest (byTask ++ [{ new with id := db.nextTaskID }]) db' := by
  have hfree : statesOf db new.runID new.taskID = none := by
    rw [hrun, htask]
    exact h.known t.id hfind
  have hroom : ∃ tasks, db.tasks.insert? { new with id := db.nextTaskID } = some tasks := by
    rw [Relational.Table.insert?_isSome_iff]
    rintro row hrow (hid | hkey)
    · have hless := Db.id_lt_nextTaskID hrow
      rw [show row.id = db.nextTaskID from hid] at hless
      exact Nat.lt_irrefl _ hless
    · simp only [taskKey, Prod.mk.injEq] at hkey
      exact statesOf_eq_none.mp hfree row hrow hkey.1 hkey.2
  obtain ⟨tasks, htasks⟩ := hroom
  have happly : db.apply (.createTaskInstance new) = (.ok db.nextTaskID, { db with tasks := tasks }) := by
    simp only [Db.apply, htasks]
  have hrows : tasks.rows = db.tasks.rows ++ [{ new with id := db.nextTaskID }] := Relational.Table.rows_insert? htasks
  have hone : ∀ id x, statesOf { db with tasks := tasks } id x =
      if id = runID ∧ x = t.id then some .scheduled else statesOf db id x := by
    intro id x
    have hinsert := statesOf_insert htasks hfree id x
    simp only [hrun, htask, hstate] at hinsert
    exact hinsert
  obtain ⟨reset, hreset, hnew⟩ := h.created
  refine ⟨_, happly, h.run, ?_, ?_, ?_, fun x => reset x ∨ x = t.id, hreset.add hone, ?_⟩
  · intro ti hti
    rcases List.mem_append.mp hti with hold | hlast
    · obtain ⟨row, hrow, hkeys⟩ := h.stored ti hold
      exact ⟨row, by rw [hrows]; exact List.mem_append_left _ hrow, hkeys⟩
    · rw [List.mem_singleton.mp hlast]
      exact ⟨_, by rw [hrows]; exact List.mem_append_right _ List.mem_cons_self, rfl, hrun, rfl⟩
  · intro x hx
    rw [findTI, List.find?_append, Option.or_eq_none_iff] at hx
    rw [hone, if_neg]
    · exact h.known x hx.1
    · rintro ⟨-, rfl⟩
      have hlast := hx.2
      rw [List.find?_singleton, if_pos (by simpa using htask)] at hlast
      cases hlast
  · intro u hu
    have happend : ∀ x, findTI byTask x ≠ none → findTI (byTask ++ [{ new with id := db.nextTaskID }]) x ≠ none := by
      intro x hx hnone
      rw [findTI, List.find?_append, Option.or_eq_none_iff] at hnone
      exact hx hnone.1
    rcases h.covered u hu with hmem | hfound
    · rcases List.mem_cons.mp hmem with rfl | hrest
      · refine .inr ?_
        rw [findTI_append _ hfind, if_pos htask]
        exact Option.some_ne_none _
      · exact .inl hrest
    · exact .inr (happend _ hfound)
  · rintro x (hx | rfl)
    · exact hnew x hx
    · refine ⟨List.mem_map.mpr ⟨t, ht, rfl⟩, ?_⟩
      by_cases hbefore : reset t.id
      · exact (hnew t.id hbefore).2
      · rw [← (hreset runID t.id).2 (fun hkey => hbefore hkey.2)]
        exact h.known t.id hfind

/-- The definition has been adopted. -/
theorem clearing (h : Adopting runID d before [] byTask db) {ids : List String} (hids : ∀ x ∈ ids, x ∈ d.tasks.map (·.id)) :
    Clearing runID d before byTask ids ids db := by
  have hcovered : ∀ x ∈ d.tasks.map (·.id), findTI byTask x ≠ none := by
    intro x hx
    obtain ⟨t, ht, rfl⟩ := List.mem_map.mp hx
    exact (h.covered t ht).resolve_left List.not_mem_nil
  obtain ⟨reset, hreset, hnew⟩ := h.created
  refine ⟨h.run, h.stored, hcovered, hids, fun _ hx => hx, reset, hreset, fun x hx => ⟨(hnew x hx).1, .inr (hnew x hx).2⟩, ?_⟩
  rintro x ⟨hx, hchosen | hnone⟩
  · exact .inl hchosen
  · refine .inr ?_
    by_contra hnot
    obtain ⟨ti, hti⟩ := Option.ne_none_iff_exists'.mp (hcovered x hx)
    obtain ⟨row, hrow, -, hrun, htask⟩ := h.stored ti (findTI_spec hti).1
    have hsome := statesOf_of_mem hrow
    rw [hrun, htask, (findTI_spec hti).2, (hreset runID x).2 (fun hkey => hnot hkey.2), hnone] at hsome
    cases hsome

end Adopting

namespace Clearing
variable {runID : String} {d : DAG} {before db : Db} {byTask : List TaskInstance} {ids rest : List String} {x : String}

/-- The map may be visited in any order. -/
theorem reorder (h : Clearing runID d before byTask ids rest db) {other : List String} (hperm : other.Perm rest) :
    Clearing runID d before byTask ids other db := by
  obtain ⟨reset, hreset, hsub, hall⟩ := h.cleared
  exact { h with
    left := fun x hx => h.left x (hperm.mem_iff.mp hx)
    cleared := ⟨reset, hreset, hsub, fun x hx => (hall x hx).imp_left hperm.mem_iff.mpr⟩ }

theorem clear (h : Clearing runID d before byTask ids (x :: rest) db) {ti : TaskInstance} (hfind : findTI byTask x = some ti) :
    db.apply (.updateTaskInstance (clearTask ti)) = (.ok (), db.writeTask (clearTask ti)) ∧
      Clearing runID d before byTask ids rest (db.writeTask (clearTask ti)) := by
  obtain ⟨hmem, htask⟩ := findTI_spec hfind
  obtain ⟨happly, hone⟩ := h.stored.cleared hmem (show (clearTask ti).id = ti.id from rfl) rfl
  rw [htask] at hone
  obtain ⟨reset, hreset, hsub, hall⟩ := h.cleared
  have hx : x ∈ ids := h.left x List.mem_cons_self
  refine ⟨happly, h.run, h.stored.write _, h.covered, h.within, fun y hy => h.left y (List.mem_cons_of_mem x hy),
    fun y => reset y ∨ y = x, hreset.add hone, ?_, ?_⟩
  · rintro y (hy | rfl)
    · exact hsub y hy
    · exact ⟨h.within y hx, .inl hx⟩
  · intro y hy
    rcases hall y hy with hmem | hdone
    · rcases List.mem_cons.mp hmem with rfl | hrest
      · exact .inr (.inr rfl)
      · exact .inl hrest
    · exact .inr (.inl hdone)

/-- Everything has been cleared. -/
theorem done (h : Clearing runID d before byTask ids [] db) : ResetTo runID (Target d before runID (· ∈ ids)) before db := by
  obtain ⟨reset, hreset, hsub, hall⟩ := h.cleared
  exact hreset.weaken (fun x => ⟨hsub x, fun hx => (hall x hx).resolve_left List.not_mem_nil⟩)

end Clearing

section Programs
variable {cfg : Cfg} {k : Kind} {t : Nat} {run : DagRun} {d : DAG} {before : Db}

private theorem adoptTask_adopts (hash : String) (reset : List String) {task : Task} {rest : List Task} (htask : task ∈ d.tasks)
    (byTask : List TaskInstance) :
    Triple (solo anything k t) (fun s => Adopting run.runID d before (task :: rest) byTask s.db)
      (adoptTask cfg run d hash reset byTask task)
      (Ends (fun new s => Adopting run.runID d before rest new s.db) (fun _ => False)) := by
  unfold adoptTask
  split
  · rename_i hnone
    refine .next (m := fun (id : Nat) (s : World) => Adopting run.runID d before rest
      (byTask ++ [({ newInstance cfg { run with definitionHash := hash } d task with id := id } : TaskInstance)]) s.db)
      ((solo_statement _).weaken ?_) (fun id => .pure (fun s hs => hs))
    rintro r s' ⟨s, hs, rfl, rfl⟩
    obtain ⟨db', happly, hnext⟩ := hs.create htask hnone
      (show (newInstance cfg { run with definitionHash := hash } d task).runID = _ from rfl)
      rfl rfl
    rw [World.written, happly]
    exact hnext
  · rename_i ti hti
    have hskip : ∀ s : World, Adopting run.runID d before (task :: rest) byTask s.db → Adopting run.runID d before rest byTask s.db :=
      fun s hs => hs.skip (by rw [hti]; exact Option.some_ne_none _)
    refine .ite (fun _ => .pure ?_) (fun _ => .pure hskip)
    intro s hs
    exact (hskip s hs).update hti rfl rfl

private theorem foldlM_adopts (hash : String) (reset : List String) (tasks : List Task) (hsub : ∀ u ∈ tasks, u ∈ d.tasks)
    (byTask : List TaskInstance) :
    Triple (solo anything k t) (fun s => Adopting run.runID d before tasks byTask s.db)
      (tasks.foldlM (adoptTask cfg run d hash reset) byTask)
      (Ends (fun new s => Adopting run.runID d before [] new s.db) (fun _ => False)) := by
  induction tasks generalizing byTask with
  | nil => exact .pure (fun s hs => hs)
  | cons task rest ih =>
    rw [List.foldlM_cons]
    exact .next (adoptTask_adopts hash reset (hsub task List.mem_cons_self) byTask)
      (fun new => ih (fun u hu => hsub u (List.mem_cons_of_mem task hu)) new)

private theorem prepareRetryDefinition_adopts (reset : List String) (hover : Over before run.runID) :
    Triple (solo anything k t) (fun s => s.db = before)
      (prepareRetryDefinition cfg run d (before.listTaskInstances run.runID) reset)
      (Ends (fun byTask s => Adopting run.runID d before [] byTask s.db) (fun _ => False)) := by
  refine .next (m := fun _ s => Adopting run.runID d before d.tasks (before.listTaskInstances run.runID) s.db)
    ((solo_statement _).weaken ?_) (fun _ => foldlM_adopts _ reset d.tasks (fun _ hu => hu) _)
  rintro r s' ⟨s, rfl, rfl, rfl⟩
  obtain ⟨row, hrow, hstate⟩ := hover
  simp only [World.written, Db.apply, hrow]
  refine ⟨⟨_, Db.run?_modifyRun_self hrow, hstate⟩, Stored.list s.db run.runID, ?_, fun u hu => .inl hu, _, .congr (.refl _ _) rfl,
    fun x hx => hx.elim⟩
  intro x hx
  rw [statesOf, states]
  exact Option.map_eq_none_iff.mpr hx

private theorem clearAndReactivate_clears {byTask : List TaskInstance} {ids : List String} :
    Triple (solo anything k t) (fun s => Clearing run.runID d before byTask ids ids s.db) (clearAndReactivate run byTask ids)
      (Ends (fun _ s => ResetTo run.runID (Target d before run.runID (· ∈ ids)) before s.db) (fun _ => False)) := by
  refine .next (m := fun order s => Clearing run.runID d before byTask ids order s.db) ((solo_ask _).weaken ?_) ?_
  · rintro (e | order) s hs
    · exact hs
    · obtain ⟨hclearing, a, -, hreply⟩ := hs
      have hperm : order.Perm ids := by
        cases a <;> simp only [Ask.reply, Option.ite_none_right_eq_some, Option.some.injEq, reduceCtorEq] at hreply
        · exact hreply ▸ .refl _
        · exact hreply.2 ▸ hreply.1
      exact hclearing.reorder hperm
  · intro order
    refine .next (m := fun _ s => Clearing run.runID d before byTask ids [] s.db)
      (.forM_rest (I := fun rest (s : World) => Clearing run.runID d before byTask ids rest s.db) ?_ order) ?_
    · intro x rest
      split
      · rename_i hnone
        refine .pure ?_
        intro s hs
        exact absurd hnone (hs.covered x (hs.within x (hs.left x List.mem_cons_self)))
      · rename_i ti hti
        refine (solo_statement _).weaken ?_
        rintro r s' ⟨s, hs, rfl, rfl⟩
        obtain ⟨happly, hnext⟩ := hs.clear hti
        rw [World.written, happly]
        exact hnext
    · intro _
      refine .next (solo_asked .now) (fun now => (solo_statement _).weaken ?_)
      rintro r s' ⟨s, hs, rfl, rfl⟩
      obtain ⟨row, hrow, hover⟩ := hs.run
      have hlegal : row.state ∈ legalPriorRunStates .running := by
        revert hover
        cases row.state <;> decide
      simp only [World.written, Db.apply, hrow, if_pos hlegal]
      exact hs.done.congr rfl

/-- The tasks are reset, and nothing else; no statement on the way is refused. -/
private theorem retryTasks_resets {ids : List String} (hids : ∀ x ∈ ids, x ∈ d.tasks.map (·.id)) (hover : Over before run.runID) :
    Triple (solo anything k t) (fun s => s.db = before) (retryTasks cfg run d (before.listTaskInstances run.runID) ids)
      (Ends (fun _ s => ResetTo run.runID (Target d before run.runID (· ∈ ids)) before s.db) (fun _ => False)) :=
  .next (prepareRetryDefinition_adopts ids hover)
    (fun _ => clearAndReactivate_clears.strengthen (fun _ hs => hs.clearing hids))

private theorem retryContext_reads {runID : String} {dags : List DAG} :
    Triple (solo anything k t) (fun s => s.db = before ∧ s.dags = dags) (retryContext runID)
      (Ends (fun c s => (before.run? runID = some c.1 ∧ c.1.state.isActive = false ∧
          dags.find? (fun d => d.dagID = c.1.dagID) = some c.2.1 ∧ c.2.2 = before.listTaskInstances runID) ∧ s.db = before)
        (fun s => s.db = before)) := by
  unfold retryContext
  refine .bind (m := fun r s => r = before.getDagRun runID ∧ s.db = before ∧ s.dags = dags) ((solo_query _).weaken ?_) ?_ ?_
  · rintro r s ⟨rfl, hdb, hdags⟩
    exact ⟨by rw [hdb], hdb, hdags⟩
  · intro run
    refine .given (fun hrun => .refuse (fun s hs => hs.1) (fun hover => ?_))
    refine .next (m := fun found s => found = dags.find? (fun d => d.dagID = run.dagID) ∧ s.db = before)
      ((solo_registry _).weaken ?_) (fun found => .given ?_)
    · rintro (e | found) s hs
      · exact hs
      · exact ⟨hs.1.trans (by rw [hs.2.2]), hs.2.1⟩
    · intro hfound
      split
      · exact .throw (fun s hs => hs)
      · rename_i d
        refine .next (solo_list _) (fun tis => .pure ?_)
        rintro s ⟨htis, hdb⟩
        refine ⟨⟨Db.getDagRun_ok.mp hrun.symm, by simpa using hover, hfound.symm, ?_⟩, hdb⟩
        rw [htis, hdb]
  · intro e s hs
    exact hs.2.1

end Programs

/-- The run is reset under the newest definition, or nothing has happened. -/
def Retried (dags : List DAG) (runID : String) (chosen : DAG → String → Prop) (before after : Db) : Except Err Unit → Prop
  | .ok _ => ∃ run d, before.run? runID = some run ∧ dags.find? (fun d => d.dagID = run.dagID) = some d ∧
      ResetTo runID (Target d before runID (chosen d)) before after
  | .error _ => after = before

/-- The tasks of the definition that ended without success, with what is downstream of them. -/
def BelowFailed (before : Db) (runID : String) (d : DAG) (x : String) : Prop :=
  ∃ y ∈ d.tasks.map (·.id), (∃ s ∈ [TaskState.failed, .upstreamFailed, .cancelled, .timedOut],
    statesOf before runID y = some s) ∧ Downstream d.tasks y x

theorem mem_validIDs {d : DAG} {closure : List String} {x : String} :
    x ∈ validIDs d (closure.contains ·) ↔ x ∈ d.tasks.map (·.id) ∧ x ∈ closure := by
  rw [validIDs, List.mem_filter, List.contains_iff_mem]

theorem mem_retryIDs {d : DAG} {before : Db} {runID x : String} :
    x ∈ retryIDs d (before.listTaskInstances runID) ↔ x ∈ d.tasks.map (·.id) ∧ BelowFailed before runID d x := by
  have hfailure : ∀ s : TaskState, s.isFailure = true ↔ s ∈ [TaskState.failed, .upstreamFailed, .cancelled, .timedOut] := by
    intro s
    cases s <;> decide
  rw [retryIDs, mem_validIDs, and_congr_right_iff]
  intro _
  rw [List.mem_flatMap]
  constructor
  · rintro ⟨ti, hti, hclosure⟩
    obtain ⟨hmem, hcond⟩ := List.mem_filter.mp hti
    obtain ⟨hvalid, hfailed⟩ := of_decide_eq_true hcond
    obtain ⟨hrow, hrun⟩ := Db.mem_listTaskInstances.mp hmem
    exact ⟨ti.taskID, hvalid, ⟨ti.state, (hfailure _).mp hfailed, hrun ▸ statesOf_of_mem hrow⟩, mem_downstreamClosure.mp hclosure⟩
  · rintro ⟨y, hvalid, ⟨s, hs, hstate⟩, hbelow⟩
    obtain ⟨ti, hrow, hrun, rfl, rfl⟩ := statesOf_eq_some.mp hstate
    exact ⟨ti, List.mem_filter.mpr ⟨Db.mem_listTaskInstances.mpr ⟨hrow, hrun⟩, decide_eq_true ⟨hvalid, (hfailure _).mpr hs⟩⟩,
      mem_downstreamClosure.mpr hbelow⟩

section Operations
variable {cfg : Cfg} {k : Kind} {t : Nat} {before : Db} {dags : List DAG}

/-- The end of a retry, with the tasks it has chosen. -/
private theorem retryTasks_retried {runID : String} {run : DagRun} {d : DAG} {ids : List String} {chosen : DAG → String → Prop}
    (hrun : before.run? runID = some run) (hover : run.state.isActive = false)
    (hfind : dags.find? (fun d => d.dagID = run.dagID) = some d)
    (hids : ∀ x, x ∈ ids ↔ x ∈ d.tasks.map (·.id) ∧ chosen d x) :
    Triple (solo anything k t) (fun s => s.db = before) (retryTasks cfg run d (before.listTaskInstances runID) ids)
      (fun r s => Retried dags runID chosen before s.db r) := by
  obtain rfl := (Db.run?_spec hrun).2
  refine (retryTasks_resets (fun x hx => ((hids x).mp hx).1) ⟨run, hrun, hover⟩).weaken ?_
  rintro (e | _) s hs
  · exact hs.elim
  · refine ⟨run, d, hrun, hfind, hs.weaken ?_⟩
    intro x
    rw [Target, Target, and_congr_right_iff]
    intro hx
    rw [hids x, and_iff_right hx]

private theorem retryTask_retried (runID taskID : String) :
    Triple (solo anything k t) (fun s => s.db = before ∧ s.dags = dags) (retryTask cfg runID taskID)
      (fun r s => Retried dags runID (fun d => Downstream d.tasks taskID) before s.db r) := by
  refine solo_locked (A := fun db defs => db = before ∧ defs = dags)
    (B := fun r db _ => Retried dags runID (fun d => Downstream d.tasks taskID) before db r)
    (solo_marked (A := fun db defs => db = before ∧ defs = dags)
      (B := fun r db _ => Retried dags runID (fun d => Downstream d.tasks taskID) before db r) ?_)
  refine .seq retryContext_reads ?_ (fun e s hs => hs)
  rintro ⟨run, d, tis⟩
  refine .given ?_
  rintro ⟨hrun, hover, hfind, rfl⟩
  refine .refuse (fun s hs => hs) (fun _ => retryTasks_retried hrun hover hfind (fun x => ?_))
  rw [mem_validIDs, mem_downstreamClosure]

private theorem retryRun_retried (runID : String) :
    Triple (solo anything k t) (fun s => s.db = before ∧ s.dags = dags) (retryRun cfg runID)
      (fun r s => Retried dags runID (BelowFailed before runID) before s.db r) := by
  refine solo_locked (A := fun db defs => db = before ∧ defs = dags)
    (B := fun r db _ => Retried dags runID (BelowFailed before runID) before db r)
    (solo_marked (A := fun db defs => db = before ∧ defs = dags)
      (B := fun r db _ => Retried dags runID (BelowFailed before runID) before db r) ?_)
  refine .seq retryContext_reads ?_ (fun e s hs => hs)
  rintro ⟨run, d, tis⟩
  refine .given ?_
  rintro ⟨hrun, hover, hfind, rfl⟩
  exact .refuse (fun s hs => hs) (fun _ => retryTasks_retried hrun hover hfind (fun x => mem_retryIDs))

end Operations

/-- The newest definition of a DAG whose run failed under an older one: `load` is
new, and the run has an instance of a task that is gone. -/
private def extract : DAG :=
  { dagID := "etl"
    tasks := [{ id := "pull" }, { id := "clean", deps := ["pull"] }, { id := "load", deps := ["clean"] }, { id := "audit" }] }

private def failedRow (id : Nat) (task : String) (state : TaskState) : TaskInstance :=
  { id := id, runID := "r", taskID := task, state := state, tryNumber := 1 }

def failedWorld : World where
  dags := [extract]
  db :=
    { runs := ⟨[{ runID := "r", dagID := "etl", logicalDate := 0, state := .failed, triggerType := .manual }], by decide⟩
      tasks := ⟨[failedRow 1 "pull" .success, failedRow 2 "clean" .failed, failedRow 3 "audit" .success,
        failedRow 4 "gone" .failed], by decide⟩ }

end Cronova.Properties.Retries
