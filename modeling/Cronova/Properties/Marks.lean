import Cronova.Parser.Accepted
import Cronova.Properties.Confluence
import Cronova.Scheduler.Resets

/-! What a manual mark leaves behind once the verdicts are propagated again. A
mark to success or skipped lets every blocked task downstream run again; a mark
to failed lets none, although two rules wait for a failure. -/
namespace Cronova.Properties.Marks
open Cronova.Model Cronova.Store Cronova.Concurrency Cronova.Concurrency.Fallible Cronova.Scheduler Cronova.Text Relation

/-- A task is blocked only if its dependencies account for it. -/
def Stable (tasks : List Task) (σ : States) : Prop := ∀ u ∈ tasks, σ u.id = some .upstreamFailed → (gate u σ).2 = true

/-- The blocked tasks that a mark lets run again. -/
def Released (d : DAG) (taskID : String) (target : TaskState) (σ : States) (x : String) : Prop :=
  (target = .success ∨ target = .skipped) ∧ x ∈ d.tasks.map (·.id) ∧ Downstream d.tasks taskID x ∧ σ x = some .upstreamFailed

/-- An open instance may have been cancelled. -/
def Stops (s s' : Option TaskState) : Prop := s' = s ∨ (s.any TaskState.isTerminal = false ∧ s' = some .cancelled)

/-- The states after a mark. Instances that are open may be cancelled on the way,
with the child runs of the task that is marked. -/
structure Marked (d : DAG) (taskID : String) (target : TaskState) (σ σ' : States) : Prop where
  legal : target = .success ∨ target = .failed ∨ target = .skipped
  marked : σ' taskID = some target
  released : ∀ x ≠ taskID, Released d taskID target σ x → σ' x = some .scheduled
  others : ∀ x ≠ taskID, ¬ Released d taskID target σ x → Stops (σ x) (σ' x)

/-- No task is kept blocked by a mark to failed: none that waits for a failure
depends on the task, unless another dependency keeps it blocked. -/
def FailureUnawaited (tasks : List Task) (taskID : String) (σ : States) : Prop :=
  ∀ u ∈ tasks, σ u.id = some .upstreamFailed → taskID ∈ u.deps →
    u.triggerRule ≠ .oneFailed ∧
    (u.triggerRule = .allFailed → ∃ dep ∈ u.deps, dep ≠ taskID ∧ (σ dep = some .success ∨ σ dep = some .skipped))

theorem Stops.advances {s s' : Option TaskState} (h : Stops s s') : Advances s s' := by
  intro hterminal
  rcases h with hsame | ⟨hopen, -⟩
  · exact hsame
  · rw [hterminal] at hopen
    cases hopen

theorem Stops.eq {s s' : Option TaskState} {a : TaskState} (h : Stops s s') (hs : s' = some a) (ha : a ≠ .cancelled) : s = some a := by
  rcases h with hsame | ⟨-, hcancelled⟩
  · rw [← hsame, hs]
  · rw [hs, Option.some.injEq] at hcancelled
    exact absurd hcancelled ha

/-- Propagation only turns scheduled tasks, and only into blocked ones. -/
theorem run_only_blocks {tasks : List Task} {σ σ' : States} (h : ReflTransGen (Blocks tasks) σ σ') (x : String) :
    σ' x = σ x ∨ (σ x = some .scheduled ∧ σ' x = some .upstreamFailed) := by
  induction h with
  | refl => exact .inl rfl
  | tail _ hstep ih =>
    obtain ⟨t, -, hsched, -, rfl⟩ := hstep
    by_cases hx : x = t.id
    · subst hx
      rw [Function.update_self]
      rcases ih with hsame | ⟨-, hblocked⟩
      · exact .inr ⟨hsame ▸ hsched, rfl⟩
      · rw [hblocked] at hsched
        cases hsched
    · rw [Function.update_of_ne hx]
      exact ih

theorem not_self_dependent {tasks : List Task} (h : Parser.Acyclic tasks) {u : Task} (hu : u ∈ tasks) : u.id ∉ u.deps := by
  intro hself
  obtain ⟨order, hordered, hcover⟩ := h.ordered
  have hmem : u.id ∈ tasks.map (·.id) := List.mem_map.mpr ⟨u, hu, rfl⟩
  obtain ⟨id, -, rfl, hdeps⟩ := hordered.exists_minimal (P := (· = u.id)) (hcover hmem) rfl
  obtain ⟨v, hv, hid, hdepsOf⟩ := Parser.depsOf_eq hmem
  rw [hdepsOf, List.inj_on_of_nodup_map h.nodup hv hu hid] at hdeps
  exact hdeps u.id hself rfl

section States
variable {d : DAG} {taskID : String} {target : TaskState} {σ σ₁ σ₂ : States}

/-- A rule whose dependencies only went on stays unsatisfiable. -/
theorem gate_blocked_of_advances {u : Task} (h : ∀ dep ∈ u.deps, Advances (σ dep) (σ₁ dep)) (hblocked : (gate u σ).2 = true) :
    (gate u σ₁).2 = true := by
  refine evalTriggerRule_blocked ?_ _ hblocked
  rw [List.forall₂_map_left_iff, List.forall₂_map_right_iff, List.forall₂_same]
  exact h

/-- A block that was there before a mark to failed still stands after it. -/
theorem failed_keeps_block (hm : Marked d taskID .failed σ σ₁) {u : Task} (hunawaited : taskID ∈ u.deps →
      u.triggerRule ≠ .oneFailed ∧
      (u.triggerRule = .allFailed → ∃ dep ∈ u.deps, dep ≠ taskID ∧ (σ dep = some .success ∨ σ dep = some .skipped)))
    (hblocked : (gate u σ).2 = true) : (gate u σ₁).2 = true := by
  have hstops : ∀ dep, dep ≠ taskID → Stops (σ dep) (σ₁ dep) :=
    fun dep hdep => hm.others dep hdep (by rintro ⟨h | h, -⟩ <;> cases h)
  by_cases hdep : taskID ∈ u.deps
  · obtain ⟨hone, hall⟩ := hunawaited hdep
    obtain ⟨hne, hdoomed⟩ := (evalTriggerRule_blocked_iff _ _).mp hblocked
    have hne' : u.deps.map σ₁ ≠ [] := fun h => hne (List.map_eq_nil_iff.mpr (List.map_eq_nil_iff.mp h))
    have hfailed : some TaskState.failed ∈ u.deps.map σ₁ := List.mem_map.mpr ⟨taskID, hdep, hm.marked⟩
    refine (evalTriggerRule_blocked_iff _ _).mpr ⟨hne', ?_⟩
    cases hrule : u.triggerRule with
    | allDone =>
      rw [hrule] at hdoomed
      exact hdoomed.elim
    | oneSuccess =>
      rw [hrule] at hdoomed
      -- every dependency was over without success, and the marked one has failed now
      have hkept : ∀ s ∈ u.deps.map σ₁, s = some .failed ∨ s ∈ u.deps.map σ := by
        intro s hs
        obtain ⟨dep, hmem, rfl⟩ := List.mem_map.mp hs
        by_cases hself : dep = taskID
        · exact .inl (hself ▸ hm.marked)
        · have hold : σ dep ∈ u.deps.map σ := List.mem_map.mpr ⟨dep, hmem, rfl⟩
          exact .inr ((hstops dep hself).advances (hdoomed.1 _ hold) ▸ hold)
      constructor
      · intro s hs
        rcases hkept s hs with rfl | hold
        · rfl
        · exact hdoomed.1 s hold
      · intro s hs
        rcases hkept s hs with rfl | hold
        · nofun
        · exact hdoomed.2 s hold
    | oneFailed => exact absurd hrule hone
    | allFailed =>
      obtain ⟨dep, hmem, hself, hdone⟩ := hall hrule
      have hsame : σ₁ dep = σ dep := by
        refine (hstops dep hself).advances ?_
        rcases hdone with h | h <;> rw [h] <;> rfl
      rw [← hsame] at hdone
      rcases hdone with h | h
      · exact .inl (List.mem_map.mpr ⟨dep, hmem, h⟩)
      · exact .inr (List.mem_map.mpr ⟨dep, hmem, h⟩)
    | noneFailed => exact ⟨_, hfailed, rfl⟩
    | allSuccess => exact .inl ⟨_, hfailed, rfl⟩
  · exact gate_blocked_of_advances (fun dep hmem => (hstops dep (fun h => hdep (h ▸ hmem))).advances) hblocked

/-- A block outside the tasks that were released still stands. -/
theorem release_keeps_block (hm : Marked d taskID target σ σ₁) (htarget : target = .success ∨ target = .skipped) {u : Task}
    (hu : u ∈ d.tasks) (hnot : ¬ Released d taskID target σ u.id) (hupstream : σ u.id = some .upstreamFailed)
    (hblocked : (gate u σ).2 = true) : (gate u σ₁).2 = true := by
  have hfar : ¬ Downstream d.tasks taskID u.id := fun h => hnot ⟨htarget, List.mem_map.mpr ⟨u, hu, rfl⟩, h, hupstream⟩
  refine gate_blocked_of_advances ?_ hblocked
  intro dep hdep
  have hdepFar : ¬ Downstream d.tasks taskID dep := fun h => hfar (h.dependent hu hdep)
  have hne : dep ≠ taskID := by
    rintro rfl
    exact hdepFar .refl
  exact (hm.others dep hne (fun h => hdepFar h.2.2.1)).advances

/-- After the mark and the propagation, no block is left that nothing accounts
for, if and only if the mark is not a failure that a blocked task waits for. -/
theorem marked_stable_iff (hacyclic : Parser.Acyclic d.tasks) (hstable : Stable d.tasks σ) (hm : Marked d taskID target σ σ₁)
    (hp : Propagates d.tasks σ₁ σ₂) : Stable d.tasks σ₂ ↔ (target = .failed → FailureUnawaited d.tasks taskID σ) := by
  constructor
  · rintro h rfl u hu hupstream hdep
    have hne : u.id ≠ taskID := by
      rintro rfl
      exact not_self_dependent hacyclic hu hdep
    have hstops : ∀ x, x ≠ taskID → Stops (σ x) (σ₁ x) :=
      fun x hx => hm.others x hx (by rintro ⟨h | h, -⟩ <;> cases h)
    have hlater : σ₂ u.id = some .upstreamFailed := by
      have hmid : σ₁ u.id = some .upstreamFailed := by
        rw [(hstops u.id hne).advances (by rw [hupstream]; rfl), hupstream]
      rcases run_only_blocks hp.1 u.id with hsame | ⟨-, hblocked⟩
      · rw [hsame, hmid]
      · exact hblocked
    obtain ⟨-, hdoomed⟩ := (evalTriggerRule_blocked_iff _ _).mp (h u hu hlater)
    have hmarked : σ₂ taskID = some .failed := by
      rcases run_only_blocks hp.1 taskID with hsame | ⟨hsched, -⟩
      · rw [hsame, hm.marked]
      · rw [hm.marked] at hsched
        cases hsched
    have hback : ∀ {dep a}, dep ∈ u.deps → σ₂ dep = some a → a = .success ∨ a = .skipped → dep ≠ taskID ∧ σ dep = some a := by
      intro dep a _ hdone ha
      have hself : dep ≠ taskID := by
        rintro rfl
        rw [hmarked] at hdone
        cases hdone
        rcases ha with h | h <;> cases h
      refine ⟨hself, ?_⟩
      have hmid : σ₁ dep = some a := by
        rcases run_only_blocks hp.1 dep with hsame | ⟨-, hblocked⟩
        · rw [← hsame, hdone]
        · rw [hdone] at hblocked
          cases hblocked
          rcases ha with h | h <;> cases h
      refine (hstops dep hself).eq hmid ?_
      rcases ha with rfl | rfl <;> nofun
    constructor
    · intro hrule
      rw [hrule] at hdoomed
      have hno := hdoomed.2 _ (List.mem_map.mpr ⟨taskID, hdep, hmarked⟩)
      cases hno
    · intro hrule
      rw [hrule] at hdoomed
      rcases hdoomed with hmem | hmem
      · obtain ⟨dep, hdepMem, hdone⟩ := List.mem_map.mp hmem
        obtain ⟨hself, hbefore⟩ := hback hdepMem hdone (.inl rfl)
        exact ⟨dep, hdepMem, hself, .inl hbefore⟩
      · obtain ⟨dep, hdepMem, hdone⟩ := List.mem_map.mp hmem
        obtain ⟨hself, hbefore⟩ := hback hdepMem hdone (.inr rfl)
        exact ⟨dep, hdepMem, hself, .inr hbefore⟩
  · intro hcond u hu hupstream
    have hjustified : Confluence.Justified d.tasks σ₂ u.id := by
      by_cases hsame : σ₂ u.id = σ₁ u.id
      · have hmid : σ₁ u.id = some .upstreamFailed := hsame ▸ hupstream
        have hne : u.id ≠ taskID := by
          intro heq
          rw [heq, hm.marked, Option.some.injEq] at hmid
          rcases hm.legal with h | h | h <;> rw [h] at hmid <;> cases hmid
        have hnot : ¬ Released d taskID target σ u.id := by
          intro hrel
          rw [hm.released u.id hne hrel] at hmid
          cases hmid
        have hbefore : σ u.id = some .upstreamFailed := (hm.others u.id hne hnot).eq hmid (by decide)
        have hblocked := hstable u hu hbefore
        refine Confluence.run_justified hp.1 (.inl ⟨u, hu, rfl, ?_⟩)
        rcases hm.legal with h | rfl | h
        · exact release_keeps_block hm (.inl h) hu hnot hbefore hblocked
        · exact failed_keeps_block hm (hcond rfl u hu hbefore) hblocked
        · exact release_keeps_block hm (.inr h) hu hnot hbefore hblocked
      · exact Confluence.run_justified hp.1 (.inr hsame)
    obtain ⟨v, hv, hid, hblocked⟩ := hjustified
    rw [List.inj_on_of_nodup_map hacyclic.nodup hv hu hid] at hblocked
    exact hblocked

end States

/-! ### What the mark does to the rows -/

/-- Open instances may have been cancelled; nothing else happened to instances. -/
structure Stopping (before after : Db) : Prop where
  kept : ∀ row ∈ before.tasks.rows, ∃ row' ∈ after.tasks.rows, taskKey row' = taskKey row
  stopped : ∀ row' ∈ after.tasks.rows, ∃ row ∈ before.tasks.rows, taskKey row' = taskKey row ∧
    (row' = row ∨ (row.state.isTerminal = false ∧ row'.state = .cancelled))

namespace Stopping
variable {before after : Db}

theorem refl (db : Db) : Stopping db db := ⟨fun row h => ⟨row, h, rfl⟩, fun row h => ⟨row, h, rfl, .inl rfl⟩⟩

theorem congr (h : Stopping before after) {after' : Db} (htasks : after'.tasks = after.tasks) : Stopping before after' := by
  obtain ⟨hkept, hstopped⟩ := h
  rw [← htasks] at hkept hstopped
  exact ⟨hkept, hstopped⟩

/-- An instance that is still open is as it was. -/
theorem opened (h : Stopping before after) {ti : TaskInstance} (hti : ti ∈ after.tasks.rows) (hopen : ti.state.isTerminal = false) :
    ti ∈ before.tasks.rows := by
  obtain ⟨row, hrow, -, rfl | ⟨-, hcancelled⟩⟩ := h.stopped ti hti
  · exact hrow
  · rw [hcancelled] at hopen
    cases hopen

/-- An instance that was open is cancelled. -/
theorem cancel (h : Stopping before after) {ti : TaskInstance} (hti : ti ∈ before.tasks.rows) (hopen : ti.state.isTerminal = false)
    (fin : Time) : Stopping before (after.writeTask { ti with state := .cancelled, finishedAt := some fin }) := by
  constructor
  · intro row hrow
    obtain ⟨row', hrow', hkey⟩ := h.kept row hrow
    refine ⟨_, Db.mem_writeTask.mpr ⟨row', hrow', rfl⟩, ?_⟩
    rw [← hkey]
    split <;> rfl
  · intro row' hrow'
    obtain ⟨mid, hmid, heq⟩ := Db.mem_writeTask.mp hrow'
    obtain ⟨row, hrow, hkey, hchange⟩ := h.stopped mid hmid
    split at heq
    · rename_i hid
      subst heq
      simp only [taskKey, Prod.mk.injEq] at hkey
      have hsame : row = ti := by
        have hfound := Db.task?_of_mem hrow
        rw [← hkey.1, hid, Db.task?_of_mem hti] at hfound
        cases hfound
        rfl
      subst hsame
      exact ⟨row, hti, by simp only [taskKey, onRow, hkey], .inr ⟨hopen, rfl⟩⟩
    · subst heq
      exact ⟨row, hrow, hkey, hchange⟩

theorem stops (h : Stopping before after) (runID x : String) : Stops (statesOf before runID x) (statesOf after runID x) := by
  cases hafter : statesOf after runID x with
  | none =>
    refine .inl (statesOf_eq_none.mpr ?_).symm
    intro row hrow hrun htask
    obtain ⟨row', hrow', hkey⟩ := h.kept row hrow
    simp only [taskKey, Prod.mk.injEq] at hkey
    exact statesOf_eq_none.mp hafter row' hrow' (hkey.2.1.trans hrun) (hkey.2.2.trans htask)
  | some s =>
    obtain ⟨row', hrow', hrun, htask, rfl⟩ := statesOf_eq_some.mp hafter
    obtain ⟨row, hrow, hkey, hchange⟩ := h.stopped row' hrow'
    simp only [taskKey, Prod.mk.injEq] at hkey
    have hbefore : statesOf before runID x = some row.state :=
      statesOf_eq_some.mpr ⟨row, hrow, hkey.2.1.symm.trans hrun, hkey.2.2.symm.trans htask, rfl⟩
    rw [hbefore]
    rcases hchange with rfl | ⟨hopen, hcancelled⟩
    · exact .inl rfl
    · exact .inr ⟨hopen, by rw [hcancelled]⟩

/-- The instances listed before have their rows. -/
theorem row (h : Stopping before after) {ti : TaskInstance} (hti : ti ∈ before.tasks.rows) :
    ∃ row ∈ after.tasks.rows, row.id = ti.id ∧ row.runID = ti.runID ∧ row.taskID = ti.taskID := by
  obtain ⟨row, hrow, hkey⟩ := h.kept ti hti
  simp only [taskKey, Prod.mk.injEq] at hkey
  exact ⟨row, hrow, hkey⟩

end Stopping

section Cancel
variable {k : Kind} {t : Nat} {before : Db}

private theorem statement_stopping {β : Type} {st : Write β} (htasks : st.touchesTasks = false) :
    Keeps (solo anything k t) (fun s => Stopping before s.db) (statement st) := by
  refine (solo_statement _).weaken ?_
  rintro r s' ⟨s, hs, rfl, rfl⟩
  exact hs.congr (Db.apply_tasks htasks)

private theorem cancelRunLocked_stopping (levels : Nat) (runID : String) :
    Keeps (solo anything k t) (fun s => Stopping before s.db) (cancelRunLocked levels runID) := by
  induction levels generalizing runID with
  | zero =>
    rintro s hs s₁ hs₁ r s₂ ⟨a, -, -, hexec⟩
    cases hexec
  | succ levels ih =>
    refine solo_marked (A := fun db _ => Stopping before db) (B := fun _ db _ => Stopping before db) ?_
    refine .bind ((solo_query _).weaken (fun _ _ hs => hs.2)) (fun run => .refuse (fun _ hs => hs) (fun _ => ?_)) (fun _ _ hs => hs)
    refine .next (solo_asked .now) (fun fin => .bind (statement_stopping rfl) (fun _ => ?_) (fun _ _ hs => hs))
    refine .next (m := fun tis s => (∀ ti ∈ tis, ti.state.isTerminal = false → ti ∈ before.tasks.rows) ∧ Stopping before s.db)
      ((solo_list _).weaken ?_) (fun tis => .given (fun htis => Keeps.forM (fun ti hti => ?_)))
    · rintro (e | tis) s hs
      · exact hs
      · obtain ⟨rfl, hs⟩ := hs
        refine ⟨?_, hs⟩
        intro ti hti hopen
        exact hs.opened (Db.mem_listTaskInstances.mp hti).1 hopen
    · refine Triple.ite (fun _ => Keeps.pure _) (fun hopen => ?_)
      rw [Bool.not_eq_true] at hopen
      have hmark : Keeps (solo anything k t) (fun s => Stopping before s.db)
          (attempt (statement (.updateTaskInstance { ti with state := .cancelled, finishedAt := some fin }))) := by
        refine Keeps.bind (.outcome ((solo_statement _).weaken ?_)) (fun _ => Keeps.pure _)
        rintro r s' ⟨s, hs, rfl, rfl⟩
        rcases s.db.updateTaskInstance_cases { ti with state := .cancelled, finishedAt := some fin } with ⟨-, happly⟩ | ⟨_, -, happly⟩
        · rw [World.written, happly]
          exact hs
        · rw [World.written, happly]
          exact hs.cancel (htis ti hti hopen) hopen fin
      dsimp only
      refine Triple.ite (fun _ => Keeps.bind ?_ (fun _ => hmark)) (fun _ => hmark)
      unfold cancelAttempt
      split
      · exact Keeps.bind (.outcome (ih _)) (fun _ => Keeps.pure _)
      · refine (solo_asked _).weaken ?_
        rintro (e | _) s hs
        · exact hs.elim
        · exact hs

end Cancel

/-- While blocked tasks are released: `rest` is left of them. -/
structure Releasing (runID : String) (d : DAG) (taskID : String) (target : TaskState) (before : Db) (rest : List String)
    (db : Db) : Prop where
  kept : ∀ row ∈ before.tasks.rows, ∃ row' ∈ db.tasks.rows, taskKey row' = taskKey row
  left : ∀ x ∈ rest, x ∈ d.tasks.map (·.id) ∧ Downstream d.tasks taskID x
  released : ∀ x ≠ taskID, Released d taskID target (statesOf before runID) x →
    x ∈ rest ∨ statesOf db runID x = some .scheduled
  others : ∀ x ≠ taskID, ¬ Released d taskID target (statesOf before runID) x →
    Stops (statesOf before runID x) (statesOf db runID x)

namespace Releasing
variable {runID : String} {d : DAG} {taskID : String} {target : TaskState} {before db : Db} {x : String} {rest : List String}

theorem write (h : Releasing runID d taskID target before rest db) {ti new : TaskInstance}
    (hfind : findTI (before.listTaskInstances runID) x = some ti) (hid : new.id = ti.id) :
    db.apply (.updateTaskInstance new) = (.ok (), db.writeTask new) ∧
      (∀ row ∈ before.tasks.rows, ∃ row' ∈ (db.writeTask new).tasks.rows, taskKey row' = taskKey row) ∧
      ∀ y, statesOf (db.writeTask new) runID y = if y = x then some new.state else statesOf db runID y := by
  obtain ⟨hti, rfl, rfl⟩ := findTI_list.mp hfind
  obtain ⟨row, hrow, hkey⟩ := h.kept ti hti
  simp only [taskKey, Prod.mk.injEq] at hkey
  have hsame : new.id = row.id := hid.trans hkey.1.symm
  refine ⟨?_, ?_, ?_⟩
  · rcases db.updateTaskInstance_cases new with ⟨hnone, -⟩ | ⟨_, -, happly⟩
    · rw [hsame, Db.task?_of_mem hrow] at hnone
      cases hnone
    · exact happly
  · intro old hold
    obtain ⟨row', hrow', hkey'⟩ := h.kept old hold
    refine ⟨_, Db.mem_writeTask.mpr ⟨row', hrow', rfl⟩, ?_⟩
    rw [← hkey']
    split <;> rfl
  · intro y
    rw [statesOf_writeTask hrow hsame, hkey.2.1, hkey.2.2]
    simp only [true_and]

/-- A task that is not blocked, or the marked one itself. -/
theorem skip (h : Releasing runID d taskID target before (x :: rest) db)
    (hx : x = taskID ∨ statesOf before runID x ≠ some .upstreamFailed) : Releasing runID d taskID target before rest db where
  kept := h.kept
  left := fun y hy => h.left y (List.mem_cons_of_mem x hy)
  released := by
    intro y hy hrel
    refine (h.released y hy hrel).imp_left (fun hmem => (List.mem_cons.mp hmem).resolve_left ?_)
    rintro rfl
    rcases hx with hself | hnot
    · exact hy hself
    · exact hnot hrel.2.2.2
  others := h.others

theorem release (h : Releasing runID d taskID target before (x :: rest) db) (htarget : target = .success ∨ target = .skipped)
    {ti : TaskInstance} (hfind : findTI (before.listTaskInstances runID) x = some ti) (hstate : ti.state = .upstreamFailed) :
    db.apply (.updateTaskInstance (clearTask ti)) = (.ok (), db.writeTask (clearTask ti)) ∧
      Releasing runID d taskID target before rest (db.writeTask (clearTask ti)) := by
  obtain ⟨happly, hkept, hone⟩ := h.write hfind (show (clearTask ti).id = ti.id from rfl)
  have hrel : Released d taskID target (statesOf before runID) x := by
    obtain ⟨hmem, hbelow⟩ := h.left x List.mem_cons_self
    refine ⟨htarget, hmem, hbelow, ?_⟩
    rw [statesOf, states, hfind, Option.map_some, hstate]
  refine ⟨happly, hkept, fun y hy => h.left y (List.mem_cons_of_mem x hy), ?_, ?_⟩
  · intro y hy hyrel
    rw [hone]
    by_cases hyx : y = x
    · exact .inr (if_pos hyx)
    · rw [if_neg hyx]
      exact (h.released y hy hyrel).imp_left (fun hmem => (List.mem_cons.mp hmem).resolve_left hyx)
  · intro y hy hnot
    rw [hone, if_neg]
    · exact h.others y hy hnot
    · rintro rfl
      exact hnot hrel

/-- The marked task takes its state last. -/
theorem mark (h : Releasing runID d taskID target before [] db) {ti : TaskInstance} (legal : target = .success ∨ target = .failed ∨ target = .skipped)
    (hfind : findTI (before.listTaskInstances runID) taskID = some ti) (fin : Time) :
    db.apply (.updateTaskInstance { ti with state := target, finishedAt := some fin }) =
        (.ok (), db.writeTask { ti with state := target, finishedAt := some fin }) ∧
      Marked d taskID target (statesOf before runID)
        (statesOf (db.writeTask { ti with state := target, finishedAt := some fin }) runID) := by
  obtain ⟨happly, -, hone⟩ := h.write hfind
    (show { ti with state := target, finishedAt := some fin }.id = ti.id from rfl)
  refine ⟨happly, legal, by rw [hone, if_pos rfl], ?_, ?_⟩
  · intro x hx hrel
    rw [hone, if_neg hx]
    exact (h.released x hx hrel).resolve_left List.not_mem_nil
  · intro x hx hnot
    rw [hone, if_neg hx]
    exact h.others x hx hnot

end Releasing

/-- Before the release. -/
theorem Stopping.releasing {before db : Db} (h : Stopping before db) {runID : String} {d : DAG} {taskID : String} {target : TaskState}
    {ids : List String} (hids : ∀ x, x ∈ ids ↔ x ∈ d.tasks.map (·.id) ∧ Downstream d.tasks taskID x) :
    Releasing runID d taskID target before ids db where
  kept := h.kept
  left := fun x hx => (hids x).mp hx
  released := fun x _ hrel => .inl ((hids x).mpr ⟨hrel.2.1, hrel.2.2.1⟩)
  others := fun x _ _ => h.stops runID x

/-- A mark to failed releases nothing. -/
theorem Stopping.releasing_failed {before db : Db} (h : Stopping before db) (runID : String) (d : DAG) (taskID : String) {target : TaskState}
    (htarget : ¬ (target = .success ∨ target = .skipped)) : Releasing runID d taskID target before [] db where
  kept := h.kept
  left := fun _ hx => absurd hx List.not_mem_nil
  released := fun _ _ hrel => absurd hrel.1 htarget
  others := fun x _ _ => h.stops runID x

section Mark
variable {cfg : Cfg} {k : Kind} {t : Nat} {w : World} {runID taskID : String} {target : TaskState} {run : DagRun} {d : DAG}

private theorem releaseDownstream_releases (before : Db) (htarget : target = .success ∨ target = .skipped) :
    Triple (solo anything k t) (fun s => Stopping before s.db) (releaseDownstream d (before.listTaskInstances runID) taskID)
      (Ends (fun _ s => Releasing runID d taskID target before [] s.db) (fun _ => False)) := by
  refine .next (m := fun order (s : World) => Releasing runID d taskID target before order s.db) ((solo_ask _).weaken ?_)
    (fun order => .forM_rest (I := fun rest (s : World) => Releasing runID d taskID target before rest s.db) ?_ order)
  · rintro (e | order) s hs
    · exact hs
    · obtain ⟨hstopping, a, -, hreply⟩ := hs
      have hperm : order.Perm (validIDs d ((downstreamClosure d.tasks taskID).contains ·)) := by
        cases a <;> simp only [Ask.reply, Option.ite_none_right_eq_some, Option.some.injEq, reduceCtorEq] at hreply
        · exact hreply ▸ .refl _
        · exact hreply.2 ▸ hreply.1
      refine hstopping.releasing (fun x => ?_)
      rw [hperm.mem_iff, validIDs, List.mem_filter, List.contains_iff_mem, mem_downstreamClosure]
  · intro x rest
    split
    · rename_i hnone
      refine .pure (fun s hs => hs.skip (.inr ?_))
      rw [statesOf, states, hnone]
      intro h
      cases h
    · rename_i dt hdt
      refine .ite (fun hskip => .pure (fun s hs => hs.skip (hskip.imp_right ?_))) (fun hblocked => ?_)
      · intro hne hstate
        rw [statesOf, states, hdt, Option.map_some, Option.some.injEq] at hstate
        exact hne hstate
      · rw [not_or, not_not] at hblocked
        refine (solo_statement _).weaken ?_
        rintro r s' ⟨s, hs, rfl, rfl⟩
        obtain ⟨happly, hnext⟩ := hs.release htarget hdt hblocked.2
        rw [World.written, happly]
        exact hnext

private theorem markContext_reads (hrun : w.db.run? runID = some run) (hd : resolve cfg w run = .ok d) :
    Triple (solo anything k t) (fun s => s.db = w.db ∧ s.dags = w.dags) (markContext cfg runID)
      (Ends (fun c s => (c.2.1 = d ∧ c.2.2 = w.db.listTaskInstances runID) ∧ Stopping w.db s.db) (fun _ => True)) := by
  obtain rfl := (Db.run?_spec hrun).2
  refine .bind (m := fun r s => r = .ok run ∧ s.db = w.db ∧ s.dags = w.dags) ((solo_query _).weaken ?_) ?_ (fun _ _ _ => trivial)
  · rintro r s ⟨rfl, hs⟩
    refine ⟨?_, hs⟩
    rw [hs.1]
    exact Db.getDagRun_ok.mpr hrun
  · intro found
    refine .given ?_
    rintro ⟨⟩
    refine .bind (dagForRun_resolves hrun) ?_ (fun _ _ _ => trivial)
    rintro ⟨d', run'⟩
    refine .next (m := fun tis (s : World) => (d' = d ∧ tis = w.db.listTaskInstances run.runID) ∧ Stopping w.db s.db)
      ((solo_list _).weaken ?_) (fun tis => .pure (fun s hs => hs))
    rintro (e | tis) s hs
    · exact hs
    · obtain ⟨rfl, -, hres⟩ := hs
      rw [hd] at hres
      obtain ⟨heq, hdb⟩ := hres
      cases heq
      have htasks : s.db.tasks = w.db.tasks := by
        rw [hdb, adopted]
        split
        · rfl
        · exact Db.apply_tasks rfl
      refine ⟨⟨rfl, ?_⟩, (Stopping.refl w.db).congr htasks⟩
      simp only [Db.listTaskInstances, htasks]

private theorem markTask_marks (hrun : w.db.run? runID = some run) (hd : resolve cfg w run = .ok d) :
    Triple (solo anything k t) (fun s => s.db = w.db ∧ s.dags = w.dags) (markTask cfg runID taskID target)
      (Ends (fun _ s => Marked d taskID target (statesOf w.db runID) (statesOf s.db runID)) (fun _ => True)) := by
  unfold markTask
  refine .refuse (fun _ _ => trivial) (fun hlegal => ?_)
  have legal : target = .success ∨ target = .failed ∨ target = .skipped := by tauto
  let out : Except Err Unit → Db → List DAG → Prop := fun r db _ =>
    Ends (fun _ db => Marked d taskID target (statesOf w.db runID) (statesOf db runID)) (fun _ => True) r db
  have hout : Triple (solo anything k t) (fun s => s.db = w.db ∧ s.dags = w.dags) (locked (markTaskLocked cfg runID taskID target))
      (fun r s => out r s.db s.dags) := by
    refine solo_locked (A := fun db dags => db = w.db ∧ dags = w.dags) (solo_marked (A := fun db dags => db = w.db ∧ dags = w.dags) ?_)
    refine .seq (markContext_reads hrun hd) ?_ (fun _ _ _ => trivial)
    rintro ⟨run', d', tis⟩
    refine .given ?_
    rintro ⟨rfl, rfl⟩
    dsimp only
    split
    · exact .throw (fun _ _ => trivial)
    · rename_i ti hti
      refine .refuse (fun _ _ => trivial) (fun _ => .next (solo_asked .now) (fun now => ?_))
      -- the marked task is written over whatever the cancel has left
      have hmark : Triple (solo anything k t) (fun s => Releasing runID d' taskID target w.db [] s.db) (do
          statement (.updateTaskInstance { ti with state := target, finishedAt := some now })
          if run'.state.isTerminal then statement (.updateDagRunState runID .running (some now) none))
          (fun r s => out r s.db s.dags) := by
        refine .next (m := fun _ s => out (.ok ()) s.db s.dags) ((solo_statement _).weaken ?_) (fun _ => .ite (fun _ => ?_) (fun _ => .pure (fun _ hs => hs)))
        · rintro r s' ⟨s, hs, rfl, rfl⟩
          obtain ⟨happly, hmarked⟩ := hs.mark legal hti now
          rw [World.written, happly]
          exact hmarked
        · refine (solo_statement _).weaken ?_
          rintro (e | _) s' ⟨s, hs, -, rfl⟩
          · trivial
          · change Marked _ _ _ _ _
            rw [World.written, statesOf_congr (Db.apply_tasks rfl)]
            exact hs
      have hrelease : Triple (solo anything k t) (fun s => Stopping w.db s.db) (do
          if target = .success ∨ target = .skipped then releaseDownstream d' (w.db.listTaskInstances runID) taskID
          statement (.updateTaskInstance { ti with state := target, finishedAt := some now })
          if run'.state.isTerminal then statement (.updateDagRunState runID .running (some now) none))
          (fun r s => out r s.db s.dags) := by
        refine .ite (fun htarget => .next (releaseDownstream_releases w.db htarget) (fun _ => hmark)) (fun htarget => ?_)
        exact hmark.strengthen (fun s hs => hs.releasing_failed runID d' taskID htarget)
      refine .ite (fun _ => .bind (m := fun _ s => Stopping w.db s.db) ?_ (fun _ => hrelease) (fun _ _ _ => trivial)) (fun _ => hrelease)
      unfold cancelAttempt
      split
      · exact Keeps.bind (.outcome (cancelRunLocked_stopping _ _)) (fun _ => Keeps.pure _)
      · refine (solo_asked _).weaken ?_
        rintro (e | _) s hs
        · exact hs.elim
        · exact hs
  refine hout.weaken ?_
  rintro (e | u) s hs
  · trivial
  · exact hs

end Mark

/-- A manual mark, and the block propagation of the next step on the run. -/
def markAndPropagate (cfg : Cfg) (runID taskID : String) (target : TaskState) (d : DAG) : M (List TaskInstance) := do
  markTask cfg runID taskID target
  let tis ← list (fun db => db.listTaskInstances runID)
  propagate blockTask d.tasks (d.tasks.length + 1) tis

/-- A mark and the propagation after it leave no stale block exactly if the mark is
not a failure that some blocked task waits for. -/
theorem mark_stable_iff (cfg : Cfg) (k : Kind) (t n : Nat) (answers : Answers) (hanswers : Faultless answers) (w w' : World)
    (runID taskID : String) (target : TaskState) (run : DagRun) (d : DAG) (after : List TaskInstance)
    (hrun : w.db.run? runID = some run) (hd : resolve cfg w run = .ok d) (hacyclic : Parser.Acyclic d.tasks)
    (hstable : Stable d.tasks (statesOf w.db runID))
    (hp : w.perform k t answers n (markAndPropagate cfg runID taskID target d).run = some (.ok after, w')) :
    Stable d.tasks (states after) ↔ (target = .failed → FailureUnawaited d.tasks taskID (statesOf w.db runID)) := by
  have hends : Triple (solo anything k t) (fun s => s.db = w.db ∧ s.dags = w.dags) (markAndPropagate cfg runID taskID target d)
      (Ends (fun rows _ => ∃ σ, Marked d taskID target (statesOf w.db runID) σ ∧ Propagates d.tasks σ (states rows)) (fun _ => True)) := by
    refine .seq (markTask_marks hrun hd) (fun _ => ?_) (fun _ _ _ => trivial)
    refine .next (m := fun tis _ => Marked d taskID target (statesOf w.db runID) (states tis)) ((solo_list _).weaken ?_) (fun tis => ?_)
    · rintro (e | tis) s hs
      · exact hs
      · obtain ⟨rfl, hs⟩ := hs
        exact hs
    · have hpasses : waiting d.tasks (states tis) < d.tasks.length + 1 := Nat.lt_succ_of_le (waiting_le _ _)
      have hkeeps : Keeps (solo anything k t) (fun _ => Marked d taskID target (statesOf w.db runID) (states tis))
          (propagate blockTask d.tasks (d.tasks.length + 1) tis) := solo_keeps _ (fun _ _ _ _ hs _ => hs)
      refine ((propagate_propagates _ hpasses).gives hkeeps).weaken ?_
      rintro (e | rows) s hs
      · trivial
      · exact ⟨_, hs⟩
  obtain ⟨σ, hmarked, hpropagates⟩ := perform_triple hanswers (anything_holds answers) hends ⟨rfl, rfl⟩ hp
  exact marked_stable_iff hacyclic hstable hmarked hpropagates

/-- An extract that succeeded, and an alarm for its failure. -/
def watchYAML : String :=
  "dag_id: watch\ntasks:\n- {id: extract, command: x}\n- {id: alarm, command: x, deps: [extract], trigger_rule: one_failed}\n"

def watchDocument : Parser.DagYAML :=
  { dagID := "watch"
    tasks := [{ id := "extract", command := "x" }, { id := "alarm", command := "x", deps := ["extract"], triggerRule := "one_failed" }] }

def watch : DAG :=
  { dagID := "watch", definitionYAML := watchYAML
    tasks := [{ id := "extract", command := "x" }, { id := "alarm", command := "x", deps := ["extract"], triggerRule := .oneFailed }] }

def watchCfg : Cfg := .ofDocuments [(watchYAML, watchDocument)]

def watchRun : DagRun :=
  { runID := "r", dagID := "watch", logicalDate := 0, state := .failed, triggerType := .manual, definitionYAML := watchYAML }

def watchWorld : World where
  dags := [watch]
  db :=
    { runs := ⟨[watchRun], by decide⟩
      tasks := ⟨[{ id := 1, runID := "r", taskID := "extract", state := .success },
        { id := 2, runID := "r", taskID := "alarm", state := .upstreamFailed }], by decide⟩ }

private theorem watch_acyclic : Parser.Acyclic watch.tasks :=
  Parser.parse_acyclic (show Parser.parse watchCfg.parser watchYAML = .ok watch by decide +kernel)

private theorem watch_stable : Stable watch.tasks (statesOf watchWorld.db "r") := by
  have hall : ∀ u ∈ watch.tasks, u = { id := "extract", command := "x" } ∨
      u = { id := "alarm", command := "x", deps := ["extract"], triggerRule := .oneFailed } := by decide
  intro u hu hblocked
  rcases hall u hu with rfl | rfl
  · have hstate : statesOf watchWorld.db "r" "extract" = some .success := by decide +kernel
    rw [hstate] at hblocked
    cases hblocked
  · decide +kernel

private theorem watch_marked (target : TaskState) (htarget : target = .failed ∨ target = .success) :
    ∃ after w', watchWorld.perform (.call (.markTask "r" "extract" target)) 1 fine 0
      (markAndPropagate watchCfg "r" "extract" target watch).run = some (.ok after, w') := by
  have hok : ((watchWorld.perform (.call (.markTask "r" "extract" target)) 1 fine 0
      (markAndPropagate watchCfg "r" "extract" target watch).run).bind (fun p => p.1.toOption)).isSome = true := by
    rcases htarget with rfl | rfl <;> decide +kernel
  obtain ⟨after, hafter⟩ := Option.isSome_iff_exists.mp hok
  obtain ⟨⟨r, w'⟩, hp, hr⟩ := Option.bind_eq_some_iff.mp hafter
  cases r with
  | error e => cases hr
  | ok rows => exact ⟨rows, w', hp⟩

/-- A failure that the alarm waits for leaves it blocked; a success does no harm. -/
theorem mark_stable_iff_watch : ∃ after w',
    watchWorld.perform (.call (.markTask "r" "extract" .success)) 1 fine 0
        (markAndPropagate watchCfg "r" "extract" .success watch).run = some (.ok after, w') ∧
      (Stable watch.tasks (states after) ↔
        (TaskState.success = .failed → FailureUnawaited watch.tasks "extract" (statesOf watchWorld.db "r"))) := by
  obtain ⟨after, w', hp⟩ := watch_marked .success (.inr rfl)
  exact ⟨after, w', hp, mark_stable_iff watchCfg _ 1 0 fine faultless_fine watchWorld w' "r" "extract" .success watchRun watch after
    rfl (by decide +kernel) watch_acyclic watch_stable hp⟩

/-- The states before the mark are stable, those after the propagation are not. -/
theorem mark_failed_leaves_block : Parser.Acyclic watch.tasks ∧ Stable watch.tasks (statesOf watchWorld.db "r") ∧
    ∃ after w', watchWorld.perform (.call (.markTask "r" "extract" .failed)) 1 fine 0
        (markAndPropagate watchCfg "r" "extract" .failed watch).run = some (.ok after, w') ∧ ¬ Stable watch.tasks (states after) := by
  refine ⟨watch_acyclic, watch_stable, ?_⟩
  have hstates : (watchWorld.perform (.call (.markTask "r" "extract" .failed)) 1 fine 0
      (markAndPropagate watchCfg "r" "extract" .failed watch).run).map (fun p => p.1.toOption.map (fun rows =>
        (states rows "extract", states rows "alarm"))) = some (some (some .failed, some .upstreamFailed)) := by decide +kernel
  obtain ⟨after, w', hp⟩ := watch_marked .failed (.inl rfl)
  rw [hp, Option.map_some, Option.some.injEq] at hstates
  obtain ⟨hextract, halarm⟩ : states after "extract" = some .failed ∧ states after "alarm" = some .upstreamFailed := by
    simpa [Except.toOption] using hstates
  refine ⟨after, w', hp, ?_⟩
  intro h
  have hblocked := h { id := "alarm", command := "x", deps := ["extract"], triggerRule := .oneFailed } (by decide) halarm
  rw [gate, List.map_cons, List.map_nil, hextract] at hblocked
  cases hblocked

end Cronova.Properties.Marks
