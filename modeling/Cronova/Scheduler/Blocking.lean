import Cronova.Concurrency.Triples
import Cronova.Scheduler.Runs
import Mathlib.Logic.Relation

/-! Block propagation on the states alone: each step blocks one task, two steps
commute, and the loop over the instances ends where no step is left. -/
namespace Cronova.Scheduler
open Cronova.Model Cronova.Store Cronova.Concurrency Cronova.Concurrency.Fallible Relation

/-- The state of each task of a run, none where it has no instance. -/
abbrev States := String → Option TaskState

def states (byTask : List TaskInstance) : States := fun id => (findTI byTask id).map (·.state)

/-- A task's trigger rule against states. -/
def gate (t : Task) (σ : States) : Bool × Bool := evalTriggerRule t.triggerRule (t.deps.map σ)

theorem taskGate_eq (t : Task) (byTask : List TaskInstance) : taskGate t byTask = gate t (states byTask) := rfl

theorem states_setTI {byTask : List TaskInstance} {id : String} {ti new : TaskInstance} (hfind : findTI byTask id = some ti)
    (hid : new.taskID = ti.taskID) : states (setTI byTask new) = Function.update (states byTask) id (some new.state) := by
  have hnew : new.taskID = id := hid.trans (findTI_spec hfind).2
  have hset : ∀ rows other, findTI (setTI rows new) other =
      (findTI rows other).map (fun row => if row.taskID = new.taskID then new else row) := by
    intro rows other
    have hsame : (fun row : TaskInstance => decide (row.taskID = other)) ∘
        (fun row => if row.taskID = new.taskID then new else row) = fun row => decide (row.taskID = other) := by
      funext row
      by_cases hrow : row.taskID = new.taskID
      · simp [hrow]
      · simp [hrow]
    rw [findTI, setTI, List.find?_map, hsame, findTI]
  funext other
  rw [states, hset, Option.map_map]
  by_cases hother : other = id
  · subst hother
    rw [Function.update_self, hfind, Option.map_some, Function.comp_apply, if_pos hid.symm]
  · rw [Function.update_of_ne hother, states]
    refine Option.map_congr ?_
    intro row hrow
    rw [Function.comp_apply, if_neg]
    intro heq
    exact hother ((findTI_spec hrow).2.symm.trans (heq.trans hnew))

/-- One scheduled task whose rule can no longer be satisfied is given up. -/
def Blocks (tasks : List Task) (σ σ' : States) : Prop :=
  ∃ t ∈ tasks, σ t.id = some .scheduled ∧ (gate t σ).2 = true ∧ σ' = Function.update σ t.id (some .upstreamFailed)

/-- Nothing is left to block. -/
def Quiet (tasks : List Task) (σ : States) : Prop := ∀ t ∈ tasks, σ t.id = some .scheduled → (gate t σ).2 = false

/-- Steps that lead to where nothing is left to block. -/
def Propagates (tasks : List Task) (σ σ' : States) : Prop := ReflTransGen (Blocks tasks) σ σ' ∧ Quiet tasks σ'

theorem Quiet.stuck {tasks : List Task} {σ σ' : States} (h : Quiet tasks σ) : ¬ Blocks tasks σ σ' := by
  rintro ⟨t, ht, hsched, hblocked, -⟩
  rw [h t ht hsched] at hblocked
  cases hblocked

theorem advances_update {σ : States} {id : String} {s : TaskState} (h : σ id = some .scheduled) (deps : List String) :
    List.Forall₂ Advances (deps.map σ) (deps.map (Function.update σ id (some s))) := by
  rw [List.forall₂_map_left_iff, List.forall₂_map_right_iff, List.forall₂_same]
  intro dep _ hterminal
  by_cases hdep : dep = id
  · subst hdep
    rw [h] at hterminal
    cases hterminal
  · rw [Function.update_of_ne hdep]

theorem Blocks.diamond {tasks : List Task} {σ a b : States} (ha : Blocks tasks σ a) (hb : Blocks tasks σ b) :
    ∃ c, ReflGen (Blocks tasks) a c ∧ ReflTransGen (Blocks tasks) b c := by
  obtain ⟨t, ht, htsched, htblocked, rfl⟩ := ha
  obtain ⟨u, hu, husched, hublocked, rfl⟩ := hb
  by_cases hid : t.id = u.id
  · rw [hid]
    exact ⟨_, .refl, .refl⟩
  · -- both rules stay unsatisfiable, so that the other task can follow
    have htu : Blocks tasks (Function.update σ u.id (some .upstreamFailed))
        (Function.update (Function.update σ u.id (some .upstreamFailed)) t.id (some .upstreamFailed)) := by
      refine ⟨t, ht, ?_, evalTriggerRule_blocked (advances_update husched t.deps) _ htblocked, rfl⟩
      rw [Function.update_of_ne hid, htsched]
    have hut : Blocks tasks (Function.update σ t.id (some .upstreamFailed))
        (Function.update (Function.update σ t.id (some .upstreamFailed)) u.id (some .upstreamFailed)) := by
      refine ⟨u, hu, ?_, evalTriggerRule_blocked (advances_update htsched u.deps) _ hublocked, rfl⟩
      rw [Function.update_of_ne (Ne.symm hid), husched]
    rw [Function.update_comm (Ne.symm hid)] at htu
    exact ⟨_, .single hut, .single htu⟩

theorem Propagates.stuck {tasks : List Task} {σ σ' : States} (hquiet : Quiet tasks σ)
    (h : ReflTransGen (Blocks tasks) σ σ') : σ' = σ := by
  rcases h.cases_head with rfl | ⟨mid, hstep, -⟩
  · rfl
  · exact absurd hstep hquiet.stuck

/-- Whatever the order of the steps, they end in the same states. -/
theorem Propagates.unique {tasks : List Task} {σ a b : States} (ha : Propagates tasks σ a) (hb : Propagates tasks σ b) :
    a = b := by
  obtain ⟨c, hac, hbc⟩ := church_rosser (fun _ _ _ => Blocks.diamond) ha.1 hb.1
  rw [← stuck ha.2 hac, stuck hb.2 hbc]

/-- How many tasks could still be blocked. -/
def waiting (tasks : List Task) (σ : States) : Nat := tasks.countP (fun t => σ t.id = some .scheduled)

theorem Blocks.waiting_lt {tasks : List Task} {σ σ' : States} (h : Blocks tasks σ σ') : waiting tasks σ' < waiting tasks σ := by
  obtain ⟨t, ht, hsched, -, rfl⟩ := h
  have hless : ∀ {u : Task}, Function.update σ t.id (some .upstreamFailed) u.id = some .scheduled → σ u.id = some .scheduled := by
    intro u hu
    by_cases hid : u.id = t.id
    · rw [hid, Function.update_self] at hu
      cases hu
    · rwa [Function.update_of_ne hid] at hu
  obtain ⟨front, rest, rfl⟩ := List.append_of_mem ht
  have hmono : ∀ l : List Task, waiting l (Function.update σ t.id (some .upstreamFailed)) ≤ waiting l σ := by
    intro l
    refine List.countP_mono_left ?_
    intro u _ hu
    exact decide_eq_true (hless (of_decide_eq_true hu))
  have hfront := hmono front
  have hrest := hmono rest
  simp only [waiting, List.countP_append, List.countP_cons, Function.update_self, hsched] at hfront hrest ⊢
  simp only [decide_true, if_true, Option.some.injEq, reduceCtorEq, decide_false, Bool.false_eq_true, if_false]
  omega

theorem propagates_exists (tasks : List Task) (σ : States) : ∃ σ', Propagates tasks σ σ' := by
  induction hn : waiting tasks σ using Nat.strong_induction_on generalizing σ with
  | _ n ih =>
    by_cases hquiet : Quiet tasks σ
    · exact ⟨σ, .refl, hquiet⟩
    · simp only [Quiet, not_forall, Bool.not_eq_false] at hquiet
      obtain ⟨t, ht, hsched, hblocked⟩ := hquiet
      have hstep : Blocks tasks σ (Function.update σ t.id (some .upstreamFailed)) := ⟨t, ht, hsched, hblocked, rfl⟩
      obtain ⟨σ', hrun, hσ'⟩ := ih _ (hn ▸ hstep.waiting_lt) _ rfl
      exact ⟨σ', .head hstep hrun, hσ'⟩

/-- The steps do not depend on the order in which the tasks are listed. -/
theorem Blocks.perm {tasks order : List Task} (hperm : order.Perm tasks) : Blocks order = Blocks tasks := by
  funext σ σ'
  exact propext ⟨fun ⟨t, ht, h⟩ => ⟨t, hperm.mem_iff.mp ht, h⟩, fun ⟨t, ht, h⟩ => ⟨t, hperm.mem_iff.mpr ht, h⟩⟩

theorem Propagates.perm {tasks order : List Task} (hperm : order.Perm tasks) {σ σ' : States} (h : Propagates order σ σ') :
    Propagates tasks σ σ' := by
  obtain ⟨hsteps, hquiet⟩ := h
  rw [Blocks.perm hperm] at hsteps
  exact ⟨hsteps, fun t ht => hquiet t (hperm.mem_iff.mpr ht)⟩

/-! ### The loop over the instances -/

theorem blockTask_gives_up (ti : TaskInstance) :
    Yields (fun new => new.taskID = ti.taskID ∧ new.state = .upstreamFailed) (blockTask ti) :=
  .bind (.any _) (fun _ _ => .bind (.any _) (fun _ _ => .pure ⟨rfl, rfl⟩))

/-- A pass in progress: while nothing changed, no task visited so far can be blocked. -/
structure Passing (tasks : List Task) (start : List TaskInstance) (rest : List Task) (now : List TaskInstance × Bool) :
    Prop where
  steps : ReflTransGen (Blocks tasks) (states start) (states now.1)
  same : now.2 = false → now.1 = start
  visited : now.2 = false → ∀ t ∈ tasks, t ∈ rest ∨ (states now.1 t.id = some .scheduled → (gate t (states now.1)).2 = false)
  fewer : now.2 = true → waiting tasks (states now.1) < waiting tasks (states start)

theorem Passing.skip {tasks rest : List Task} {start : List TaskInstance} {now : List TaskInstance × Bool} {t : Task}
    (h : Passing tasks start (t :: rest) now)
    (ht : states now.1 t.id = some .scheduled → (gate t (states now.1)).2 = false) : Passing tasks start rest now := by
  refine { h with visited := ?_ }
  intro hsame u hu
  rcases h.visited hsame u hu with hmem | hnot
  · rcases List.mem_cons.mp hmem with rfl | hrest
    · exact .inr ht
    · exact .inl hrest
  · exact .inr hnot

theorem Passing.block {tasks rest : List Task} {start : List TaskInstance} {now : List TaskInstance × Bool} {t : Task}
    {ti new : TaskInstance} (h : Passing tasks start (t :: rest) now) (ht : t ∈ tasks) (hfind : findTI now.1 t.id = some ti)
    (hsched : ti.state = .scheduled) (hblocked : (taskGate t now.1).2 = true) (hid : new.taskID = ti.taskID)
    (hnew : new.state = .upstreamFailed) : Passing tasks start rest (setTI now.1 new, true) := by
  have hstep : Blocks tasks (states now.1) (states (setTI now.1 new)) := by
    refine ⟨t, ht, ?_, hblocked, ?_⟩
    · rw [states, hfind, Option.map_some, hsched]
    · rw [states_setTI hfind hid, hnew]
  refine ⟨h.steps.tail hstep, nofun, nofun, ?_⟩
  intro _
  cases hchanged : now.2 with
  | true => exact hstep.waiting_lt.trans (h.fewer hchanged)
  | false => exact (h.same hchanged) ▸ hstep.waiting_lt

theorem propagatePass_blocked (tasks : List Task) (byTask : List TaskInstance) :
    Yields (Passing tasks byTask []) (propagatePass blockTask tasks byTask) := by
  have hinit : (∀ t ∈ tasks, t ∈ tasks) ∧ Passing tasks byTask tasks (byTask, false) :=
    ⟨fun _ ht => ht, .refl, fun _ => rfl, fun _ _ ht => .inl ht, nofun⟩
  refine (@Yields.foldlM _ _ _ _ _ (fun rest now => (∀ t ∈ rest, t ∈ tasks) ∧ Passing tasks byTask rest now) ?_ tasks _ hinit).mono
    (fun _ h => h.2)
  rintro t rest ⟨now, changed⟩ ⟨hrest, hpass⟩
  have hmem : ∀ u ∈ rest, u ∈ tasks := fun u hu => hrest u (List.mem_cons_of_mem t hu)
  dsimp only
  split
  · rename_i hnone
    refine Yields.pure ⟨hmem, hpass.skip ?_⟩
    intro hsched
    rw [states, hnone] at hsched
    cases hsched
  · rename_i ti hti
    split
    · rename_i hcond
      refine Yields.bind (blockTask_gives_up ti) ?_
      rintro new ⟨hid, hnew⟩
      exact Yields.pure ⟨hmem, hpass.block (hrest t List.mem_cons_self) hti hcond.1 hcond.2 hid hnew⟩
    · rename_i hcond
      refine Yields.pure ⟨hmem, hpass.skip ?_⟩
      intro hsched
      rw [states, hti, Option.map_some, Option.some.injEq] at hsched
      exact Bool.eq_false_iff.mpr (fun hblocked => hcond ⟨hsched, hblocked⟩)

/-- The loop is at its end when it returns: it is never cut short. -/
theorem propagate_propagates {tasks : List Task} (passes : Nat) {byTask : List TaskInstance}
    (hpasses : waiting tasks (states byTask) < passes) :
    Yields (fun after => Propagates tasks (states byTask) (states after)) (propagate blockTask tasks passes byTask) := by
  induction passes generalizing byTask with
  | zero => omega
  | succ passes ih =>
    refine Yields.bind (propagatePass_blocked tasks byTask) ?_
    rintro ⟨after, changed⟩ hpass
    cases changed with
    | true =>
      have hless := hpass.fewer rfl
      refine (ih (by dsimp only at hless ⊢; omega)).mono ?_
      intro final hfinal
      exact ⟨hpass.steps.trans hfinal.1, hfinal.2⟩
    | false =>
      refine Yields.pure ⟨hpass.steps, ?_⟩
      intro t ht
      exact (hpass.visited rfl t ht).resolve_left (by simp)

theorem waiting_le (tasks : List Task) (σ : States) : waiting tasks σ ≤ tasks.length := List.countP_le_length

end Cronova.Scheduler
