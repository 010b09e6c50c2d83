import Cronova.Parser.Parse

/-! What the checks of the parser leave: an accepted definition names its tasks
apart, depends on its own tasks only, and has an order in which every task comes
after the tasks it depends on. -/
namespace Cronova.Parser
open Cronova.Model Cronova.Text

/-- A task list the scheduler can walk along its dependencies. -/
structure Acyclic (tasks : List Task) : Prop where
  nodup : (tasks.map (·.id)).Nodup
  known : ∀ t ∈ tasks, ∀ dep ∈ t.deps, dep ∈ tasks.map (·.id)
  ordered : ∃ order, Graph.Ordered (depsOf tasks) order ∧ tasks.map (·.id) ⊆ order

private theorem bind_ok {ε α β : Type} {x : Except ε α} {f : α → Except ε β} {b : β}
    (h : (x >>= f) = .ok b) : ∃ a, x = .ok a ∧ f a = .ok b := by
  cases x with
  | error e => cases h
  | ok a => exact ⟨a, rfl, h⟩

private theorem require_ok {c : Bool} {message : String} {u : Unit} (h : require c message = .ok u) : c = true := by
  unfold require at h
  split at h
  · assumption
  · cases h

theorem foldlM_inv {ε α β : Type} {f : β → α → Except ε β} {I : β → Prop}
    (hf : ∀ b a b', I b → f b a = .ok b' → I b') :
    ∀ (l : List α) (b b' : β), I b → l.foldlM f b = .ok b' → I b' := by
  intro l
  induction l with
  | nil =>
    intro b b' hb h
    cases h
    exact hb
  | cons a l ih =>
    intro b b' hb h
    rw [List.foldlM_cons] at h
    obtain ⟨mid, hmid, hrest⟩ := bind_ok h
    exact ih mid b' (hf b a mid hb hmid) hrest

/-- An accepted task keeps its id, and the id is new. -/
theorem parseTask_id {env : Env} {y : DagYAML} {seen : List String} {n : Nat} {t : TaskYAML} {task : Task}
    (h : parseTask env y seen n t = .ok task) : task.id = t.id ∧ t.id ∉ seen := by
  unfold parseTask at h
  obtain ⟨_, -, h⟩ := bind_ok h
  obtain ⟨_, -, h⟩ := bind_ok h
  obtain ⟨_, hseen, h⟩ := bind_ok h
  have hnew : t.id ∉ seen := by simpa using require_ok hseen
  obtain ⟨type, -, h⟩ := bind_ok h
  obtain ⟨_, -, h⟩ := bind_ok h
  obtain ⟨_, -, h⟩ := bind_ok h
  obtain ⟨_, -, h⟩ := bind_ok h
  obtain ⟨_, -, h⟩ := bind_ok h
  obtain ⟨_, -, h⟩ := bind_ok h
  obtain ⟨_, -, h⟩ := bind_ok h
  obtain ⟨_, -, h⟩ := bind_ok h
  split at h
  · cases h
  · obtain ⟨_, -, h⟩ := bind_ok h
    obtain ⟨_, -, h⟩ := bind_ok h
    split at h
    · cases h
    · obtain ⟨_, -, h⟩ := bind_ok h
      obtain ⟨_, -, h⟩ := bind_ok h
      obtain ⟨_, -, h⟩ := bind_ok h
      obtain ⟨_, -, h⟩ := bind_ok h
      obtain ⟨_, -, h⟩ := bind_ok h
      obtain ⟨_, -, h⟩ := bind_ok h
      cases h
      exact ⟨rfl, hnew⟩

theorem parseTasks_nodup {env : Env} {y : DagYAML} {entries : List TaskYAML} {tasks : List Task}
    (h : parseTasks env y entries = .ok tasks) : (tasks.map (·.id)).Nodup := by
  refine foldlM_inv (I := fun tasks : List Task => (tasks.map (·.id)).Nodup) ?_ entries [] tasks (by simp) h
  intro tasks t tasks' hnd hstep
  obtain ⟨task, htask, hret⟩ := bind_ok hstep
  cases hret
  obtain ⟨hid, hnew⟩ := parseTask_id htask
  rw [List.map_append, List.nodup_append]
  refine ⟨hnd, by simp, ?_⟩
  intro a ha b hb
  simp only [List.map_cons, List.map_nil, List.mem_singleton] at hb
  subst hb
  rintro rfl
  exact hnew (hid ▸ ha)

private theorem checkDep_foldlM {y : DagYAML} {ids : List String} {t : Task} :
    ∀ (deps seen seen' : List String), deps.foldlM (checkDep y ids t) seen = .ok seen' → ∀ dep ∈ deps, dep ∈ ids := by
  intro deps
  induction deps with
  | nil =>
    intro _ _ _ dep hdep
    cases hdep
  | cons dep deps ih =>
    intro seen seen' h
    rw [List.foldlM_cons] at h
    obtain ⟨mid, hmid, hrest⟩ := bind_ok h
    unfold checkDep at hmid
    obtain ⟨_, -, hmid⟩ := bind_ok hmid
    obtain ⟨_, hknown, -⟩ := bind_ok hmid
    rw [List.forall_mem_cons]
    exact ⟨by simpa using require_ok hknown, ih mid seen' hrest⟩

private theorem forM_ok {ε α : Type} {f : α → Except ε Unit} :
    ∀ (l : List α), l.forM f = .ok () → ∀ a ∈ l, f a = .ok () := by
  intro l
  induction l with
  | nil =>
    intro _ a ha
    cases ha
  | cons a l ih =>
    intro h
    obtain ⟨_, ha, hl⟩ := bind_ok (f := fun _ => l.forM f) h
    rw [List.forall_mem_cons]
    exact ⟨ha, ih hl⟩

theorem checkDeps_known {y : DagYAML} {tasks : List Task} (h : checkDeps y tasks = .ok ()) :
    ∀ t ∈ tasks, ∀ dep ∈ t.deps, dep ∈ tasks.map (·.id) := by
  intro t ht
  have hloop := forM_ok tasks h t ht
  obtain ⟨seen, hseen, -⟩ := bind_ok hloop
  exact checkDep_foldlM t.deps [] seen hseen

theorem detectCycle_ordered {y : DagYAML} {tasks : List Task} (h : detectCycle y tasks = .ok ()) :
    ∃ order, Graph.Ordered (depsOf tasks) order ∧ tasks.map (·.id) ⊆ order := by
  unfold detectCycle at h
  split at h
  · rename_i order horder
    exact ⟨order, Graph.detect_ordered horder⟩
  · cases h
  · cases h

/-- The checks that an accepted document has passed, as far as they say something
about the definition. -/
structure Checked (env : Env) (y : DagYAML) (d : DAG) : Prop where
  header : ∃ loc, parseHeader env y = .ok loc
  tasks : ∃ entries, parseTasks env y entries = .ok d.tasks
  deps : checkDeps y d.tasks = .ok ()
  cycle : detectCycle y d.tasks = .ok ()
  maxActiveRuns : d.maxActiveRuns = if y.maxActiveRuns = 0 then 1 else y.maxActiveRuns

theorem validate_checked {env : Env} {raw : String} {y : DagYAML} {d : DAG} (h : validate env raw y = .ok d) :
    ∃ y', Checked env y' d := by
  unfold validate at h
  obtain ⟨loc, hheader, h⟩ := bind_ok h
  obtain ⟨policy, -, h⟩ := bind_ok h
  obtain ⟨startDate, -, h⟩ := bind_ok h
  obtain ⟨_, -, h⟩ := bind_ok h
  obtain ⟨triggerAfter, -, h⟩ := bind_ok h
  obtain ⟨_, -, h⟩ := bind_ok h
  obtain ⟨triggerOnEvent, -, h⟩ := bind_ok h
  obtain ⟨notify, -, h⟩ := bind_ok h
  obtain ⟨entries, -, h⟩ := bind_ok h
  obtain ⟨tasks, htasks, h⟩ := bind_ok h
  obtain ⟨_, hdeps, h⟩ := bind_ok h
  obtain ⟨_, hcycle, h⟩ := bind_ok h
  cases h
  exact ⟨_, ⟨loc, hheader⟩, ⟨entries, htasks⟩, hdeps, hcycle, rfl⟩

theorem parse_checked {env : Env} {raw : String} {d : DAG} (h : parse env raw = .ok d) : ∃ y, Checked env y d := by
  unfold parse at h
  obtain ⟨_, -, h⟩ := bind_ok h
  obtain ⟨_, -, h⟩ := bind_ok h
  obtain ⟨⟨y, trailing⟩, -, h⟩ := bind_ok h
  dsimp only at h
  split at h
  · cases h
  · cases h
  · exact validate_checked h

/-- A definition carries its text, and is not paused. -/
theorem parse_source {env : Env} {raw : String} {d : DAG} (h : parse env raw = .ok d) :
    d.definitionYAML = raw ∧ d.paused = false := by
  have hvalidate : ∀ y, validate env raw y = .ok d → d.definitionYAML = raw ∧ d.paused = false := by
    intro y h
    unfold validate at h
    obtain ⟨loc, -, h⟩ := bind_ok h
    obtain ⟨policy, -, h⟩ := bind_ok h
    obtain ⟨startDate, -, h⟩ := bind_ok h
    obtain ⟨_, -, h⟩ := bind_ok h
    obtain ⟨triggerAfter, -, h⟩ := bind_ok h
    obtain ⟨_, -, h⟩ := bind_ok h
    obtain ⟨triggerOnEvent, -, h⟩ := bind_ok h
    obtain ⟨notify, -, h⟩ := bind_ok h
    obtain ⟨entries, -, h⟩ := bind_ok h
    obtain ⟨tasks, -, h⟩ := bind_ok h
    obtain ⟨_, -, h⟩ := bind_ok h
    obtain ⟨_, -, h⟩ := bind_ok h
    cases h
    exact ⟨rfl, rfl⟩
  unfold parse at h
  obtain ⟨_, -, h⟩ := bind_ok h
  obtain ⟨_, -, h⟩ := bind_ok h
  obtain ⟨⟨y, trailing⟩, -, h⟩ := bind_ok h
  dsimp only at h
  split at h
  · cases h
  · cases h
  · exact hvalidate y h

/-- Every accepted definition is acyclic. -/
theorem parse_acyclic {env : Env} {raw : String} {d : DAG} (h : parse env raw = .ok d) : Acyclic d.tasks := by
  obtain ⟨y, hy⟩ := parse_checked h
  obtain ⟨entries, htasks⟩ := hy.tasks
  exact ⟨parseTasks_nodup htasks, checkDeps_known hy.deps, detectCycle_ordered hy.cycle⟩

/-- Every accepted definition lets at least one run be active. -/
theorem parse_maxActiveRuns {env : Env} {raw : String} {d : DAG} (h : parse env raw = .ok d) : 0 < d.maxActiveRuns := by
  obtain ⟨y, hy⟩ := parse_checked h
  obtain ⟨loc, hheader⟩ := hy.header
  unfold parseHeader at hheader
  obtain ⟨_, -, hheader⟩ := bind_ok hheader
  obtain ⟨_, -, hheader⟩ := bind_ok hheader
  obtain ⟨_, -, hheader⟩ := bind_ok hheader
  have hbound : 0 ≤ y.maxActiveRuns := by
    by_contra hneg
    have hrefused : ∀ message, require (decide (0 ≤ y.maxActiveRuns) && decide (y.maxActiveRuns ≤ maxActiveRunsLimit))
        message = .error message := by
      intro message
      simp [require, hneg]
    -- whichever way the zone and the schedule are read, the limit is checked afterwards
    simp only [hrefused] at hheader
    revert hheader
    repeat' split
    all_goals
      intro hheader
      obtain ⟨_, -, hheader⟩ := bind_ok hheader
      revert hheader
      nofun
  rw [hy.maxActiveRuns]
  split
  · decide
  · omega

/-- The task of an id, and its dependencies. -/
theorem depsOf_eq {tasks : List Task} {id : String} (h : id ∈ tasks.map (·.id)) :
    ∃ t ∈ tasks, t.id = id ∧ depsOf tasks id = t.deps := by
  obtain ⟨t, ht, rfl⟩ := List.mem_map.mp h
  have hsome : (tasks.find? (fun u => decide (u.id = t.id))).isSome := by
    rw [List.find?_isSome]
    exact ⟨t, ht, by simp⟩
  obtain ⟨u, hu⟩ := Option.isSome_iff_exists.mp hsome
  refine ⟨u, List.mem_of_find?_eq_some hu, by simpa using List.find?_some hu, ?_⟩
  simp only [depsOf, hu, Option.map_some, Option.getD_some]

end Cronova.Parser
