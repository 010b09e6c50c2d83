import Cronova.Parser.Canonical

/-! What the scheduler may take for granted about a definition: its tasks have
different ids, depend on each other only, and there is no cycle among them. The
cycle check is exact. -/
namespace Cronova.Properties.Executable
open Cronova.Model Cronova.Parser

/-- Task `a` names task `b` as a dependency. -/
def DependsOn (tasks : List Task) (a b : String) : Prop := ∃ t ∈ tasks, t.id = a ∧ b ∈ t.deps

/-- A task list that can be run along its dependencies. -/
structure Runnable (tasks : List Task) : Prop where
  ids : (tasks.map (·.id)).Nodup
  valid : ∀ t ∈ tasks, t.id ≠ "" ∧ validID t.id = true
  deps : ∀ t ∈ tasks, t.deps.Nodup ∧ ∀ dep ∈ t.deps, ∃ u ∈ tasks, u.id = dep ∧ u ≠ t
  acyclic : ∀ id, ¬ Relation.TransGen (DependsOn tasks) id id

theorem depsOf_self {tasks : List Task} (hids : (tasks.map (·.id)).Nodup) {t : Task} (ht : t ∈ tasks) :
    depsOf tasks t.id = t.deps := by
  obtain ⟨u, hu, hid, hdeps⟩ := depsOf_eq (List.mem_map_of_mem (f := (·.id)) ht)
  have hsame : u = t := List.inj_on_of_nodup_map hids hu ht hid
  rw [hdeps, hsame]

theorem depsOf_unknown {tasks : List Task} {id : String} (hid : id ∉ tasks.map (·.id)) : depsOf tasks id = [] := by
  have hnone : tasks.find? (fun t => decide (t.id = id)) = none := by
    rw [List.find?_eq_none]
    intro t ht heq
    exact hid (List.mem_map.mpr ⟨t, ht, of_decide_eq_true heq⟩)
  rw [depsOf, hnone]
  rfl

/-- The search walks along the dependencies. -/
theorem edge_iff {tasks : List Task} (hids : (tasks.map (·.id)).Nodup) {a b : String} :
    Graph.Edge (depsOf tasks) a b ↔ DependsOn tasks a b := by
  constructor
  · intro hedge
    by_cases ha : a ∈ tasks.map (·.id)
    · obtain ⟨t, ht, rfl⟩ := List.mem_map.mp ha
      rw [Graph.Edge, depsOf_self hids ht] at hedge
      exact ⟨t, ht, rfl, hedge⟩
    · rw [Graph.Edge, depsOf_unknown ha] at hedge
      cases hedge
  · rintro ⟨t, ht, rfl, hb⟩
    rw [Graph.Edge, depsOf_self hids ht]
    exact hb

theorem depsOf_subset {tasks : List Task} (hids : (tasks.map (·.id)).Nodup)
    (hknown : ∀ t ∈ tasks, ∀ dep ∈ t.deps, dep ∈ tasks.map (·.id)) :
    ∀ id ∈ tasks.map (·.id), depsOf tasks id ⊆ tasks.map (·.id) := by
  intro id hid
  obtain ⟨t, ht, rfl⟩ := List.mem_map.mp hid
  rw [depsOf_self hids ht]
  exact hknown t ht

theorem detectCycle_ok {y : DagYAML} {tasks : List Task} :
    detectCycle y tasks = .ok () ↔ ∃ order, Graph.detect (depsOf tasks) (tasks.map (·.id)) = .ok order := by
  unfold detectCycle
  cases Graph.detect (depsOf tasks) (tasks.map (·.id)) with
  | ok order => exact ⟨fun _ => ⟨order, rfl⟩, fun _ => rfl⟩
  | error stop => cases stop <;> exact ⟨nofun, nofun⟩

/-- The cycle check answers, and accepts exactly the task lists without a cycle. -/
theorem detectCycle_exact (y : DagYAML) {tasks : List Task} (hids : (tasks.map (·.id)).Nodup)
    (hknown : ∀ t ∈ tasks, ∀ dep ∈ t.deps, dep ∈ tasks.map (·.id)) :
    Graph.detect (depsOf tasks) (tasks.map (·.id)) ≠ .error .outOfFuel ∧
      (detectCycle y tasks = .ok () ↔ ∀ id, ¬ Relation.TransGen (DependsOn tasks) id id) := by
  have hclosed := depsOf_subset hids hknown
  have hedges : Graph.Edge (depsOf tasks) = DependsOn tasks := by
    funext a b
    exact propext (edge_iff hids)
  refine ⟨Graph.detect_ne_outOfFuel hclosed, ?_⟩
  rw [detectCycle_ok, Graph.detect_iff hclosed, hedges]
  constructor
  · intro h id hcycle
    -- a node on a cycle has a dependency, so it is a task
    obtain ⟨b, ⟨t, ht, rfl, -⟩, -⟩ := Relation.TransGen.head'_iff.mp hcycle
    exact h t.id (List.mem_map_of_mem ht) hcycle
  · intro h id _
    exact h id

theorem parse_runnable {env : Env} {raw : String} {d : DAG} (h : parse env raw = .ok d) : Runnable d.tasks := by
  obtain ⟨-, -, y, -, hy⟩ := parse_iff.mp h
  obtain ⟨entries, -, htasks⟩ := hy.tasks
  have hids := parseTasks_nodup htasks
  have hdeps := checkDeps_iff.mp hy.deps
  have hknown : ∀ t ∈ d.tasks, ∀ dep ∈ t.deps, dep ∈ d.tasks.map (·.id) := fun t ht dep hdep => ((hdeps t ht).2 dep hdep).1
  constructor
  · exact hids
  · intro t ht
    obtain ⟨entry, -, seen, n, haccepted⟩ := parseTasks_task htasks ht
    rw [show t.id = entry.id from congrArg Task.id haccepted.result]
    exact ⟨haccepted.id.1, haccepted.id.2.1⟩
  · intro t ht
    refine ⟨(hdeps t ht).1, ?_⟩
    intro dep hdep
    obtain ⟨hmem, hother⟩ := (hdeps t ht).2 dep hdep
    obtain ⟨u, hu, rfl⟩ := List.mem_map.mp hmem
    exact ⟨u, hu, rfl, fun hsame => hother (congrArg Task.id hsame)⟩
  · exact ((detectCycle_exact y.trimmed hids hknown).2).mp hy.cycle

/-- Every accepted definition can be run along its dependencies, and the cycle check
terminates with the right answer on every list of tasks with different ids whose
dependencies exist. -/
theorem definitions_executable :
    (∀ (env : Env) (raw : String) (d : DAG), parse env raw = .ok d → Runnable d.tasks) ∧
    ∀ (y : DagYAML) (tasks : List Task), (tasks.map (·.id)).Nodup →
      (∀ t ∈ tasks, ∀ dep ∈ t.deps, dep ∈ tasks.map (·.id)) →
      Graph.detect (depsOf tasks) (tasks.map (·.id)) ≠ .error .outOfFuel ∧
        (detectCycle y tasks = .ok () ↔ ∀ id, ¬ Relation.TransGen (DependsOn tasks) id id) :=
  ⟨fun _ _ _ h => parse_runnable h, fun y _ hids hknown => detectCycle_exact y hids hknown⟩

def diamondYAML : String :=
  "dag_id: diamond\ntasks:\n- {id: a, command: x}\n- {id: b, command: x, deps: [a]}\n" ++
    "- {id: c, command: x, deps: [a]}\n- {id: d, command: x, deps: [b, c]}\n"

def diamondDocument : DagYAML :=
  { dagID := "diamond"
    tasks := [{ id := "a", command := "x" }, { id := "b", command := "x", deps := ["a"] },
      { id := "c", command := "x", deps := ["a"] }, { id := "d", command := "x", deps := ["b", "c"] }] }

def diamond : DAG :=
  { dagID := "diamond", definitionYAML := diamondYAML
    tasks := [{ id := "a", command := "x" }, { id := "b", command := "x", deps := ["a"] },
      { id := "c", command := "x", deps := ["a"] }, { id := "d", command := "x", deps := ["b", "c"] }] }

def ring : List Task := [{ id := "a", deps := ["c"] }, { id := "b", deps := ["a"] }, { id := "c", deps := ["b"] }]

/-- Two tasks may share a dependency; three tasks in a ring are refused. -/
theorem definitions_executable_diamond :
    Runnable diamond.tasks ∧ (detectCycle {} diamond.tasks = .ok () ∧ ∀ id, ¬ Relation.TransGen (DependsOn diamond.tasks) id id) ∧
      ¬ ∀ id, ¬ Relation.TransGen (DependsOn ring) id id := by
  obtain ⟨haccepted, hcheck⟩ := definitions_executable
  have hdiamond := haccepted (.ofDocuments [(diamondYAML, diamondDocument)]) diamondYAML diamond (by decide +kernel)
  have hexact := (hcheck {} diamond.tasks (by decide) (by decide)).2
  have hring := (hcheck {} ring (by decide) (by decide)).2
  refine ⟨hdiamond, ⟨hexact.mpr hdiamond.acyclic, hdiamond.acyclic⟩, ?_⟩
  intro hacyclic
  have hrefused : detectCycle {} ring ≠ .ok () := by decide +kernel
  exact hrefused (hring.mpr hacyclic)

end Cronova.Properties.Executable
