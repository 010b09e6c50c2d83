import Cronova.Scheduler.Blocking

/-! Block propagation gives one result: the order in which the tasks are listed
does not matter, and no verdict is given too early. -/
namespace Cronova.Properties.Confluence
open Cronova.Model Cronova.Store Cronova.Concurrency Cronova.Concurrency.Fallible Cronova.Scheduler Relation

/-- A block that stands is one its dependencies account for. -/
def Justified (tasks : List Task) (σ : States) (id : String) : Prop := ∃ t ∈ tasks, t.id = id ∧ (gate t σ).2 = true

/-- A step takes no justification away, and has one for the task it blocks. -/
theorem blocks_justified {tasks : List Task} {σ σ' : States} {id : String} (h : Blocks tasks σ σ')
    (hid : Justified tasks σ id ∨ σ' id ≠ σ id) : Justified tasks σ' id := by
  obtain ⟨t, ht, hsched, hblocked, rfl⟩ := h
  have hlater : ∀ u : Task, (gate u σ).2 = true → (gate u (Function.update σ t.id (some .upstreamFailed))).2 = true :=
    fun u hu => evalTriggerRule_blocked (advances_update hsched u.deps) _ hu
  rcases hid with ⟨u, hu, huid, hublocked⟩ | hchanged
  · exact ⟨u, hu, huid, hlater u hublocked⟩
  · by_cases hsame : id = t.id
    · exact ⟨t, ht, hsame.symm, hlater t hblocked⟩
    · exact absurd (Function.update_of_ne hsame _ σ) hchanged

theorem run_justified {tasks : List Task} {σ σ' : States} {id : String} (h : ReflTransGen (Blocks tasks) σ σ')
    (hid : Justified tasks σ id ∨ σ' id ≠ σ id) : Justified tasks σ' id := by
  induction h with
  | refl => exact hid.resolve_right (fun hne => hne rfl)
  | @tail mid last _ hstep ih =>
    by_cases hlast : last id = mid id
    · rw [hlast] at hid
      exact blocks_justified hstep (.inl (ih hid))
    · exact blocks_justified hstep (.inr hlast)

/-- The loop ends in states that depend on the instances alone, where nothing is
left to block and every block it set is accounted for. Verdicts are final. -/
theorem propagate_confluent (tasks : List Task) (byTask : List TaskInstance) :
    (∃ final : States,
      (∀ order : List Task, order.Perm tasks → ∀ passes, tasks.length < passes →
        Yields (fun after => states after = final) (propagate blockTask order passes byTask)) ∧
      Quiet tasks final ∧
      (∀ id, final id ≠ states byTask id → final id = some .upstreamFailed ∧ Justified tasks final id)) ∧
    (∀ (rule : TriggerRule) (deps deps' : List (Option TaskState)), List.Forall₂ Advances deps deps' →
      ((evalTriggerRule rule deps).2 = true →
        (evalTriggerRule rule deps').2 = true ∧ (evalTriggerRule rule deps').1 = false) ∧
      ((evalTriggerRule rule deps).1 = true → (evalTriggerRule rule deps').1 = true)) := by
  constructor
  · obtain ⟨final, hfinal⟩ := propagates_exists tasks (states byTask)
    refine ⟨final, ?_, hfinal.2, ?_⟩
    · intro order hperm passes hpasses
      have henough : waiting order (states byTask) < passes := by
        have hle := waiting_le order (states byTask)
        have hlen := hperm.length_eq
        omega
      refine (propagate_propagates passes henough).mono ?_
      intro after hafter
      exact (hafter.perm hperm).unique hfinal
    · intro id hne
      refine ⟨?_, run_justified hfinal.1 (.inr hne)⟩
      have hruns : ∀ σ', ReflTransGen (Blocks tasks) (states byTask) σ' →
          σ' id = states byTask id ∨ σ' id = some .upstreamFailed := by
        intro σ' hrun
        induction hrun with
        | refl => exact .inl rfl
        | tail _ hstep ih =>
          obtain ⟨t, -, -, -, rfl⟩ := hstep
          by_cases hid : id = t.id
          · rw [hid, Function.update_self]
            exact .inr rfl
          · rw [Function.update_of_ne hid]
            exact ih
      exact (hruns final hfinal.1).resolve_left hne
  · intro rule deps deps' hadvances
    constructor
    · intro hblocked
      have hlater := evalTriggerRule_blocked hadvances rule hblocked
      refine ⟨hlater, ?_⟩
      by_contra hready
      rw [evalTriggerRule_exclusive rule deps' (by simpa using hready)] at hlater
      cases hlater
    · exact evalTriggerRule_ready hadvances rule

/-- Two tasks that wait for each other, one of them also for a task that failed. -/
def ring : List Task := [{ id := "a", deps := ["b"] }, { id := "b", deps := ["a", "c"] }, { id := "c" }]

def ringRows : List TaskInstance :=
  [{ runID := "r", taskID := "a", state := .scheduled }, { runID := "r", taskID := "b", state := .scheduled },
   { runID := "r", taskID := "c", state := .failed }]

theorem propagate_confluent_ring :
    ∃ final : States, Yields (fun after => states after = final) (propagate blockTask ring.reverse 4 ringRows) ∧
      (evalTriggerRule .allFailed [some .success, none]).2 = true ∧
      (evalTriggerRule .allFailed [some .success, some .failed]).2 = true := by
  obtain ⟨⟨final, hloop, -⟩, hverdicts⟩ := propagate_confluent ring ringRows
  refine ⟨final, hloop ring.reverse (List.reverse_perm ring) 4 (by decide), by decide, ?_⟩
  have hadvances : List.Forall₂ Advances [some .success, none] [some .success, some .failed] :=
    .cons (fun _ => rfl) (.cons (fun h => nomatch h) .nil)
  exact ((hverdicts .allFailed _ _ hadvances).1 (by decide)).1

end Cronova.Properties.Confluence
