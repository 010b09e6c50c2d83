import Mathlib.Data.List.Forall2

/-! Lifecycle states of runs and task instances, the legal run transitions and
the trigger rules that decide when a task may start. -/
namespace Cronova.Model

/-- Lifecycle state of a run. -/
inductive RunState where
  | queued | running | success | failed | cancelled | timedOut
  deriving DecidableEq, Repr

namespace RunState

def isTerminal : RunState → Bool
  | success | failed | cancelled | timedOut => true
  | queued | running => false

/-- Queued or running. -/
def isActive : RunState → Bool
  | queued | running => true
  | success | failed | cancelled | timedOut => false

@[simp] theorem isActive_eq_not_isTerminal (s : RunState) : s.isActive = !s.isTerminal := by
  cases s <;> rfl

end RunState

/-- The states from which a run may move to `target`. -/
def legalPriorRunStates : (target : RunState) → List RunState
  | .running => [.queued, .success, .failed, .cancelled, .timedOut]
  | .success | .failed => [.queued, .running, .success, .failed]
  | .cancelled => [.queued, .running]
  | .timedOut => [.running]
  | .queued => []

/-- Lifecycle state of a task instance. -/
inductive TaskState where
  | scheduled | queued | running | success | failed | upForRetry | upstreamFailed | skipped | cancelled | timedOut
  deriving DecidableEq, Repr

namespace TaskState

def isTerminal : TaskState → Bool
  | success | failed | upstreamFailed | skipped | cancelled | timedOut => true
  | scheduled | queued | running | upForRetry => false

/-- Terminal without success: what blocks an `all_success` downstream. -/
def isFailure : TaskState → Bool
  | failed | upstreamFailed | timedOut | cancelled => true
  | scheduled | queued | running | success | upForRetry | skipped => false

theorem isTerminal_of_isFailure {s : TaskState} (h : s.isFailure = true) : s.isTerminal = true := by
  cases s <;> first | rfl | cases h

end TaskState

/-- What caused a run to be created. -/
inductive TriggerType where
  | schedule | manual | dependency | event | subdag | backfill
  deriving DecidableEq, Repr

/-- When a task runs, given the states of its dependencies. -/
inductive TriggerRule where
  | allSuccess | allDone | oneSuccess | oneFailed | allFailed | noneFailed
  deriving DecidableEq, Repr

/-- Whether a task is ready, and whether its rule can no longer be satisfied.
`none` is a dependency that has no instance yet. -/
def evalTriggerRule (rule : TriggerRule) (deps : List (Option TaskState)) : Bool × Bool :=
  let n := deps.length
  if n = 0 then (true, false)
  else
    let succ := deps.countP (· = some .success)
    let fail := deps.countP (fun s => s.any TaskState.isFailure)
    let skip := deps.countP (· = some .skipped)
    let done := deps.countP (fun s => s.any TaskState.isTerminal)
    let allDone := decide (done = n)
    match rule with
    | .allDone => (allDone, false)
    | .oneSuccess => (decide (1 ≤ succ), allDone && decide (succ = 0))
    | .oneFailed => (decide (1 ≤ fail), allDone && decide (fail = 0))
    | .allFailed => (allDone && decide (fail = n), decide (0 < succ) || decide (0 < skip))
    | .noneFailed => (allDone && decide (fail = 0), decide (0 < fail))
    | .allSuccess => (decide (succ = n), decide (0 < fail) || decide (0 < skip))

/-- Every terminal state is a success, a failure or a skip, and only one of them. -/
theorem countP_terminal (deps : List (Option TaskState)) :
    deps.countP (fun s => s.any TaskState.isTerminal) =
      deps.countP (· = some .success) + deps.countP (fun s => s.any TaskState.isFailure) +
        deps.countP (· = some .skipped) := by
  induction deps with
  | nil => rfl
  | cons s deps ih =>
    simp only [List.countP_cons, ih]
    rcases s with _ | s
    · simp
    · cases s <;> simp [TaskState.isTerminal, TaskState.isFailure] <;> omega

/-- Once every dependency is terminal, each rule has decided. -/
theorem evalTriggerRule_decisive (rule : TriggerRule) (deps : List (Option TaskState))
    (h : ∀ s ∈ deps, s.any TaskState.isTerminal = true) :
    (evalTriggerRule rule deps).1 = true ∨ (evalTriggerRule rule deps).2 = true := by
  have hdone : deps.countP (fun s => s.any TaskState.isTerminal) = deps.length := List.countP_eq_length.mpr h
  have hsum := countP_terminal deps
  rw [hdone] at hsum
  unfold evalTriggerRule
  by_cases hn : deps.length = 0
  · exact .inl (by simp [hn])
  · simp only [hn, if_false, hdone]
    -- only the three counts and their sum matter from here on
    generalize deps.countP (· = some .success) = succ at hsum ⊢
    generalize deps.countP (fun s => s.any TaskState.isFailure) = fail at hsum ⊢
    generalize deps.countP (· = some .skipped) = skip at hsum ⊢
    cases rule <;> simp <;> omega

/-- A dependency moves on: what is terminal stays as it is. -/
def Advances (s s' : Option TaskState) : Prop := s.any TaskState.isTerminal = true → s' = s

theorem Advances.countP_le {p : Option TaskState → Bool} (hp : ∀ s, p s = true → s.any TaskState.isTerminal = true)
    {deps deps' : List (Option TaskState)} (h : List.Forall₂ Advances deps deps') : deps.countP p ≤ deps'.countP p := by
  induction h with
  | nil => exact Nat.le_refl 0
  | @cons s s' deps deps' hs _ ih =>
    rw [List.countP_cons, List.countP_cons]
    by_cases hps : p s = true
    · rw [hs (hp s hps)]
      omega
    · rw [if_neg hps]
      omega

theorem Advances.eq_of_terminal {deps deps' : List (Option TaskState)} (h : List.Forall₂ Advances deps deps')
    (hdone : deps.countP (fun s => s.any TaskState.isTerminal) = deps.length) : deps' = deps := by
  have hall := List.countP_eq_length.mp hdone
  clear hdone
  induction h with
  | nil => rfl
  | cons hs _ ih =>
    rw [hs (hall _ List.mem_cons_self), ih (fun s hs => hall s (List.mem_cons_of_mem _ hs))]

/-- No rule is both satisfied and unsatisfiable. -/
theorem evalTriggerRule_exclusive (rule : TriggerRule) (deps : List (Option TaskState))
    (hready : (evalTriggerRule rule deps).1 = true) : (evalTriggerRule rule deps).2 = false := by
  have hsum := countP_terminal deps
  have hle : deps.countP (fun s => s.any TaskState.isTerminal) ≤ deps.length := List.countP_le_length
  unfold evalTriggerRule at hready ⊢
  by_cases hn : deps.length = 0
  · simp [hn]
  · simp only [hn, if_false] at hready ⊢
    generalize deps.countP (· = some .success) = succ at *
    generalize deps.countP (fun s => s.any TaskState.isFailure) = fail at *
    generalize deps.countP (· = some .skipped) = skip at *
    generalize deps.countP (fun s => s.any TaskState.isTerminal) = done at *
    cases rule <;> simp at hready ⊢ <;> omega

section Verdict
variable {deps deps' : List (Option TaskState)} (h : List.Forall₂ Advances deps deps')
include h

private theorem verdict_counts :
    deps.countP (· = some .success) ≤ deps'.countP (· = some .success) ∧
      deps.countP (fun s => s.any TaskState.isFailure) ≤ deps'.countP (fun s => s.any TaskState.isFailure) ∧
      deps.countP (· = some .skipped) ≤ deps'.countP (· = some .skipped) := by
  refine ⟨Advances.countP_le ?_ h, Advances.countP_le ?_ h, Advances.countP_le ?_ h⟩
  · intro s hs
    rw [of_decide_eq_true hs]
    rfl
  · rintro (_ | s) hs
    · cases hs
    · exact TaskState.isTerminal_of_isFailure hs
  · intro s hs
    rw [of_decide_eq_true hs]
    rfl

/-- A rule that can no longer be satisfied stays so, whatever becomes of the
dependencies that are still open. -/
theorem evalTriggerRule_blocked (rule : TriggerRule) (hblocked : (evalTriggerRule rule deps).2 = true) :
    (evalTriggerRule rule deps').2 = true := by
  by_cases hdone : deps.countP (fun s => s.any TaskState.isTerminal) = deps.length
  · rw [Advances.eq_of_terminal h hdone]
    exact hblocked
  · obtain ⟨hsucc, hfail, hskip⟩ := verdict_counts h
    have hlen := h.length_eq
    unfold evalTriggerRule at hblocked ⊢
    by_cases hn : deps.length = 0
    · simp [hn] at hblocked
    · rw [← hlen]
      simp only [hn, if_false, hdone] at hblocked ⊢
      generalize deps.countP (· = some .success) = succ at *
      generalize deps.countP (fun s => s.any TaskState.isFailure) = fail at *
      generalize deps.countP (· = some .skipped) = skip at *
      generalize deps'.countP (· = some .success) = succ' at *
      generalize deps'.countP (fun s => s.any TaskState.isFailure) = fail' at *
      generalize deps'.countP (· = some .skipped) = skip' at *
      cases rule <;> simp at hblocked ⊢ <;> omega

/-- A rule that is satisfied stays so. -/
theorem evalTriggerRule_ready (rule : TriggerRule) (hready : (evalTriggerRule rule deps).1 = true) :
    (evalTriggerRule rule deps').1 = true := by
  by_cases hdone : deps.countP (fun s => s.any TaskState.isTerminal) = deps.length
  · rw [Advances.eq_of_terminal h hdone]
    exact hready
  · obtain ⟨hsucc, hfail, -⟩ := verdict_counts h
    have hsum := countP_terminal deps
    have hle : deps.countP (fun s => s.any TaskState.isTerminal) ≤ deps.length := List.countP_le_length
    have hlen := h.length_eq
    unfold evalTriggerRule at hready ⊢
    by_cases hn : deps.length = 0
    · simp [← hlen, hn]
    · rw [← hlen]
      simp only [hn, if_false, hdone] at hready ⊢
      generalize deps.countP (· = some .success) = succ at *
      generalize deps.countP (fun s => s.any TaskState.isFailure) = fail at *
      generalize deps.countP (fun s => s.any TaskState.isTerminal) = done at *
      generalize deps'.countP (· = some .success) = succ' at *
      generalize deps'.countP (fun s => s.any TaskState.isFailure) = fail' at *
      cases rule <;> simp at hready ⊢ <;> omega

end Verdict

/-- Why a rule can no longer be satisfied. -/
def Doomed : TriggerRule → List (Option TaskState) → Prop
  | .allDone, _ => False
  | .oneSuccess, deps => (∀ s ∈ deps, s.any TaskState.isTerminal = true) ∧ ∀ s ∈ deps, s ≠ some .success
  | .oneFailed, deps => (∀ s ∈ deps, s.any TaskState.isTerminal = true) ∧ ∀ s ∈ deps, s.any TaskState.isFailure = false
  | .allFailed, deps => some .success ∈ deps ∨ some .skipped ∈ deps
  | .noneFailed, deps => ∃ s ∈ deps, s.any TaskState.isFailure = true
  | .allSuccess, deps => (∃ s ∈ deps, s.any TaskState.isFailure = true) ∨ some .skipped ∈ deps

theorem evalTriggerRule_blocked_iff (rule : TriggerRule) (deps : List (Option TaskState)) :
    (evalTriggerRule rule deps).2 = true ↔ deps ≠ [] ∧ Doomed rule deps := by
  have hmem : ∀ s : TaskState, 0 < deps.countP (· = some s) ↔ some s ∈ deps := by
    intro s
    simp [List.countP_pos_iff]
  unfold evalTriggerRule
  by_cases hn : deps.length = 0
  · simp [List.length_eq_zero_iff.mp hn]
  · have hne : deps ≠ [] := fun h => hn (List.length_eq_zero_iff.mpr h)
    simp only [hn, if_false, ne_eq, hne, not_false_eq_true, true_and]
    cases rule with
    | allDone => simp [Doomed]
    | oneSuccess => simp [Doomed, List.countP_eq_length, List.countP_eq_zero]
    | oneFailed => simp [Doomed, List.countP_eq_length, List.countP_eq_zero]
    | allFailed => simp only [Doomed, Bool.or_eq_true, decide_eq_true_eq, hmem]
    | noneFailed => simp only [Doomed, decide_eq_true_eq, List.countP_pos_iff]
    | allSuccess => simp only [Doomed, Bool.or_eq_true, decide_eq_true_eq, List.countP_pos_iff, hmem]

end Cronova.Model
