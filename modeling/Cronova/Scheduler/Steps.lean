import Cronova.Scheduler.Footprint

/-! The rule for the middle of a run's step: propagation, retries, sub-workflows
and gates. It says what they keep and return, given what their statements keep,
under any discipline. -/
namespace Cronova.Scheduler
open Cronova.Model Cronova.Store Cronova.Concurrency Cronova.Concurrency.Fallible Cronova.Text

/-- What a step makes of an instance it changes. -/
inductive Settles (ti : TaskInstance) : TaskInstance → Prop where
  | outcome {state : TaskState} {tryNumber : Nat} {startedAt finishedAt : Option Time} : state.isTerminal = true →
      Settles ti { ti with state := state, tryNumber := tryNumber, startedAt := startedAt, finishedAt := finishedAt }
  | retry {finishedAt : Option Time} : Settles ti { ti with state := .upForRetry, finishedAt := finishedAt }
  | clear : ti.state = .upForRetry → Settles ti (clearTask ti)
  | child {name : String} {tryNumber : Nat} {startedAt : Option Time} : ti.state = .scheduled →
      Settles ti { ti with state := .running, tryNumber := tryNumber, startedAt := startedAt,
                           executorRef := subdagRefPrefix ++ name }

namespace Settles
variable {ti new : TaskInstance}

theorem row (h : Settles ti new) : new.id = ti.id ∧ new.runID = ti.runID ∧ new.taskID = ti.taskID := by
  cases h <;> exact ⟨rfl, rfl, rfl⟩

theorem scheduled (h : Settles ti new) (hsched : new.state = .scheduled) : new.executorRef = "" := by
  cases h with
  | outcome hterminal =>
    cases hsched
    cases hterminal
  | retry => cases hsched
  | clear => rfl
  | child => cases hsched

theorem failedAttempt (ti : TaskInstance) (now : Time) : Settles ti (failedAttempt ti now) := by
  unfold Scheduler.failedAttempt
  split
  · exact .retry
  · exact .outcome rfl

end Settles

/-- The instance after its part of a step. -/
def Follows (ti new : TaskInstance) : Prop := new = ti ∨ Settles ti new

/-- What the statements of a step keep, where `I` is what is known of the
in-memory instances. -/
structure StepRules (cfg : Cfg) {S : Type} (R : Rules Cmd S) (A : S → Prop) (I : List TaskInstance → Prop) : Prop where
  read : ∀ {α : Type} (x : M α), readPrint.Bounds x → Keeps R A x
  found : ∀ id, Gives R A (fun run => run.runID = id) (query (fun db => db.getDagRun id))
  set : ∀ {byTask ti new}, I byTask → ti ∈ byTask → ti.state.isTerminal = false → Follows ti new → I (setTI byTask new)
  update : ∀ {byTask ti new}, I byTask → ti ∈ byTask → ti.state.isTerminal = false → Settles ti new →
    Keeps R A (statement (.updateTaskInstance new))
  guarded : ∀ {byTask ti new}, I byTask → ti ∈ byTask → ti.state = .running → Settles ti new →
    new.executorRef = ti.executorRef → new.state ≠ .scheduled →
    Keeps R A (statement (.updateTaskInstanceGuarded new ti.executorRef))
  retry : ∀ {byTask ti}, I byTask → ti ∈ byTask → ti.state = .scheduled → childOf ti.executorRef ≠ "" →
    Keeps R A (retryRunLocked cfg (childOf ti.executorRef))
  create : ∀ {child : DagRun}, child.state = .queued →
    Keeps R A (statement (.createDagRunBounded child cfg.maxQueuedRunsGlobal))

namespace StepRules
variable {cfg : Cfg} {S : Type} {R : Rules Cmd S} {A : S → Prop} {I : List TaskInstance → Prop}
  (h : StepRules cfg R A I)
include h

theorem propagatePass {tasks : List Task} {byTask : List TaskInstance} (hI : I byTask) :
    Gives R A (fun p => I p.1) (propagatePass blockTask tasks byTask) := by
  refine .foldlM (q := fun p : List TaskInstance × Bool => I p.1) tasks ?_ hI
  rintro task - ⟨byTask, changed⟩ hI
  dsimp only
  split
  · exact .pure hI
  · rename_i ti hti
    obtain ⟨hmem, -⟩ := findTI_spec hti
    refine .ite (fun hgate => ?_) (fun _ => .pure hI)
    have hopen : ti.state.isTerminal = false := by rw [hgate.1]; rfl
    refine .bind (m := Settles ti) ?_ (fun new hnew => .pure (h.set hI hmem hopen (.inr hnew)))
    refine .bind (h.read _ (.ask _)).gives (fun now _ => ?_)
    exact .bind (h.update hI hmem hopen (.outcome rfl)).gives (fun _ _ => .pure (.outcome rfl))

theorem propagate {tasks : List Task} (passes : Nat) {byTask : List TaskInstance} (hI : I byTask) :
    Gives R A I (propagate blockTask tasks passes byTask) := by
  induction passes generalizing byTask with
  | zero => exact .pure hI
  | succ passes ih =>
    refine .bind (h.propagatePass hI) ?_
    rintro ⟨byTask, changed⟩ hI
    exact .ite (fun _ => ih hI) (fun _ => .pure hI)

theorem requeue {now : Time} {tasks : List Task} {byTask : List TaskInstance} (hI : I byTask) :
    Gives R A I (requeue now tasks byTask) := by
  refine .foldlM tasks ?_ hI
  rintro task - byTask hI
  dsimp only
  split
  · exact .pure hI
  · rename_i ti hti
    obtain ⟨hmem, -⟩ := findTI_spec hti
    refine .ite (fun hgate => ?_) (fun _ => .pure hI)
    have hopen : ti.state.isTerminal = false := by rw [hgate.1]; rfl
    refine .bind (h.update hI hmem hopen (.clear hgate.1)).gives (fun _ _ => .pure ?_)
    exact h.set hI hmem hopen (.inr (.clear hgate.1))

theorem launchChild {run : DagRun} {t : Task} {now : Time} {byTask : List TaskInstance} {ti : TaskInstance}
    (hI : I byTask) (hmem : ti ∈ byTask) (hsched : ti.state = .scheduled) :
    Keeps R A (launchChild cfg run t ti now) := by
  have hnew : ∀ child : String, Keeps R A (createChild cfg run t now child) := by
    intro child
    refine .ite (.pure _) (.bind (.outcome (h.create rfl)) ?_)
    intro result
    split
    · exact .pure _
    · exact .pure _
    · exact .throw _
  unfold Scheduler.launchChild
  dsimp only
  split
  · exact .bind (.pure _) hnew
  · rename_i hne
    refine (h.found _).outcome.then_keeps ?_
    intro result hresult
    split
    · exact .bind (.pure _) hnew
    · rename_i child
      have hid := hresult child rfl
      split
      · rw [hid]
        refine .bind (.outcome (h.retry hI hmem hsched hne)) ?_
        intro result
        split <;> exact .bind (.pure _) hnew
      · exact .bind (.pure _) hnew

theorem startSubdag {run : DagRun} {t : Task} {now : Time} {byTask : List TaskInstance} {ti : TaskInstance}
    (hI : I byTask) (hmem : ti ∈ byTask) (hsched : ti.state = .scheduled) :
    Gives R A (Follows ti) (startSubdag cfg run t ti now) := by
  have hopen : ti.state.isTerminal = false := by rw [hsched]; rfl
  have hfail : Gives R A (Follows ti) (failSubdag ti now) :=
    .bind (h.update hI hmem hopen (.outcome rfl)).gives (fun _ _ => .pure (.inr (.outcome rfl)))
  refine .bind (h.read _ (subdagDepth_bounds _ _ _)).gives (fun depth _ => .ite (fun _ => hfail) (fun _ => ?_))
  refine .bind (h.read _ (.cachedDAG _)).gives (fun d _ => .ite (fun _ => hfail) (fun _ => ?_))
  refine .bind (h.launchChild hI hmem hsched).gives ?_
  intro child _
  split
  · exact .pure (.inl rfl)
  · exact .bind (h.update hI hmem hopen (.child hsched)).gives (fun _ _ => .pure (.inr (.child hsched)))

theorem mirrorChild {now : Time} {byTask : List TaskInstance} {ti : TaskInstance} (hI : I byTask) (hmem : ti ∈ byTask)
    (hrunning : ti.state = .running) : Gives R A (Follows ti) (mirrorChild ti now) := by
  have hwrite : ∀ {new : TaskInstance}, Settles ti new → new.executorRef = ti.executorRef → new.state ≠ .scheduled →
      Gives R A (Follows ti) (do finalizeWrite new; return new : M TaskInstance) := by
    intro new hnew href hstate
    have hguarded := h.guarded hI hmem hrunning hnew href hstate
    rw [← href] at hguarded
    exact .bind (Keeps.bind (.outcome hguarded) (fun _ => .pure _)).gives (fun _ _ => .pure (.inr hnew))
  have hrecord : Gives R A (Follows ti) (recordFailure ti) :=
    .bind (h.read _ (.ask _)).gives (fun now _ => hwrite (.failedAttempt ti now) rfl (failedAttempt_state ti now).1)
  refine .ite (fun _ => hrecord) (fun _ => .bind (h.read _ (.outcome (.query _))).gives ?_)
  intro result _
  split
  · exact hrecord
  · split
    · exact hwrite (.outcome rfl) rfl nofun
    · exact hrecord
    · exact hrecord
    · exact hrecord
    · exact .pure (.inl rfl)
    · exact .pure (.inl rfl)

/-- A task that may be dispatched is left as it was. -/
theorem passGates {run : DagRun} {loc : Zone} {t : Task} {byTask : List TaskInstance} {ti : TaskInstance}
    (hI : I byTask) (hmem : ti ∈ byTask) (hsched : ti.state = .scheduled) :
    Gives R A (fun p => Follows ti p.1 ∧ (p.2 = true → p.1 = ti)) (passGates run loc t ti) := by
  have hopen : ti.state.isTerminal = false := by rw [hsched]; rfl
  have hkeep : ∀ ready, Gives R A (fun p => Follows ti p.1 ∧ (p.2 = true → p.1 = ti))
      (pure (ti, ready) : M (TaskInstance × Bool)) := fun _ => .pure ⟨.inl rfl, fun _ => rfl⟩
  have hsettle : ∀ new : TaskInstance, Settles ti new →
      Gives R A (fun p => Follows ti p.1 ∧ (p.2 = true → p.1 = ti))
        (do return (← settleTask new, false) : M (TaskInstance × Bool)) := by
    intro new hnew
    refine .bind (m := fun row => row = new) ?_ ?_
    · exact .bind (h.update hI hmem hopen hnew).gives (fun _ _ => .pure rfl)
    · rintro _ rfl
      exact .pure ⟨.inr hnew, fun h => by cases h⟩
  have hgates : ∀ gate : Bool × Bool,
      Gives R A (fun p => Follows ti p.1 ∧ (p.2 = true → p.1 = ti)) (afterGate run t ti gate) := by
    rintro ⟨satisfied, timedOut⟩
    refine .ite (fun _ => .ite (fun _ => hkeep _) (fun _ => ?_)) (fun _ => .ite (fun _ => hkeep _) (fun _ => ?_))
    · refine .bind (h.read _ (.ask _)).gives (fun now _ => .ite (fun _ => ?_) (fun _ => ?_))
      · exact hsettle _ (.outcome rfl)
      · exact hsettle _ (.outcome rfl)
    · refine .bind (h.read _ (.bind (.ask _) (fun _ => .pure _))).gives (fun w _ => .ite (fun _ => hkeep _) (fun _ => ?_))
      exact .bind (h.read _ (.ask _)).gives (fun now _ => hsettle _ (.outcome rfl))
  unfold Scheduler.passGates
  dsimp only
  split
  · exact .bind (m := fun _ => True) (.pure trivial) (fun gate _ => hgates gate)
  · exact .bind (h.read _ (dependentReady_bounds _ _ _)).gives (fun gate _ => hgates gate)

/-- A listed task of the definition is ready only while it is scheduled. -/
theorem collectTask {d : DAG} {run : DagRun} {t : Task} {byTask : List TaskInstance} (hI : I byTask) {Q : ReadyTask → Prop}
    (hready : ∀ {byTask ti}, I byTask → ti ∈ byTask → ti.taskID = t.id → ti.state = .scheduled →
      Q ⟨run, t, ti, d.maxActiveTasks⟩) :
    Gives R A (fun p => I p.1 ∧ ∀ rt ∈ p.2, Q rt) (collectTask cfg d run byTask t) := by
  have hskip : Gives R A (fun p => I p.1 ∧ ∀ rt ∈ p.2, Q rt) (pure (byTask, []) : M (List TaskInstance × List ReadyTask)) :=
    .pure ⟨hI, fun _ h => by simp at h⟩
  unfold Scheduler.collectTask
  split
  · exact hskip
  · rename_i ti hti
    obtain ⟨hmem, hid⟩ := findTI_spec hti
    refine .ite (fun hsub => .ite (fun _ => hskip) (fun _ => ?_)) (fun _ => .ite (fun hgate => ?_) (fun _ => hskip))
    · have hopen : ti.state.isTerminal = false := by rcases hsub.2 with h | h <;> rw [h] <;> rfl
      refine .bind (m := Follows ti) ?_ ?_
      · refine .bind (h.read _ (.ask _)).gives (fun now _ => .ite (fun hsched => ?_) (fun hne => ?_))
        · exact h.startSubdag hI hmem hsched
        · exact h.mirrorChild hI hmem (hsub.2.resolve_left hne)
      · exact fun new hnew => .pure ⟨h.set hI hmem hopen hnew, fun _ h => by simp at h⟩
    · have hopen : ti.state.isTerminal = false := by rw [hgate.1]; rfl
      refine .bind (h.passGates hI hmem hgate.1) ?_
      rintro ⟨new, ready⟩ ⟨hnew, hsame⟩
      refine .pure ⟨h.set hI hmem hopen hnew, ?_⟩
      intro rt hrt
      dsimp only at hrt hsame
      split at hrt
      · rename_i hgo
        obtain rfl := List.mem_singleton.mp hrt
        rw [hsame hgo]
        exact hready hI hmem hid hgate.1
      · simp at hrt

theorem collect {Q : ReadyTask → Prop} (d : DAG) (run : DagRun) (tasks : List Task)
    (hready : ∀ t ∈ tasks, ∀ {byTask ti}, I byTask → ti ∈ byTask → ti.taskID = t.id → ti.state = .scheduled →
      Q ⟨run, t, ti, d.maxActiveTasks⟩)
    {byTask : List TaskInstance} (hI : I byTask) (ready : List ReadyTask) (hQ : ∀ rt ∈ ready, Q rt) :
    Gives R A (fun p => ∀ rt ∈ p.1, Q rt) (collect cfg d run tasks byTask ready) := by
  induction tasks generalizing byTask ready with
  | nil => exact .pure hQ
  | cons t tasks ih =>
    refine .bind (h.collectTask hI (hready t (by simp))).outcome ?_
    intro result hresult
    split
    · exact .pure hQ
    · rename_i byTask' new
      obtain ⟨hI', hnew⟩ := hresult _ rfl
      refine ih (fun t ht => hready t (by simp [ht])) hI' _ ?_
      intro rt hrt
      rcases List.mem_append.mp hrt with hold | hin
      · exact hQ rt hold
      · exact hnew rt hin

end StepRules
end Cronova.Scheduler
