import Cronova.Concurrency.Triples
import Cronova.Scheduler.Tick
import Cronova.Store.Rows

/-! Which commands each program can issue, whatever the replies are. A footprint
names the statements, the operation marks and the goroutines; the mutex is never
part of one, so a bounded program runs entirely inside or entirely outside it. -/
namespace Cronova.Scheduler
open Cronova.Model Cronova.Store Cronova.Concurrency Cronova.Concurrency.Fallible Cronova.Text

structure Footprint where
  writes : {β : Type} → Write β → Prop
  marks : Op → Prop := fun _ => False
  jobs : Job → Prop := fun _ => False
  /-- The program may stop at the bound of its loops. -/
  halts : Prop := True

namespace Footprint

/-- The commands of a footprint. -/
def allows (F : Footprint) : {β : Type} → Cmd β → Prop
  | _, .write s => F.writes s
  | _, .enter op | _, .leave op _ => F.marks op
  | _, .go job => F.jobs job
  | _, .lock | _, .unlock | _, .recovered => False
  | _, .halt => F.halts
  | _, .read _ | _, .registry _ | _, .bootTime | _, .uniqueRunTime | _, .ask _ => True

/-- The program stays within the footprint. -/
def Bounds (F : Footprint) {α : Type} (x : M α) : Prop := Uses F.allows x

/-- Every command of the smaller footprint is one of the larger. -/
structure Le (F G : Footprint) : Prop where
  writes : ∀ {β : Type} (s : Write β), F.writes s → G.writes s
  marks : ∀ op, F.marks op → G.marks op := by intro _ h; exact h
  jobs : ∀ job, F.jobs job → G.jobs job := by intro _ h; exact h
  halts : F.halts → G.halts := by first | exact fun h => h | exact fun _ => trivial

namespace Bounds
variable {F : Footprint} {α β : Type}

theorem query (q : Db → Except Err β) : F.Bounds (query q) := .call trivial
theorem list (q : Db → β) : F.Bounds (list q) := .call trivial
theorem registry (q : List DAG → β) : F.Bounds (command (.registry q)) := .lift trivial
theorem ask (a : Ask β) : F.Bounds (ask a) := .lift trivial
theorem cachedDAG (dagID : String) : F.Bounds (cachedDAG dagID) := .lift trivial
theorem bootTime : F.Bounds (command .bootTime) := .lift trivial
theorem uniqueRunTime : F.Bounds (command .uniqueRunTime) := .lift trivial
theorem halt (h : F.halts) : F.Bounds (halt : M β) := ⟨h, nofun⟩
theorem pure (a : α) : F.Bounds (Pure.pure a) := Uses.pure a
theorem throw (e : Err) : F.Bounds (MonadExcept.throw e : M α) := Uses.throw e
theorem ofExcept (r : Except Err α) : F.Bounds (Fallible.ofExcept r) := Uses.ofExcept r

theorem statement {s : Write β} (h : F.writes s) : F.Bounds (statement s) := .call h
theorem go {job : Job} (h : F.jobs job) : F.Bounds (command (.go job)) := .lift h

theorem bind {x : M β} {f : β → M α} (hx : F.Bounds x) (hf : ∀ b, F.Bounds (f b)) : F.Bounds (x >>= f) :=
  Uses.bind hx hf

theorem ite {c : Prop} [Decidable c] {x y : M α} (hx : F.Bounds x) (hy : F.Bounds y) :
    F.Bounds (if c then x else y) := by
  split
  · exact hx
  · exact hy

/-- A check that refuses before the rest. -/
theorem refuse {c : Prop} [Decidable c] {e : Err} {rest : PUnit → M α} (h : F.Bounds (rest ⟨⟩)) :
    F.Bounds (if c then MonadExcept.throw e >>= rest else rest ⟨⟩) := by
  split
  · exact bind (throw e) (fun _ => h)
  · exact h

theorem outcome {x : M α} (h : F.Bounds x) : F.Bounds (Fallible.outcome x) := Uses.outcome h

theorem attempt {x : M α} (h : F.Bounds x) : F.Bounds (attempt x) := bind (outcome h) (fun _ => .pure _)

theorem marked {op : Op} {x : M α} (hop : F.marks op) (h : F.Bounds x) : F.Bounds (marked op x) :=
  Uses.around hop (fun _ => hop) h

theorem forM {l : List α} {f : α → M PUnit} (h : ∀ a ∈ l, F.Bounds (f a)) : F.Bounds (l.forM f) := Uses.forM h

theorem foldlM {l : List β} {f : α → β → M α} (h : ∀ b ∈ l, ∀ a, F.Bounds (f a b)) (a : α) :
    F.Bounds (l.foldlM f a) :=
  Uses.foldlM h a

theorem mono {G : Footprint} {x : M α} (h : F.Bounds x) (hle : F.Le G) : G.Bounds x := by
  refine Uses.mono h ?_
  intro β c hc
  cases c with
  | write s => exact hle.writes s hc
  | enter op => exact hle.marks op hc
  | leave op ok => exact hle.marks op hc
  | go job => exact hle.jobs job hc
  | lock => exact hc
  | unlock => exact hc
  | recovered => exact hc
  | halt => exact hle.halts hc
  | _ => trivial

theorem allDAGs : F.Bounds allDAGs := bind (registry _) (fun _ => bind (ask _) (fun _ => pure _))

end Bounds
end Footprint

/-- The programs that only read and ask. -/
def readPrint : Footprint where
  writes _ := False
  halts := False

theorem readPrint_le (F : Footprint) : readPrint.Le F where
  writes _ h := h.elim
  marks _ h := h.elim
  jobs _ h := h.elim
  halts h := h.elim

/-! ### Attempts -/

/-- What the attempt `tryNumber` of a row writes under its ref: an outcome, the
return of its task to the queue, or the output of the task. -/
inductive AttemptWrite (id : Nat) (ref : String) (tryNumber : Nat) : {β : Type} → Write β → Prop where
  | outcome {new : TaskInstance} : new.id = id → new.executorRef = ref → new.tryNumber = tryNumber →
      new.state ≠ .scheduled → new.state ≠ .queued → AttemptWrite id ref tryNumber (.updateTaskInstanceGuarded new ref)
  | giveBack {new : TaskInstance} : new.id = id → new.executorRef = "" → new.tryNumber = tryNumber - 1 →
      new.state = .scheduled → AttemptWrite id ref tryNumber (.updateTaskInstanceGuarded new ref)
  | output (runID taskID text : String) : AttemptWrite id ref tryNumber (.setTaskOutput runID taskID text)

def attemptPrint (ti : TaskInstance) : Footprint where
  writes := AttemptWrite ti.id ti.executorRef ti.tryNumber

/-- The part of an attempt that records its outcome. -/
def outcomePrint (ti : TaskInstance) : Footprint where
  writes := AttemptWrite ti.id ti.executorRef ti.tryNumber
  halts := False

theorem outcomePrint_le_attemptPrint (ti : TaskInstance) : (outcomePrint ti).Le (attemptPrint ti) where
  writes _ h := h

section Attempts
variable {cfg : Cfg}

theorem finalizeWrite_bounds {ti new : TaskInstance} (hid : new.id = ti.id) (href : new.executorRef = ti.executorRef)
    (htry : new.tryNumber = ti.tryNumber) (hsched : new.state ≠ .scheduled) (hqueued : new.state ≠ .queued) :
    (outcomePrint ti).Bounds (finalizeWrite new) := by
  unfold finalizeWrite
  rw [href]
  exact .attempt (.statement (.outcome hid href htry hsched hqueued))

theorem failedAttempt_state (ti : TaskInstance) (now : Time) :
    (failedAttempt ti now).state ≠ .scheduled ∧ (failedAttempt ti now).state ≠ .queued := by
  unfold failedAttempt
  dsimp only
  split <;> exact ⟨nofun, nofun⟩

theorem recordFailure_bounds {ti new : TaskInstance} (hid : new.id = ti.id)
    (href : new.executorRef = ti.executorRef) (htry : new.tryNumber = ti.tryNumber) :
    (outcomePrint ti).Bounds (recordFailure new) := by
  refine .bind (.ask _) (fun now => ?_)
  obtain ⟨hsched, hqueued⟩ := failedAttempt_state new now
  have hwrite : (outcomePrint ti).Bounds (finalizeWrite (failedAttempt new now)) :=
    finalizeWrite_bounds hid href htry hsched hqueued
  exact .bind hwrite (fun _ => .pure _)

theorem collectTaskOutput_bounds {F : Footprint} {ti : TaskInstance}
    (hstore : ∀ text, F.writes (.setTaskOutput ti.runID ti.taskID text)) : F.Bounds (collectTaskOutput cfg ti) := by
  unfold collectTaskOutput
  split
  · exact .pure _
  · refine .bind (.ask _) ?_
    intro text
    split
    · exact .pure _
    · dsimp only
      split
      · exact .bind (.attempt (.statement (hstore _))) (fun _ => .ask _)
      · exact .ask _

theorem finalizeTask_bounds (ti : TaskInstance) (code : Int) : (outcomePrint ti).Bounds (finalizeTask cfg ti code) := by
  unfold finalizeTask
  split
  · refine .bind (.ask _) ?_
    intro now
    refine .bind (finalizeWrite_bounds rfl rfl rfl ?_ ?_) ?_
    · dsimp only
      split <;> nofun
    · dsimp only
      split <;> nofun
    · intro _
      split
      · exact collectTaskOutput_bounds (fun _ => .output _ _ _)
      · exact .pure _
  · exact .bind (recordFailure_bounds rfl rfl rfl) (fun _ => .pure _)

theorem recoverCompletedLogExitCode_bounds {F : Footprint} (path : String) :
    F.Bounds (recoverCompletedLogExitCode path) := by
  unfold recoverCompletedLogExitCode
  split
  · exact .pure _
  · refine .bind (.ask _) ?_
    intro text
    split <;> exact .pure _

theorem recoverFinishedExitCode_bounds {F : Footprint} (ti : TaskInstance) :
    F.Bounds (recoverFinishedExitCode cfg ti) := by
  unfold recoverFinishedExitCode
  split
  · exact .pure _
  · refine .bind (.ask _) ?_
    intro there
    split
    · exact .pure _
    · split
      · exact .pure _
      · exact .ask _

private theorem recordFailed {ti new : TaskInstance} (hid : new.id = ti.id) (href : new.executorRef = ti.executorRef)
    (htry : new.tryNumber = ti.tryNumber) : (attemptPrint ti).Bounds (recordFailure new) :=
  (recordFailure_bounds hid href htry).mono (outcomePrint_le_attemptPrint ti)

theorem awaitCompletion_bounds (ti : TaskInstance) (polls : Nat) :
    (attemptPrint ti).Bounds (awaitCompletion cfg ti polls) := by
  induction polls with
  | zero => exact .halt trivial
  | succ polls ih =>
    unfold awaitCompletion
    refine .bind (.ask _) ?_
    intro done
    split
    · exact .pure _
    · refine .bind (.ask _) ?_
      intro phase
      split
      · refine .bind (.ask _) ?_
        intro done
        split
        · exact .pure _
        · exact ih
      · exact (finalizeTask_bounds ti _).mono (outcomePrint_le_attemptPrint ti)
      · exact .bind (recordFailed rfl rfl rfl) (fun _ => .pure _)
      · refine .bind (recoverCompletedLogExitCode_bounds _) ?_
        intro code
        split
        · exact (finalizeTask_bounds ti _).mono (outcomePrint_le_attemptPrint ti)
        · refine .bind (recoverFinishedExitCode_bounds ti) ?_
          intro code
          split
          · exact (finalizeTask_bounds ti _).mono (outcomePrint_le_attemptPrint ti)
          · exact ih

theorem taskCancelled_bounds {F : Footprint} (id : Nat) : F.Bounds (taskCancelled id) := by
  refine .bind (.outcome (.query _)) ?_
  intro r
  split <;> exact .pure _

theorem unlaunchable_bounds {F : Footprint} (t : Task) (ref : String) : F.Bounds (unlaunchable t ref) := by
  unfold unlaunchable
  dsimp only
  split
  · refine .bind (.ask _) ?_
    intro staged
    split
    · exact .pure _
    · split <;> exact .pure _
  · split <;> exact .pure _

theorem runTask_bounds (t : Task) (ti : TaskInstance) : (attemptPrint ti).Bounds (runTask cfg t ti) := by
  unfold runTask
  refine .bind (unlaunchable_bounds t _) ?_
  intro bad
  split
  · exact .bind (.ask _) (fun _ => .bind (recordFailed rfl rfl rfl) (fun _ => .pure _))
  · refine .bind (taskCancelled_bounds _) ?_
    intro cancelled
    split
    · exact .pure _
    · refine .bind (.ask _) ?_
      intro launched
      split
      · exact .attempt (.statement (.giveBack rfl rfl rfl rfl))
      · exact .bind (.ask _) (fun _ => .bind (recordFailed rfl rfl rfl) (fun _ => .pure _))
      · refine .bind (.ask _) ?_
        intro now
        refine .bind (.outcome (.statement (.outcome rfl rfl rfl nofun nofun))) ?_
        intro applied
        split
        · exact .pure _
        · exact .ask _
        · exact awaitCompletion_bounds { ti with state := .running, startedAt := some now } cfg.bound

theorem body_bounds (job : Job) : (attemptPrint job.ti).Bounds (job.body cfg) := by
  cases job with
  | launch run t ti => exact runTask_bounds t ti
  | await ti => exact awaitCompletion_bounds ti _

/-- What the recovery of one listed row writes: what its attempt may write. A
process that is still there is followed again. -/
def reattachPrint (ti : TaskInstance) : Footprint where
  writes := AttemptWrite ti.id ti.executorRef ti.tryNumber
  jobs job := ∃ new, job = .await new ∧ new.id = ti.id ∧ new.executorRef = ti.executorRef ∧ new.tryNumber = ti.tryNumber
  halts := False

/-- What recovery writes: outcomes and returns under the refs of the listed rows. -/
def recoverPrint : Footprint where
  writes w := ∃ id ref tryNumber, AttemptWrite id ref tryNumber w
  jobs job := ∃ ti, job = .await ti
  halts := False

theorem outcomePrint_le_reattachPrint (ti : TaskInstance) : (outcomePrint ti).Le (reattachPrint ti) where
  writes _ h := h
  jobs _ h := h.elim

theorem reattachPrint_le_recoverPrint (ti : TaskInstance) : (reattachPrint ti).Le recoverPrint where
  writes _ h := ⟨_, _, _, h⟩
  jobs _ h := h.imp (fun _ hjob => hjob.1)

/-- What recovery does about a queued attempt that runs. -/
def follow (ti : TaskInstance) (startedAt : Option Time) : M Unit := do
  let running := { ti with state := .running, startedAt := startedAt }
  match ← Fallible.outcome (statement (.updateTaskInstanceGuarded running ti.executorRef)) with
  | .error _ => return
  | .ok false => ask (.cancel ti.executorRef)
  | .ok true => command (.go (.await running))

theorem recoverQueued_bounds (ti : TaskInstance) : (reattachPrint ti).Bounds (recoverQueued cfg ti) := by
  refine .bind (.ask _) ?_
  intro phase
  split
  · exact .pure _
  · exact (finalizeTask_bounds ti _).mono (outcomePrint_le_reattachPrint ti)
  · have hrunning : ∀ startedAt, (reattachPrint ti).Bounds (follow ti startedAt) := by
      intro startedAt
      refine .bind (.outcome (.statement (.outcome rfl rfl rfl (by simp) (by simp)))) ?_
      intro applied
      split
      · exact .pure _
      · exact .ask _
      · exact .go ⟨_, rfl, rfl, rfl, rfl⟩
    dsimp only
    split
    · exact .bind (.pure _) hrunning
    · exact .bind (.ask _) (fun now => .bind (.pure (some now)) hrunning)
  · exact .attempt (.statement (.giveBack rfl rfl rfl rfl))

theorem recoverRunning_bounds (ti : TaskInstance) : (reattachPrint ti).Bounds (recoverRunning cfg ti) := by
  refine .bind (.ask _) ?_
  intro phase
  split
  · exact .pure _
  · exact (finalizeTask_bounds ti _).mono (outcomePrint_le_reattachPrint ti)
  · exact .go ⟨_, rfl, rfl, rfl, rfl⟩
  · exact .bind ((recordFailure_bounds rfl rfl rfl).mono (outcomePrint_le_reattachPrint ti)) (fun _ => .pure _)

theorem recover_bounds : recoverPrint.Bounds (recover cfg) :=
  .bind (.list _) (fun _ => .bind (.forM (fun ti _ => (recoverQueued_bounds ti).mono (reattachPrint_le_recoverPrint ti)))
    (fun _ => .bind (.list _) (fun _ => .forM (fun ti _ =>
      (recoverRunning_bounds ti).mono (reattachPrint_le_recoverPrint ti)))))

/-! Recovery ends with an error only when it cannot list the rows. -/

theorem attempt_total {α : Type} (x : M α) : Total (attempt x) := .bind (.outcome x) (fun _ => .pure _)

theorem recordFailure_total (ti : TaskInstance) : Total (recordFailure ti) :=
  .bind (.lift _) (fun _ => .bind (attempt_total _) (fun _ => .pure _))

theorem finalizeTask_total (ti : TaskInstance) (code : Int) : Total (finalizeTask cfg ti code) := by
  have hcollect : ∀ new, Total (collectTaskOutput cfg new) := by
    intro new
    unfold collectTaskOutput
    split
    · exact .pure _
    · refine .bind (.lift _) ?_
      intro text
      split
      · exact .pure _
      · dsimp only
        split
        · exact .bind (attempt_total _) (fun _ => .lift _)
        · exact .lift _
  unfold finalizeTask
  split
  · refine .bind (.lift _) (fun now => .bind (attempt_total _) (fun _ => ?_))
    split
    · exact hcollect _
    · exact .pure _
  · exact .bind (recordFailure_total ti) (fun _ => .pure _)

theorem recoverQueued_total (ti : TaskInstance) : Total (recoverQueued cfg ti) := by
  refine .bind (.lift _) ?_
  intro phase
  split
  · exact .pure _
  · exact finalizeTask_total ti _
  · have hrunning : ∀ startedAt, Total (follow ti startedAt) := by
      intro startedAt
      refine .bind (.outcome _) ?_
      intro applied
      split
      · exact .pure _
      · exact .lift _
      · exact .lift _
    dsimp only
    split
    · exact .bind (.pure _) hrunning
    · exact .bind (.lift _) (fun now => .bind (.pure (some now)) hrunning)
  · exact attempt_total _

theorem recoverRunning_total (ti : TaskInstance) : Total (recoverRunning cfg ti) := by
  refine .bind (.lift _) ?_
  intro phase
  split
  · exact .pure _
  · exact finalizeTask_total ti _
  · exact .lift _
  · exact .bind (recordFailure_total ti) (fun _ => .pure _)

end Attempts

/-! ### How attempts end -/

section Bodies
variable {cfg : Cfg} {S : Type} {R : Rules Cmd S} {A B : S → Prop} {ti : TaskInstance}
  (hread : ∀ {α : Type} (x : M α), readPrint.Bounds x → Keeps R A x)
include hread

private theorem read_seq {α β : Type} {x : M β} {f : β → M α} {q : Except Err α → S → Prop} (hx : readPrint.Bounds x)
    (htotal : Total x) (hf : ∀ b, Triple R A (f b) q) : Triple R A (x >>= f) q :=
  htotal.seq (hread x hx) hf

theorem recordFailure_ends (hwrite : ∀ now, Triple R A (statement (.updateTaskInstanceGuarded (failedAttempt ti now)
    ti.executorRef)) (fun _ => B)) : Triple R A (recordFailure ti) (fun _ => B) := by
  refine read_seq hread (.ask _) (.lift _) (fun now => ?_)
  have hattempt : Triple R A (finalizeWrite (failedAttempt ti now)) (fun _ => B) := by
    unfold finalizeWrite
    rw [show (failedAttempt ti now).executorRef = ti.executorRef from rfl]
    exact .next (.outcome (hwrite now)) (fun _ => .pure (fun _ hs => hs))
  exact .bind hattempt (fun _ => .pure (fun _ hs => hs)) (fun _ _ hs => hs)

theorem finalizeTask_ends {code : Int} (hlost : Triple R A (recordFailure ti) (fun _ => B))
    (hcollect : ∀ new : TaskInstance, Keeps R B (collectTaskOutput cfg new))
    (hwrite : ∀ (state : TaskState) finishedAt, state = .success ∨ state = .skipped →
      Triple R A (statement (.updateTaskInstanceGuarded { ti with state := state, finishedAt := finishedAt } ti.executorRef))
        (fun _ => B)) : Triple R A (finalizeTask cfg ti code) (fun _ => B) := by
  refine .ite (fun _ => ?_) (fun _ => .bind hlost (fun _ => .pure (fun _ hs => hs)) (fun _ _ hs => hs))
  refine read_seq hread (.ask _) (.lift _) (fun now => ?_)
  have hrecord : ∀ state : TaskState, state = .success ∨ state = .skipped →
      Triple R A (finalizeWrite { ti with state := state, finishedAt := some now }) (fun _ => B) :=
    fun state hstate => .next (.outcome (hwrite state (some now) hstate)) (fun _ => .pure (fun _ hs => hs))
  refine .bind (hrecord _ ?_) (fun _ => .ite (fun _ => hcollect _) (fun _ => .pure (fun _ hs => hs))) (fun _ _ hs => hs)
  split
  · exact .inr rfl
  · exact .inl rfl

theorem awaitCompletion_ends (hdone : Triple R A (ask .ctxDone)
      (Ends (fun done s => if done = true then B s else A s) (fun _ => False)))
    (hhalt : Triple R A (halt : M Unit) (fun _ => B)) (hfinalize : ∀ code, Triple R A (finalizeTask cfg ti code) (fun _ => B))
    (hlost : Triple R A (recordFailure ti) (fun _ => B)) (polls : Nat) :
    Triple R A (awaitCompletion cfg ti polls) (fun _ => B) := by
  have hcheck : ∀ {rest : M Unit}, Triple R A rest (fun _ => B) →
      Triple R A (do if ← ask .ctxDone then return else rest) (fun _ => B) := by
    intro rest hrest
    refine .next hdone ?_
    intro done
    cases done
    · exact hrest.strengthen (fun _ hs => hs)
    · exact .pure (fun _ hs => hs)
  induction polls with
  | zero => exact hhalt
  | succ polls ih =>
    unfold awaitCompletion
    refine hcheck (read_seq hread (.ask _) (.lift _) ?_)
    intro phase
    split
    · exact hcheck ih
    · exact hfinalize _
    · exact .bind hlost (fun _ => .pure (fun _ hs => hs)) (fun _ _ hs => hs)
    · refine read_seq hread (recoverCompletedLogExitCode_bounds _) ?_ ?_
      · unfold recoverCompletedLogExitCode
        split
        · exact .pure _
        · refine .bind (.lift _) ?_
          intro text
          split <;> exact .pure _
      · intro code
        split
        · exact hfinalize _
        · refine read_seq hread (recoverFinishedExitCode_bounds ti) ?_ ?_
          · unfold recoverFinishedExitCode
            split
            · exact .pure _
            · refine .bind (.lift _) ?_
              intro there
              split
              · exact .pure _
              · split
                · exact .pure _
                · exact .lift _
          · intro code
            split
            · exact hfinalize _
            · exact ih

theorem runTask_ends (hafter : ∀ {α : Type} (x : M α), readPrint.Bounds x → Keeps R B x) {t : Task}
    (hlost : ∀ now, Triple R A (recordFailure { ti with startedAt := some now }) (fun _ => B))
    (hcancelled : Triple R A (taskCancelled ti.id) (Ends (fun c s => if c = true then B s else A s) (fun _ => False)))
    (hback : Triple R A (statement (.updateTaskInstanceGuarded
      { ti with tryNumber := ti.tryNumber - 1, state := .scheduled, executorRef := "" } ti.executorRef)) (fun _ => B))
    (hrunning : ∀ now, Triple R A (statement (.updateTaskInstanceGuarded
      { ti with state := .running, startedAt := some now } ti.executorRef)) (Ends (fun ok s => if ok = true then A s else B s) B))
    (hawait : ∀ now, Triple R A (awaitCompletion cfg { ti with state := .running, startedAt := some now } cfg.bound)
      (fun _ => B)) : Triple R A (runTask cfg t ti) (fun _ => B) := by
  have hfail : Triple R A (do
      let now ← ask .now
      let _ ← recordFailure { ti with startedAt := some now } : M Unit) (fun _ => B) :=
    read_seq hread (.ask _) (.lift _)
      (fun now => .bind (hlost now) (fun _ => .pure (fun _ hs => hs)) (fun _ _ hs => hs))
  have hunlaunchable : Total (unlaunchable t ti.executorRef) := by
    unfold unlaunchable
    dsimp only
    split
    · refine .bind (.lift _) ?_
      intro staged
      split
      · exact .pure _
      · split <;> exact .pure _
    · split <;> exact .pure _
  refine read_seq hread (unlaunchable_bounds t _) hunlaunchable (fun bad => .ite (fun _ => hfail) (fun _ => ?_))
  refine .next hcancelled ?_
  intro cancelled
  cases cancelled
  · refine Triple.strengthen (p := A) ?_ (fun _ hs => hs)
    refine read_seq hread (.ask _) (.lift _) ?_
    intro launched
    split
    · exact .next (.outcome hback) (fun _ => .pure (fun _ hs => hs))
    · exact hfail
    · refine read_seq hread (.ask _) (.lift _) (fun now => .next (.outcome (hrunning now)) ?_)
      rintro (e | applied)
      · exact .pure (fun _ hs => hs)
      · cases applied
        · exact (hafter _ (.ask _)).strengthen (fun _ hs => hs)
        · exact (hawait now).strengthen (fun _ hs => hs)
  · exact .pure (fun _ hs => hs)

end Bodies

/-! ### What attempts keep -/

section Bodies
variable {cfg : Cfg} {S : Type} {R : Rules Cmd S} {A : S → Prop} {ti : TaskInstance}
  (hread : ∀ {α : Type} (x : M α), readPrint.Bounds x → Keeps R A x)
include hread

theorem awaitCompletion_keeps (hhalt : Keeps R A (halt : M Unit))
    (hfinalize : ∀ code, Keeps R A (finalizeTask cfg ti code)) (hlost : Keeps R A (recordFailure ti)) (polls : Nat) :
    Keeps R A (awaitCompletion cfg ti polls) := by
  induction polls with
  | zero => exact hhalt
  | succ polls ih =>
    unfold awaitCompletion
    refine .bind (hread _ (.ask _)) (fun done => .ite (.pure _) (.bind (hread _ (.ask _)) ?_))
    intro phase
    split
    · exact .bind (hread _ (.ask _)) (fun done => .ite (.pure _) ih)
    · exact hfinalize _
    · exact .bind hlost (fun _ => .pure _)
    · refine .bind (hread _ (recoverCompletedLogExitCode_bounds _)) ?_
      intro code
      split
      · exact hfinalize _
      · refine .bind (hread _ (recoverFinishedExitCode_bounds ti)) ?_
        intro code
        split
        · exact hfinalize _
        · exact ih

theorem runTask_keeps {t : Task} (hlost : ∀ now, Keeps R A (recordFailure { ti with startedAt := some now }))
    (hback : Keeps R A (statement (.updateTaskInstanceGuarded
      { ti with tryNumber := ti.tryNumber - 1, state := .scheduled, executorRef := "" } ti.executorRef)))
    (hrunning : ∀ now, Keeps R A (statement (.updateTaskInstanceGuarded
      { ti with state := .running, startedAt := some now } ti.executorRef)))
    (hawait : ∀ now, Keeps R A (awaitCompletion cfg { ti with state := .running, startedAt := some now } cfg.bound)) :
    Keeps R A (runTask cfg t ti) := by
  have hfail : Keeps R A (do
      let now ← ask .now
      let _ ← recordFailure { ti with startedAt := some now } : M Unit) :=
    .bind (hread _ (.ask _)) (fun now => .bind (hlost now) (fun _ => .pure _))
  refine .bind (hread _ (unlaunchable_bounds t _)) (fun bad => .ite hfail (.bind (hread _ (taskCancelled_bounds _))
    (fun cancelled => .ite (.pure _) (.bind (hread _ (.ask _)) ?_))))
  intro launched
  split
  · exact .bind (.outcome hback) (fun _ => .pure _)
  · exact hfail
  · refine .bind (hread _ (.ask _)) (fun now => .bind (.outcome (hrunning now)) ?_)
    intro applied
    split
    · exact .pure _
    · exact hread _ (.ask _)
    · exact hawait now

theorem recoverQueued_keeps (hfinalize : ∀ code, Keeps R A (finalizeTask cfg ti code))
    (hback : Keeps R A (statement (.updateTaskInstanceGuarded
      { ti with state := .scheduled, executorRef := "", tryNumber := ti.tryNumber - 1 } ti.executorRef)))
    (hrunning : ∀ startedAt, Keeps R A (statement (.updateTaskInstanceGuarded
      { ti with state := .running, startedAt := startedAt } ti.executorRef)))
    (hgo : ∀ startedAt, Keeps R A (command (.go (.await { ti with state := .running, startedAt := startedAt })) : M Unit)) :
    Keeps R A (recoverQueued cfg ti) := by
  refine .bind (hread _ (.ask _)) ?_
  intro phase
  split
  · exact .pure _
  · exact hfinalize _
  · have hfollow : ∀ startedAt, Keeps R A (follow ti startedAt) := by
      intro startedAt
      refine .bind (.outcome (hrunning startedAt)) ?_
      intro applied
      split
      · exact .pure _
      · exact hread _ (.ask _)
      · exact hgo startedAt
    dsimp only
    split
    · exact .bind (.pure _) hfollow
    · exact .bind (hread _ (.ask _)) (fun now => .bind (.pure (some now)) hfollow)
  · exact .bind (.outcome hback) (fun _ => .pure _)

theorem recoverRunning_keeps (hfinalize : ∀ code, Keeps R A (finalizeTask cfg ti code)) (hlost : Keeps R A (recordFailure ti))
    (hgo : Keeps R A (command (.go (.await ti)) : M Unit)) : Keeps R A (recoverRunning cfg ti) := by
  refine .bind (hread _ (.ask _)) ?_
  intro phase
  split
  · exact .pure _
  · exact hfinalize _
  · exact hgo
  · exact .bind hlost (fun _ => .pure _)

end Bodies

/-! ### Runs and events -/

/-- Statements that create runs, publish and consume events, or hold a run. -/
inductive QueueWrite : {β : Type} → Write β → Prop where
  | create {run : DagRun} {global : Int} : run.state = .queued → QueueWrite (.createDagRunBounded run global)
  | createManual {run : DagRun} {perDAG global : Int} : run.state = .queued →
      QueueWrite (.createManualDagRunBounded run perDAG global)
  | consume (id : Nat) : QueueWrite (.consumeEvent id)
  | publish (key payload : String) : QueueWrite (.publishEvent .external key payload)
  | hold (runID : String) (held : Bool) : QueueWrite (.setDagRunHeld runID held)

def queuePrint : Footprint where
  writes := QueueWrite

section Events
variable {cfg : Cfg}

theorem matchingUpstream_bounds {F : Footprint} (upstream : DagRun) (up : String) :
    F.Bounds (matchingUpstream upstream up) := by
  unfold matchingUpstream
  split
  · refine .bind (.list _) ?_
    intro runs
    split
    · exact .pure _
    · exact .throw _
  · exact .query _

theorem allUpstreamsOK_bounds {F : Footprint} (upstream : DagRun) (ups : List String) :
    F.Bounds (allUpstreamsOK upstream ups) := by
  induction ups with
  | nil => exact .pure _
  | cons up ups ih =>
    refine .bind (.cachedDAG up) ?_
    intro d
    split
    · exact .pure _
    · refine .bind (.outcome (matchingUpstream_bounds upstream up)) ?_
      intro r
      split
      · exact .pure _
      · exact .throw _
      · split
        · exact ih
        · exact .pure _

theorem triggerDownstream_bounds (upstream : DagRun) (dn : String) :
    queuePrint.Bounds (triggerDownstream cfg upstream dn) := by
  refine .bind (.list _) (fun ups => .bind (allUpstreamsOK_bounds upstream ups) ?_)
  intro ok
  split
  · exact .pure _
  · refine .bind (.cachedDAG dn) ?_
    intro d
    split
    · exact .pure _
    · split
      · exact .pure _
      · refine .bind (.outcome (.statement (.create rfl))) ?_
        intro r
        split <;> first | exact .pure _ | exact .throw _

theorem triggerDownstreams_bounds (upstream : DagRun) : queuePrint.Bounds (triggerDownstreams cfg upstream) :=
  .bind (.list _) (fun _ => .foldlM (fun dn _ _ =>
    .bind (triggerDownstream_bounds upstream dn) (fun _ => .pure _)) _)

theorem deliverDependencyEvent_bounds (event : Event) : queuePrint.Bounds (deliverDependencyEvent cfg event) := by
  refine .bind (.outcome (.query _)) ?_
  intro r
  split
  · exact .attempt (.statement (.consume _))
  · exact .pure _
  · split
    · split
      · exact .attempt (.statement (.consume _))
      · exact .pure _
    · refine .bind (.outcome (triggerDownstreams_bounds _)) ?_
      intro r
      split
      · exact .pure _
      · exact .pure _
      · exact .attempt (.statement (.consume _))

theorem processPendingDependencyEvents_bounds : queuePrint.Bounds (processPendingDependencyEvents cfg) := by
  refine .bind (.outcome (.list _)) ?_
  intro r
  split
  · exact .pure _
  · exact .forM (fun event _ => deliverDependencyEvent_bounds event)

/-- Delivering dependency events never fails: an event that cannot be delivered
stays pending. -/
theorem processPendingDependencyEvents_total : Total (processPendingDependencyEvents cfg) := by
  refine .bind (.outcome _) ?_
  intro r
  split
  · exact .pure _
  · refine .forM (fun event _ => .bind (.outcome _) ?_)
    intro r
    split
    · exact attempt_total _
    · exact .pure _
    · split
      · split
        · exact attempt_total _
        · exact .pure _
      · refine .bind (.outcome _) ?_
        intro r
        split
        · exact .pure _
        · exact .pure _
        · exact attempt_total _

theorem triggerSubscriber_bounds (ev : Event) (dagID : String) :
    queuePrint.Bounds (triggerSubscriber cfg ev dagID) := by
  refine .bind (.cachedDAG dagID) ?_
  intro d
  split
  · exact .pure _
  · split
    · exact .pure _
    · refine .bind (.ask _) (fun now => .bind (.outcome (.statement (.create rfl))) ?_)
      intro r
      split <;> exact .pure _

theorem deliverExternalEvent_bounds (dags : List DAG) (ev : Event) :
    queuePrint.Bounds (deliverExternalEvent cfg dags ev) := by
  refine .bind (.foldlM (fun dagID _ _ => .bind (triggerSubscriber_bounds ev dagID) (fun _ => .pure _)) _) ?_
  intro deferred
  split
  · exact .attempt (.statement (.consume _))
  · exact .pure _

theorem processPendingExternalEvents_bounds : queuePrint.Bounds (processPendingExternalEvents cfg) := by
  refine .bind (.outcome (.list _)) ?_
  intro r
  split
  · exact .pure _
  · split
    · exact .pure _
    · exact .bind .allDAGs (fun dags => .forM (fun ev _ => deliverExternalEvent_bounds dags ev))

theorem triggerManualPriority_bounds (dagID : String) (params : Params) (priority : Int) :
    queuePrint.Bounds (triggerManualPriority cfg dagID params priority) := by
  refine .bind (.cachedDAG dagID) ?_
  intro d
  split
  · exact .throw _
  · exact .refuse (.bind .uniqueRunTime (fun _ => .bind (.statement (.createManual rfl)) (fun _ => .pure _)))

theorem backfill_bounds (dagID : String) (first last : Time) :
    queuePrint.Bounds (backfill cfg dagID first last) := by
  refine .bind (.cachedDAG dagID) ?_
  intro d
  split
  · exact .throw _
  · split
    · exact .refuse (.refuse (.throw _))
    · refine .refuse (.refuse (.bind (.ask _) (fun now => .refuse (.bind (.ofExcept _) (fun periods => ?_)))))
      refine .foldlM (fun t _ counts => ?_) _
      refine .bind (.outcome (.statement (.create rfl))) ?_
      intro r
      split <;> first | exact .pure _ | exact .throw _

end Events

/-! ### Operators -/

/-- What a cancel writes. -/
inductive CancelWrite : {β : Type} → Write β → Prop where
  | run (id : String) (startedAt finishedAt : Option Time) :
      CancelWrite (.updateDagRunState id .cancelled startedAt finishedAt)
  | task {ti : TaskInstance} : ti.state = .cancelled → CancelWrite (.updateTaskInstance ti)

def cancelPrint : Footprint where
  writes := CancelWrite
  marks op := ∃ runID, op = .cancelRun runID

/-- What adopting a definition writes. -/
inductive AdoptWrite : {β : Type} → Write β → Prop where
  | definition (runID yaml hash : String) : AdoptWrite (.updateDagRunDefinition runID yaml hash)
  | create {ti : TaskInstance} : ti.state = .scheduled → ti.executorRef = "" → AdoptWrite (.createTaskInstance ti)

def adoptPrint : Footprint where
  writes := AdoptWrite

/-- Unguarded writes of task rows. -/
inductive TaskWrite : {β : Type} → Write β → Prop where
  | update (ti : TaskInstance) : TaskWrite (.updateTaskInstance ti)

def taskPrint : Footprint where
  writes := TaskWrite

section Operators
variable {cfg : Cfg}

theorem cancelAttempt_bounds {F : Footprint} {cancelChild : String → M Unit} (h : ∀ child, F.Bounds (cancelChild child))
    (ref : String) : F.Bounds (cancelAttempt cancelChild ref) := by
  unfold cancelAttempt
  split
  · exact .attempt (h _)
  · exact .ask _

theorem cancelTask_bounds {cancelChild : String → M Unit} (h : ∀ child, cancelPrint.Bounds (cancelChild child))
    (fin : Time) (ti : TaskInstance) : cancelPrint.Bounds (cancelTask cancelChild fin ti) := by
  unfold cancelTask
  split
  · exact .pure _
  · dsimp only
    split
    · exact .bind (cancelAttempt_bounds h _) (fun _ => .attempt (.statement (.task rfl)))
    · exact .attempt (.statement (.task rfl))

theorem cancelRunLocked_bounds (levels : Nat) (runID : String) : cancelPrint.Bounds (cancelRunLocked levels runID) := by
  induction levels generalizing runID with
  | zero => exact .halt trivial
  | succ levels ih =>
    refine .marked ⟨runID, rfl⟩ (.bind (.query _) (fun run => .refuse (.bind (.ask _) (fun fin => ?_))))
    exact .bind (.statement (.run _ _ _)) (fun _ => .bind (.list _) (fun tis =>
      .forM (fun ti _ => cancelTask_bounds ih fin ti)))

theorem dagForRun_bounds (run : DagRun) : adoptPrint.Bounds (dagForRun cfg run) := by
  unfold dagForRun
  split
  · exact .bind (.ofExcept _) (fun _ => .pure _)
  · refine .bind (.cachedDAG _) ?_
    intro d
    dsimp only
    split
    · exact .bind (.pure _) (fun _ => .bind (.statement (.definition _ _ _)) (fun _ => .pure _))
    · exact .bind (.query _) (fun _ => .bind (.ofExcept _) (fun _ =>
        .bind (.statement (.definition _ _ _)) (fun _ => .pure _)))

/-- The definition a snapshot is processed with. -/
structure Resolved (cfg : Cfg) (snap : DagRun) (d : DAG) (run : DagRun) : Prop where
  runID : run.runID = snap.runID
  state : run.state = snap.state
  held : run.held = snap.held
  parsed : snap.definitionYAML ≠ "" → parseDefinition cfg snap.definitionYAML = .ok d

theorem dagForRun_yields (snap : DagRun) : Yields (fun p => Resolved cfg snap p.1 p.2) (dagForRun cfg snap) := by
  refine .ite (fun _ => ?_) (fun hempty => ?_)
  · exact .bind (.ofExcept (fun d hd => hd)) (fun d hd => .pure ⟨rfl, rfl, rfl, fun _ => hd⟩)
  · have hadopt : ∀ d : DAG, Yields (fun p => Resolved cfg snap p.1 p.2) (do
        let run := snapshotRun cfg snap d
        statement (.updateDagRunDefinition run.runID run.definitionYAML run.definitionHash)
        return (d, run) : M (DAG × DagRun)) :=
      fun d => .bind (.any _) (fun _ _ => .pure ⟨rfl, rfl, rfl, fun h => absurd h hempty⟩)
    refine .bind (.any _) ?_
    intro cached _
    dsimp only
    split
    · exact .bind (.any _) (fun d _ => hadopt d)
    · exact .bind (.any _) (fun _ _ => .bind (.any _) (fun d _ => hadopt d))

theorem retryContext_bounds {F : Footprint} (runID : String) : F.Bounds (retryContext runID) := by
  refine .bind (.query _) (fun run => .refuse (.bind (.cachedDAG _) ?_))
  intro d
  split
  · exact .throw _
  · exact .bind (.list _) (fun _ => .pure _)

theorem adoptTask_bounds (run : DagRun) (d : DAG) (hash : String) (reset : List String) (byTask : List TaskInstance)
    (t : Task) : adoptPrint.Bounds (adoptTask cfg run d hash reset byTask t) := by
  unfold adoptTask
  split
  · exact .bind (.statement (.create rfl rfl)) (fun _ => .pure _)
  · split <;> exact .pure _

theorem prepareRetryDefinition_bounds (run : DagRun) (d : DAG) (byTask : List TaskInstance) (reset : List String) :
    adoptPrint.Bounds (prepareRetryDefinition cfg run d byTask reset) :=
  .bind (.statement (.definition _ _ _)) (fun _ => .foldlM (fun t _ rows => adoptTask_bounds run d _ reset rows t) _)

theorem releaseDownstream_bounds {F : Footprint} (hclear : ∀ ti, F.writes (.updateTaskInstance (clearTask ti))) (d : DAG)
    (tis : List TaskInstance) (taskID : String) : F.Bounds (releaseDownstream d tis taskID) := by
  refine .bind (.ask _) (fun ids => .forM (fun id _ => ?_))
  split
  · exact .pure _
  · split
    · exact .pure _
    · exact .statement (hclear _)

/-- What marking a listed task writes: cleared tasks downstream, the target state,
and the run it reactivates when that is over. -/
theorem markListed_bounds {F : Footprint} {runID taskID : String} {target : TaskState} {run : DagRun} {d : DAG}
    {tis : List TaskInstance} (hcancel : ∀ child, F.Bounds (cancelRunLocked cfg.bound child))
    (hclear : ∀ ti, F.writes (.updateTaskInstance (clearTask ti)))
    (htarget : ∀ ti : TaskInstance, ti.state = target → F.writes (.updateTaskInstance ti))
    (hrun : run.state.isTerminal = true → ∀ now, F.writes (.updateDagRunState runID .running (some now) none)) :
    F.Bounds (match findTI tis taskID with
      | none => throw .notFound
      | some ti => do
        if taskID ∉ d.tasks.map (·.id) then throw .notFound
        let now ← ask .now
        if !ti.state.isTerminal ∧ ti.executorRef ≠ "" then
          cancelAttempt (cancelRunLocked cfg.bound) ti.executorRef
        if target = .success ∨ target = .skipped then releaseDownstream d tis taskID
        statement (.updateTaskInstance { ti with state := target, finishedAt := some now })
        if run.state.isTerminal then statement (.updateDagRunState runID .running (some now) none) : M Unit) := by
  split
  · exact .throw _
  · rename_i ti hti
    have hlast : ∀ now, F.Bounds (do
        statement (.updateTaskInstance { ti with state := target, finishedAt := some now })
        if run.state.isTerminal then statement (.updateDagRunState runID .running (some now) none)) := by
      intro now
      refine .bind (.statement (htarget _ rfl)) (fun _ => ?_)
      split
      · rename_i hterminal
        exact .statement (hrun hterminal now)
      · exact .pure _
    refine .refuse (.bind (.ask _) (fun now => ?_))
    have hrelease : F.Bounds (do
        if target = .success ∨ target = .skipped then releaseDownstream d tis taskID
        statement (.updateTaskInstance { ti with state := target, finishedAt := some now })
        if run.state.isTerminal then statement (.updateDagRunState runID .running (some now) none)) := by
      dsimp only
      split
      · exact .bind (releaseDownstream_bounds hclear d tis taskID) (fun _ => hlast now)
      · exact hlast now
    dsimp only
    split
    · exact .bind (cancelAttempt_bounds hcancel _) (fun _ => hrelease)
    · exact hrelease

theorem markTaskLocked_bounds {F : Footprint} {runID taskID : String} {target : TaskState}
    (hmark : F.marks (.markTask runID taskID target)) (hcontext : F.Bounds (markContext cfg runID))
    (hcancel : ∀ child, F.Bounds (cancelRunLocked cfg.bound child))
    (hclear : ∀ ti, F.writes (.updateTaskInstance (clearTask ti)))
    (htarget : ∀ ti : TaskInstance, ti.state = target → F.writes (.updateTaskInstance ti))
    (hrun : ∀ now, F.writes (.updateDagRunState runID .running (some now) none)) :
    F.Bounds (markTaskLocked cfg runID taskID target) := by
  refine .marked hmark (.bind hcontext ?_)
  rintro ⟨run, d, tis⟩
  exact markListed_bounds hcancel hclear htarget (fun _ => hrun)

/-- What marking a run writes: its new state, and what the delivery of events writes. -/
theorem markRunLocked_bounds {F : Footprint} {runID : String} {target : RunState} (hmark : F.marks (.markRun runID target))
    (hqueue : queuePrint.Le F)
    (hsuccess : ∀ startedAt finishedAt, F.writes (.updateDagRunSuccess runID startedAt finishedAt))
    (hstate : ∀ startedAt finishedAt, F.writes (.updateDagRunState runID target startedAt finishedAt)) :
    F.Bounds (markRunLocked cfg runID target) := by
  refine .marked hmark (.bind (.query _) (fun run => .refuse ?_))
  split
  · exact .pure _
  · have hwrite : ∀ fin, F.Bounds (do
        if target = .success then
          statement (.updateDagRunSuccess runID run.startedAt (some fin))
          processPendingDependencyEvents cfg
        else statement (.updateDagRunState runID target run.startedAt (some fin))) := by
      intro fin
      split
      · exact .bind (.statement (hsuccess _ _)) (fun _ => processPendingDependencyEvents_bounds.mono hqueue)
      · exact .statement (hstate _ _)
    dsimp only
    split
    · exact .bind (.pure _) hwrite
    · exact .bind (.ask _) hwrite

end Operators

/-! ### Bodies under the mutex -/

/-- New runs are queued, a guarded write that gives a task back leaves no ref on
it, and no output is stored. -/
def Tidy : {β : Type} → Write β → Prop
  | _, .updateTaskInstanceGuarded ti _ => ti.state = .scheduled → ti.executorRef = ""
  | _, .createDagRunBounded run _ | _, .createManualDagRunBounded run _ _ => run.state = .queued
  | _, .setTaskOutput _ _ _ => False
  | _, _ => True

/-- What the programs that hold the mutex may do: they never discard a run. -/
def lockedPrint : Footprint where
  writes := Tidy
  marks op := ∀ runID, op ≠ .discardRun runID
  jobs _ := True

theorem queuePrint_le_lockedPrint : queuePrint.Le lockedPrint where
  writes _ h := by cases h <;> trivial
  marks _ h := h.elim
  jobs _ _ := trivial

theorem cancelPrint_le_lockedPrint : cancelPrint.Le lockedPrint where
  writes _ h := by cases h <;> trivial
  marks op h := by
    obtain ⟨runID, rfl⟩ := h
    exact nofun
  jobs _ _ := trivial

theorem adoptPrint_le_lockedPrint : adoptPrint.Le lockedPrint where
  writes _ h := by cases h <;> trivial
  marks _ h := h.elim
  jobs _ _ := trivial

theorem taskPrint_le_lockedPrint : taskPrint.Le lockedPrint where
  writes _ h := by cases h; trivial
  marks _ h := h.elim
  jobs _ _ := trivial

section Locked
variable {cfg : Cfg}

private theorem cancelRunLocked_locked (levels : Nat) (runID : String) :
    lockedPrint.Bounds (cancelRunLocked levels runID) :=
  (cancelRunLocked_bounds levels runID).mono cancelPrint_le_lockedPrint

private theorem dagForRun_locked (run : DagRun) : lockedPrint.Bounds (dagForRun cfg run) :=
  (dagForRun_bounds run).mono adoptPrint_le_lockedPrint

private theorem recordFailure_locked (ti : TaskInstance) : lockedPrint.Bounds (recordFailure ti) := by
  refine .bind (.ask _) (fun now => .bind (.attempt (.statement ?_)) (fun _ => .pure _))
  exact fun hsched => absurd hsched (failedAttempt_state ti now).1

theorem clearAndReactivate_locked (run : DagRun) (byTask : List TaskInstance) (ids : List String) :
    lockedPrint.Bounds (clearAndReactivate run byTask ids) := by
  refine .bind (.ask _) (fun ids => .bind (.forM (fun id _ => ?_)) (fun _ =>
    .bind (.ask _) (fun _ => .statement trivial)))
  split
  · exact .pure _
  · exact .statement trivial

theorem retryTasks_locked (run : DagRun) (d : DAG) (tis : List TaskInstance) (ids : List String) :
    lockedPrint.Bounds (retryTasks cfg run d tis ids) :=
  .bind ((prepareRetryDefinition_bounds run d tis ids).mono adoptPrint_le_lockedPrint)
    (fun byTask => clearAndReactivate_locked run byTask ids)

theorem retryRunLocked_locked (runID : String) : lockedPrint.Bounds (retryRunLocked cfg runID) :=
  .marked nofun (.bind (retryContext_bounds runID) (fun _ => .refuse (retryTasks_locked _ _ _ _)))

theorem retryTaskLocked_locked (runID taskID : String) : lockedPrint.Bounds (retryTaskLocked cfg runID taskID) :=
  .marked nofun (.bind (retryContext_bounds runID) (fun _ => .refuse (retryTasks_locked _ _ _ _)))

theorem markContext_locked (runID : String) : lockedPrint.Bounds (markContext cfg runID) :=
  .bind (.query _) (fun _ => .bind (dagForRun_locked _) (fun _ => .bind (.list _) (fun _ => .pure _)))

theorem markTaskLocked_locked (runID taskID : String) (target : TaskState) :
    lockedPrint.Bounds (markTaskLocked cfg runID taskID target) :=
  markTaskLocked_bounds nofun (markContext_locked runID) (cancelRunLocked_locked _) (fun _ => trivial)
    (fun _ _ => trivial) (fun _ => trivial)

theorem markRunLocked_locked (runID : String) (target : RunState) :
    lockedPrint.Bounds (markRunLocked cfg runID target) :=
  markRunLocked_bounds nofun queuePrint_le_lockedPrint (fun _ _ => trivial) (fun _ _ => trivial)

theorem expandRun_bounds (run : DagRun) (d : DAG) (current : List TaskInstance) :
    adoptPrint.Bounds (expandRun cfg run d current) := by
  refine .forM (fun t _ => .ite (.pure _) (.bind (.outcome (.statement (.create rfl rfl))) ?_))
  intro r
  split
  · exact .pure _
  · exact .pure _
  · exact .throw _

theorem reconcile_bounds (run : DagRun) (d : DAG) : adoptPrint.Bounds (reconcile cfg run d) :=
  .bind (.list _) (fun tis => .ite (.bind (expandRun_bounds run d tis) (fun _ => .list _)) (.pure _))

theorem blockTask_bounds (ti : TaskInstance) : taskPrint.Bounds (blockTask ti) :=
  .bind (.ask _) (fun _ => .bind (.statement (.update _)) (fun _ => .pure _))

theorem propagate_bounds (tasks : List Task) (passes : Nat) (byTask : List TaskInstance) :
    taskPrint.Bounds (propagate blockTask tasks passes byTask) := by
  induction passes generalizing byTask with
  | zero => exact .pure _
  | succ passes ih =>
    refine .bind (.foldlM (fun t _ now => ?_) _) ?_
    · dsimp only
      split
      · exact .pure _
      · split
        · exact .bind (blockTask_bounds _) (fun _ => .pure _)
        · exact .pure _
    · rintro ⟨after, changed⟩
      cases changed
      · exact .pure _
      · exact ih after

theorem requeue_bounds (now : Time) (tasks : List Task) (byTask : List TaskInstance) :
    taskPrint.Bounds (requeue now tasks byTask) := by
  refine .foldlM (fun t _ rows => ?_) _
  split
  · exact .pure _
  · exact .ite (.bind (.statement (.update _)) (fun _ => .pure _)) (.pure _)

theorem subdagDepth_bounds {F : Footprint} (left : Nat) (run : DagRun) (depth : Nat) :
    F.Bounds (subdagDepth left run depth) := by
  induction left generalizing run depth with
  | zero => exact .pure _
  | succ left ih =>
    unfold subdagDepth
    split
    · exact .pure _
    · refine .bind (.outcome (.query _)) ?_
      intro r
      split
      · exact .pure _
      · exact ih _ _

/-- What `launchChild` does about the child it has found: it creates one where there is none. -/
def createChild (cfg : Cfg) (run : DagRun) (t : Task) (now : Time) (child : String) : M (Option String) := do
  if child ≠ "" then return some child
  let child : DagRun :=
    { runID := subRunID t.subdag now, dagID := t.subdag, logicalDate := now, state := .queued, triggerType := .subdag,
      params := run.params, priority := run.priority, parentRunID := run.runID }
  match ← Fallible.outcome (statement (.createDagRunBounded child cfg.maxQueuedRunsGlobal)) with
  | .ok _ => return some child.runID
  | .error .queueFull => return none
  | .error e => throw e

theorem launchChild_locked (run : DagRun) (t : Task) (ti : TaskInstance) (now : Time) :
    lockedPrint.Bounds (launchChild cfg run t ti now) := by
  have hcreate : ∀ child : String, lockedPrint.Bounds (createChild cfg run t now child) := by
    intro child
    unfold createChild
    split
    · exact .pure _
    · refine .bind (.outcome (.statement rfl)) ?_
      intro r
      split
      · exact .pure _
      · exact .pure _
      · exact .throw _
  unfold launchChild
  dsimp only
  split
  · exact .bind (.pure _) hcreate
  · refine .bind (.outcome (.query _)) ?_
    intro r
    split
    · exact .bind (.pure _) hcreate
    · split
      · refine .bind (.outcome (retryRunLocked_locked _)) ?_
        intro r
        split <;> exact .bind (.pure _) hcreate
      · exact .bind (.pure _) hcreate

theorem startSubdag_locked (run : DagRun) (t : Task) (ti : TaskInstance) (now : Time) :
    lockedPrint.Bounds (startSubdag cfg run t ti now) := by
  have hfail : lockedPrint.Bounds (failSubdag ti now) := .bind (.statement trivial) (fun _ => .pure _)
  refine .bind (subdagDepth_bounds _ _ _) (fun depth => .ite hfail (.bind (.cachedDAG _) (fun d => .ite hfail ?_)))
  refine .bind (launchChild_locked run t ti now) ?_
  intro child
  split
  · exact .pure _
  · exact .bind (.statement trivial) (fun _ => .pure _)

theorem mirrorChild_locked (ti : TaskInstance) (now : Time) : lockedPrint.Bounds (mirrorChild ti now) := by
  refine .ite (recordFailure_locked ti) (.bind (.outcome (.query _)) ?_)
  intro r
  split
  · exact recordFailure_locked ti
  · split
    · exact .bind (.attempt (.statement (fun h => nomatch h))) (fun _ => .pure _)
    · exact recordFailure_locked ti
    · exact recordFailure_locked ti
    · exact recordFailure_locked ti
    · exact .pure _
    · exact .pure _

theorem dependentReady_bounds {F : Footprint} (run : DagRun) (dep : DependsOnDag) (loc : Zone) :
    F.Bounds (dependentReady run dep loc) := by
  unfold dependentReady
  split
  · exact .pure _
  · refine .bind (.outcome (.query _)) ?_
    intro r
    dsimp only
    split
    · exact .ite (.pure _) (.ite (.bind (.ask _) (fun _ => .pure _)) (.pure _))
    · exact .bind (.pure _) (fun _ => .ite (.bind (.ask _) (fun _ => .pure _)) (.pure _))

/-- What `passGates` does once it knows the gate: satisfied, and timed out. -/
def afterGate (run : DagRun) (t : Task) (ti : TaskInstance) (gate : Bool × Bool) : M (TaskInstance × Bool) := do
  let (satisfied, timedOut) := gate
  if !satisfied then
    if !timedOut then return (ti, false)
    let now ← ask .now
    if (t.dependsOnDag.map (·.onTimeout)) = some .skip then
      return (← settleTask { ti with state := .skipped, finishedAt := some now }, false)
    return (← settleTask { ti with state := .failed, startedAt := some now, finishedAt := some now }, false)
  if t.when_ = "" then return (ti, true)
  if ← evalWhen run t (ti.tryNumber + 1) then return (ti, true)
  let now ← ask .now
  return (← settleTask { ti with state := .skipped, finishedAt := some now }, false)

theorem passGates_bounds (run : DagRun) (loc : Zone) (t : Task) (ti : TaskInstance) :
    taskPrint.Bounds (passGates run loc t ti) := by
  have hsettle : ∀ {row ready}, taskPrint.Bounds (do return (← settleTask row, ready) : M (TaskInstance × Bool)) :=
    .bind (.bind (.statement (.update _)) (fun _ => .pure _)) (fun _ => .pure _)
  have hgates : ∀ gate : Bool × Bool, taskPrint.Bounds (afterGate run t ti gate) := by
    rintro ⟨satisfied, timedOut⟩
    refine .ite (.ite (.pure _) (.bind (.ask _) (fun now => .ite hsettle hsettle))) (.ite (.pure _) ?_)
    exact .bind (.bind (.ask _) (fun _ => .pure _)) (fun w => .ite (.pure _) (.bind (.ask _) (fun _ => hsettle)))
  unfold passGates
  dsimp only
  split
  · exact .bind (.pure _) hgates
  · exact .bind (dependentReady_bounds run _ loc) hgates

theorem collectTask_locked (d : DAG) (run : DagRun) (byTask : List TaskInstance) (t : Task) :
    lockedPrint.Bounds (collectTask cfg d run byTask t) := by
  unfold collectTask
  split
  · exact .pure _
  · refine .ite (.ite (.pure _) (.bind (.bind (.ask _) (fun now => .ite ?_ ?_)) (fun _ => .pure _)))
      (.ite (.bind ((passGates_bounds run _ t _).mono taskPrint_le_lockedPrint) (fun _ => .pure _)) (.pure _))
    · exact startSubdag_locked run t _ now
    · exact mirrorChild_locked _ now

theorem collect_locked (d : DAG) (run : DagRun) (tasks : List Task) (byTask : List TaskInstance)
    (ready : List ReadyTask) : lockedPrint.Bounds (collect cfg d run tasks byTask ready) := by
  induction tasks generalizing byTask ready with
  | nil => exact .pure _
  | cons t tasks ih =>
    refine .bind (.outcome (collectTask_locked d run byTask t)) ?_
    intro r
    split
    · exact .pure _
    · exact ih _ _

theorem timeoutRun_locked (run : DagRun) (tis : List TaskInstance) : lockedPrint.Bounds (timeoutRun cfg run tis) := by
  refine .bind (.ask _) (fun fin => .bind (.outcome (.statement trivial)) ?_)
  intro r
  split
  · exact .pure _
  · refine .forM (fun ti _ => .ite (.pure _) ?_)
    have hwrite : lockedPrint.Bounds (attempt (statement (.updateTaskInstanceGuarded
        { ti with state := .timedOut, finishedAt := some fin } ti.executorRef))) :=
      .attempt (.statement (fun h => nomatch h))
    dsimp only
    split
    · exact .bind (cancelAttempt_bounds (cancelRunLocked_locked _) _) (fun _ => hwrite)
    · exact hwrite

theorem finalizeRun_locked (d : DAG) (run : DagRun) : lockedPrint.Bounds (finalizeRun cfg d run) := by
  refine .bind (.list _) ?_
  intro tis
  split
  · unfold enforceDeadlines
    split
    · exact .pure _
    · exact .bind (.ask _) (fun now => .ite (timeoutRun_locked run tis) (.pure _))
  · exact .bind (.ask _) (fun fin => .ite (.statement trivial) (.statement trivial))

theorem driveRun_locked (d : DAG) (run : DagRun) (tis : List TaskInstance) :
    lockedPrint.Bounds (driveRun cfg d run tis) := by
  have hstart : lockedPrint.Bounds (startRun run) :=
    .ite (.bind (.ask _) (fun _ => .bind (.statement trivial) (fun _ => .pure _))) (.pure _)
  refine .bind hstart (fun run => .bind ((propagate_bounds _ _ _).mono taskPrint_le_lockedPrint) (fun byTask =>
    .bind (.ask _) (fun now => .bind ((requeue_bounds now _ byTask).mono taskPrint_le_lockedPrint) (fun byTask =>
      .ite (.pure _) (.bind (collect_locked d run d.tasks byTask []) ?_)))))
  intro r
  split
  · exact .pure _
  · exact .bind (.attempt (finalizeRun_locked d run)) (fun _ => .pure _)

theorem processRunLocked_locked (run : DagRun) : lockedPrint.Bounds (processRunLocked cfg run) := by
  refine .marked nofun (.bind (dagForRun_locked run) ?_)
  rintro ⟨d, run⟩
  refine .bind ((reconcile_bounds run d).mono adoptPrint_le_lockedPrint) (fun tis => .ite ?_ (driveRun_locked d run tis))
  exact .bind (.bind (.ask _) (fun _ => .statement trivial)) (fun _ => .pure _)

/-- The write of a dispatch. -/
inductive DispatchWrite : {β : Type} → Write β → Prop where
  | queue {ti : TaskInstance} : ti.state = .queued → DispatchWrite (.updateTaskInstance ti)

/-- Dispatches and the goroutines they start. -/
def admitPrint : Footprint where
  writes := DispatchWrite
  jobs _ := True

theorem checkGroup_bounds {F : Footprint} (b : Budget) (group : String) : F.Bounds (checkGroup cfg b group) := by
  refine .ite (.pure _) ?_
  split
  · exact .pure _
  · exact .ite (.bind (.ask _) (fun _ => .pure _)) (.bind (.pure _) (fun _ => .pure _))

theorem checkDag_bounds {F : Footprint} (b : Budget) (rt : ReadyTask) : F.Bounds (checkDag b rt) := by
  refine .ite (.pure _) ?_
  split
  · exact .pure _
  · refine .bind (.outcome (.list _)) ?_
    intro used
    split <;> exact .bind (.pure _) (fun _ => .pure _)

theorem checkPool_bounds {F : Footprint} (b : Budget) (pool : String) : F.Bounds (checkPool b pool) := by
  unfold checkPool
  split
  · exact .pure _
  · refine .bind (.outcome (.list _)) ?_
    intro used
    split
    · exact .pure _
    · refine .bind (.bind (.outcome (.query _)) ?_) (fun _ => .ite (.pure _) (.pure _))
      intro p
      split <;> exact .pure _

theorem admitTask_bounds (b : Budget) (rt : ReadyTask) : admitPrint.Bounds (admitTask cfg b rt) := by
  unfold admitTask
  refine .ite (.pure _) (.bind (checkGroup_bounds b _) ?_)
  rintro ⟨b, up⟩
  refine .ite (.pure _) (.bind (checkDag_bounds b rt) ?_)
  rintro ⟨b, room⟩
  refine .ite (.pure _) (.bind (checkPool_bounds b _) ?_)
  intro r
  split
  · exact .pure _
  · refine .bind (.outcome (.query _)) ?_
    intro cur
    split
    · exact .pure _
    · refine .ite (.pure _) (.bind (.outcome ?_) ?_)
      · exact .bind (.statement (.queue rfl)) (fun _ => .go trivial)
      · intro r
        split <;> exact .pure _

theorem admitInOrder_bounds (ready : List ReadyTask) : admitPrint.Bounds (admitInOrder cfg ready) := by
  refine .bind (.outcome (.list _)) ?_
  intro active
  split
  · exact .pure _
  · exact .bind (.foldlM (fun rt _ b => admitTask_bounds b rt) _) (fun _ => .pure _)

theorem admitPrint_le_lockedPrint : admitPrint.Le lockedPrint where
  writes _ h := by cases h; trivial
  marks _ h := h.elim
  jobs _ _ := trivial

end Locked

/-! ### The loop -/

/-- Cancellations of a run that is discarded. -/
def discardPrint (runID : String) : Footprint where
  writes w := CancelWrite w ∧ (∀ id, (w.recordsState id).isSome → id = runID)

section Loop
variable {cfg : Cfg}

theorem scheduleAnchor_bounds {F : Footprint} (d : DAG) : F.Bounds (scheduleAnchor d) := by
  refine .bind (.outcome (.query _)) ?_
  intro r
  split
  · exact .pure _
  · exact .ite (.pure _) .bootTime

theorem createDueRun_bounds (now : Time) (counts : Option (String → Nat)) (d : DAG) :
    queuePrint.Bounds (createDueRun cfg now counts d) := by
  refine .ite (.pure _) (.bind (.cachedDAG _) ?_)
  intro cd
  split
  · exact .pure _
  · split
    · exact .pure _
    · refine .ite (.pure _) (.bind (scheduleAnchor_bounds d) (fun anchor => .ite (.pure _) ?_))
      have hcreate : ∀ (active : Nat) (run : DagRun), run.state = .queued → queuePrint.Bounds (do
          if d.maxActiveRuns ≤ active then return false
          statement (.createDagRunBounded run cfg.maxQueuedRunsGlobal)
          return true) := by
        intro active run hrun
        exact .ite (.pure _) (.bind (.statement (.create hrun)) (fun _ => .pure _))
      dsimp only
      split
      · exact .bind (.pure _) (fun active => hcreate active _ rfl)
      · exact .bind (.list _) (fun active => hcreate active _ rfl)

theorem createDueRuns_bounds (now : Time) : queuePrint.Bounds (createDueRuns cfg now) :=
  .bind (.outcome (.list _)) (fun _ => .bind .allDAGs (fun _ => .forM (fun d _ =>
    .attempt (createDueRun_bounds now _ d))))

theorem reorderPriorityQueues_bounds {F : Footprint} (queued : List DagRun) : F.Bounds (reorderPriorityQueues queued) := by
  have hneeds : ∀ dagIDs, F.Bounds (priorityDags dagIDs) := by
    intro dagIDs
    induction dagIDs with
    | nil => exact .pure _
    | cons dagID rest ih => exact .bind (.cachedDAG dagID) (fun _ => .bind ih (fun _ => .pure _))
  exact .bind (hneeds _) (fun _ => .pure _)

theorem cancelQueued_bounds (run : DagRun) : (discardPrint run.runID).Bounds (cancelQueued run) := by
  refine .bind (.ask _) (fun now => .bind (.outcome (.statement ⟨.run _ _ _, ?_⟩)) ?_)
  · intro id h
    by_contra hne
    simp [Write.recordsState, Ne.symm hne] at h
  · intro r
    split
    · exact .pure _
    · refine .bind (.outcome (.list _)) ?_
      intro tis
      split
      · exact .pure _
      · exact .forM (fun ti _ => .ite (.pure _) (.attempt (.statement ⟨.task rfl, fun _ h => by cases h⟩)))

variable {S : Type} {R : Rules Cmd S} {A : S → Prop}

/-- What the loop keeps, given what its parts keep. -/
theorem run_keeps (hqueue : ∀ {α : Type} (x : M α), queuePrint.Bounds x → Keeps R A x)
    (hrecover : Keeps R A (recover cfg)) (hrecovered : Keeps R A (command .recovered : M Unit))
    (hprocess : ∀ run, Keeps R A (processRun cfg run)) (hdiscard : ∀ run, Keeps R A (discardRun run))
    (hadmission : ∀ ready, Keeps R A (admitReady cfg ready)) : Keeps R A (run cfg) := by
  have hlisted : ∀ ready run, Keeps R A (processListed cfg ready run) := by
    intro ready run
    refine .bind (.outcome (hprocess run)) ?_
    intro r
    cases r <;> exact .pure _
  have hgate : ∀ g run, Keeps R A (gateQueued cfg g run) := by
    intro g run
    refine .ite (.pure _) (.bind (hqueue _ (.cachedDAG _)) (fun d => .ite ?_ ?_))
    · exact .ite (.bind (hdiscard run) (fun _ => .pure _)) (.pure _)
    · exact .bind (hlisted _ run) (fun _ => .pure _)
  have hactive : Keeps R A (processActiveRuns cfg) := by
    refine .bind (hqueue _ (.outcome (.list _))) (fun queued => .bind (hqueue _ (.outcome (.list _))) (fun running => ?_))
    refine .bind (.foldlM (fun run _ ready => hlisted ready run) _) (fun ready => ?_)
    refine .bind (hqueue _ (reorderPriorityQueues_bounds _)) (fun queued => ?_)
    exact .bind (.foldlM (fun run _ g => hgate g run) _) (fun g => hadmission g.ready)
  have htick : Keeps R A (tickOnce cfg) :=
    .bind (hqueue _ (.ask _)) (fun now => .bind (hqueue _ processPendingDependencyEvents_bounds) (fun _ =>
      .bind (hqueue _ processPendingExternalEvents_bounds) (fun _ => .bind (hqueue _ (createDueRuns_bounds now)) (fun _ =>
        .bind hactive (fun _ => hqueue _ processPendingDependencyEvents_bounds)))))
  have hticks : ∀ n, Keeps R A (ticks cfg n) := by
    intro n
    induction n with
    | zero => exact hqueue _ (.halt trivial)
    | succ n ih => exact .bind htick (fun _ => .bind (hqueue _ (.ask _)) (fun done => .ite (.pure _) ih))
  exact .bind hrecover (fun _ => .bind hrecovered (fun _ => hticks _))

/-- What an operator call keeps, given what the calls under the mutex keep. -/
theorem call_keeps (hqueue : ∀ {α : Type} (x : M α), queuePrint.Bounds x → Keeps R A x) {c : Call}
    (hcancel : ∀ runID, c = .cancelRun runID → Keeps R A (cancelRun cfg runID))
    (hretryTask : ∀ runID taskID, c = .retryTask runID taskID → Keeps R A (retryTask cfg runID taskID))
    (hretryRun : ∀ runID, c = .retryRun runID → Keeps R A (retryRun cfg runID))
    (hmarkTask : ∀ runID taskID target, c = .markTask runID taskID target → target.isTerminal = true →
      Keeps R A (locked (markTaskLocked cfg runID taskID target)))
    (hmarkRun : ∀ runID target, c = .markRun runID target → Keeps R A (locked (markRunLocked cfg runID target))) :
    Keeps R A (c.body cfg) := by
  cases c with
  | trigger dagID params priority =>
    exact hqueue _ (.bind (triggerManualPriority_bounds dagID params priority) (fun _ => .pure _))
  | backfill dagID first last => exact hqueue _ (.bind (backfill_bounds dagID first last) (fun _ => .pure _))
  | hold runID held => exact hqueue _ (.statement (.hold _ _))
  | publish key payload => exact hqueue _ (.bind (.statement (.publish _ _)) (fun _ => .pure _))
  | cancelRun runID => exact hcancel runID rfl
  | retryTask runID taskID => exact hretryTask runID taskID rfl
  | retryRun runID => exact hretryRun runID rfl
  | markTask runID taskID target =>
    have hgives : Gives R A (fun _ => True) (markTask cfg runID taskID target) := by
      unfold markTask
      refine .refuse ?_
      intro hlegal
      refine (hmarkTask runID taskID target rfl ?_).gives
      revert hlegal
      cases target <;> simp [TaskState.isTerminal]
    exact hgives.keeps
  | markRun runID target =>
    exact .ite (.bind (.throw _) (fun _ => hmarkRun runID target rfl)) (hmarkRun runID target rfl)

end Loop
end Cronova.Scheduler
