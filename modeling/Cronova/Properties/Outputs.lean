import Cronova.Scheduler.Mutex

/-! The output row of a task. An attempt that ends with exit code 0 records its
success under its ref and then stores its output, whatever became of the record. -/
namespace Cronova.Properties.Outputs
open Cronova.Model hiding Pool
open Cronova.Store Cronova.Concurrency Cronova.Concurrency.Fallible Cronova.Scheduler

/-- The row that the last guarded write of each thread put down, if it was applied. -/
abbrev Won := Nat → Option TaskInstance

def noted (_ : Kind) (t : Nat) : {β : Type} → Cmd β → β → Won → Won
  | _, .write (.updateTaskInstanceGuarded ti _), r, won =>
    Function.update won t (match r with
      | .ok true => some ti
      | _ => none)
  | _, _, _, won => won

/-- The scheduler with a record of who won. -/
def recorded (cfg : Cfg) : System Kind Cmd (Except Err Unit) (World × Won) :=
  (system cfg True).record noted (fun _ => none)

/-- An output is stored by a thread whose last guarded write recorded the success
of the same task. -/
def Earned (won : Option TaskInstance) : {β : Type} → Cmd β → Prop
  | _, .write (.setTaskOutput runID taskID _) =>
    ∃ ti, won = some ti ∧ ti.runID = runID ∧ ti.taskID = taskID ∧ ti.state = .success
  | _, _ => True

/-- A success is recorded while the row still carries the attempt's ref and is not
over, and the store does not fail. -/
def Meets (w : World) (a : Answer) : {β : Type} → Cmd β → Prop
  | _, .write (.updateTaskInstanceGuarded ti ref) => ti.state = .success →
    a ≠ .fault ∧ ∃ row, w.db.task? ti.id = some row ∧ row.executorRef = ref ∧ row.state.isTerminal = false
  | _, _ => True

/-- The scheduler in which every recorded success meets its row. -/
def meeting (cfg : Cfg) : System Kind Cmd (Except Err Unit) World :=
  { system cfg True with sem := fun k t _ c w r w' => ∃ a, Meets w a c ∧ w.exec k t a c = some (r, w') }

section Rules
variable {cfg : Cfg} {k : Kind} {t : Nat} {α : Type} {ti : TaskInstance}

/-- A thread relies on its own entry of the record, and stores what it has won. -/
private def rules (cfg : Cfg) (k : Kind) (t : Nat) : Rules Cmd (World × Won) where
  sem := ((meeting cfg).record noted (fun _ => none)).sem k t
  rely s s' := s'.2 t = s.2 t
  guar c s _ s' := Earned (s.2 t) c ∧ ∀ t', t' ≠ t → s'.2 t' = s.2 t'

private theorem noted_other {β : Type} (c : Cmd β) (r : β) (won : Won) {t' : Nat} (hne : t' ≠ t) :
    noted k t c r won t' = won t' := by
  cases c with
  | write s =>
    cases s with
    | updateTaskInstanceGuarded new ref => exact Function.update_of_ne hne _ _
    | _ => rfl
  | _ => rfl

private theorem sem_guar {β : Type} {c : Cmd β} {s s' : World × Won} {r : β} (hsem : (rules cfg k t).sem c s r s')
    (hc : Earned (s.2 t) c) : (rules cfg k t).guar c s r s' := by
  refine ⟨hc, ?_⟩
  intro t' hne
  rw [hsem.2]
  exact noted_other c r s.2 hne

/-- The commands that store no output. -/
private def plain : {β : Type} → Cmd β → Prop
  | _, .write (.setTaskOutput _ _ _) => False
  | _, _ => True

private theorem plain_keeps {x : M α} (hx : Uses plain x) : Keeps (rules cfg k t) (fun _ => True) x := by
  refine .of_uses hx (fun _ _ _ _ => trivial) ?_
  intro β c hc s r s' _ hsem
  refine ⟨sem_guar hsem ?_, trivial⟩
  cases c with
  | write st =>
    cases st with
    | setTaskOutput => exact hc.elim
    | _ => trivial
  | _ => trivial

private theorem bounds_plain {F : Footprint} {x : M α} (hx : F.Bounds x)
    (hF : ∀ {β : Type} (s : Write β), F.writes s → plain (.write s)) : Uses plain x := by
  refine Uses.mono hx ?_
  intro β c hc
  cases c with
  | write s => exact hF s hc
  | _ => trivial

private theorem read_keeps (x : M α) (hx : readPrint.Bounds x) : Keeps (rules cfg k t) (fun _ => True) x :=
  plain_keeps (bounds_plain hx (fun _ h => h.elim))

private theorem guarded_keeps (new : TaskInstance) (ref : String) :
    Keeps (rules cfg k t) (fun _ => True) (statement (.updateTaskInstanceGuarded new ref)) :=
  plain_keeps (.call trivial)

/-- A success that meets its row is won. -/
private theorem finalizeWrite_won (hstate : ti.state = .success) :
    Triple (rules cfg k t) (fun _ => True) (finalizeWrite ti) (fun _ s => s.2 t = some ti) := by
  have hwrite : Triple (rules cfg k t) (fun _ => True) (statement (.updateTaskInstanceGuarded ti ti.executorRef))
      (fun _ s => s.2 t = some ti) := by
    refine .call (fun _ _ _ _ => trivial) ?_
    intro s r s' _ hsem
    refine ⟨sem_guar hsem trivial, ?_⟩
    obtain ⟨⟨a, hmeets, hexec⟩, hnote⟩ := hsem
    obtain ⟨hfault, row, hrow, href, hopen⟩ := hmeets hstate
    simp only [World.exec, if_neg hfault, Option.some.injEq, Prod.mk.injEq] at hexec
    have happlied : (s.1.db.apply (.updateTaskInstanceGuarded ti ti.executorRef)).1 = .ok true := by
      simp only [Db.apply, hrow, href, hopen, and_self, if_true]
    rw [happlied] at hexec
    rw [hnote, ← hexec.1]
    exact Function.update_self _ _ _
  exact .bind (m := fun _ s => s.2 t = some ti) (.outcome hwrite) (fun _ => .pure (fun _ hs => hs)) (fun _ _ hs => hs)

/-- What storing the output of one task writes. -/
private def Stores (ti : TaskInstance) : {β : Type} → Write β → Prop
  | _, .setTaskOutput runID taskID _ => runID = ti.runID ∧ taskID = ti.taskID
  | _, _ => False

private theorem collectTaskOutput_keeps (hstate : ti.state = .success) :
    Keeps (rules cfg k t) (fun s => s.2 t = some ti) (collectTaskOutput cfg ti) := by
  have hbounds : ({ writes := Stores ti, halts := False } : Footprint).Bounds (collectTaskOutput cfg ti) :=
    collectTaskOutput_bounds (fun _ => ⟨rfl, rfl⟩)
  refine .of_uses hbounds (fun s s' hrely hs => hrely.trans hs) ?_
  intro β c hc s r s' hs hsem
  cases c with
  | write st =>
    cases st with
    | setTaskOutput runID taskID text =>
      refine ⟨sem_guar hsem ⟨ti, hs, hc.1.symm, hc.2.symm, hstate⟩, ?_⟩
      rw [hsem.2]
      exact hs
    | _ => exact hc.elim
  | _ =>
    refine ⟨sem_guar hsem trivial, ?_⟩
    rw [hsem.2]
    exact hs

private theorem recordFailure_keeps (ti : TaskInstance) : Keeps (rules cfg k t) (fun _ => True) (recordFailure ti) :=
  .bind (read_keeps _ (.ask _)) (fun _ => .bind (.bind (.outcome (guarded_keeps _ _)) (fun _ => .pure _)) (fun _ => .pure _))

private theorem finalizeTask_keeps (ti : TaskInstance) (code : Int) :
    Keeps (rules cfg k t) (fun _ => True) (finalizeTask cfg ti code) := by
  refine .ite (.bind (read_keeps _ (.ask _)) (fun now => ?_)) (.bind (recordFailure_keeps ti) (fun _ => .pure _))
  by_cases hzero : code = 0
  · subst hzero
    refine Triple.bind (finalizeWrite_won rfl) (fun _ => ?_) (fun _ _ _ => trivial)
    exact (collectTaskOutput_keeps rfl).weaken (fun _ _ _ => trivial)
  · simp only [if_neg hzero]
    exact .bind (.bind (.outcome (guarded_keeps _ _)) (fun _ => .pure _)) (fun _ => .pure _)

private theorem await_keeps (ti : TaskInstance) : Keeps (rules cfg k t) (fun _ => True) (awaitCompletion cfg ti cfg.bound) :=
  awaitCompletion_keeps read_keeps (plain_keeps ⟨trivial, nofun⟩) (finalizeTask_keeps ti) (recordFailure_keeps ti) _

private theorem job_keeps (job : Job) : Keeps (rules cfg k t) (fun _ => True) (job.body cfg) := by
  cases job with
  | launch run task ti =>
    exact runTask_keeps read_keeps (fun _ => recordFailure_keeps _) (guarded_keeps _ _) (fun _ => guarded_keeps _ _)
      (fun _ => await_keeps _)
  | await ti => exact await_keeps ti

private theorem recover_keeps : Keeps (rules cfg k t) (fun _ => True) (recover cfg) := by
  have hgo : ∀ job, Keeps (rules cfg k t) (fun _ => True) (command (.go job) : M Unit) := fun _ => plain_keeps (.lift trivial)
  refine .bind (read_keeps _ (.list _)) (fun queued => .bind (.forM (fun ti _ => ?_)) (fun _ =>
    .bind (read_keeps _ (.list _)) (fun running => .forM (fun ti _ => ?_))))
  · exact recoverQueued_keeps read_keeps (finalizeTask_keeps ti) (guarded_keeps _ _) (fun _ => guarded_keeps _ _) (fun _ => hgo _)
  · exact recoverRunning_keeps read_keeps (finalizeTask_keeps ti) (recordFailure_keeps ti) (hgo _)

private theorem locked_plain {x : M α} (hx : lockedPrint.Bounds x) : Uses plain (locked x) := by
  refine .around trivial (fun _ => trivial) (bounds_plain hx ?_)
  intro β s hs
  cases s with
  | setTaskOutput => exact hs
  | _ => trivial

private theorem queue_plain {x : M α} (hx : queuePrint.Bounds x) : Uses plain x :=
  bounds_plain hx (fun _ hs => by cases hs <;> trivial)

private theorem loop_keeps : Keeps (rules cfg k t) (fun _ => True) (run cfg) := by
  refine run_keeps (fun _ hx => plain_keeps (queue_plain hx)) recover_keeps (plain_keeps (.lift trivial))
    (fun _ => plain_keeps (locked_plain (processRunLocked_locked _))) (fun run => plain_keeps ?_) (fun ready => ?_)
  · refine .around trivial (fun _ => trivial) (bounds_plain (cancelQueued_bounds run) ?_)
    rintro β s ⟨hs, -⟩
    cases hs <;> trivial
  · exact .ite (.pure _) (plain_keeps (locked_plain ((admitInOrder_bounds _).mono admitPrint_le_lockedPrint)))

private theorem call_keeps_record (c : Call) : Keeps (rules cfg k t) (fun _ => True) (c.body cfg) :=
  call_keeps (fun _ hx => plain_keeps (queue_plain hx))
    (fun _ _ => plain_keeps (locked_plain ((cancelRunLocked_bounds _ _).mono cancelPrint_le_lockedPrint)))
    (fun _ _ _ => plain_keeps (locked_plain (retryTaskLocked_locked _ _)))
    (fun _ _ => plain_keeps (locked_plain (retryRunLocked_locked _)))
    (fun _ _ _ _ _ => plain_keeps (locked_plain (markTaskLocked_locked _ _ _)))
    (fun _ _ _ => plain_keeps (locked_plain (markRunLocked_locked _ _)))

/-- Every thread stores only what it has won. -/
private def outputDiscipline (cfg : Cfg) : Discipline ((meeting cfg).record noted (fun _ => none)) where
  inv _ := True
  free _ _ := True
  rely t s s' := s'.2 t = s.2 t
  guar k t _ c s r s' := (rules cfg k t).guar c s r s'
  rely_refl _ _ := rfl
  rely_trans _ _ _ _ h h' := h'.trans h
  free_rely _ _ _ _ _ := trivial
  guar_inv _ _ _ _ _ _ _ _ _ := trivial
  guar_rely _ _ t' _ _ _ _ _ hne _ hguar := hguar.2 t' (Ne.symm hne)
  start_inv _ _ _ _ _ _ _ _ := trivial
  start_rely _ _ _ _ _ _ _ hstart t' _ := congrFun hstart.2 t'
  start_holds t k p s s' _ _ hstart := by
    obtain ⟨w, won⟩ := s
    obtain ⟨w', won'⟩ := s'
    obtain ⟨hstart, -⟩ := hstart
    change Starts cfg t k p w w' at hstart
    cases hstart with
    | loop => exact loop_keeps _ trivial
    | call _ c => exact call_keeps_record c _ trivial
    | goroutine _ n job => exact job_keeps job _ trivial
  drift_inv _ _ _ _ := trivial
  drift_rely _ _ _ hdrift t := congrFun hdrift.2 t
  reset_inv _ _ _ _ := trivial
  reset_free _ _ _ _ _ := trivial

/-- While every recorded success meets its row, in every run each output is stored
by an attempt that has recorded its success. -/
theorem outputs_come_from_winners (cfg : Cfg) {c c' : Config Kind Cmd (Except Err Unit) (World × Won)} {t : Nat} {k : Kind}
    {runID taskID text : String} {r : Except Err Unit}
    (hreach : ((meeting cfg).record noted (fun _ => none)).Reachable (fun s => s.1.Fresh ∧ s.2 = fun _ => none) c)
    (hstep : ((meeting cfg).record noted (fun _ => none)).Step c (.act t k (.write (.setTaskOutput runID taskID text)) r) c') :
    ∃ ti, c.world.2 t = some ti ∧ ti.runID = runID ∧ ti.taskID = taskID ∧ ti.state = .success := by
  have hsound := (outputDiscipline cfg).reachable_sound (fun _ _ => ⟨trivial, fun _ => trivial⟩) hreach
  cases hstep with
  | act hthread hsem => exact ((outputDiscipline cfg).act_guar hsound hthread hsem).1.1

end Rules

/-! ### An attempt that lost -/

/-- The record after a move of a concrete run. -/
def noteMove (p : Pool) (won : Won) : Move → Won
  | .act t a =>
    match p.threads t with
    | some (k, .step c _) =>
      match p.world.exec k t a c with
      | some (r, _) => noted k t c r won
      | none => won
    | _ => won
  | _ => won

/-- A concrete run with its record, as long as every move is one that `ok` accepts. -/
def playRecorded (cfg : Cfg) (ok : Pool → Move → Bool) (p : Pool) (won : Won) : List Move → Option (Pool × Won)
  | [] => some (p, won)
  | m :: ms => if ok p m then (p.move cfg m).bind (fun q => playRecorded cfg ok q (noteMove p won m) ms) else none

section Play
variable {cfg : Cfg} {sys : System Kind Cmd (Except Err Unit) World} {ok : Pool → Move → Bool}
  (hstart : sys.start = Starts cfg) (hdrift : sys.drift = World.Edited)
  (hsem : ∀ p t a k {β : Type} (c : Cmd β) next r w, ok p (.act t a) = true → p.threads t = some (k, .step c next) →
    p.world.exec k t a c = some (r, w) → sys.sem k t c p.world r w)
include hstart hdrift hsem

private theorem move_recorded {p q : Pool} {won : Won} {m : Move} (hok : ok p m = true) (h : p.move cfg m = some q) :
    ∃ l, (sys.record noted (fun _ => none)).Step ⟨(p.world, won), p.threads⟩ l ⟨(q.world, noteMove p won m), q.threads⟩ := by
  have hsilent : (∀ t a, m ≠ .act t a) → ∃ l,
      (sys.record noted (fun _ => none)).Step ⟨(p.world, won), p.threads⟩ l ⟨(q.world, won), q.threads⟩ := by
    intro hact
    obtain ⟨l, hstep, hreset, hlabel⟩ := @move_step _ True trivial _ _ _ h
    cases hstep with
    | act hthread hsem =>
      obtain ⟨a, next, hm, -⟩ := hlabel _ _ _ _ rfl
      exact absurd hm (hact _ a)
    | start hidle hbegin => exact ⟨_, .start hidle ⟨by rw [hstart]; exact hbegin, rfl⟩⟩
    | drift hedit => exact ⟨_, .drift ⟨by rw [hdrift]; exact hedit, rfl⟩⟩
    | reset => exact absurd rfl hreset
  cases m with
  | act t a =>
    simp only [Pool.move] at h
    split at h
    · rename_i k β c next hth
      split at h
      · rename_i r w hexec
        cases h
        refine ⟨.act t k c r, ?_⟩
        simp only [noteMove, hth, hexec]
        exact .act hth ⟨hsem p t a k c next r w hok hth hexec, rfl⟩
      · cases h
    · cases h
  | boot now => exact hsilent (by simp)
  | call t c => exact hsilent (by simp)
  | go t n => exact hsilent (by simp)

private theorem playRecorded_runs {p q : Pool} {won now : Won} {ms : List Move}
    (h : playRecorded cfg ok p won ms = some (q, now)) :
    (sys.record noted (fun _ => none)).Runs ⟨(p.world, won), p.threads⟩ ⟨(q.world, now), q.threads⟩ := by
  induction ms generalizing p won with
  | nil =>
    cases h
    exact .refl
  | cons m ms ih =>
    simp only [playRecorded] at h
    split at h
    · rename_i hok
      obtain ⟨mid, hmid, hrest⟩ := Option.bind_eq_some_iff.mp h
      obtain ⟨l, hl⟩ := @move_recorded _ _ _ hstart hdrift hsem _ _ won _ hok hmid
      exact Relation.ReflTransGen.head ⟨l, hl, trivial⟩ (ih hrest)
    · cases h

end Play

def outputText : String := "\x7b\"rows\":\"1\"\x7d"

def outputCfg : Cfg :=
  { Cfg.ofDocuments [] with decodeStringMap := fun text => if text = outputText then some [("rows", "1")] else none }

def outputRun : DagRun :=
  { runID := "job__1", dagID := "job", logicalDate := 0, state := .running, triggerType := .manual, startedAt := some 0 }

def outputRow : TaskInstance :=
  { id := 1, runID := "job__1", taskID := "a", state := .running, tryNumber := 1, executorRef := "job__1/a/1"
    maxRetries := 0, logPath := "a.log" }

def outputWorld : World :=
  { db := { runs := ⟨[outputRun], List.pairwise_singleton _ _⟩, tasks := ⟨[outputRow], List.pairwise_singleton _ _⟩ } }

/-- The attempt is followed again after a restart and its process exits with 0. -/
def exitMoves : List Move :=
  .boot 0 :: List.replicate 4 (.act 0 .fine) ++ [.go 2 0, .act 2 .fine, .act 2 (.phase (some (.exited 0)))]

/-- The run is cancelled before the attempt records its success. -/
def lateMoves : List Move :=
  exitMoves ++ .call 1 (.cancelRun "job__1") :: List.replicate 10 (.act 1 .fine) ++
    [.act 2 .fine, .act 2 .fine, .act 2 (.text (some outputText))]

/-- The task whose output a command stores. -/
def stores : {β : Type} → Cmd β → Option (String × String)
  | _, .write (.setTaskOutput runID taskID _) => some (runID, taskID)
  | _, _ => none

/-- What a thread is about to store. -/
def storing (p : Pool) (t : Nat) : Option (String × String) :=
  match p.threads t with
  | some (_, .step c _) => stores c
  | _ => none

theorem cancelled_attempt_stores_output :
    ¬ ∀ (cfg : Cfg) (c c' : Config Kind Cmd (Except Err Unit) (World × Won)) (t : Nat) (k : Kind) (runID taskID text : String)
      (r : Except Err Unit), (recorded cfg).Reachable (fun s => s.1.Fresh ∧ s.2 = fun _ => none) c →
      (recorded cfg).Step c (.act t k (.write (.setTaskOutput runID taskID text)) r) c' →
      ∃ ti, c.world.2 t = some ti ∧ ti.runID = runID ∧ ti.taskID = taskID ∧ ti.state = .success := by
  have hplay : (playRecorded outputCfg (fun _ _ => true) (Pool.off outputWorld) (fun _ => none) lateMoves).map (fun q =>
      (storing q.1 2, q.2 2)) = some (some ("job__1", "a"), none) := by
    decide +kernel
  obtain ⟨⟨q, won⟩, hq, heq⟩ := Option.map_eq_some_iff.mp hplay
  simp only [Prod.mk.injEq] at heq
  obtain ⟨hstoring, hlost⟩ := heq
  intro h
  have hsem : ∀ (p : Pool) t a k {β : Type} (c : Cmd β) (next : β → Program Cmd (Except Err Unit)) r w, true = true →
      p.threads t = some (k, .step c next) → p.world.exec k t a c = some (r, w) →
      (system outputCfg True).sem k t c p.world r w :=
    fun _ _ a _ _ _ _ _ _ _ _ hexec => ⟨a, fun _ => trivial, hexec⟩
  have hruns : (recorded outputCfg).Runs ⟨(outputWorld, fun _ => none), fun _ => none⟩ ⟨(q.world, won), q.threads⟩ :=
    playRecorded_runs rfl rfl hsem hq
  have hreach : (recorded outputCfg).Reachable (fun s => s.1.Fresh ∧ s.2 = fun _ => none) ⟨(q.world, won), q.threads⟩ :=
    ⟨(outputWorld, fun _ => none), ⟨⟨_, _, rfl⟩, rfl⟩, hruns⟩
  simp only [storing] at hstoring
  split at hstoring
  · rename_i k β cmd next hthread
    cases cmd with
    | write st =>
      cases st with
      | setTaskOutput runID taskID text =>
        obtain ⟨ti, hti, -⟩ := h outputCfg _ _ 2 k runID taskID text _ hreach
          (.act (w := (q.world.written k 2 (.setTaskOutput runID taskID text), won)) hthread
            ⟨⟨.fine, fun _ => trivial, rfl⟩, rfl⟩)
        cases hlost.symm.trans hti
      | _ => cases hstoring
    | _ => cases hstoring
  · cases hstoring

/-- The attempt records its success in time and stores its output. -/
def timelyMoves : List Move := exitMoves ++ [.act 2 .fine, .act 2 .fine, .act 2 (.text (some outputText))]

/-- A check for the condition. -/
def meets (w : World) (a : Answer) : {β : Type} → Cmd β → Bool
  | _, .write (.updateTaskInstanceGuarded ti ref) => a ≠ .fault &&
    (w.db.task? ti.id).any (fun row => row.executorRef = ref && !row.state.isTerminal)
  | _, _ => true

def meetsMove (p : Pool) : Move → Bool
  | .act t a =>
    match p.threads t with
    | some (_, .step c _) => meets p.world a c
    | _ => true
  | _ => true

private theorem meets_spec {w : World} {a : Answer} {β : Type} {c : Cmd β} (h : meets w a c = true) : Meets w a c := by
  cases c with
  | write st =>
    cases st with
    | updateTaskInstanceGuarded ti ref =>
      intro _
      simp only [meets, Bool.and_eq_true, decide_eq_true_eq] at h
      obtain ⟨row, hrow, hcond⟩ := (Option.any_eq_true _ _).mp h.2
      simp only [Bool.and_eq_true, decide_eq_true_eq, Bool.not_eq_true'] at hcond
      exact ⟨h.1, row, hrow, hcond⟩
    | _ => trivial
  | _ => trivial

theorem outputs_come_from_winners_timely :
    ∃ c c' k text r, ((meeting outputCfg).record noted (fun _ => none)).Reachable
        (fun s => s.1.Fresh ∧ s.2 = fun _ => none) c ∧
      ((meeting outputCfg).record noted (fun _ => none)).Step c
        (.act 2 k (.write (.setTaskOutput "job__1" "a" text)) r) c' ∧
      ∃ ti, c.world.2 2 = some ti ∧ ti.runID = "job__1" ∧ ti.taskID = "a" ∧ ti.state = .success := by
  have hplay : (playRecorded outputCfg meetsMove (Pool.off outputWorld) (fun _ => none) timelyMoves).map (fun q =>
      storing q.1 2) = some (some ("job__1", "a")) := by
    decide +kernel
  obtain ⟨⟨q, won⟩, hq, hstoring⟩ := Option.map_eq_some_iff.mp hplay
  have hsem : ∀ (p : Pool) t a k {β : Type} (c : Cmd β) next r w, meetsMove p (.act t a) = true →
      p.threads t = some (k, .step c next) → p.world.exec k t a c = some (r, w) →
      (meeting outputCfg).sem k t c p.world r w := by
    intro p t a k β c next r w hok hthread hexec
    simp only [meetsMove, hthread] at hok
    exact ⟨a, meets_spec hok, hexec⟩
  have hreach : ((meeting outputCfg).record noted (fun _ => none)).Reachable (fun s => s.1.Fresh ∧ s.2 = fun _ => none)
      ⟨(q.world, won), q.threads⟩ :=
    ⟨(outputWorld, fun _ => none), ⟨⟨_, _, rfl⟩, rfl⟩, playRecorded_runs rfl rfl hsem hq⟩
  simp only [storing] at hstoring
  split at hstoring
  · rename_i k β cmd next hthread
    cases cmd with
    | write st =>
      cases st with
      | setTaskOutput runID taskID text =>
        cases hstoring
        have hstep : ((meeting outputCfg).record noted (fun _ => none)).Step ⟨(q.world, won), q.threads⟩
            (.act 2 k (.write (.setTaskOutput "job__1" "a" text)) _) _ :=
          .act (w := (q.world.written k 2 (.setTaskOutput "job__1" "a" text), won)) hthread
            ⟨⟨.fine, trivial, rfl⟩, rfl⟩
        exact ⟨_, _, k, text, _, hreach, hstep, outputs_come_from_winners outputCfg hreach hstep⟩
      | _ => cases hstoring
    | _ => cases hstoring
  · cases hstoring

end Cronova.Properties.Outputs
