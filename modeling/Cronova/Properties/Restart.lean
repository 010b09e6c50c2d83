import Cronova.Scheduler.Footprint
import Cronova.Scheduler.Sequential

/-! Recovery after a restart asks the executor about every running row. A row
that waits for a child run is asked about like any other, although its ref names
no process. -/
namespace Cronova.Properties.Restart
open Cronova.Model Cronova.Store Cronova.Concurrency Cronova.Concurrency.Fallible Cronova.Scheduler

/-- The row has kept its state, its count of attempts and its ref. -/
def Untouched (ti : TaskInstance) (db : Db) : Prop :=
  ∃ row, db.task? ti.id = some row ∧ row.state = ti.state ∧ row.tryNumber = ti.tryNumber ∧
    row.executorRef = ti.executorRef

/-- The executor answers every probe of the ref with `p`. -/
def Probed (ref : String) (p : Option Phase) : Known
  | _, .ask (.probe ref'), a => ref' = ref → (Ask.probe ref').reply a = some p
  | _, _, _ => True

/-- The answers that leave a running row as it is: none, or that the process runs. -/
def Sparing (p : Option Phase) : Prop := p = none ∨ p = some .running

variable {cfg : Cfg} {known : Known} {k : Kind} {t : Nat} {ti : TaskInstance} {p : Option Phase}

/-! ### The row itself -/

/-- The row is stored as it was listed. -/
private def Stored (ti : TaskInstance) (s : World) : Prop := s.db.task? ti.id = some ti

/-- The row is stored and no longer running. -/
private def Ended (ti : TaskInstance) (s : World) : Prop :=
  ∃ row, s.db.task? ti.id = some row ∧ row.state ≠ .running

private theorem finalizeWrite_ended {new : TaskInstance} (hid : new.id = ti.id) (href : new.executorRef = ti.executorRef)
    (hrunning : ti.state = .running) (hnew : new.state ≠ .running) :
    Triple (solo known k t) (Stored ti) (finalizeWrite new) (Ends (fun _ => Ended ti) (fun _ => False)) := by
  have hwrite : Triple (solo known k t) (Stored ti) (statement (.updateTaskInstanceGuarded new new.executorRef))
      (fun _ => Ended ti) := by
    refine (solo_statement _).weaken ?_
    rintro r s' ⟨s, hs, -, rfl⟩
    have hstored : s.db.task? new.id = some ti := hid ▸ hs
    have happly : s.db.apply (.updateTaskInstanceGuarded new new.executorRef) = (.ok true, s.db.writeTask new) := by
      simp only [Db.apply, hstored]
      exact if_pos ⟨href.symm, by rw [hrunning]; rfl⟩
    refine ⟨onRow new ti, ?_, hnew⟩
    simp only [World.written, happly]
    rw [← hid]
    exact Db.task?_writeTask_self hstored
  refine .bind (m := fun r s => r.isOk = true ∧ Ended ti s) (.outcome (hwrite.weaken fun _ _ h => ⟨rfl, h⟩)) ?_ ?_
  · exact fun _ => .pure (fun _ hs => hs.2)
  · rintro e s ⟨hok, -⟩
    cases hok

private theorem recordFailure_ended (hrunning : ti.state = .running) :
    Triple (solo known k t) (Stored ti) (recordFailure ti) (Ends (fun _ => Ended ti) (fun _ => False)) := by
  refine .seq (solo_asked _) ?_ (fun _ _ h => h)
  intro now
  have hstate : (failedAttempt ti now).state ≠ .running := by
    unfold failedAttempt
    dsimp only
    split <;> nofun
  have hwrite : Triple (solo known k t) (Stored ti) (finalizeWrite (failedAttempt ti now))
      (Ends (fun _ => Ended ti) (fun _ => False)) := finalizeWrite_ended rfl rfl hrunning hstate
  exact .seq hwrite (fun _ => .pure (fun _ hs => hs)) (fun _ _ h => h)

private theorem collectTaskOutput_ended (new : TaskInstance) :
    Triple (solo known k t) (Ended ti) (collectTaskOutput cfg new) (Ends (fun _ => Ended ti) (fun _ => False)) := by
  refine .ite (fun _ => .pure (fun _ hs => hs)) (fun _ => .seq (solo_asked _) ?_ (fun _ _ h => h))
  intro text
  split
  · exact .pure (fun _ hs => hs)
  · dsimp only
    split
    · refine .bind (m := fun r s => r.isOk = true ∧ Ended ti s) ?_ (fun _ => ?_) ?_
      · refine .bind (m := fun r s => r.isOk = true ∧ Ended ti s) (.outcome ?_) ?_ (fun _ _ h => h)
        · refine (solo_statement _).weaken ?_
          rintro r s' ⟨s, ⟨row, hrow, hstate⟩, -, rfl⟩
          exact ⟨rfl, row, hrow, hstate⟩
        · exact fun _ => .pure (fun _ hs => ⟨rfl, hs.2⟩)
      · exact (solo_asked _).strengthen (fun _ hs => hs.2)
      · rintro e s ⟨hok, -⟩
        cases hok
    · exact solo_asked _

private theorem finalizeTask_ended (code : Int) (hrunning : ti.state = .running) :
    Triple (solo known k t) (Stored ti) (finalizeTask cfg ti code) (Ends (fun _ => Ended ti) (fun _ => False)) := by
  refine .ite (fun _ => ?_) (fun _ => ?_)
  · refine .seq (solo_asked _) ?_ (fun _ _ h => h)
    intro now
    refine .seq (finalizeWrite_ended rfl rfl hrunning ?_) ?_ (fun _ _ h => h)
    · dsimp only
      split <;> nofun
    · exact fun _ => .ite (fun _ => collectTaskOutput_ended _) (fun _ => .pure (fun _ hs => hs))
  · exact .seq (recordFailure_ended hrunning) (fun _ => .pure (fun _ hs => hs)) (fun _ _ h => h)

/-- What the recovery of a running row makes of it, by the executor's answer. -/
private def Judged (ti : TaskInstance) (p : Option Phase) (s : World) : Prop :=
  (Sparing p → Stored ti s) ∧ (¬ Sparing p → Ended ti s)

private theorem recoverRunning_judged (hrunning : ti.state = .running) :
    Triple (solo (Probed ti.executorRef p) k t) (Stored ti) (recoverRunning cfg ti)
      (Ends (fun _ => Judged ti p) (fun _ => False)) := by
  have hended : ¬ Sparing p → ∀ s, Ended ti s → Judged ti p s :=
    fun hp _ hs => ⟨fun hsparing => absurd hsparing hp, fun _ => hs⟩
  refine .seq (m := fun r s => Stored ti s ∧ r = p) ?_ ?_ (fun _ _ h => h)
  · refine (solo_ask _).weaken ?_
    rintro (e | r) s hs
    · exact hs
    · obtain ⟨hstored, a, hknown, hreply⟩ := hs
      have : (Ask.probe ti.executorRef).reply a = some p := hknown rfl
      exact ⟨hstored, Option.some.inj (hreply.symm.trans this)⟩
  · intro r s hs
    obtain ⟨hstored, rfl⟩ := hs
    have hspare : Sparing r → Judged ti r s := fun hsparing => ⟨fun _ => hstored, fun hnot => absurd hsparing hnot⟩
    split
    · exact hspare (.inl rfl)
    · refine (finalizeTask_ended _ hrunning).weaken ?_ s hstored
      rintro (e | _) s' hs'
      · exact hs'
      · exact hended (by simp [Sparing]) s' hs'
    · refine solo_go (p := Stored ti) _ ?_ s hstored
      exact fun s₁ hs₁ => ⟨fun _ => hs₁, fun hnot => absurd (.inr rfl) hnot⟩
    · refine Triple.seq (recordFailure_ended hrunning) (fun _ => .pure ?_) (fun _ _ h => h) s hstored
      exact hended (by simp [Sparing])

/-! ### The other rows -/

/-- The recovery of another row leaves this one alone. -/
private theorem reattach_other {other : TaskInstance} {id : Nat} (hne : other.id ≠ id) (row : Option TaskInstance)
    {x : M Unit} (hx : (reattachPrint other).Bounds x) :
    Keeps (solo known k t) (fun s => s.db.task? id = row) x := by
  refine solo_uses hx ?_
  intro β c hc s r s' hs heffect
  cases c with
  | write w =>
    rcases heffect with ⟨rfl, -⟩ | ⟨rfl, -⟩
    · exact hs
    · simp only [World.written]
      have hguarded : ∀ (new : TaskInstance) (ref : String), new.id = other.id →
          (s.db.apply (.updateTaskInstanceGuarded new ref)).2.task? id = row := by
        intro new ref hid
        rcases s.db.updateTaskInstanceGuarded_cases new ref with heq | ⟨_, _, _, _, heq⟩
        · rw [heq]
          exact hs
        · rw [heq]
          exact (Db.task?_writeTask_ne (fun h => hne (hid.symm.trans h.symm))).trans hs
      have hw : AttemptWrite other.id other.executorRef other.tryNumber w := hc
      cases hw with
      | outcome hid => exact hguarded _ _ hid
      | giveBack hid => exact hguarded _ _ hid
      | output runID taskID text => exact hs
  | enter op => exact hc.elim
  | leave op ok => exact hc.elim
  | lock => exact hc.elim
  | unlock => exact hc.elim
  | _ =>
    rw [(heffect.silent_eq rfl).1]
    exact hs

/-- Every listed row but `ti` is recovered without touching it. -/
private theorem recoverQueued_other {other : TaskInstance} (hne : other.id ≠ ti.id) :
    Triple (solo known k t) (Stored ti) (recoverQueued cfg other) (Ends (fun _ => Stored ti) (fun _ => False)) := by
  have hkeeps : Keeps (solo known k t) (Stored ti) (recoverQueued cfg other) :=
    reattach_other hne (some ti) (recoverQueued_bounds other)
  refine ((recoverQueued_total other).triple hkeeps).weaken ?_
  rintro (e | _) s ⟨hs, hok⟩
  · cases hok
  · exact hs

private theorem recoverRunning_other {other : TaskInstance} (hne : other.id ≠ ti.id) (row : Option TaskInstance) :
    Triple (solo known k t) (fun s => s.db.task? ti.id = row) (recoverRunning cfg other)
      (Ends (fun _ s => s.db.task? ti.id = row) (fun _ => False)) := by
  have hkeeps : Keeps (solo known k t) (fun s => s.db.task? ti.id = row) (recoverRunning cfg other) :=
    reattach_other hne row (recoverRunning_bounds other)
  refine ((recoverRunning_total other).triple hkeeps).weaken ?_
  rintro (e | _) s ⟨hs, hok⟩
  · cases hok
  · exact hs

/-- The row is still to be recovered, or it has been. -/
private structure Pending (ti : TaskInstance) (p : Option Phase) (rest : List TaskInstance) (s : World) : Prop where
  distinct : (rest.map (·.id)).Nodup
  left : (∃ row ∈ rest, row.id = ti.id) → ti ∈ rest ∧ Stored ti s
  done : (∀ row ∈ rest, row.id ≠ ti.id) → Judged ti p s

private theorem recoverRunning_pending (hrunning : ti.state = .running) (row : TaskInstance) (rest : List TaskInstance) :
    Triple (solo (Probed ti.executorRef p) k t) (Pending ti p (row :: rest)) (recoverRunning cfg row)
      (Ends (fun _ => Pending ti p rest) (fun _ => False)) := by
  intro s hs
  have hdistinct := List.nodup_cons.mp (List.map_cons ▸ hs.distinct)
  by_cases hid : row.id = ti.id
  · obtain ⟨hmem, hstored⟩ := hs.left ⟨row, by simp, hid⟩
    have hrest : ∀ other ∈ rest, other.id ≠ ti.id := by
      intro other hother heq
      exact hdistinct.1 (List.mem_map.mpr ⟨other, hother, heq.trans hid.symm⟩)
    obtain rfl : ti = row := (List.mem_cons.mp hmem).resolve_right (fun h => hrest ti h rfl)
    refine (recoverRunning_judged hrunning).weaken ?_ s hstored
    rintro (e | _) s' hs'
    · exact hs'
    · exact ⟨hdistinct.2, fun ⟨other, hother, heq⟩ => absurd heq (hrest other hother), fun _ => hs'⟩
  · refine (recoverRunning_other hid (s.db.task? ti.id)).weaken ?_ s rfl
    rintro (e | _) s' hs'
    · exact hs'
    · refine ⟨hdistinct.2, ?_, ?_⟩
      · rintro ⟨other, hother, heq⟩
        obtain ⟨hmem, hstored⟩ := hs.left ⟨other, by simp [hother], heq⟩
        refine ⟨(List.mem_cons.mp hmem).resolve_left ?_, hs'.trans hstored⟩
        rintro rfl
        exact hid rfl
      · intro hnone
        have hjudged := hs.done (by
          intro other hother
          rcases List.mem_cons.mp hother with rfl | hother
          · exact hid
          · exact hnone other hother)
        refine ⟨fun hp => hs'.trans (hjudged.1 hp), fun hp => ?_⟩
        obtain ⟨row', hrow', hstate⟩ := hjudged.2 hp
        exact ⟨row', hs'.trans hrow', hstate⟩

private theorem recover_judged (hrunning : ti.state = .running) :
    Triple (solo (Probed ti.executorRef p) k t) (Stored ti) (recover cfg)
      (Ends (fun _ => Judged ti p) (fun _ => False)) := by
  refine .seq (m := fun queued s => Stored ti s ∧ ∀ row ∈ queued, row.id ≠ ti.id) ?_ (fun queued => ?_) (fun _ _ h => h)
  · refine (solo_list _).weaken ?_
    rintro (e | queued) s hs
    · exact hs
    · obtain ⟨rfl, hstored⟩ := hs
      refine ⟨hstored, ?_⟩
      intro row hrow hid
      obtain ⟨hmem, hstate⟩ := Db.mem_listTaskInstancesByState.mp hrow
      have : some row = some ti := by rw [← Db.task?_of_mem hmem, hid]; exact hstored
      cases this
      rw [hrunning] at hstate
      cases hstate
  · refine .seq (m := fun _ => Stored ti) ?_ (fun _ => ?_) (fun _ _ h => h)
    · intro s hs
      refine Triple.forM_mem ?_ s hs.1
      exact fun row hrow => recoverQueued_other (hs.2 row hrow)
    · refine .seq (solo_list _) (fun running => ?_) (fun _ _ h => h)
      refine (Triple.forM_rest (recoverRunning_pending hrunning) running).mono ?_ ?_
      · rintro s ⟨rfl, hstored⟩
        obtain ⟨hmem, -⟩ := Db.task?_spec hstored
        have hlisted : ti ∈ s.db.listTaskInstancesByState .running :=
          Db.mem_listTaskInstancesByState.mpr ⟨hmem, hrunning⟩
        refine ⟨Db.listTaskInstancesByState_nodup, fun _ => ⟨hlisted, hstored⟩, fun hnone => ?_⟩
        exact absurd rfl (hnone ti hlisted)
      · rintro (e | _) s hs
        · exact hs
        · exact hs.done (by simp)

/-- An executor that knows no ref it is asked about. -/
def knowsNoRef (_ : Nat) : {β : Type} → Cmd β → Answer
  | _, .ask (.probe _) => .phase (some .unknown)
  | _, _ => .fine

def childRun : DagRun :=
  { runID := "child__1", dagID := "child", logicalDate := 0, state := .queued, triggerType := .subdag,
    parentRunID := "job__1" }

/-- The first attempt of a sub-workflow task that has no retries. -/
def waitingRow : TaskInstance :=
  { id := 1, runID := "job__1", taskID := "sub", state := .running, tryNumber := 1, executorRef := "subdag:child__1" }

def waitingWorld : World :=
  { db := { runs := ⟨[childRun], List.pairwise_singleton _ _⟩, tasks := ⟨[waitingRow], List.pairwise_singleton _ _⟩ } }

end Cronova.Properties.Restart
