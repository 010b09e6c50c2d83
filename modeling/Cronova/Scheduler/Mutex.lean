import Cronova.Scheduler.Footprint
import Cronova.Scheduler.System

/-! The discipline of the finalize mutex: which statements are issued only by
its holder, and that no thread touches what belongs to another. -/
namespace Cronova.Scheduler
open Cronova.Model Cronova.Store Cronova.Concurrency Cronova.Concurrency.Fallible

/-- What the other threads leave alone: the mutex a thread holds, its marks and
its record of revived runs, and while it holds the mutex the outcomes of runs. The
loop's thread finds all run states and all terminal rows as they were, and no
scheduled row with a ref it has not seen. -/
structure Undisturbed (t : Nat) (s s' : World) : Prop where
  holder : s.holder = some t → s'.holder = some t
  active : ∀ op, (t, op) ∈ s.active ↔ (t, op) ∈ s'.active
  revived : ∀ id, (t, id) ∈ s.revived ↔ (t, id) ∈ s'.revived
  runs : s.holder = some t → ∀ id a, s.db.runState id = some a → a.isTerminal = true ∨ t = 0 →
    s'.db.runState id = some a
  created : s.holder = some t → ∀ id, s.db.runState id = none →
    s'.db.runState id = none ∨ s'.db.runState id = some .queued ∨ t ≠ 0
  rows : s.holder = some 0 → t = 0 → ∀ id row, s.db.task? id = some row → row.state.isTerminal = true →
    s'.db.task? id = some row
  refs : s.holder = some 0 → t = 0 → ∀ row ∈ s'.db.tasks.rows, row.state = .scheduled →
    row ∈ s.db.tasks.rows ∨ row.executorRef = ""

/-- Where thread `t` may issue a statement. Only the discard of a queued run
writes outside the mutex, and then only cancellations. -/
def Permitted (t : Nat) (s : World) : {β : Type} → Write β → Prop
  | _, .updateDagRunState id .cancelled _ _ => s.holder = some t ∨ (t = 0 ∧ (0, Op.discardRun id) ∈ s.active)
  | _, .updateDagRunState _ _ _ _ | _, .updateDagRunSuccess _ _ _ | _, .updateDagRunDefinition _ _ _
  | _, .createTaskInstance _ => s.holder = some t
  | _, .updateTaskInstance ti =>
    s.holder = some t ∨ (t = 0 ∧ ti.state = .cancelled ∧ ∃ id, (0, Op.discardRun id) ∈ s.active)
  | _, .updateTaskInstanceGuarded ti _ => ti.state = .scheduled → ti.executorRef = ""
  | _, .createDagRunBounded run _ | _, .createManualDagRunBounded run _ _ => run.state = .queued
  | _, _ => True

/-- What a command needs before it is issued. -/
def Orderly (t : Nat) (s : World) : {β : Type} → Cmd β → Prop
  | _, .write w => Permitted t s w
  | _, .unlock => s.holder = some t
  | _, .enter (.discardRun _) | _, .leave (.discardRun _) _ => t = 0
  | _, _ => True

namespace Undisturbed

/-- The mutex, the marks, the record and the database are untouched. -/
theorem of_eq {t : Nat} {s s' : World} (hholder : s'.holder = s.holder) (hactive : s'.active = s.active)
    (hrevived : s'.revived = s.revived) (hruns : s'.db.runs = s.db.runs) (htasks : s'.db.tasks = s.db.tasks) :
    Undisturbed t s s' := by
  have hstate : ∀ id, s'.db.runState id = s.db.runState id := by
    intro id
    unfold Db.runState Db.run?
    rw [hruns]
  have htask : ∀ id, s'.db.task? id = s.db.task? id := by
    intro id
    unfold Db.task?
    rw [htasks]
  refine ⟨fun h => hholder.trans h, fun op => by rw [hactive], fun id => by rw [hrevived], ?_, ?_, ?_, ?_⟩
  · intro _ id a ha _
    rw [hstate, ha]
  · intro _ id ha
    exact .inl (by rw [hstate, ha])
  · intro _ _ id row hrow _
    rw [htask, hrow]
  · intro _ _ row hrow _
    exact .inl (htasks ▸ hrow)

theorem refl (t : Nat) (s : World) : Undisturbed t s s := of_eq rfl rfl rfl rfl rfl

theorem trans {t : Nat} {a b c : World} (hab : Undisturbed t a b) (hbc : Undisturbed t b c) : Undisturbed t a c := by
  refine ⟨fun h => hbc.holder (hab.holder h), fun op => (hab.active op).trans (hbc.active op),
    fun id => (hab.revived id).trans (hbc.revived id), ?_, ?_, ?_, ?_⟩
  · intro h id x hx hkeep
    exact hbc.runs (hab.holder h) id x (hab.runs h id x hx hkeep) hkeep
  · intro h id hx
    rcases hab.created h id hx with hnone | hqueued | hother
    · exact hbc.created (hab.holder h) id hnone
    · by_cases ht : t = 0
      · exact .inr (.inl (hbc.runs (hab.holder h) id _ hqueued (.inr ht)))
      · exact .inr (.inr ht)
    · exact .inr (.inr hother)
  · intro h ht id row hrow hterminal
    have hb : b.holder = some 0 := ht ▸ hab.holder (ht ▸ h)
    exact hbc.rows hb ht id row (hab.rows h ht id row hrow hterminal) hterminal
  · intro h ht row hrow hsched
    have hb : b.holder = some 0 := ht ▸ hab.holder (ht ▸ h)
    rcases hbc.refs hb ht row hrow hsched with hold | href
    · exact hab.refs h ht row hold hsched
    · exact .inr href

end Undisturbed

private theorem mem_forget {w : World} {t t' : Nat} (hne : t ≠ t') (id : String) :
    (t', id) ∈ w.revived ↔ (t', id) ∈ w.forget t := by
  simp [World.forget, Ne.symm hne]

private theorem mem_revivedBy {t t' : Nat} (hne : t ≠ t') {before after : Db} {id : String} :
    (t', id) ∉ revivedBy t before after := by
  intro h
  obtain ⟨r, -, heq⟩ := List.mem_map.mp h
  exact hne (congrArg Prod.fst heq)

private theorem permitted_runs {w : World} {t t' : Nat} (hne : t ≠ t') (hheld : w.holder = some t') {β : Type}
    {s : Write β} (hs : Permitted t w s) {id : String} {a : RunState} (ha : w.db.runState id = some a)
    (hkeep : a.isTerminal = true ∨ t' = 0) : (w.db.apply s).2.runState id = some a := by
  have hnot : w.holder ≠ some t := by
    rw [hheld]
    exact fun h => hne (Option.some.inj h).symm
  cases hrec : s.recordsState id with
  | none => exact Db.apply_runState hrec ha
  | some target =>
    cases s with
    | updateDagRunSuccess id' _ _ => exact absurd hs hnot
    | updateDagRunState id' target' started finished =>
      have hdiscard : target' = .cancelled ∧ t = 0 := by
        cases target' <;> first | exact absurd hs hnot | exact ⟨rfl, (hs.resolve_left hnot).1⟩
      obtain ⟨rfl, rfl⟩ := hdiscard
      -- a discard only takes queued and running runs
      have hterminal := hkeep.resolve_right (Ne.symm hne)
      rcases w.db.updateDagRunState_cases id' .cancelled started finished with ⟨_, heq⟩ | ⟨r, hr, hlegal, heq⟩
      · rw [heq]
        exact ha
      · have hid : id' = id := by
          by_contra hid
          simp [Write.recordsState, hid] at hrec
        subst hid
        obtain rfl : r.state = a := by simpa [Db.runState, hr] using ha
        revert hlegal hterminal
        cases r.state <;> simp [legalPriorRunStates, RunState.isTerminal]
    | _ => cases hrec

private theorem permitted_rows {w : World} {t : Nat} (hne : t ≠ 0) (hheld : w.holder = some 0) {β : Type}
    {s : Write β} (hs : Permitted t w s) :
    (∀ id row, w.db.task? id = some row → row.state.isTerminal = true → (w.db.apply s).2.task? id = some row) ∧
      ∀ row ∈ (w.db.apply s).2.tasks.rows, row.state = .scheduled → row ∈ w.db.tasks.rows ∨ row.executorRef = "" := by
  have hnot : w.holder ≠ some t := by
    rw [hheld]
    exact fun h => hne (Option.some.inj h).symm
  cases htouch : s.touchesTasks with
  | false =>
    have htasks := Db.apply_tasks (s := w.db) htouch
    refine ⟨?_, fun row hrow _ => .inl (htasks ▸ hrow)⟩
    intro id row hrow _
    unfold Db.task? at hrow ⊢
    rw [htasks]
    exact hrow
  | true =>
    cases s with
    | createTaskInstance ti => exact absurd hs hnot
    | updateTaskInstance ti => exact absurd (hs.resolve_left hnot).1 hne
    | updateTaskInstanceGuarded ti ref =>
      refine ⟨fun id row hrow hterminal => Db.guarded_terminal hrow hterminal, ?_⟩
      intro row hrow hsched
      rcases w.db.updateTaskInstanceGuarded_cases ti ref with heq | ⟨_, _, _, _, heq⟩ <;> rw [heq] at hrow
      · exact .inl hrow
      · rcases Db.mem_writeTask_cases hrow with hold | ⟨old, _, _, rfl⟩
        · exact .inl hold
        · exact .inr (hs hsched)
    | _ => cases htouch

/-- A permitted statement leaves the other threads undisturbed. -/
private theorem written_undisturbed {w : World} {k : Kind} {t t' : Nat} (hne : t ≠ t') {β : Type} {s : Write β}
    (hs : Permitted t w s) : Undisturbed t' w (w.written k t s) := by
  refine ⟨id, fun _ => .rfl, ?_, ?_, ?_, ?_, ?_⟩
  · intro id
    simp only [World.written, List.mem_append, mem_revivedBy hne, false_or]
  · intro hheld id a ha hkeep
    exact permitted_runs hne hheld hs ha hkeep
  · intro hheld id hnone
    have hnew : ∀ run, s.creates = some run → run.state = .queued := by
      intro run hrun
      cases s <;> cases hrun <;> exact hs
    rcases Db.apply_runState_none hnone hnew with h | h
    · exact .inl h
    · exact .inr (.inl h)
  · rintro hheld rfl
    exact (permitted_rows hne hheld hs).1
  · rintro hheld rfl
    exact (permitted_rows hne hheld hs).2

/-- An orderly command leaves the other threads undisturbed. -/
theorem effect_undisturbed {w w' : World} {k : Kind} {t t' : Nat} {β : Type} {c : Cmd β} {r : β}
    (heffect : World.Effect k t c w r w') (hc : Orderly t w c) (hne : t ≠ t') : Undisturbed t' w w' := by
  cases c with
  | write s =>
    obtain ⟨rfl, -⟩ | ⟨rfl, -⟩ := heffect
    · exact .refl t' w'
    · exact written_undisturbed hne hc
  | lock =>
    obtain ⟨rfl, hnone⟩ := heffect
    refine { Undisturbed.refl t' w with holder := ?_ }
    intro hheld
    rw [hnone] at hheld
    cases hheld
  | unlock =>
    obtain rfl := heffect
    refine { Undisturbed.refl t' w with holder := ?_ }
    intro hheld
    have hmine : w.holder = some t := hc
    rw [hmine] at hheld
    exact absurd (Option.some.inj hheld) hne
  | enter op =>
    obtain rfl := heffect
    refine { Undisturbed.refl t' w with active := ?_, revived := mem_forget hne }
    intro op'
    simp [Ne.symm hne]
  | leave op ok =>
    obtain rfl := heffect
    refine { Undisturbed.refl t' w with active := ?_, revived := mem_forget hne }
    intro op'
    rw [List.mem_erase_of_ne]
    rintro ⟨⟩
    exact hne rfl
  | _ =>
    obtain ⟨hdb, hholder, hactive, hrevived⟩ := heffect.silent_eq rfl
    exact .of_eq hholder hactive hrevived (congrArg Db.runs hdb) (congrArg Db.tasks hdb)

/-- A program that stays within a footprint keeps the mutex as it is and, without
marks of its own, the marks too. -/
theorem effect_frame {w w' : World} {k : Kind} {t : Nat} {β : Type} {c : Cmd β} {r : β} {F : Footprint}
    (heffect : World.Effect k t c w r w') (hc : F.allows c) :
    w'.holder = w.holder ∧ ((∀ op, ¬ F.marks op) → w'.active = w.active) := by
  cases c with
  | write s => obtain ⟨rfl, -⟩ | ⟨rfl, -⟩ := heffect <;> exact ⟨rfl, fun _ => rfl⟩
  | lock => exact hc.elim
  | unlock => exact hc.elim
  | enter op => exact heffect ▸ ⟨rfl, fun hmarks => absurd hc (hmarks op)⟩
  | leave op ok => exact heffect ▸ ⟨rfl, fun hmarks => absurd hc (hmarks op)⟩
  | _ =>
    obtain ⟨-, hholder, hactive, -⟩ := heffect.silent_eq rfl
    exact ⟨hholder, fun _ => hactive⟩

section Programs
variable {cfg : Cfg} {faults : Prop} {k : Kind} {t : Nat}

/-- A thread relies on not being disturbed, and promises orderly commands. -/
def mutexRules (cfg : Cfg) (faults : Prop) (k : Kind) (t : Nat) : Rules Cmd World where
  sem := (system cfg faults).sem k t
  rely := Undisturbed t
  guar c s _ s' := Orderly t s c ∧ ∀ t', t ≠ t' → Undisturbed t' s s'

/-- The program is orderly from every state. -/
def Safe (cfg : Cfg) (faults : Prop) (k : Kind) (t : Nat) {α : Type} (x : M α) : Prop :=
  Keeps (mutexRules cfg faults k t) (fun _ => True) x

private theorem orderly_guar {β : Type} {c : Cmd β} {s s' : World} {r : β}
    (hsem : (mutexRules cfg faults k t).sem c s r s') (hc : Orderly t s c) :
    (mutexRules cfg faults k t).guar c s r s' := by
  obtain ⟨a, -, hexec⟩ := hsem
  exact ⟨hc, fun t' hne => effect_undisturbed (World.exec_effect hexec) hc hne⟩

/-- The programs of a footprint are orderly where its statements are permitted. -/
theorem keeps_of_bounds {F : Footprint} {α : Type} {x : M α} {A : World → Prop} (hx : F.Bounds x)
    (hstable : Stable (mutexRules cfg faults k t) A)
    (hwrites : ∀ {β : Type} (w : Write β), F.writes w → ∀ s, A s → Permitted t s w)
    (hmarks : ∀ id, ¬ F.marks (.discardRun id))
    (hkeep : ∀ {β : Type} (c : Cmd β) s r s', F.allows c → A s → (mutexRules cfg faults k t).sem c s r s' → A s') :
    Keeps (mutexRules cfg faults k t) A x := by
  refine .of_uses hx hstable ?_
  intro β c hc s r s' hA hsem
  refine ⟨orderly_guar hsem ?_, hkeep c s r s' hc hA hsem⟩
  cases c with
  | write w => exact hwrites w hc s hA
  | enter op => cases op <;> first | trivial | exact absurd hc (hmarks _)
  | leave op ok => cases op <;> first | trivial | exact absurd hc (hmarks _)
  | unlock => exact hc.elim
  | _ => trivial

private theorem stable_true : Stable (mutexRules cfg faults k t) (fun _ => True) := fun _ _ _ _ => trivial

private theorem stable_holder : Stable (mutexRules cfg faults k t) (fun s => s.holder = some t) :=
  fun _ _ hrely h => hrely.holder h

private theorem permitted_of_holder {s : World} (h : s.holder = some t) {β : Type} {w : Write β} (hw : Tidy w) :
    Permitted t s w := by
  cases w with
  | updateDagRunState id target _ _ => cases target <;> first | exact h | exact .inl h
  | updateTaskInstance ti => exact .inl h
  | updateTaskInstanceGuarded ti ref => exact hw
  | updateDagRunSuccess => exact h
  | updateDagRunDefinition => exact h
  | createTaskInstance => exact h
  | createDagRunBounded => exact hw
  | createManualDagRunBounded => exact hw
  | _ => trivial

namespace Safe

/-- A body that stays within the footprint of the mutex may run under it. -/
theorem locked {α : Type} {body : M α} (hbody : lockedPrint.Bounds body) : Safe cfg faults k t (locked body) := by
  have hinner : Keeps (mutexRules cfg faults k t) (fun s => s.holder = some t) body := by
    refine keeps_of_bounds hbody stable_holder (fun _ hw _ hs => permitted_of_holder hs hw) ?_ ?_
    · intro id hid
      exact hid id rfl
    · intro β c s r s' hc hs hsem
      obtain ⟨a, -, hexec⟩ := hsem
      exact (effect_frame (World.exec_effect hexec) hc).1.trans hs
  refine .around stable_true ?_ hinner (fun _ => stable_holder) ?_
  · intro s s' _ hsem
    refine ⟨orderly_guar hsem trivial, ?_⟩
    obtain ⟨a, -, hexec⟩ := hsem
    obtain ⟨rfl, -⟩ := World.exec_effect hexec
    rfl
  · intro r s s' hs hsem
    exact ⟨orderly_guar hsem hs, trivial⟩

private theorem of_bounds {F : Footprint} {α : Type} {x : M α} (hx : F.Bounds x)
    (hwrites : ∀ {β : Type} (w : Write β), F.writes w → ∀ s, Permitted t s w) (hmarks : ∀ id, ¬ F.marks (.discardRun id)) :
    Safe cfg faults k t x :=
  keeps_of_bounds hx stable_true (fun w hw s _ => hwrites w hw s) hmarks (fun _ _ _ _ _ _ _ => trivial)

theorem queue {α : Type} {x : M α} (hx : queuePrint.Bounds x) : Safe cfg faults k t x := by
  refine of_bounds hx ?_ (fun _ h => h)
  intro β w hw s
  cases hw <;> trivial

private theorem permitted_attempt {s : World} {id n : Nat} {ref : String} {β : Type} {w : Write β}
    (h : AttemptWrite id ref n w) : Permitted t s w := by
  cases h with
  | outcome _ _ _ hsched => exact fun h => absurd h hsched
  | giveBack _ href => exact fun _ => href
  | output => trivial

theorem body (job : Job) : Safe cfg faults k t (job.body cfg) :=
  of_bounds (body_bounds job) (fun _ hw _ => permitted_attempt hw) (fun _ h => h)

theorem recover : Safe cfg faults k t (recover cfg) := by
  refine of_bounds recover_bounds ?_ (fun _ h => h)
  rintro β w ⟨id, ref, n, hw⟩ s
  exact permitted_attempt hw

/-- Discarding a run happens outside the mutex, on the loop's thread. -/
theorem discardRun (run : DagRun) : Safe cfg faults k 0 (discardRun run) := by
  let A : World → Prop := fun s => (0, Op.discardRun run.runID) ∈ s.active
  have hstable : Stable (mutexRules cfg faults k 0) A := fun _ _ hrely h => (hrely.active _).mp h
  have hbody : Keeps (mutexRules cfg faults k 0) A (cancelQueued run) := by
    refine keeps_of_bounds (cancelQueued_bounds run) hstable ?_ (fun _ h => h) ?_
    · rintro β w ⟨hw, hid⟩ s hs
      cases hw with
      | run id startedAt finishedAt =>
        obtain rfl : id = run.runID := hid id (by simp [Write.recordsState])
        exact .inr ⟨rfl, hs⟩
      | task hstate => exact .inr ⟨rfl, hstate, _, hs⟩
    · intro β c s r s' hc hs hsem
      obtain ⟨a, -, hexec⟩ := hsem
      have hsame := (effect_frame (World.exec_effect hexec) hc).2 (fun _ h => h)
      simp only [A, hsame]
      exact hs
  refine .around stable_true ?_ hbody (fun _ => hstable) ?_
  · intro s s' _ hsem
    refine ⟨orderly_guar hsem rfl, ?_⟩
    obtain ⟨a, -, hexec⟩ := hsem
    cases hexec
    exact List.mem_cons_self
  · intro r s s' _ hsem
    exact ⟨orderly_guar hsem rfl, trivial⟩

theorem loop : Safe cfg faults k 0 (run cfg) := by
  refine run_keeps (fun _ hx => queue hx) recover ?_ (fun _ => locked (processRunLocked_locked _)) discardRun ?_
  · refine .lift stable_true ?_
    intro s r s' _ hsem
    exact ⟨orderly_guar hsem trivial, trivial⟩
  · intro ready
    exact .ite (.pure _) (locked ((admitInOrder_bounds _).mono admitPrint_le_lockedPrint))

theorem call (c : Call) : Safe cfg faults k t (c.body cfg) :=
  call_keeps (fun _ hx => queue hx)
    (fun _ _ => locked ((cancelRunLocked_bounds _ _).mono cancelPrint_le_lockedPrint))
    (fun _ _ _ => locked (retryTaskLocked_locked _ _)) (fun _ _ => locked (retryRunLocked_locked _))
    (fun _ _ _ _ _ => locked (markTaskLocked_locked _ _ _)) (fun _ _ _ => locked (markRunLocked_locked _ _))

end Safe

theorem starts_undisturbed {p : Program Cmd (Except Err Unit)} {s s' : World} (h : Starts cfg t k p s s') (t' : Nat) :
    Undisturbed t' s s' := by
  cases h with
  | loop => exact .of_eq rfl rfl rfl rfl rfl
  | call => exact .refl t' s
  | goroutine => exact .of_eq rfl rfl rfl rfl rfl

/-- Every thread of the scheduler keeps to the mutex. -/
def mutexDiscipline (cfg : Cfg) (faults : Prop) : Discipline (system cfg faults) where
  inv _ := True
  free _ _ := True
  rely := Undisturbed
  guar k t _ c s _ s' := Orderly t s c ∧ ∀ t', t ≠ t' → Undisturbed t' s s'
  rely_refl := .refl
  rely_trans _ _ _ _ := .trans
  free_rely _ _ _ _ _ := trivial
  guar_inv _ _ _ _ _ _ _ _ _ := trivial
  guar_rely _ _ t' _ _ _ _ _ hne _ hguar := hguar.2 t' hne
  start_inv _ _ _ _ _ _ _ _ := trivial
  start_rely _ _ _ _ _ _ _ hstart t' _ := starts_undisturbed hstart t'
  start_holds t k p s s' _ _ hstart := by
    cases hstart with
    | loop => exact Safe.loop _ trivial
    | call _ c => exact Safe.call c _ trivial
    | goroutine _ n job => exact Safe.body job _ trivial
  drift_inv _ _ _ _ := trivial
  drift_rely s s' _ hdrift t := by
    obtain ⟨dags, rows, edges, pools, rfl⟩ := hdrift
    exact .of_eq rfl rfl rfl rfl rfl
  reset_inv _ _ _ _ := trivial
  reset_free _ _ _ _ _ := trivial

end Programs
end Cronova.Scheduler
