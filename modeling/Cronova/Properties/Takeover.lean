import Cronova.Scheduler.Footprint
import Cronova.Scheduler.Serve

/-! Dispatches by several processes. While the lease is taken over only from
processes that have stopped, every dispatch is made by the process that acquired
the lease last, and no try of a task is dispatched by two processes. -/
namespace Cronova.Properties.Takeover
open Cronova.Model Cronova.Store Cronova.Concurrency Cronova.Concurrency.Fallible Cronova.Scheduler

/-- The process that acquired the lease last. -/
def latest (log : List LeaseEvent) : Option Nat :=
  log.findSome? (fun e => match e with
    | .acquired p => some p
    | .dispatched _ _ _ => none)

/-- Every dispatch is made by the process that has acquired the lease last. -/
def Fenced : List LeaseEvent → Prop
  | [] => True
  | .acquired _ :: log => Fenced log
  | .dispatched p _ _ :: log => latest log = some p ∧ Fenced log

/-- No try of a task is dispatched by two processes. -/
def Once (log : List LeaseEvent) : Prop :=
  ∀ p q id tryNumber, .dispatched p id tryNumber ∈ log → .dispatched q id tryNumber ∈ log → p = q

/-- The lease is acquired only when every other process that schedules has stopped. -/
def Exclusive (k : ServeKind) (_ : Nat) : {β : Type} → ServeCmd β → Cluster → β → Prop
  | _, .acquireLease, c, r => r.isOk = true → ∀ q, q ≠ k.process → (c.memory q).serving = true → (c.memory q).stopped = true
  | _, _, _, _ => True

/-! ### What one command does -/

structure Inv (c : Cluster) : Prop where
  /-- A process that schedules and has not stopped is the latest. -/
  current : ∀ p, (c.memory p).serving = true → (c.memory p).stopped = false → latest c.log = some p
  tries : Cluster.KeepsTries c.db c.log
  fenced : Fenced c.log
  once : Once c.log

/-- What the loop of a process may count on: it schedules for good, and until it stops
nobody else dispatches. -/
def Follows (t : Nat) (c c' : Cluster) : Prop := ∀ p, t = 2 * p →
  ((c.memory p).serving = true → (c'.memory p).serving = true) ∧
  ((c.memory p).stopped = true → (c'.memory p).stopped = true) ∧
  ((c.memory p).serving = true → (c'.memory p).stopped = true ∨
    ∀ q id tryNumber, .dispatched q id tryNumber ∈ c'.log → .dispatched q id tryNumber ∈ c.log)

theorem Follows.refl (t : Nat) (c : Cluster) : Follows t c c := fun _ _ => ⟨id, id, fun _ => .inr (fun _ _ _ h => h)⟩

theorem Follows.trans {t : Nat} {a b c : Cluster} (h : Follows t a b) (h' : Follows t b c) : Follows t a c := by
  intro p hp
  obtain ⟨hserving, hstopped, hlog⟩ := h p hp
  obtain ⟨hserving', hstopped', hlog'⟩ := h' p hp
  refine ⟨hserving' ∘ hserving, hstopped' ∘ hstopped, fun hp => ?_⟩
  rcases hlog hp with hs | hold
  · exact .inl (hstopped' hs)
  · refine (hlog' (hserving hp)).imp id (fun hnew q id tryNumber hmem => ?_)
    exact hold q id tryNumber (hnew q id tryNumber hmem)

def Rely (t : Nat) (c c' : Cluster) : Prop := Inv c → Inv c' ∧ Follows t c c'

def Guar (t : Nat) (c c' : Cluster) : Prop := Inv c → Inv c' ∧ ∀ t', t' ≠ t → Follows t' c c'

section Step
variable {c c' : Cluster} {k : ServeKind} {t p : Nat} {a : Answer}

/-- Nothing is dispatched or acquired. -/
structure Quiet (c c' : Cluster) : Prop where
  log : c'.log = c.log
  tries : Cluster.KeepsTries c.db c.log → Cluster.KeepsTries c'.db c.log
  serving : ∀ p, (c'.memory p).serving = (c.memory p).serving
  stopped : ∀ p, (c.memory p).stopped = true → (c'.memory p).stopped = true

theorem Quiet.follows (h : Quiet c c') (t : Nat) : Follows t c c' := by
  refine fun p _ => ⟨fun hp => (h.serving p).trans hp, h.stopped p, fun _ => .inr (fun q id tryNumber hmem => ?_)⟩
  rw [h.log] at hmem
  exact hmem

theorem Quiet.guar (h : Quiet c c') : Guar t c c' := by
  refine fun hi => ⟨⟨fun p hp hrunning => ?_, ?_, ?_, ?_⟩, fun t' _ => h.follows t'⟩
  · have hbefore : (c.memory p).stopped = false := by
      cases hs : (c.memory p).stopped with
      | false => rfl
      | true => exact absurd (h.stopped p hs) (by rw [hrunning]; nofun)
    rw [h.log]
    exact hi.current p ((h.serving p).symm.trans hp) hbefore
  · rw [h.log]
    exact h.tries hi.tries
  · rw [h.log]
    exact hi.fenced
  · rw [h.log]
    exact hi.once

/-- The loop of a process that has not stopped dispatches a try that nobody has
dispatched before. -/
theorem guar_dispatch {task tryNumber : Nat} (hserving : (c.memory p).serving = true) (hrunning : (c.memory p).stopped = false)
    (hlog : c'.log = .dispatched p task tryNumber :: c.log)
    (hfresh : ∀ q n, .dispatched q task n ∈ c.log → n < tryNumber)
    (hrow : ∀ row, c'.db.task? task = some row → row.tryNumber = tryNumber)
    (hother : ∀ other, other ≠ task → c'.db.task? other = c.db.task? other)
    (hmemory : ∀ q, (c'.memory q).serving = (c.memory q).serving ∧ (c'.memory q).stopped = (c.memory q).stopped) :
    Guar (2 * p) c c' := by
  intro hi
  have hlatest : latest c'.log = latest c.log := by
    rw [hlog]
    rfl
  refine ⟨⟨fun q hq hq' => ?_, ?_, ?_, ?_⟩, fun t' hne q hq => ⟨?_, ?_, ?_⟩⟩
  · rw [hlatest]
    exact hi.current q ((hmemory q).1.symm.trans hq) ((hmemory q).2.symm.trans hq')
  · intro q other n hmem row hrow'
    rw [hlog] at hmem
    by_cases hid : other = task
    · subst hid
      rw [hrow row hrow']
      rcases List.mem_cons.mp hmem with heq | hold
      · cases heq
        exact Nat.le_refl _
      · exact Nat.le_of_lt (hfresh q n hold)
    · rcases List.mem_cons.mp hmem with heq | hold
      · cases heq
        exact absurd rfl hid
      · rw [hother other hid] at hrow'
        exact hi.tries q other n hold row hrow'
  · rw [hlog]
    exact ⟨hi.current p hserving hrunning, hi.fenced⟩
  · intro q q' other n hmem hmem'
    rw [hlog] at hmem hmem'
    rcases List.mem_cons.mp hmem with heq | hold <;> rcases List.mem_cons.mp hmem' with heq' | hold'
    · cases heq
      cases heq'
      rfl
    · cases heq
      exact absurd (hfresh q' _ hold') (Nat.lt_irrefl _)
    · cases heq'
      exact absurd (hfresh q _ hold) (Nat.lt_irrefl _)
    · exact hi.once q q' other n hold hold'
  · rw [(hmemory q).1]
    exact id
  · rw [(hmemory q).2]
    exact id
  · intro hserving'
    left
    rw [(hmemory q).2]
    by_contra hrunning'
    have hq' : latest c.log = some q := hi.current q hserving' (by simpa using hrunning')
    rw [hi.current p hserving hrunning] at hq'
    obtain rfl := Option.some.inj hq'
    exact hne hq

/-- A command of the loop, executed in the memory of its process. -/
theorem exec_scheduler {β : Type} {cmd : Cmd β} {r : β} (h : c.exec k t a (.scheduler cmd) = some (r, c')) :
    ∃ w, World.Effect .loop t cmd (c.world k.process) r w ∧
      c' = { c with db := w.db, memory := Function.update c.memory k.process { c.memory k.process with world := w }
                    log := ((dispatches cmd r).map (fun d => .dispatched k.process d.1 d.2)).toList ++ c.log } ∧
      ((c.memory k.process).stopped = true → World.isWrite cmd = true → dispatches cmd r = none ∧ w.db = c.db) := by
  obtain ⟨⟨r', w⟩, hexec, heq⟩ := Option.map_eq_some_iff.mp h
  simp only [Prod.mk.injEq] at heq
  obtain ⟨rfl, rfl⟩ := heq
  refine ⟨w, World.exec_effect hexec, rfl, fun hstopped hwrite => ?_⟩
  cases cmd with
  | write st =>
    simp only [hstopped, usesStore, Bool.and_self, if_true, World.exec, Option.some.injEq, Prod.mk.injEq] at hexec
    obtain ⟨rfl, rfl⟩ := hexec
    refine ⟨?_, rfl⟩
    cases st <;> rfl
  | _ => cases hwrite

private theorem memory_flags {w : World} (q : Nat) :
    (Function.update c.memory p { c.memory p with world := w } q).serving = (c.memory q).serving ∧
    (Function.update c.memory p { c.memory p with world := w } q).stopped = (c.memory q).stopped := by
  by_cases hq : q = p
  · subst hq
    rw [Function.update_self]
    exact ⟨rfl, rfl⟩
  · rw [Function.update_of_ne hq]
    exact ⟨rfl, rfl⟩

/-- A command that dispatches nothing and leaves the database alone. -/
private theorem quiet_same {w : World} (hdb : w.db = c.db) {d : Option (Nat × Nat)} (hd : d = none) :
    Quiet c { c with db := w.db, memory := Function.update c.memory p { c.memory p with world := w }
                     log := (d.map (fun d => .dispatched p d.1 d.2)).toList ++ c.log } := by
  subst hd
  refine ⟨rfl, fun htries => ?_, fun q => (memory_flags q).1, fun q hq => (memory_flags q).2.trans hq⟩
  dsimp only
  rw [hdb]
  exact htries

theorem quiet_scheduler {β : Type} {cmd : Cmd β} {r : β} (h : c.exec k t a (.scheduler cmd) = some (r, c'))
    (hcmd : World.isWrite cmd = false) : Quiet c c' := by
  obtain ⟨w, heffect, rfl, -⟩ := exec_scheduler h
  refine quiet_same (heffect.db hcmd) ?_
  cases cmd with
  | write st => cases hcmd
  | _ => rfl

/-- The write of a dispatch counts, or nothing happens. -/
theorem dispatch_cases {ti : TaskInstance} (hqueued : ti.state = .queued) {r : Except Err Unit}
    (h : c.exec k t a (.scheduler (.write (.updateTaskInstance ti))) = some (r, c')) :
    Quiet c c' ∨ ((c.memory k.process).stopped = false ∧ c'.log = .dispatched k.process ti.id ti.tryNumber :: c.log ∧
      (∃ row, c.db.task? ti.id = some row) ∧ c'.db = c.db.writeTask ti ∧
      ∀ q, (c'.memory q).serving = (c.memory q).serving ∧ (c'.memory q).stopped = (c.memory q).stopped) := by
  obtain ⟨w, heffect, rfl, hstop⟩ := exec_scheduler h
  cases hstopped : (c.memory k.process).stopped with
  | true =>
    obtain ⟨hnone, hdb⟩ := hstop hstopped rfl
    exact .inl (quiet_same hdb hnone)
  | false =>
    rcases heffect with ⟨rfl, rfl⟩ | ⟨rfl, hr⟩
    · exact .inl (quiet_same rfl rfl)
    · rcases c.db.updateTaskInstance_cases ti with ⟨-, happly⟩ | ⟨row, hrow, happly⟩
      · have hdb : (c.db.apply (.updateTaskInstance ti)).2 = c.db := by rw [happly]
        have herror : r = .error .notFound := hr.trans (by rw [show (c.world k.process).db = c.db from rfl, happly])
        exact .inl (quiet_same hdb (by rw [herror]; rfl))
      · have hok : r = .ok () := hr.trans (by rw [show (c.world k.process).db = c.db from rfl, happly])
        refine .inr ⟨rfl, ?_, ⟨row, hrow⟩, ?_, fun q => memory_flags q⟩
        · rw [hok]
          simp only [dispatches, hqueued, if_true, Option.map_some, Option.toList_some, List.singleton_append]
        · change (c.db.apply (.updateTaskInstance ti)).2 = _
          rw [happly]

end Step

/-! ### The loop -/

section Loop
variable {cfg : Cfg} {p : Nat} {role : Role} {α : Type}

private def loopRules (p : Nat) (role : Role) : Rules Cmd Cluster where
  sem cmd c r c' := ∃ a, c.exec ⟨p, role⟩ (2 * p) a (.scheduler cmd) = some (r, c')
  rely := Rely (2 * p)
  guar _ c _ c' := Guar (2 * p) c c'

/-- The process schedules. -/
private def Ready (p : Nat) (c : Cluster) : Prop := Inv c ∧ (c.memory p).serving = true

/-- Every dispatch of the instance is of an earlier try, or the process has stopped. -/
private def Known (p : Nat) (cur : TaskInstance) (c : Cluster) : Prop :=
  (c.memory p).stopped = true ∨ ∀ q tryNumber, .dispatched q cur.id tryNumber ∈ c.log → tryNumber ≤ cur.tryNumber

private theorem ready_rely {c c' : Cluster} (hrely : Rely (2 * p) c c') (h : Ready p c) : Ready p c' := by
  obtain ⟨hi', hfollows⟩ := hrely h.1
  exact ⟨hi', (hfollows p rfl).1 h.2⟩

private theorem stable_ready : Stable (loopRules p role) (Ready p) := fun _ _ => ready_rely

private theorem stable_known (cur : TaskInstance) : Stable (loopRules p role) (fun c => Ready p c ∧ Known p cur c) := by
  rintro c c' hrely ⟨hready, hknown⟩
  refine ⟨ready_rely hrely hready, ?_⟩
  obtain ⟨-, hstopped, hlog⟩ := (hrely hready.1).2 p rfl
  rcases hknown with hs | hle
  · exact .inl (hstopped hs)
  · refine (hlog hready.2).imp id (fun hold q tryNumber hmem => ?_)
    exact hle q tryNumber (hold q cur.id tryNumber hmem)

private theorem quiet_sem {β : Type} {cmd : Cmd β} {c c' : Cluster} {r : β} (hsem : (loopRules p role).sem cmd c r c')
    (hcmd : World.isWrite cmd = false) (hready : Ready p c) : (loopRules p role).guar cmd c r c' ∧ Ready p c' := by
  obtain ⟨a, hexec⟩ := hsem
  have hquiet := quiet_scheduler hexec hcmd
  exact ⟨hquiet.guar, (hquiet.guar (t := 2 * p) hready.1).1, (hquiet.serving p).trans hready.2⟩

/-- Reads and questions. -/
private theorem reads_keep {x : M α} (hx : readPrint.Bounds x) : Keeps (loopRules p role) (Ready p) x := by
  refine Triple.of_uses hx stable_ready ?_
  intro β cmd hcmd c r c' hready hsem
  cases cmd with
  | write st => exact hcmd.elim
  | _ => exact quiet_sem hsem rfl hready

/-- The instance is read back before it is dispatched. -/
private theorem read_keeps (id : Nat) : Triple (loopRules p role) (Ready p) (query (fun db => db.getTaskInstance id))
    (Ends (fun cur c => Ready p c ∧ Known p cur c) (Ready p)) := by
  refine .call stable_ready ?_
  intro c r c' hready hsem
  obtain ⟨hguar, hready'⟩ := quiet_sem hsem rfl hready
  refine ⟨hguar, ?_⟩
  cases r with
  | error e => exact hready'
  | ok cur =>
    refine ⟨hready', .inr (fun q tryNumber hmem => ?_)⟩
    obtain ⟨a, hexec⟩ := hsem
    obtain ⟨w, ⟨rfl, hr⟩, rfl, -⟩ := exec_scheduler hexec
    rcases hr with hr | hr
    · have hget : c.db.getTaskInstance id = .ok cur := hr.symm
      have hrow : c.db.task? cur.id = some cur := by
        unfold Db.getTaskInstance at hget
        split at hget
        · rename_i ti hti
          cases hget
          rw [(Db.task?_spec hti).2]
          exact hti
        · cases hget
      exact hready.1.tries q cur.id tryNumber hmem cur hrow
    · cases hr

private theorem dispatch_keeps (run : DagRun) (task : Task) (cur : TaskInstance) :
    Triple (loopRules p role) (fun c => Ready p c ∧ Known p cur c) (dispatch run task cur) (fun _ => Ready p) := by
  have hwrite : ∀ ti : TaskInstance, ti.id = cur.id → ti.tryNumber = cur.tryNumber + 1 → ti.state = .queued →
      Triple (loopRules p role) (fun c => Ready p c ∧ Known p cur c) (statement (.updateTaskInstance ti)) (fun _ => Ready p) := by
    intro ti hid htry hqueued
    refine .call (stable_known cur) ?_
    rintro c r c' ⟨hready, hknown⟩ ⟨a, hexec⟩
    have hguar : Guar (2 * p) c c' ∧ (c'.memory p).serving = true := by
      rcases dispatch_cases hqueued hexec with hquiet | ⟨hrunning, hlog, ⟨row, hrow⟩, hdb, hmemory⟩
      · exact ⟨hquiet.guar, (hquiet.serving p).trans hready.2⟩
      · refine ⟨guar_dispatch hready.2 hrunning hlog (fun q n hmem => ?_) (fun new hnew => ?_) (fun other hne => ?_) hmemory,
          (hmemory p).1.trans hready.2⟩
        · have hstopped : (c.memory p).stopped = false := hrunning
          rcases hknown with hs | hle
          · rw [hstopped] at hs
            cases hs
          · rw [hid] at hmem
            have hn := hle q n hmem
            omega
        · rw [hdb, Db.task?_writeTask_self hrow] at hnew
          cases hnew
          rfl
        · rw [hdb]
          exact Db.task?_writeTask_ne hne
    exact ⟨hguar.1, (hguar.1 hready.1).1, hguar.2⟩
  exact .bind (hwrite _ rfl rfl rfl) (fun _ => .lift stable_ready (fun c r c' hready hsem => quiet_sem hsem rfl hready))
    (fun _ _ h => h)

private theorem admitTask_keeps (b : Budget) (rt : ReadyTask) : Keeps (loopRules p role) (Ready p) (admitTask cfg b rt) := by
  unfold admitTask
  refine .ite (.pure _) (.bind (reads_keep (checkGroup_bounds b _)) ?_)
  rintro ⟨b, up⟩
  refine .ite (.pure _) (.bind (reads_keep (checkDag_bounds b rt)) ?_)
  rintro ⟨b, room⟩
  refine .ite (.pure _) (.bind (reads_keep (checkPool_bounds b _)) ?_)
  rintro ⟨b, rem⟩
  cases rem with
  | none => exact .pure _
  | some rem =>
    have hread : Triple (loopRules p role) (Ready p) (Fallible.outcome (query (fun db => db.getTaskInstance rt.ti.id)))
        (Ends (fun r c => Ready p c ∧ ∀ cur, r = .ok cur → Known p cur c) (fun _ => False)) := by
      refine .outcome ((read_keeps rt.ti.id).weaken ?_)
      intro r c hr
      cases r with
      | error e => exact ⟨hr, fun _ h => by cases h⟩
      | ok cur => exact ⟨hr.1, fun _ h => by cases h; exact hr.2⟩
    refine .next hread (fun r => ?_)
    cases r with
    | error e => exact .pure (fun _ hs => hs.1)
    | ok cur =>
      refine .ite (fun _ => .pure (fun _ hs => hs.1)) (fun _ => ?_)
      have hdispatch : Triple (loopRules p role) (fun c => Ready p c ∧ Known p cur c)
          (Fallible.outcome (dispatch rt.run rt.task cur)) (Ends (fun _ => Ready p) (fun _ => False)) :=
        .outcome (dispatch_keeps rt.run rt.task cur)
      refine (Triple.next hdispatch (fun result => ?_)).strengthen (fun _ hs => ⟨hs.1, hs.2 cur rfl⟩)
      cases result <;> exact .pure (fun _ hs => hs)

/-- The loop keeps the guarantee in every pass. -/
private theorem pass_keeps (collect : Db → List ReadyTask) : Keeps (loopRules p role) (Ready p) (pass cfg collect) := by
  have hinner : ∀ ready, Keeps (loopRules p role) (Ready p) (admitInOrder cfg ready) := by
    intro ready
    refine .bind (reads_keep (.outcome (.list _))) (fun active => ?_)
    cases active with
    | error e => exact .pure _
    | ok active => exact .bind (.foldlM (fun rt _ b => admitTask_keeps b rt) _) (fun _ => .pure _)
  refine .bind (reads_keep (.list _)) (fun ready => .ite (.pure _) ?_)
  exact .around stable_ready (fun c c' hready hsem => quiet_sem hsem rfl hready) (hinner _) (fun _ => stable_ready)
    (fun _ c c' hready hsem => quiet_sem hsem rfl hready)

end Loop

/-! ### Every run -/

section Runs
variable {cfg : Cfg} {p t : Nat} {k : ServeKind}

private def rules (cfg : Cfg) (k : ServeKind) (t : Nat) : Rules ServeCmd Cluster where
  sem := ((cluster cfg).answering Exclusive).sem k t
  rely := Rely t
  guar _ c _ c' := Guar t c c'

/-- A process that acquires the lease while the others have stopped. -/
private theorem guar_activated {c : Cluster} {lease : Option Lease}
    (hothers : ∀ q, q ≠ p → (c.memory q).serving = true → (c.memory q).stopped = true) :
    Guar t c (c.activated p lease) := by
  intro hi
  have hmemory : ∀ q, q ≠ p → (c.activated p lease).memory q = c.memory q := fun q hne => Function.update_of_ne hne _ _
  have hself : (c.activated p lease).memory p = { c.memory p with serving := true } := Function.update_self _ _ _
  refine ⟨⟨fun q hq hrunning => ?_, ?_, hi.fenced, ?_⟩, fun t' _ q _ => ⟨fun hq => ?_, fun hq => ?_, fun _ => .inr ?_⟩⟩
  · by_cases hne : q = p
    · rw [hne]
      rfl
    · rw [hmemory q hne] at hq hrunning
      rw [hothers q hne hq] at hrunning
      cases hrunning
  · intro q id n hmem
    rcases List.mem_cons.mp hmem with heq | hold
    · cases heq
    · exact hi.tries q id n hold
  · intro q q' id n hmem hmem'
    rcases List.mem_cons.mp hmem with heq | hold
    · cases heq
    · rcases List.mem_cons.mp hmem' with heq' | hold'
      · cases heq'
      · exact hi.once q q' id n hold hold'
  · by_cases hne : q = p
    · rw [hne, hself]
    · rw [hmemory q hne]
      exact hq
  · by_cases hne : q = p
    · rw [hne] at hq ⊢
      rw [hself]
      exact hq
    · rw [hmemory q hne]
      exact hq
  · intro q' id n hmem
    rcases List.mem_cons.mp hmem with heq | hold
    · cases heq
    · exact hold

/-- The commands on the lease and the context. -/
private def leasing : {β : Type} → ServeCmd β → Prop
  | _, .scheduler _ => False
  | _, _ => True

private theorem guar_serve {β : Type} {cmd : ServeCmd β} {c c' : Cluster} {r : β} (hsem : (rules cfg k t).sem cmd c r c')
    (hcmd : leasing cmd) : Guar t c c' := by
  obtain ⟨hexclusive, a, hexec⟩ := hsem
  have hsame : ∀ lease, Quiet c { c with lease := lease } := fun _ => ⟨rfl, id, fun _ => rfl, fun _ h => h⟩
  have hop : ∀ (a : Answer) {x : Except LeaseErr Unit × Cluster} {r : Except LeaseErr Unit},
      some (c.leaseOp a x) = some (r, c') → c' = c ∨ (r = x.1 ∧ c' = x.2) := by
    intro a x r h
    unfold Cluster.leaseOp at h
    split at h
    · cases h
      exact .inl rfl
    · cases h
      exact .inr ⟨rfl, rfl⟩
  cases cmd with
  | scheduler => exact hcmd.elim
  | acquireLease =>
    rcases hop _ hexec with rfl | ⟨hr, rfl⟩
    · exact (hsame c'.lease).guar
    · dsimp only at hr ⊢
      split
      · rename_i hok
        exact guar_activated (hexclusive (by rw [hr]; exact hok))
      · exact (hsame c.lease).guar
  | renewLease =>
    rcases hop _ hexec with rfl | ⟨-, rfl⟩
    · exact (hsame c'.lease).guar
    · exact (hsame _).guar
  | releaseLease =>
    rcases hop _ hexec with rfl | ⟨-, rfl⟩
    · exact (hsame c'.lease).guar
    · exact (hsame _).guar
  | ctxDone =>
    cases hexec
    exact (hsame c.lease).guar
  | cancel =>
    cases hexec
    have hstop : Quiet c (c.stop k.process) := by
      refine ⟨rfl, id, fun q => ?_, fun q hq => ?_⟩
      · by_cases hne : q = k.process
        · rw [hne]
          simp only [Cluster.stop, Function.update_self]
        · simp only [Cluster.stop, Function.update_of_ne hne]
      · by_cases hne : q = k.process
        · rw [hne]
          simp only [Cluster.stop, Function.update_self]
        · simp only [Cluster.stop, Function.update_of_ne hne, hq]
    exact hstop.guar

private theorem quiet_drift {c c' : Cluster} (h : Cluster.Drift c c') : Quiet c c' :=
  ⟨h.log, fun _ => h.tries, h.serving, h.stopped⟩

private def discipline (cfg : Cfg) : Discipline ((cluster cfg).answering Exclusive) where
  inv := Inv
  free _ _ := True
  rely := Rely
  guar _ t _ _ c _ c' := Guar t c c'
  rely_refl t c := fun hi => ⟨hi, Follows.refl t c⟩
  rely_trans _ _ _ _ h h' := fun hi => ⟨(h' (h hi).1).1, (h hi).2.trans (h' (h hi).1).2⟩
  free_rely _ _ _ _ h := h
  guar_inv _ _ _ _ _ _ _ hi h := (h hi).1
  guar_rely _ _ t' _ _ _ _ _ hne hi h := fun _ => ⟨(h hi).1, (h hi).2 t' (Ne.symm hne)⟩
  start_inv _ _ _ _ _ hi _ hstart := hstart.2 ▸ hi
  start_rely _ _ _ c _ _ _ hstart t' _ := by
    obtain ⟨-, rfl⟩ := hstart
    exact fun hi => ⟨hi, Follows.refl t' _⟩
  start_holds t k prog c c' hi _ hstart := by
    obtain ⟨hstart, rfl⟩ := hstart
    have hleasing : ∀ {x : ServeProgram}, x.Uses leasing → Holds (rules cfg k t) x (fun _ _ => True) c' := by
      intro x hx
      have htrue : (fun _ : Cluster => True) c' := trivial
      exact Holds.of_uses hx htrue (fun _ _ _ h => h) (fun _ hcmd _ _ _ _ hsem => ⟨guar_serve hsem hcmd, trivial⟩)
    cases hstart with
    | activate p =>
      refine hleasing (.bind (.call trivial) ?_)
      intro r
      cases r <;> trivial
    | heartbeat p =>
      refine hleasing (.bind (.call trivial) ?_)
      intro done
      cases done with
      | true => trivial
      | false =>
        refine .bind (.call trivial) ?_
        intro r
        cases r with
        | ok u => trivial
        | error e =>
          cases e with
          | lost => exact .bind (.call trivial) (fun _ => trivial)
          | _ => trivial
    | release p => exact hleasing (.bind (.call trivial) (fun _ => trivial))
    | pass p collect _ hserving =>
      have hpass : Holds (loopRules p (.pass collect)) (pass cfg collect).run (fun _ => Ready p) c' :=
        pass_keeps collect c' ⟨hi, hserving⟩
      refine (Holds.translate ?_ ?_ ?_ hpass).mono (fun _ _ _ => trivial)
      · exact fun _ _ _ _ h => h.2
      · exact fun _ _ h => h
      · exact fun _ _ _ _ h => h
  drift_inv _ _ hi h := ((quiet_drift h).guar (t := 0) hi).1
  drift_rely _ _ _ h t := fun hi => ⟨((quiet_drift h).guar (t := t) hi).1, (quiet_drift h).follows t⟩
  reset_inv _ _ _ h := h.elim
  reset_free _ _ _ h := h.elim

/-- While the lease is taken over only from processes that have stopped, every dispatch
is made by the process that acquired it last, and no try is dispatched twice by
different processes. -/
theorem dispatches_fenced (cfg : Cfg) {c : Config ServeKind ServeCmd (Except Err Unit) Cluster}
    (hreach : ((cluster cfg).answering Exclusive).Reachable
      (fun c => c.log = [] ∧ ∀ p, (c.memory p).serving = false) c) : Fenced c.world.log ∧ Once c.world.log := by
  have hsound : (discipline cfg).Sound c := by
    refine (discipline cfg).reachable_sound ?_ hreach
    rintro w ⟨hlog, hserving⟩
    refine ⟨⟨fun p hp => ?_, ?_, ?_, ?_⟩, fun _ => trivial⟩
    · rw [hserving p] at hp
      cases hp
    · intro p id n hmem
      rw [hlog] at hmem
      cases hmem
    · rw [hlog]
      trivial
    · intro p q id n hmem
      rw [hlog] at hmem
      cases hmem
  have hinv : Inv c.world := hsound.1
  exact ⟨hinv.fenced, hinv.once⟩

end Runs

/-! ### A takeover from a process that stalls -/

def leaseCfg : Cfg := .ofDocuments []

def leaseRun : DagRun :=
  { runID := "job__1", dagID := "job", logicalDate := 0, state := .running, triggerType := .manual, startedAt := some 0 }

def leaseCluster : Cluster :=
  { db := { runs := ⟨[leaseRun], List.pairwise_singleton _ _⟩
            tasks := ⟨[{ id := 1, runID := "job__1", taskID := "a", state := .scheduled }], List.pairwise_singleton _ _⟩ } }

/-- The scheduled rows, ready to be dispatched. -/
def scheduledRows (db : Db) : List ReadyTask :=
  (db.tasks.rows.filter (fun ti => ti.state = .scheduled)).map
    (fun ti => { run := leaseRun, task := { id := ti.taskID, command := "true" }, ti := ti, dagMaxTasks := 0 })

private theorem leaseCluster_blank : leaseCluster.log = [] ∧ ∀ p, (leaseCluster.memory p).serving = false :=
  ⟨rfl, fun _ => rfl⟩

/-- The first process has read the task when its lease expires. -/
def stalledMoves : List ServeMove :=
  [.activate 0, .act 0 (.time 0), .pass 0 scheduledRows] ++ List.replicate 6 (.act 0 .fine) ++
    [.activate 1, .act 2 (.time (16 * second)), .pass 1 scheduledRows] ++ List.replicate 9 (.act 2 .fine) ++ [.act 0 .fine]

/-- Both processes dispatch the first try, the one that has lost the lease last. -/
theorem stalled_process_dispatches :
    ¬ ∀ (cfg : Cfg) (c : Servers), (cluster cfg).Reachable (fun c => c.log = [] ∧ ∀ p, (c.memory p).serving = false) c →
      Fenced c.world.log ∧ Once c.world.log := by
  have hplay : (Config.plays (Servers.turn leaseCfg (fun _ _ _ => true)) ⟨leaseCluster, fun _ => none⟩ stalledMoves).map
      (fun c => c.world.log) = some [.dispatched 0 1 1, .dispatched 1 1 1, .acquired 1, .acquired 0] := by
    decide +kernel
  obtain ⟨c, hc, hlog⟩ := Option.map_eq_some_iff.mp hplay
  have hruns : ((cluster leaseCfg).answering (fun _ _ _ _ _ _ => True)).Runs ⟨leaseCluster, fun _ => none⟩ c :=
    Config.plays_runs (fun _ _ _ h => Servers.turn_step (fun _ _ _ _ _ _ _ => trivial) h) hc
  intro h
  obtain ⟨hfenced, honce⟩ := h leaseCfg c ⟨_, leaseCluster_blank, hruns.of_answering⟩
  rw [hlog] at hfenced honce
  have hsame := honce 0 1 1 1 (by simp) (by simp)
  cases hsame

/-- The first process after it has acquired the lease. -/
def activeServers : Servers :=
  ⟨leaseCluster.activated 0 (some ⟨0, leaseTTL⟩),
    Function.update (Function.update (fun _ => none) 0 (some (⟨0, .activate⟩, activate))) 0
      (some (⟨0, .activate⟩, .pure (.ok ())))⟩

private theorem activeServers_reached :
    ((cluster leaseCfg).answering Exclusive).Runs ⟨leaseCluster, fun _ => none⟩ activeServers := by
  have hstart : ((cluster leaseCfg).answering Exclusive).Step ⟨leaseCluster, fun _ => none⟩ (.start 0 ⟨0, .activate⟩) _ :=
    .start trivial ⟨.activate 0 leaseCluster rfl rfl, rfl⟩
  have hexclusive : Exclusive ⟨0, .activate⟩ 0 .acquireLease leaseCluster (.ok ()) := fun _ q _ hq => by cases hq
  have hacquire : ((cluster leaseCfg).answering Exclusive).Step
      ⟨leaseCluster, Function.update (fun _ => none) 0 (some (⟨0, .activate⟩, activate))⟩
      (.act 0 ⟨0, .activate⟩ .acquireLease (.ok ())) activeServers := by
    have hsem : ((cluster leaseCfg).answering Exclusive).sem ⟨0, .activate⟩ 0 .acquireLease leaseCluster (.ok ())
        (leaseCluster.activated 0 (some ⟨0, leaseTTL⟩)) := ⟨hexclusive, .time 0, rfl⟩
    have hthread : (⟨leaseCluster, Function.update (fun _ => none) 0 (some (⟨0, .activate⟩, activate))⟩ : Servers).threads 0 =
        some (⟨0, .activate⟩, activate) := rfl
    exact .act hthread hsem
  exact (Relation.ReflTransGen.single ⟨_, hstart, trivial⟩).tail ⟨_, hacquire, trivial⟩

private def keepsLease : {β : Type} → ServeCmd β → Cluster → β → Bool
  | _, .acquireLease, _, _ => false
  | _, _, _, _ => true

theorem dispatches_fenced_single :
    ∃ c : Servers, ((cluster leaseCfg).answering Exclusive).Reachable
        (fun c => c.log = [] ∧ ∀ p, (c.memory p).serving = false) c ∧
      c.world.log = [.dispatched 0 1 1, .acquired 0] ∧ Fenced c.world.log ∧ Once c.world.log := by
  have hplay : (Config.plays (Servers.turn leaseCfg keepsLease) activeServers
      (.pass 0 scheduledRows :: List.replicate 9 (.act 0 .fine))).map (fun c => c.world.log) =
      some [.dispatched 0 1 1, .acquired 0] := by
    decide +kernel
  obtain ⟨c, hc, hlog⟩ := Option.map_eq_some_iff.mp hplay
  have hkeeps : ∀ k t {β : Type} (cmd : ServeCmd β) c r, keepsLease cmd c r = true → Exclusive k t cmd c r := by
    intro k t β cmd c r hok
    cases cmd with
    | acquireLease => cases hok
    | _ => trivial
  have hruns : ((cluster leaseCfg).answering Exclusive).Runs activeServers c :=
    Config.plays_runs (fun _ _ _ h => Servers.turn_step hkeeps h) hc
  have hreach : ((cluster leaseCfg).answering Exclusive).Reachable
      (fun c => c.log = [] ∧ ∀ p, (c.memory p).serving = false) c :=
    ⟨_, leaseCluster_blank, activeServers_reached.trans hruns⟩
  exact ⟨c, hreach, hlog, dispatches_fenced leaseCfg hreach⟩

end Cronova.Properties.Takeover
