import Cronova.Scheduler.Sequential
import Cronova.Scheduler.Tick
import Mathlib.Data.Prod.Lex
import Mathlib.Data.String.Basic

/-! One admission pass takes the ready tasks in one order of priority. A task that
is passed over while a later one is dispatched was held back by a budget of its
own, by its worker group, by its row or by its own write, never by the later one. -/
namespace Cronova.Properties.Priority
open Cronova.Model Cronova.Store Cronova.Concurrency Cronova.Concurrency.Fallible Cronova.Scheduler

/-! ### The order -/

/-- What ready tasks are compared by, smaller first. -/
def rank (rt : ReadyTask) : ℤ ×ₗ ℤ ×ₗ ℤ ×ₗ String ×ₗ String :=
  toLex (-rt.run.priority, toLex (-rt.ti.priority, toLex (rt.run.logicalDate, toLex (rt.run.runID, rt.ti.taskID))))

theorem readyBefore_iff (a b : ReadyTask) : readyBefore a b = true ↔ rank a < rank b := by
  simp only [rank, Prod.Lex.toLex_lt_toLex, readyBefore]
  by_cases hrun : a.run.priority = b.run.priority
  · by_cases htask : a.ti.priority = b.ti.priority
    · by_cases hdate : a.run.logicalDate = b.run.logicalDate
      · by_cases hid : a.run.runID = b.run.runID
        · simp [hrun, htask, hdate, hid]
        · simp [hrun, htask, hdate, hid]
      · simp [hrun, htask, hdate]
    · simp [hrun, htask]
  · simp [hrun]

/-- The order of the pass: not after. -/
def NotAfter (a b : ReadyTask) : Prop := readyBefore b a = false

instance : DecidableRel NotAfter := fun a b => inferInstanceAs (Decidable (readyBefore b a = false))

theorem notAfter_iff (a b : ReadyTask) : NotAfter a b ↔ rank a ≤ rank b := by
  rw [NotAfter, ← Bool.not_eq_true, readyBefore_iff, not_lt]

instance : Std.Total NotAfter where
  total a b := by
    rw [notAfter_iff, notAfter_iff]
    exact le_total _ _

instance : IsTrans ReadyTask NotAfter where
  trans a b c := by
    rw [notAfter_iff, notAfter_iff, notAfter_iff]
    exact le_trans

/-- The ready tasks in the order of the pass. -/
def inOrder (ready : List ReadyTask) : List ReadyTask := ready.insertionSort NotAfter

theorem admitReady_eq (cfg : Cfg) (ready : List ReadyTask) :
    admitReady cfg ready = if ready.isEmpty then pure () else locked (admitInOrder cfg (inOrder ready)) := by
  unfold admitReady
  split <;> rfl

/-- Ready tasks of different instances are never tied. -/
theorem inOrder_perm {ready other : List ReadyTask} (hperm : ready.Perm other)
    (hdistinct : ∀ a ∈ ready, ∀ b ∈ ready, a.run.runID = b.run.runID → a.ti.taskID = b.ti.taskID → a = b) :
    inOrder ready = inOrder other := by
  refine List.Perm.eq_of_pairwise ?_ (List.pairwise_insertionSort NotAfter _) (List.pairwise_insertionSort NotAfter _)
    ((List.perm_insertionSort _ _).trans (hperm.trans (List.perm_insertionSort _ _).symm))
  intro a b ha hb hab hba
  rw [notAfter_iff] at hab hba
  have hrank := le_antisymm hab hba
  simp only [rank, EmbeddingLike.apply_eq_iff_eq, Prod.mk.injEq] at hrank
  exact hdistinct a ((List.mem_insertionSort _).mp ha) b (hperm.mem_iff.mpr ((List.mem_insertionSort _).mp hb))
    hrank.2.2.2.1 hrank.2.2.2.2

/-! ### One turn -/

@[simp] theorem get_set_self (c : Counters) (key : String) (value : Int) : (c.set key value).get key = some value := by
  simp [Counters.get, Counters.set, List.lookup_cons]

theorem get_set_ne (c : Counters) {key other : String} (value : Int) (hne : other ≠ key) : (c.set key value).get other = c.get other := by
  have hother : (other == key) = false := beq_eq_false_iff_ne.mpr hne
  rw [Counters.get, Counters.set, List.lookup_cons, hother, Counters.get]
  dsimp only
  induction c with
  | nil => rfl
  | cons e c ih =>
    rw [List.filter_cons]
    by_cases he : e.1 = key
    · rw [if_neg (by simpa using he), ih, List.lookup_cons, he, hother]
    · rw [if_pos (by simpa using he), List.lookup_cons, List.lookup_cons, ih]

variable (cfg : Cfg) (heard : Known)

/-- There is no hub, or it has said that the group has no live worker. -/
def NoLiveWorker (group : String) : Prop :=
  cfg.hasHub = false ∨ ∃ a, heard (.ask (.groupAvailable group)) a ∧ (Ask.groupAvailable group).reply a = some false

/-- The size of a pool. -/
def slotsOf (db : Db) (pool : String) : Int :=
  match db.getPool pool with
  | .ok p => min maxPoolSlots (max 1 p.slots)
  | .error _ => defaultPoolSlots

/-- What is left for the task of its DAG's limit, and of its pool. -/
def dagLeft (b : Budget) (db : Db) (rt : ReadyTask) : Int :=
  (b.dagRemaining.get rt.run.dagID).getD (rt.dagMaxTasks - db.countActiveTasksForDag rt.run.dagID)

def poolLeft (b : Budget) (db : Db) (pool : String) : Int :=
  (b.poolRemaining.get pool).getD (slotsOf db pool - db.countRunningInPool pool)

/-- The row as a dispatch writes it. -/
def dispatchedRow (rt : ReadyTask) (cur : TaskInstance) : TaskInstance :=
  { cur with tryNumber := cur.tryNumber + 1, state := .queued,
             executorRef := attemptRef rt.run.runID rt.task.id (cur.tryNumber + 1) }

/-- Why a task is passed over although tasks may still be dispatched. -/
inductive HeldBack (b : Budget) (db : Db) (rt : ReadyTask) : Prop where
  | noWorker : rt.task.workerGroup ≠ "" → NoLiveWorker cfg heard rt.task.workerGroup → HeldBack b db rt
  | dagSpent : 0 < rt.dagMaxTasks → dagLeft b db rt ≤ 0 → HeldBack b db rt
  | poolFull : poolLeft b db rt.ti.pool ≤ 0 → HeldBack b db rt
  | notScheduled : (∀ cur, db.task? rt.ti.id = some cur → cur.state ≠ .scheduled) → HeldBack b db rt
  | writeFailed (cur : TaskInstance) : db.task? rt.ti.id = some cur → cur.state = .scheduled →
      heard (.write (.updateTaskInstance (dispatchedRow rt cur))) .fault → HeldBack b db rt

/-- The groups known to be down are. -/
def GroupsChecked (b : Budget) : Prop := ∀ g, List.lookup g b.groupUp = some false → NoLiveWorker cfg heard g

/-- The counters after a turn that used up `spent` slots. -/
structure Accounts (b : Budget) (db : Db) (rt : ReadyTask) (spent : Int) (b' : Budget) : Prop where
  total : b'.globalRemaining = b.globalRemaining - spent
  groups : GroupsChecked cfg heard b'
  dag : ∀ r, 0 < rt.dagMaxTasks → b'.dagRemaining.get rt.run.dagID = some r → r = dagLeft b db rt - spent
  dags : ∀ g r, ¬ (g = rt.run.dagID ∧ 0 < rt.dagMaxTasks) → b'.dagRemaining.get g = some r → b.dagRemaining.get g = some r
  pool : ∀ r, b'.poolRemaining.get rt.ti.pool = some r → r = poolLeft b db rt.ti.pool - spent
  pools : ∀ p r, p ≠ rt.ti.pool → b'.poolRemaining.get p = some r → b.poolRemaining.get p = some r

/-- How a turn can end. -/
inductive Turned (b : Budget) (w : World) (rt : ReadyTask) (b' : Budget) (w' : World) : Prop where
  | passed : w'.jobs = w.jobs → Accounts cfg heard b w.db rt 0 b' →
      (b.globalRemaining ≤ 0 ∨ HeldBack cfg heard b w.db rt) → Turned b w rt b' w'
  | dispatched (ti : TaskInstance) : w'.jobs = w.jobs ++ [.launch rt.run rt.task ti] → 0 < b.globalRemaining →
      Accounts cfg heard b w.db rt 1 b' → Turned b w rt b' w'

/-! ### What a turn does -/

/-- Only statements that write may fail. -/
def ReadsSucceed (heard : Known) : Prop := ∀ {β : Type} (c : Cmd β), heard c .fault → World.isWrite c = true

/-- A thread that is alone and hears these answers. -/
def answered (heard : Known) (k : Kind) (t : Nat) : Rules Cmd World where
  sem c s r s' := ∃ a, heard c a ∧ s.exec k t a c = some (r, s')
  rely := Eq
  guar _ _ _ _ := True

section Commands
variable {cfg heard} {k : Kind} {t : Nat} {α : Type} {w : World} (hreads : ReadsSucceed heard)

theorem answered_stable {A : World → Prop} : Stable (answered heard k t) A := by
  rintro s s' rfl h
  exact h

include hreads in
theorem answered_query (q : Db → Except Err α) :
    Triple (answered heard k t) (· = w) (query q) (fun r s => r = q w.db ∧ s = w) := by
  refine Triple.call answered_stable ?_
  rintro s r s' rfl ⟨a, hheard, hexec⟩
  have hfine : a ≠ .fault := by
    rintro rfl
    cases hreads _ hheard
  simp only [World.exec, if_neg hfine, Option.some.injEq, Prod.mk.injEq] at hexec
  exact ⟨trivial, hexec.1.symm, hexec.2.symm⟩

include hreads in
theorem answered_list (q : Db → α) :
    Triple (answered heard k t) (· = w) (Fallible.outcome (list q)) (Ends (fun r s => r = .ok (q w.db) ∧ s = w) (fun _ => False)) := by
  refine .outcome ((answered_query hreads _).weaken ?_)
  rintro r s ⟨rfl, hs⟩
  exact ⟨rfl, hs⟩

theorem answered_ask (q : Ask α) :
    Triple (answered heard k t) (· = w) (ask q)
      (Ends (fun r s => s = w ∧ ∃ a, heard (.ask q) a ∧ q.reply a = some r) (fun _ => False)) := by
  refine Triple.lift answered_stable ?_
  rintro s r s' rfl ⟨a, hheard, hexec⟩
  simp only [World.exec, Option.map_eq_some_iff, Prod.mk.injEq] at hexec
  obtain ⟨_, hreply, rfl, rfl⟩ := hexec
  exact ⟨trivial, rfl, a, hheard, hreply⟩

theorem answered_statement (st : Write α) :
    Triple (answered heard k t) (· = w) (statement st) (fun r s =>
      (heard (.write st) .fault ∧ r = .error .failed ∧ s = w) ∨ (r = (w.db.apply st).1 ∧ s = w.written k t st)) := by
  refine Triple.call answered_stable ?_
  rintro s r s' rfl ⟨a, hheard, hexec⟩
  simp only [World.exec] at hexec
  split at hexec
  · rename_i hfault
    rw [hfault] at hheard
    simp only [Option.some.injEq, Prod.mk.injEq] at hexec
    exact ⟨trivial, .inl ⟨hheard, hexec.1.symm, hexec.2.symm⟩⟩
  · simp only [Option.some.injEq, Prod.mk.injEq] at hexec
    exact ⟨trivial, .inr ⟨hexec.1.symm, hexec.2.symm⟩⟩

end Commands

section Turn
variable {cfg heard} {k : Kind} {t : Nat} {w : World} {b : Budget} {rt : ReadyTask} (hreads : ReadsSucceed heard)

theorem Accounts.unchanged (hgroups : GroupsChecked cfg heard b) (db : Db) (rt : ReadyTask) : Accounts cfg heard b db rt 0 b where
  total := (Int.sub_zero _).symm
  groups := hgroups
  dag := by
    intro r _ hr
    rw [dagLeft, hr, Option.getD_some, Int.sub_zero]
  dags := fun _ _ _ hr => hr
  pool := by
    intro r hr
    rw [poolLeft, hr, Option.getD_some, Int.sub_zero]
  pools := fun _ _ _ hr => hr

private theorem checkGroup_checks (hgroups : GroupsChecked cfg heard b) :
    Triple (answered heard k t) (· = w) (checkGroup cfg b rt.task.workerGroup)
      (Ends (fun p s => ((∃ groups, p.1 = { b with groupUp := groups }) ∧ GroupsChecked cfg heard p.1 ∧
        (p.2 = false → rt.task.workerGroup ≠ "" ∧ NoLiveWorker cfg heard rt.task.workerGroup)) ∧ s = w) (fun _ => False)) := by
  unfold checkGroup
  refine .ite (fun _ => .pure (fun s hs => ⟨⟨⟨_, rfl⟩, hgroups, nofun⟩, hs⟩)) (fun hgroup => ?_)
  split
  · rename_i up hup
    refine .pure (fun s hs => ⟨⟨⟨_, rfl⟩, hgroups, ?_⟩, hs⟩)
    intro hdown
    exact ⟨hgroup, hgroups _ (hdown ▸ hup)⟩
  · have hrest : ∀ up : Bool, (up = false → NoLiveWorker cfg heard rt.task.workerGroup) →
        Triple (answered heard k t) (· = w) (pure ({ b with groupUp := (rt.task.workerGroup, up) :: b.groupUp }, up) : M (Budget × Bool))
          (Ends (fun p s => ((∃ groups, p.1 = { b with groupUp := groups }) ∧ GroupsChecked cfg heard p.1 ∧
            (p.2 = false → rt.task.workerGroup ≠ "" ∧ NoLiveWorker cfg heard rt.task.workerGroup)) ∧ s = w) (fun _ => False)) := by
      intro up hdown
      refine .pure (fun s hs => ⟨⟨⟨_, rfl⟩, ?_, fun h => ⟨hgroup, hdown h⟩⟩, hs⟩)
      intro g hg
      rw [List.lookup_cons] at hg
      split at hg
      · rename_i heq
        cases hg
        rw [beq_iff_eq.mp heq]
        exact hdown rfl
      · exact hgroups g hg
    split
    · refine .next (m := fun up s => (up = false → NoLiveWorker cfg heard rt.task.workerGroup) ∧ s = w)
        ((answered_ask _).weaken ?_) (fun up => .given (hrest up))
      rintro (e | up) s hs
      · exact hs
      · obtain ⟨rfl, a, hheard, hreply⟩ := hs
        refine ⟨?_, rfl⟩
        rintro rfl
        exact .inr ⟨a, hheard, hreply⟩
    · rename_i hnone
      rw [Bool.not_eq_true] at hnone
      exact hrest false (fun _ => .inl hnone)

include hreads in
private theorem checkDag_checks :
    Triple (answered heard k t) (· = w) (checkDag b rt)
      (Ends (fun p s => ((∃ dags, p.1 = { b with dagRemaining := dags }) ∧
          (∀ g, ¬ (g = rt.run.dagID ∧ 0 < rt.dagMaxTasks) → p.1.dagRemaining.get g = b.dagRemaining.get g) ∧
          (0 < rt.dagMaxTasks → p.1.dagRemaining.get rt.run.dagID = some (dagLeft b w.db rt)) ∧
          (p.2 = false → 0 < rt.dagMaxTasks ∧ dagLeft b w.db rt ≤ 0)) ∧ s = w) (fun _ => False)) := by
  unfold checkDag
  refine .ite (fun hnone => .pure (fun s hs => ⟨⟨⟨_, rfl⟩, fun _ _ => rfl, fun h => by omega, nofun⟩, hs⟩)) (fun hlimit => ?_)
  rw [not_le] at hlimit
  split
  · rename_i rem hrem
    have hleft : dagLeft b w.db rt = rem := by rw [dagLeft, hrem, Option.getD_some]
    refine .pure (fun s hs => ⟨⟨⟨_, rfl⟩, fun _ _ => rfl, fun _ => by rw [hrem, hleft], ?_⟩, hs⟩)
    intro hspent
    rw [hleft]
    exact ⟨hlimit, by simpa using hspent⟩
  · rename_i hnone
    have hleft : dagLeft b w.db rt = rt.dagMaxTasks - w.db.countActiveTasksForDag rt.run.dagID := by
      rw [dagLeft, hnone, Option.getD_none]
    refine .next (m := fun r s => r = .ok (w.db.countActiveTasksForDag rt.run.dagID) ∧ s = w) (answered_list hreads _)
      (fun r => .given ?_)
    rintro rfl
    refine .pure (fun s hs => ⟨⟨⟨_, rfl⟩, ?_, fun _ => ?_, ?_⟩, hs⟩)
    · intro g hg
      exact get_set_ne _ _ (fun h => hg ⟨h, hlimit⟩)
    · rw [hleft]
      exact get_set_self _ _ _
    · intro hspent
      rw [hleft]
      exact ⟨hlimit, not_lt.mp (of_decide_eq_false hspent)⟩

include hreads in
private theorem checkPool_checks (pool : String) :
    Triple (answered heard k t) (· = w) (checkPool b pool)
      (Ends (fun p s => ((∃ pools, p.1 = { b with poolRemaining := pools }) ∧
          (∀ q, q ≠ pool → p.1.poolRemaining.get q = b.poolRemaining.get q) ∧
          (∀ r, p.1.poolRemaining.get pool = some r → r = poolLeft b w.db pool) ∧
          (match p.2 with
            | none => poolLeft b w.db pool ≤ 0
            | some rem => rem = poolLeft b w.db pool)) ∧ s = w) (fun _ => False)) := by
  unfold checkPool
  split
  · rename_i rem hrem
    have hleft : poolLeft b w.db pool = rem := by rw [poolLeft, hrem, Option.getD_some]
    refine .pure (fun s hs => ⟨⟨⟨_, rfl⟩, fun _ _ => rfl, ?_, ?_⟩, hs⟩)
    · intro r hr
      rw [hrem] at hr
      cases hr
      exact hleft.symm
    · split
      · rename_i hnone
        rw [hleft]
        by_contra hroom
        rw [if_pos (by omega)] at hnone
        cases hnone
      · rename_i rem' hsome
        rw [hleft]
        split at hsome
        · cases hsome
          rfl
        · cases hsome
  · rename_i hnone
    have hleft : poolLeft b w.db pool = slotsOf w.db pool - w.db.countRunningInPool pool := by
      rw [poolLeft, hnone, Option.getD_none]
    refine .next (m := fun r s => r = .ok (w.db.countRunningInPool pool) ∧ s = w) (answered_list hreads _) (fun r => .given ?_)
    rintro rfl
    have hslots : Triple (answered heard k t) (· = w) (poolSlots pool)
        (Ends (fun slots s => slots = slotsOf w.db pool ∧ s = w) (fun _ => False)) := by
      refine .next (m := fun r s => r = w.db.getPool pool ∧ s = w) (.outcome (answered_query hreads _)) (fun r => .given ?_)
      rintro rfl
      unfold slotsOf
      split
      · rename_i he
        rw [he]
        exact .pure (fun s hs => ⟨rfl, hs⟩)
      · rename_i p hp
        rw [hp]
        exact .pure (fun s hs => ⟨rfl, hs⟩)
    refine .next hslots (fun slots => .given ?_)
    rintro rfl
    rw [← hleft]
    refine .ite (fun _ => .pure (fun s hs => ⟨⟨⟨_, rfl⟩, fun _ _ => rfl, ?_, rfl⟩, hs⟩))
      (fun hfull => .pure (fun s hs => ⟨⟨⟨_, rfl⟩, fun q hq => get_set_ne _ _ hq, ?_, by omega⟩, hs⟩))
    · intro r hr
      rw [hnone] at hr
      cases hr
    · intro r hr
      rw [get_set_self] at hr
      cases hr
      rfl

/-- A dispatch either writes the row and launches the task, or its write failed. -/
private theorem dispatch_launches {cur : TaskInstance} (hcur : w.db.task? rt.ti.id = some cur) :
    Triple (answered heard k t) (· = w) (dispatch rt.run rt.task cur)
      (Ends (fun _ s => ∃ ti, s.jobs = w.jobs ++ [.launch rt.run rt.task ti])
        (fun s => s = w ∧ heard (.write (.updateTaskInstance (dispatchedRow rt cur))) .fault)) := by
  obtain ⟨_, hid⟩ := Db.task?_spec hcur
  unfold dispatch
  refine .bind (m := Ends (fun _ s => s.jobs = w.jobs)
    (fun s => s = w ∧ heard (.write (.updateTaskInstance (dispatchedRow rt cur))) .fault))
    ((answered_statement _).weaken ?_) (fun _ => ?_) (fun _ _ h => h)
  · rintro r s (⟨hfault, rfl, rfl⟩ | ⟨rfl, rfl⟩)
    · exact ⟨rfl, hfault⟩
    · obtain ⟨hnone, _⟩ | ⟨_, _, happly⟩ := w.db.updateTaskInstance_cases (dispatchedRow rt cur)
      · rw [dispatchedRow, hid, hcur] at hnone
        cases hnone
      · rw [dispatchedRow] at happly
        rw [happly]
        rfl
  · refine Triple.lift answered_stable ?_
    rintro s r s' hjobs ⟨a, _, hexec⟩
    cases hexec
    exact ⟨trivial, _, congrArg (· ++ _) hjobs⟩

include hreads in
/-- One turn of the pass. -/
theorem admitTask_turned (hgroups : GroupsChecked cfg heard b) :
    Triple (answered heard k t) (· = w) (admitTask cfg b rt)
      (Ends (fun b' s => Turned cfg heard b w rt b' s) (fun _ => False)) := by
  unfold admitTask
  refine .ite (fun hspent => .pure ?_) (fun hleft => ?_)
  · rintro s rfl
    exact .passed rfl (.unchanged hgroups _ _) (.inl hspent)
  rw [not_le] at hleft
  refine .next (checkGroup_checks hgroups) ?_
  rintro ⟨b₁, up⟩
  refine .given ?_
  rintro ⟨⟨groups, rfl⟩, hgroups₁, hdown⟩
  have hunchanged := Accounts.unchanged hgroups₁ w.db rt
  refine .ite (fun hnone => .pure ?_) (fun _ => ?_)
  · rintro s rfl
    obtain ⟨hgroup, hworker⟩ := hdown (by simpa using hnone)
    exact .passed rfl ⟨(Int.sub_zero _).symm, hgroups₁, hunchanged.dag, hunchanged.dags, hunchanged.pool, hunchanged.pools⟩
      (.inr (.noWorker hgroup hworker))
  refine .next (checkDag_checks hreads) ?_
  rintro ⟨b₂, room⟩
  refine .given ?_
  rintro ⟨⟨dags, rfl⟩, hothers, hdag, hfull⟩
  have hdag' : ∀ r, 0 < rt.dagMaxTasks → dags.get rt.run.dagID = some r → r = dagLeft b w.db rt - 0 := by
    intro r hlimit hr
    have hsome : dags.get rt.run.dagID = some (dagLeft b w.db rt) := hdag hlimit
    rw [hr] at hsome
    cases hsome
    omega
  have hdags' : ∀ g r, ¬ (g = rt.run.dagID ∧ 0 < rt.dagMaxTasks) → dags.get g = some r → b.dagRemaining.get g = some r := by
    intro g r hg hr
    rw [← hr]
    exact (hothers g hg).symm
  refine .ite (fun hnone => .pure ?_) (fun _ => ?_)
  · rintro s rfl
    obtain ⟨hlimit, hspent⟩ := hfull (by simpa using hnone)
    exact .passed rfl ⟨(Int.sub_zero _).symm, hgroups₁, hdag', hdags', hunchanged.pool, hunchanged.pools⟩
      (.inr (.dagSpent hlimit hspent))
  refine .next (checkPool_checks hreads _) ?_
  rintro ⟨b₃, room⟩
  refine .given ?_
  rintro ⟨⟨pools, rfl⟩, hpools, hpool, hroom⟩
  have hpool' : ∀ r, pools.get rt.ti.pool = some r → r = poolLeft b w.db rt.ti.pool - 0 := by
    intro r hr
    rw [Int.sub_zero]
    exact hpool r hr
  have hpools' : ∀ p r, p ≠ rt.ti.pool → pools.get p = some r → b.poolRemaining.get p = some r := by
    intro p r hp hr
    rw [← hr]
    exact (hpools p hp).symm
  have hpassed : Accounts cfg heard b w.db rt 0 { b with groupUp := groups, dagRemaining := dags, poolRemaining := pools } :=
    ⟨(Int.sub_zero _).symm, hgroups₁, hdag', hdags', hpool', hpools'⟩
  cases room with
  | none =>
    refine .pure ?_
    rintro s rfl
    exact .passed rfl hpassed (.inr (.poolFull hroom))
  | some rem =>
    refine .next (m := fun r s => r = w.db.getTaskInstance rt.ti.id ∧ s = w) (.outcome (answered_query hreads _)) (fun r => .given ?_)
    rintro rfl
    cases hcur : w.db.task? rt.ti.id with
    | none =>
      have hget : w.db.getTaskInstance rt.ti.id = .error .notFound := by rw [Db.getTaskInstance, hcur]
      rw [hget]
      refine .pure ?_
      rintro s rfl
      refine .passed rfl hpassed (.inr (.notScheduled ?_))
      intro cur h
      rw [hcur] at h
      cases h
    | some cur =>
      have hget : w.db.getTaskInstance rt.ti.id = .ok cur := by rw [Db.getTaskInstance, hcur]
      rw [hget]
      refine .ite (fun hstate => .pure ?_) (fun hstate => ?_)
      · rintro s rfl
        refine .passed rfl hpassed (.inr (.notScheduled ?_))
        intro cur' h
        rw [hcur] at h
        cases h
        exact hstate
      · rw [not_not] at hstate
        refine .next (m := fun r s => Ends (fun _ s => ∃ ti, s.jobs = w.jobs ++ [.launch rt.run rt.task ti])
            (fun s => s = w ∧ heard (.write (.updateTaskInstance (dispatchedRow rt cur))) .fault) r s)
          (.outcome ((dispatch_launches hcur).weaken ?_)) (fun r => ?_)
        · rintro (e | _) s hs
          · exact hs
          · exact hs
        · cases r with
          | error e =>
            refine .pure ?_
            rintro s ⟨rfl, hfault⟩
            exact .passed rfl hpassed (.inr (.writeFailed cur hcur hstate hfault))
          | ok _ =>
            refine .pure ?_
            rintro s ⟨ti, hjobs⟩
            refine .dispatched ti hjobs hleft ⟨rfl, hgroups₁, ?_, ?_, ?_, ?_⟩
            · intro r hlimit hr
              rw [if_pos hlimit, get_set_self] at hr
              cases hr
              have hsome : dags.get rt.run.dagID = some (dagLeft b w.db rt) := hdag hlimit
              have hleft : (dags.get rt.run.dagID).getD 0 = dagLeft b w.db rt := by rw [hsome, Option.getD_some]
              exact congrArg (· - 1) hleft
            · intro g r hg hr
              refine hdags' g r hg ?_
              by_cases hlimit : 0 < rt.dagMaxTasks
              · rw [if_pos hlimit, get_set_ne _ _ (fun h => hg ⟨h, hlimit⟩)] at hr
                exact hr
              · rw [if_neg hlimit] at hr
                exact hr
            · intro r hr
              rw [get_set_self] at hr
              cases hr
              have hrem : rem = poolLeft b w.db rt.ti.pool := hroom
              exact congrArg (· - 1) hrem
            · intro p r hp hr
              rw [get_set_ne _ _ hp] at hr
              exact hpools' p r hp hr

end Turn

/-! ### What a call hears -/

/-- A command that the program issues when it runs alone, and the answer to it. -/
inductive Hears (k : Kind) (t : Nat) (answers : Answers) {α : Type} :
    (n : Nat) → Program Cmd α → World → {β : Type} → Cmd β → Answer → Prop where
  | first (n : Nat) {β : Type} (c : Cmd β) (next : β → Program Cmd α) (w : World) :
      Hears k t answers n (.step c next) w c (answers n c)
  | later {n : Nat} {β γ : Type} {c : Cmd β} {next : β → Program Cmd α} {w w' : World} {r : β} {d : Cmd γ} {a : Answer} :
      w.exec k t (answers n c) c = some (r, w') → Hears k t answers (n + 1) (next r) w' d a →
      Hears k t answers n (.step c next) w d a

section Hears
variable {cfg heard} {k : Kind} {t : Nat} {answers : Answers} {α : Type}

theorem Hears.answer {n : Nat} {p : Program Cmd α} {w : World} {β : Type} {c : Cmd β} {a : Answer}
    (h : Hears k t answers n p w c a) : ∃ m, a = answers m c := by
  induction h with
  | first n c next w => exact ⟨n, rfl⟩
  | later _ _ ih => exact ih

/-- Whatever the program hears is among `heard`. -/
def Within (heard : Known) (k : Kind) (t : Nat) (answers : Answers) {α : Type} (n : Nat) (p : Program Cmd α) (w : World) : Prop :=
  ∀ {β : Type} (c : Cmd β) (a : Answer), Hears k t answers n p w c a → heard c a

theorem within_hears (n : Nat) (p : Program Cmd α) (w : World) : Within (Hears k t answers n p w) k t answers n p w := fun _ _ h => h

theorem answered_perform {n : Nat} {p : Program Cmd α} {w w' : World} {r : α} {post : α → World → Prop}
    (h : Holds (answered heard k t) p post w) (hp : w.perform k t answers n p = some (r, w'))
    (hheard : Within heard k t answers n p w) : post r w' := by
  induction p generalizing n w with
  | pure a =>
    cases hp
    exact h
  | step c next ih =>
    simp only [World.perform] at hp
    split at hp
    · cases hp
    · rename_i x w₁ hexec
      have hstep := (h w rfl x w₁ ⟨answers n c, hheard c _ (.first n c next w), hexec⟩).2
      exact ih x hstep hp (fun d a hd => hheard d a (.later hexec hd))

/-- The parts of a program hear what the program hears. -/
theorem perform_parts {β : Type} {n : Nat} {p : Program Cmd β} {f : β → Program Cmd α} {w w' : World} {r : α}
    (hp : w.perform k t answers n (p >>= f) = some (r, w')) (hheard : Within heard k t answers n (p >>= f) w) :
    ∃ b v m, (w.perform k t answers n p = some (b, v) ∧ Within heard k t answers n p w) ∧
      v.perform k t answers m (f b) = some (r, w') ∧ Within heard k t answers m (f b) v := by
  induction p generalizing n w with
  | pure b =>
    refine ⟨b, w, n, ⟨rfl, ?_⟩, hp, hheard⟩
    intro γ c a h
    cases h
  | step c next ih =>
    rw [Program.step_bind] at hp hheard
    simp only [World.perform] at hp
    split at hp
    · cases hp
    · rename_i x w₁ hexec
      obtain ⟨b, v, m, ⟨hfirst, hwithin⟩, hrest⟩ := ih x hp (fun d a hd => hheard d a (.later hexec hd))
      refine ⟨b, v, m, ⟨?_, ?_⟩, hrest⟩
      · simp only [World.perform, hexec]
        exact hfirst
      · intro γ d a hd
        cases hd with
        | first => exact hheard c _ (.first n c _ w)
        | later hexec' hd =>
          rw [hexec] at hexec'
          cases hexec'
          exact hwithin d a hd

end Hears

/-! ### The pass -/

/-- One turn of a pass, with the budget it starts from. -/
structure Turn where
  task : ReadyTask
  budget : Budget
  before : World
  after : World

/-- The turn started a job. -/
def Turn.dispatched (x : Turn) : Bool := x.before.jobs.length < x.after.jobs.length

/-- The turns of a pass: each runs `admitTask` from where the one before it ended. -/
inductive Pass (k : Kind) (t : Nat) (answers : Answers) : Budget → World → List Turn → World → Prop where
  | done (b : Budget) (w : World) : Pass k t answers b w [] w
  | turn {n : Nat} {b b₁ : Budget} {rt : ReadyTask} {w w₁ w₂ : World} {turns : List Turn} :
      w.perform k t answers n (admitTask cfg b rt).run = some (.ok b₁, w₁) → Within heard k t answers n (admitTask cfg b rt).run w →
      Pass k t answers b₁ w₁ turns w₂ → Pass k t answers b w (⟨rt, b, w, w₁⟩ :: turns) w₂

/-- How many slots turns have taken for a kind of task. -/
def taken (p : ReadyTask → Prop) [DecidablePred p] (turns : List Turn) : Int := turns.countP (fun x => x.dispatched ∧ p x.task)

/-- A counter for a kind of task: its room when one of the turns first counted it,
less the slots taken since. -/
def Counted (p : ReadyTask → Prop) [DecidablePred p] (room : ReadyTask → Db → Int) (turns : List Turn) (r : Int) : Prop :=
  ∃ early first late, turns = early ++ first :: late ∧ p first.task ∧
    r = room first.task first.before.db - taken p (first :: late)

/-- The tasks that a DAG's limit counts, and those of a pool. -/
def OfDag (dagID : String) (rt : ReadyTask) : Prop := rt.run.dagID = dagID ∧ 0 < rt.dagMaxTasks

def InPool (pool : String) (rt : ReadyTask) : Prop := rt.ti.pool = pool

instance (dagID : String) : DecidablePred (OfDag dagID) := fun _ => inferInstanceAs (Decidable (_ ∧ _))

instance (pool : String) : DecidablePred (InPool pool) := fun _ => inferInstanceAs (Decidable (_ = _))

def dagRoom (rt : ReadyTask) (db : Db) : Int := rt.dagMaxTasks - db.countActiveTasksForDag rt.run.dagID

def poolRoom (rt : ReadyTask) (db : Db) : Int := slotsOf db rt.ti.pool - db.countRunningInPool rt.ti.pool

/-- What holds a task back at its turn, after the earlier turns. -/
inductive Excused (earlier : List Turn) (x : Turn) : Prop where
  | noWorker : x.task.task.workerGroup ≠ "" → NoLiveWorker cfg heard x.task.task.workerGroup → Excused earlier x
  | dagSpent (r : Int) : 0 < x.task.dagMaxTasks → Counted (OfDag x.task.run.dagID) dagRoom (earlier ++ [x]) r → r ≤ 0 →
      Excused earlier x
  | poolFull (r : Int) : Counted (InPool x.task.ti.pool) poolRoom (earlier ++ [x]) r → r ≤ 0 → Excused earlier x
  | notScheduled : (∀ cur, x.before.db.task? x.task.ti.id = some cur → cur.state ≠ .scheduled) → Excused earlier x
  | writeFailed (cur : TaskInstance) : x.before.db.task? x.task.ti.id = some cur → cur.state = .scheduled →
      heard (.write (.updateTaskInstance (dispatchedRow x.task cur))) .fault → Excused earlier x

/-- What the counters of a pass say of its turns so far. -/
structure Ledger (turns : List Turn) (b : Budget) : Prop where
  groups : GroupsChecked cfg heard b
  dags : ∀ g r, b.dagRemaining.get g = some r → Counted (OfDag g) dagRoom turns r
  pools : ∀ g r, b.poolRemaining.get g = some r → Counted (InPool g) poolRoom turns r

section Pass
variable {cfg heard} {k : Kind} {t : Nat} {answers : Answers} {p : ReadyTask → Prop} [DecidablePred p]
  {room : ReadyTask → Db → Int} {turns : List Turn} {x : Turn} {r : Int}

theorem taken_append (early late : List Turn) : taken p (early ++ late) = taken p early + taken p late := by
  rw [taken, List.countP_append, Int.natCast_add]
  rfl

theorem taken_single (x : Turn) : taken p [x] = if x.dispatched ∧ p x.task then 1 else 0 := by
  rw [taken, List.countP_singleton]
  by_cases h : x.dispatched ∧ p x.task
  · rw [if_pos h, if_pos (by simpa using h)]
    rfl
  · rw [if_neg h, if_neg (by simpa using h)]
    rfl

theorem counted_first (hx : p x.task) : Counted p room (turns ++ [x]) (room x.task x.before.db - taken p [x]) :=
  ⟨turns, x, [], rfl, hx, rfl⟩

theorem Counted.turn (h : Counted p room turns r) (x : Turn) : Counted p room (turns ++ [x]) (r - taken p [x]) := by
  obtain ⟨early, first, late, rfl, hfirst, rfl⟩ := h
  refine ⟨early, first, late ++ [x], by simp, hfirst, ?_⟩
  rw [← List.cons_append, taken_append]
  omega

theorem taken_eq_zero (h : ¬ (x.dispatched ∧ p x.task)) : taken p [x] = 0 := by rw [taken_single, if_neg h]

/-- The slots that a turn uses up. -/
def spent (x : Turn) : Int := if x.dispatched then 1 else 0

theorem taken_of (hx : p x.task) : taken p [x] = spent x := by
  rw [taken_single, spent]
  by_cases h : x.dispatched = true
  · rw [if_pos ⟨h, hx⟩, if_pos h]
  · rw [if_neg (fun hboth => h hboth.1), if_neg h]

theorem ledger_start (n : Int) : Ledger cfg heard [] { globalRemaining := n } where
  groups := nofun
  dags := nofun
  pools := nofun

variable {b b' : Budget} {rt : ReadyTask} {w w' v : World}

/-- A turn either passes its task over or launches it. -/
theorem Turned.jobs (h : Turned cfg heard b w rt b' w') :
    w'.jobs = w.jobs ∨ ∃ ti, w'.jobs = w.jobs ++ [.launch rt.run rt.task ti] := by
  cases h with
  | passed hjobs _ _ => exact .inl hjobs
  | dispatched ti hjobs _ _ => exact .inr ⟨ti, hjobs⟩

theorem Turned.accounts (h : Turned cfg heard b w rt b' w') : Accounts cfg heard b w.db rt (spent ⟨rt, b, w, w'⟩) b' := by
  cases h with
  | passed hjobs haccounts _ =>
    have hspent : spent ⟨rt, b, w, w'⟩ = 0 := by simp [spent, Turn.dispatched, hjobs]
    rw [hspent]
    exact haccounts
  | dispatched ti hjobs _ haccounts =>
    have hspent : spent ⟨rt, b, w, w'⟩ = 1 := by simp [spent, Turn.dispatched, hjobs]
    rw [hspent]
    exact haccounts

/-- The counter that the task's own check sees is counted from some turn on. -/
theorem Ledger.dagLeft_counted (h : Ledger cfg heard turns x.budget) (hlimit : 0 < x.task.dagMaxTasks) :
    Counted (OfDag x.task.run.dagID) dagRoom (turns ++ [x]) (dagLeft x.budget x.before.db x.task - spent x) := by
  have hof : OfDag x.task.run.dagID x.task := ⟨rfl, hlimit⟩
  rw [← taken_of hof, dagLeft]
  cases hget : x.budget.dagRemaining.get x.task.run.dagID with
  | none => exact counted_first hof
  | some r => exact (h.dags _ r hget).turn x

theorem Ledger.poolLeft_counted (h : Ledger cfg heard turns x.budget) :
    Counted (InPool x.task.ti.pool) poolRoom (turns ++ [x]) (poolLeft x.budget x.before.db x.task.ti.pool - spent x) := by
  have hin : InPool x.task.ti.pool x.task := rfl
  rw [← taken_of hin, poolLeft]
  cases hget : x.budget.poolRemaining.get x.task.ti.pool with
  | none => exact counted_first hin
  | some r => exact (h.pools _ r hget).turn x

/-- Every turn keeps the ledger. -/
theorem Ledger.turn (h : Ledger cfg heard turns b) (hturn : Turned cfg heard b w rt b' w') :
    Ledger cfg heard (turns ++ [⟨rt, b, w, w'⟩]) b' := by
  have haccounts := hturn.accounts
  refine ⟨haccounts.groups, ?_, ?_⟩
  · intro g r hr
    by_cases hof : OfDag g rt
    · obtain ⟨rfl, hlimit⟩ := hof
      rw [haccounts.dag r hlimit hr]
      exact Ledger.dagLeft_counted (x := ⟨rt, b, w, w'⟩) h hlimit
    · have hr' := haccounts.dags g r (fun hg => hof ⟨hg.1.symm, hg.2⟩) hr
      have hcounted := (h.dags g r hr').turn ⟨rt, b, w, w'⟩
      rw [taken_eq_zero (fun hx => hof hx.2), Int.sub_zero] at hcounted
      exact hcounted
  · intro g r hr
    by_cases hin : rt.ti.pool = g
    · subst hin
      rw [haccounts.pool r hr]
      exact Ledger.poolLeft_counted (x := ⟨rt, b, w, w'⟩) h
    · have hr' := haccounts.pools g r (fun hg => hin hg.symm) hr
      have hcounted := (h.pools g r hr').turn ⟨rt, b, w, w'⟩
      rw [taken_eq_zero (fun hx => hin hx.2), Int.sub_zero] at hcounted
      exact hcounted

/-- A task that is passed over while slots are left is excused. -/
theorem Turned.excused (h : Turned cfg heard b w rt b' w') (hledger : Ledger cfg heard turns b) (hleft : 0 < b.globalRemaining)
    (hpassed : Turn.dispatched ⟨rt, b, w, w'⟩ = false) : Excused cfg heard turns ⟨rt, b, w, w'⟩ := by
  have hspent : spent ⟨rt, b, w, w'⟩ = 0 := by rw [spent, if_neg (by simp [hpassed])]
  cases h with
  | dispatched ti hjobs _ _ => simp [Turn.dispatched, hjobs] at hpassed
  | passed hjobs haccounts hwhy =>
    obtain hnone | hheld := hwhy
    · omega
    cases hheld with
    | noWorker hgroup hworker => exact .noWorker hgroup hworker
    | notScheduled hstate => exact .notScheduled hstate
    | writeFailed cur hcur hstate hfault => exact .writeFailed cur hcur hstate hfault
    | dagSpent hlimit hdag =>
      have hcounted := Ledger.dagLeft_counted (x := ⟨rt, b, w, w'⟩) hledger hlimit
      rw [hspent, Int.sub_zero] at hcounted
      exact .dagSpent _ hlimit hcounted hdag
    | poolFull hpool =>
      have hcounted := Ledger.poolLeft_counted (x := ⟨rt, b, w, w'⟩) hledger
      rw [hspent, Int.sub_zero] at hcounted
      exact .poolFull _ hcounted hpool

/-- A turn that launches its task still has a slot left. -/
theorem Turned.slot (h : Turned cfg heard b w rt b' w') (hdispatched : Turn.dispatched ⟨rt, b, w, w'⟩ = true) :
    0 < b.globalRemaining := by
  cases h with
  | passed hjobs _ _ => simp [Turn.dispatched, hjobs] at hdispatched
  | dispatched _ _ hleft _ => exact hleft

theorem spent_nonneg (x : Turn) : 0 ≤ spent x := by
  unfold spent
  split <;> omega

section Runs
variable (hreads : ReadsSucceed heard)
include hreads

/-- No turn of a pass has more slots left than the pass started with. -/
theorem pass_remaining (h : Pass cfg heard k t answers b w turns v) (hgroups : GroupsChecked cfg heard b) :
    ∀ x ∈ turns, x.budget.globalRemaining ≤ b.globalRemaining := by
  induction h with
  | done b w => exact fun x hx => nomatch hx
  | @turn _ b b₁ rt w w₁ _ _ hperform hheard _ ih =>
    have haccounts := (answered_perform (admitTask_turned hreads hgroups _ rfl) hperform hheard).accounts
    have hle := haccounts.total
    have hspent := spent_nonneg ⟨rt, b, w, w₁⟩
    intro x hx
    rcases List.mem_cons.mp hx with rfl | hx
    · exact le_refl _
    · have := ih haccounts.groups x hx
      omega

/-- Every turn of a pass starts from the ledger of the turns before it, and no
later turn has more slots left. -/
theorem pass_split (h : Pass cfg heard k t answers b w turns v) {before : List Turn} (hledger : Ledger cfg heard before b)
    {early late : List Turn} (hsplit : turns = early ++ x :: late) :
    Ledger cfg heard (before ++ early) x.budget ∧ (∃ b', Turned cfg heard x.budget x.before x.task b' x.after) ∧
      ∀ y ∈ late, y.budget.globalRemaining ≤ x.budget.globalRemaining := by
  induction h generalizing before early with
  | done b w => cases early <;> cases hsplit
  | @turn n b b₁ rt w w₁ w₂ turns hperform hheard hrest ih =>
    have hturn := answered_perform (admitTask_turned hreads hledger.groups _ rfl) hperform hheard
    cases early with
    | nil =>
      cases hsplit
      refine ⟨by simpa using hledger, ⟨_, hturn⟩, ?_⟩
      intro y hy
      have hle := pass_remaining hreads hrest hturn.accounts.groups y hy
      have htotal := hturn.accounts.total
      have hspent := spent_nonneg ⟨rt, b, w, w₁⟩
      change _ ≤ b.globalRemaining
      omega
    | cons z early =>
      cases hsplit
      have hsplit' := ih (hledger.turn hturn) rfl
      rw [List.append_assoc] at hsplit'
      exact hsplit'

/-- In one pass a task that is passed over before another is launched is excused. -/
theorem pass_excused (h : Pass cfg heard k t answers b w turns v) (hstart : Ledger cfg heard [] b) {early mid late : List Turn}
    {y : Turn} (hsplit : turns = early ++ x :: mid ++ y :: late) (hx : x.dispatched = false) (hy : y.dispatched = true) :
    Excused cfg heard early x := by
  have hsplit' : turns = early ++ x :: (mid ++ y :: late) := by rw [hsplit]; simp
  obtain ⟨hledger, ⟨b', hturn⟩, hle⟩ := pass_split hreads h hstart hsplit'
  obtain ⟨_, ⟨_, hlater⟩, _⟩ := pass_split hreads h hstart hsplit
  have hslot := hlater.slot hy
  have hleft := hle y (by simp)
  exact hturn.excused hledger (by omega) hx

/-- The loop over the tasks is a pass. -/
theorem foldlM_pass {rts : List ReadyTask} {n : Nat} {r : Except Err Budget} (hgroups : GroupsChecked cfg heard b)
    (hp : w.perform k t answers n (rts.foldlM (admitTask cfg) b).run = some (r, v))
    (hheard : Within heard k t answers n (rts.foldlM (admitTask cfg) b).run w) :
    ∃ turns, turns.map (·.task) = rts ∧ Pass cfg heard k t answers b w turns v := by
  induction rts generalizing b w n with
  | nil =>
    cases hp
    exact ⟨[], rfl, .done b v⟩
  | cons rt rts ih =>
    obtain ⟨r₁, w₁, m, ⟨hfirst, hwithin⟩, hrest, hrest'⟩ := perform_parts hp hheard
    have hturn := answered_perform (admitTask_turned hreads hgroups _ rfl) hfirst hwithin
    cases r₁ with
    | error e => exact hturn.elim
    | ok b₁ =>
      obtain ⟨turns, htasks, hpass⟩ := ih (Turned.accounts hturn).groups hrest hrest'
      exact ⟨⟨rt, b, w, w₁⟩ :: turns, by rw [List.map_cons, htasks], .turn hfirst hwithin hpass⟩

end Runs

end Pass

/-! ### The call -/

section Call
variable {cfg heard} {k : Kind} {t : Nat} {answers : Answers}

/-- The pass of a call runs between the lock and the unlock. -/
theorem admitReady_pass {ready : List ReadyTask} {w w' : World} {r : Except Err Unit} (hreads : ReadsSucceed heard)
    (hp : w.perform k t answers 0 (admitReady cfg ready).run = some (r, w'))
    (hheard : Within heard k t answers 0 (admitReady cfg ready).run w) :
    ∃ turns v, turns.map (·.task) = inOrder ready ∧ v.jobs = w'.jobs ∧ v.db = w'.db ∧
      Pass cfg heard k t answers { globalRemaining := cfg.maxConcurrentTasks - w.db.countActiveTaskInstances }
        { w with holder := some t } turns v := by
  rw [admitReady_eq] at hp hheard
  by_cases hempty : ready = []
  · subst hempty
    cases hp
    exact ⟨[], { w with holder := some t }, rfl, rfl, rfl, .done _ _⟩
  · rw [if_neg (by simpa using hempty)] at hp hheard
    simp only [locked, Fallible.around, ExceptT.run_mk, World.perform] at hp
    split at hp
    · cases hp
    · rename_i w₁ hlock
      obtain ⟨r₁, w₂, m, ⟨hbody, hwithin⟩, hunlock, _⟩ := perform_parts hp (fun c a h => hheard c a (.later hlock h))
      have hw₁ : w₁ = { w with holder := some t } := (World.exec_effect hlock).1
      have hw' : { w₂ with holder := none } = w' := by
        cases hunlock
        rfl
      obtain ⟨r₂, w₃, m', ⟨hcount, hwithin'⟩, hloop, hwithin''⟩ := perform_parts hbody hwithin
      have hactive := answered_perform (answered_list hreads _ _ rfl) hcount hwithin'
      cases r₂ with
      | error e => exact hactive.elim
      | ok active =>
        obtain ⟨rfl, rfl⟩ := hactive
        obtain ⟨r₃, w₄, m'', ⟨hfold, hwithin₃⟩, hend, _⟩ := perform_parts hloop hwithin''
        obtain ⟨turns, htasks, hpass⟩ := foldlM_pass hreads (ledger_start _).groups hfold hwithin₃
        have hdone : w₄ = w₂ := by
          cases r₃ <;> cases hend <;> rfl
        subst hdone hw₁ hw'
        exact ⟨turns, w₄, htasks, rfl, rfl, hpass⟩

/-- Admission respects the order of the ready tasks: a task that is passed over
before another one is launched is excused by its own worker group, DAG, pool, row
or write. Tasks of different instances are taken in the same order however they
were listed. -/
theorem admission_in_order {ready : List ReadyTask} {w w' : World} {r : Except Err Unit}
    (hp : w.perform k t answers 0 (admitReady cfg ready).run = some (r, w'))
    (hreads : ReadsSucceed (Hears k t answers 0 (admitReady cfg ready).run w)) :
    (∃ turns v, turns.map (·.task) = inOrder ready ∧ v.jobs = w'.jobs ∧ v.db = w'.db ∧
      Pass cfg (Hears k t answers 0 (admitReady cfg ready).run w) k t answers
        { globalRemaining := cfg.maxConcurrentTasks - w.db.countActiveTaskInstances } { w with holder := some t } turns v ∧
      (∀ x ∈ turns, x.after.jobs = x.before.jobs ∨ ∃ ti, x.after.jobs = x.before.jobs ++ [.launch x.task.run x.task.task ti]) ∧
      ∀ early x mid y late, turns = early ++ x :: mid ++ y :: late → x.dispatched = false → y.dispatched = true →
        Excused cfg (Hears k t answers 0 (admitReady cfg ready).run w) early x) ∧
    ∀ other, ready.Perm other →
      (∀ a ∈ ready, ∀ b ∈ ready, a.run.runID = b.run.runID → a.ti.taskID = b.ti.taskID → a = b) →
      admitReady cfg ready = admitReady cfg other := by
  constructor
  · obtain ⟨turns, v, htasks, hjobs, hdb, hpass⟩ := admitReady_pass hreads hp (within_hears _ _ _)
    refine ⟨turns, v, htasks, hjobs, hdb, hpass, ?_, ?_⟩
    · intro x hx
      obtain ⟨early, late, hsplit⟩ := List.append_of_mem hx
      obtain ⟨_, ⟨b', hturn⟩, _⟩ := pass_split hreads hpass (ledger_start _) hsplit
      exact hturn.jobs
    · intro early x mid y late hsplit hx hy
      exact pass_excused hreads hpass (ledger_start _) hsplit hx hy
  · intro other hperm hdistinct
    rw [admitReady_eq, admitReady_eq, inOrder_perm hperm hdistinct]
    rw [hperm.isEmpty_eq]

end Call

private def jobRun (runID : String) (priority : Int) : DagRun :=
  { runID := runID, dagID := "jobs", logicalDate := 0, state := .running, triggerType := .manual, priority := priority }

private def jobRow (id : Nat) (runID pool : String) (state : TaskState) : TaskInstance :=
  { id := id, runID := runID, taskID := "work", state := state, pool := pool }

/-- The pool `narrow` has one slot, which the oldest run holds. -/
private def narrowWorld : World where
  db :=
    { runs := ⟨[{ jobRun "old" 0 with logicalDate := -1 }, jobRun "urgent" 9], by decide⟩
      tasks := ⟨[jobRow 1 "old" "narrow" .running, jobRow 2 "urgent" "narrow" .scheduled, jobRow 3 "usual" "default" .scheduled], by decide⟩
      pools := ⟨[{ name := "narrow", slots := 1 }], by decide⟩ }

private def waiting (runID pool : String) (id : Nat) (priority : Int) : ReadyTask :=
  { run := jobRun runID priority, task := { id := "work" }, ti := jobRow id runID pool .scheduled, dagMaxTasks := 0 }

/-- The urgent task waits for its pool, the usual one is launched. -/
theorem admission_in_order_narrow : ∃ w' turns,
    narrowWorld.perform .loop 0 fine 0 (admitReady (.ofDocuments []) [waiting "usual" "default" 3 0, waiting "urgent" "narrow" 2 9]).run =
        some (.ok (), w') ∧
      w'.jobs.map (fun job => job.ti.runID) = ["usual"] ∧
      turns.map (·.task.run.runID) = ["urgent", "usual"] ∧
      ∀ early x mid y late, turns = early ++ x :: mid ++ y :: late → x.dispatched = false → y.dispatched = true →
        Excused (.ofDocuments []) (Hears .loop 0 fine 0
          (admitReady (.ofDocuments []) [waiting "usual" "default" 3 0, waiting "urgent" "narrow" 2 9]).run narrowWorld) early x := by
  have hrun : (narrowWorld.perform .loop 0 fine 0
      (admitReady (.ofDocuments []) [waiting "usual" "default" 3 0, waiting "urgent" "narrow" 2 9]).run).map
        (fun p => (p.1, p.2.jobs.map (fun job => job.ti.runID))) = some (.ok (), ["usual"]) := by decide +kernel
  obtain ⟨⟨r, w'⟩, hp, hpair⟩ := Option.map_eq_some_iff.mp hrun
  obtain ⟨rfl, hjobs⟩ := Prod.mk.inj hpair
  have hreads : ReadsSucceed (Hears .loop 0 fine 0
      (admitReady (.ofDocuments []) [waiting "usual" "default" 3 0, waiting "urgent" "narrow" 2 9]).run narrowWorld) := by
    intro β c h
    obtain ⟨m, ha⟩ := h.answer
    cases ha
  obtain ⟨⟨turns, _, htasks, _, _, _, _, hexcused⟩, _⟩ := admission_in_order hp hreads
  refine ⟨w', turns, hp, hjobs, ?_, hexcused⟩
  have hids := congrArg (List.map (fun rt => rt.run.runID)) htasks
  rw [List.map_map] at hids
  have horder : (inOrder [waiting "usual" "default" 3 0, waiting "urgent" "narrow" 2 9]).map (fun rt => rt.run.runID) = ["urgent", "usual"] := by
    decide +kernel
  exact hids.trans horder

end Cronova.Properties.Priority
