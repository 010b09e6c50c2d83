import Cronova.Concurrency.Trace
import Cronova.Relational.Regroup
import Cronova.Scheduler.Tick

/-! The queue after it has been reordered: every position keeps its DAG, and the runs of a
DAG stand in priority order or as they were. -/
namespace Cronova.Properties.QueueOrder
open Cronova.Model Cronova.Store Cronova.Concurrency Cronova.Scheduler Cronova.Relational.Regroup

/-- The definitions that the scheduler has cached say that the queue of the DAG is ordered
by priority. -/
def prioritized (dags : List DAG) (dagID : String) : Bool :=
  (dags.find? (fun d => d.dagID = dagID)).any (fun d => d.executionPolicy = .serialPriority)

/-- The cache does not change while it is read. -/
def cached (dags : List DAG) : Observer Cmd Unit Empty where
  replies _ c x := match c with
    | .registry q => x = q dags
    | _ => True
  note _ _ := []

/-- The runs of a DAG. -/
abbrev runsOf (dagID : String) (runs : List DagRun) : List DagRun := members (·.dagID) dagID runs

variable {dags : List DAG} {dagID : String} {queued : List DagRun} {notes : List Empty}

/-! ### The order -/

instance : Std.Total queueOrder where
  total a b := by
    have hdate := Int.le_total a.logicalDate b.logicalDate
    have hpriority := Int.lt_trichotomy a.priority b.priority
    unfold queueOrder
    tauto

instance : IsTrans DagRun queueOrder where
  trans a b c hab hbc := by
    rcases hab with hab | ⟨hab, hdate⟩
    · rcases hbc with hbc | ⟨hbc, -⟩
      · exact .inl (Int.lt_trans hbc hab)
      · exact .inl (hbc ▸ hab)
    · rcases hbc with hbc | ⟨hbc, hdate'⟩
      · exact .inl (hab ▸ hbc)
      · exact .inr ⟨hab.trans hbc, Int.le_trans hdate hdate'⟩

/-- The queue of a DAG. -/
def queueOf (needs : List String) (queued : List DagRun) (dagID : String) : List DagRun :=
  if dagID ∈ needs ∧ 2 ≤ (runsOf dagID queued).length then (runsOf dagID queued).insertionSort queueOrder else runsOf dagID queued

theorem reorderQueue_eq (needs : List String) (queued : List DagRun) :
    reorderQueue needs queued = fill (·.dagID) (queueOf needs queued) [] queued := rfl

theorem queueOf_perm (needs : List String) (queued : List DagRun) (dagID : String) :
    (queueOf needs queued dagID).Perm (runsOf dagID queued) := by
  unfold queueOf
  split
  · exact List.perm_insertionSort _ _
  · exact .refl _

theorem queueOf_fits (needs : List String) (queued : List DagRun) : Fits (·.dagID) (queueOf needs queued) queued := by
  constructor
  · exact fun dagID => (queueOf_perm needs queued dagID).length_eq
  · intro dagID run hrun
    have hmem := (queueOf_perm needs queued dagID).subset hrun
    simpa using (List.mem_filter.mp hmem).2

theorem runsOf_reorderQueue (needs : List String) (queued : List DagRun) (dagID : String) :
    runsOf dagID (reorderQueue needs queued) = queueOf needs queued dagID := by
  rw [reorderQueue_eq]
  exact members_fill_nil (queueOf_fits needs queued)

theorem dagIDs_reorderQueue (needs : List String) (queued : List DagRun) :
    (reorderQueue needs queued).map (·.dagID) = queued.map (·.dagID) := by
  rw [reorderQueue_eq]
  exact map_key_fill (queueOf_fits needs queued)

theorem reorderQueue_perm (needs : List String) (queued : List DagRun) : (reorderQueue needs queued).Perm queued := by
  have hgroups : ∀ dagID, (runsOf dagID (reorderQueue needs queued)).Perm (runsOf dagID queued) := by
    intro dagID
    rw [runsOf_reorderQueue]
    exact queueOf_perm needs queued dagID
  exact perm_of_members hgroups

/-- A queue of at most one run is in order. -/
theorem queueOf_sorted {needs : List String} (h : dagID ∈ needs) (queued : List DagRun) :
    StablySorted queueOrder (runsOf dagID queued) (queueOf needs queued dagID) := by
  have hsorted := stablySorted_insertionSort queueOrder (runsOf dagID queued)
  unfold queueOf
  by_cases hlength : 2 ≤ (runsOf dagID queued).length
  · rw [if_pos ⟨h, hlength⟩]
    exact hsorted
  · rw [if_neg (fun hboth => hlength hboth.2)]
    refine ⟨.refl _, ?_, fun _ => rfl⟩
    cases hruns : runsOf dagID queued with
    | nil => exact .nil
    | cons run rest =>
      rw [hruns, List.length_cons] at hlength
      obtain rfl : rest = [] := List.eq_nil_of_length_eq_zero (by omega)
      exact List.pairwise_singleton _ _

theorem queueOf_other {needs : List String} (h : dagID ∉ needs) (queued : List DagRun) :
    queueOf needs queued dagID = runsOf dagID queued := if_neg (fun hboth => h hboth.1)

/-- What is in order stays. -/
theorem queueOf_again (needs : List String) (queued : List DagRun) (dagID : String) :
    queueOf needs (reorderQueue needs queued) dagID = queueOf needs queued dagID := by
  by_cases h : dagID ∈ needs
  · have hsorted := queueOf_sorted h queued
    have hagain : queueOf needs (reorderQueue needs queued) dagID =
        if dagID ∈ needs ∧ 2 ≤ (queueOf needs queued dagID).length then (queueOf needs queued dagID).insertionSort queueOrder
        else queueOf needs queued dagID := by
      unfold queueOf
      rw [runsOf_reorderQueue]
      rfl
    rw [hagain, hsorted.sorted.insertionSort_eq]
    exact ite_self _
  · rw [queueOf_other h, runsOf_reorderQueue]

theorem reorderQueue_again (needs : List String) (queued : List DagRun) :
    reorderQueue needs (reorderQueue needs queued) = reorderQueue needs queued := by
  refine eq_of_members (dagIDs_reorderQueue needs _) (fun dagID => ?_)
  change runsOf dagID _ = runsOf dagID _
  rw [runsOf_reorderQueue, runsOf_reorderQueue, queueOf_again]

/-! ### The operation -/

theorem acts_registry {α β : Type} (q : List DAG → β) (next : β → M α) (r : Except Err α) :
    Acts (cached dags) (command (.registry q) >>= next).run notes r ↔ Acts (cached dags) (next (q dags)).run notes r := by
  constructor
  · rintro ⟨_, x, rest, hx, rfl, hrest⟩
    cases hx
    exact hrest
  · exact fun h => ⟨(), q dags, notes, rfl, rfl, h⟩

/-- The reads of the cache find the DAGs whose queues are to be ordered. -/
theorem acts_priorityDags {α : Type} (dagIDs : List String) (next : List String → M α) (r : Except Err α) :
    Acts (cached dags) (priorityDags dagIDs >>= next).run notes r ↔
      Acts (cached dags) (next (dagIDs.filter (prioritized dags))).run notes r := by
  induction dagIDs generalizing next with
  | nil => rfl
  | cons dagID dagIDs ih =>
    have hprogram : priorityDags (dagID :: dagIDs) >>= next = cachedDAG dagID >>= fun d => priorityDags dagIDs >>= fun needs =>
        next (if d.any (fun d => d.executionPolicy = .serialPriority) then dagID :: needs else needs) := by
      rw [priorityDags]
      simp only [bind_assoc, pure_bind]
    rw [hprogram]
    unfold cachedDAG
    rw [acts_registry, ih, List.filter_cons]
    rfl

/-- The operation reorders by the policies that are cached. -/
theorem acts_reorderPriorityQueues (queued : List DagRun) (r : Except Err (List DagRun)) :
    Acts (cached dags) (reorderPriorityQueues queued).run notes r ↔
      notes = [] ∧ r = .ok (reorderQueue ((queued.map (·.dagID)).eraseDups.filter (prioritized dags)) queued) := by
  unfold reorderPriorityQueues
  rw [acts_priorityDags]
  rfl

theorem mem_needs {run : DagRun} (hrun : run ∈ queued) :
    run.dagID ∈ (queued.map (·.dagID)).eraseDups.filter (prioritized dags) ↔ prioritized dags run.dagID = true := by
  rw [List.mem_filter, List.mem_eraseDups]
  exact and_iff_right (List.mem_map_of_mem hrun)

/-- The operation has one result. It is the queue with every position in the hands of the
same DAG, the runs of a DAG whose policy is serial_priority stably sorted, and those of the
others as they were. A second time changes nothing. -/
theorem reorderPriorityQueues_spec (dags : List DAG) (queued : List DagRun) :
    ∃ out, (∀ notes r, Acts (cached dags) (reorderPriorityQueues queued).run notes r ↔ notes = [] ∧ r = .ok out) ∧
      out.Perm queued ∧ out.map (·.dagID) = queued.map (·.dagID) ∧
      (∀ dagID, prioritized dags dagID = true → StablySorted queueOrder (runsOf dagID queued) (runsOf dagID out)) ∧
      (∀ dagID, prioritized dags dagID = false → runsOf dagID out = runsOf dagID queued) ∧
      ∀ notes r, Acts (cached dags) (reorderPriorityQueues out).run notes r ↔ notes = [] ∧ r = .ok out := by
  refine ⟨_, fun _ => acts_reorderPriorityQueues queued, reorderQueue_perm _ _, dagIDs_reorderQueue _ _, ?_, ?_, ?_⟩
  · intro dagID hpriority
    rw [runsOf_reorderQueue]
    by_cases hneeds : dagID ∈ (queued.map (·.dagID)).eraseDups.filter (prioritized dags)
    · exact queueOf_sorted hneeds queued
    · -- the DAG has no runs in the queue
      have hnone : runsOf dagID queued = [] := by
        refine List.filter_eq_nil_iff.mpr ?_
        intro run hrun hdag
        obtain rfl := of_decide_eq_true hdag
        exact hneeds ((mem_needs hrun).mpr hpriority)
      rw [queueOf_other hneeds, hnone]
      exact ⟨.refl _, .nil, fun _ => rfl⟩
  · intro dagID hpriority
    rw [runsOf_reorderQueue]
    refine queueOf_other (fun hneeds => ?_) queued
    rw [List.mem_filter, hpriority] at hneeds
    cases hneeds.2
  · intro notes r
    rw [acts_reorderPriorityQueues, dagIDs_reorderQueue, reorderQueue_again]

end Cronova.Properties.QueueOrder
