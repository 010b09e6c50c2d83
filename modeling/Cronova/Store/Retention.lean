import Cronova.Store.Rows

/-! Retention: old finished runs are deleted with their task instances and their
dependency event. The newest scheduled run of each DAG stays whatever its age,
since the next period is counted from it. -/
namespace Cronova.Store
open Cronova.Model Cronova.Relational

namespace Db

/-- `SELECT MAX(logical_date)` over the scheduled runs of a DAG. -/
def maxScheduledDate (s : Db) (dagID : String) : Option Time :=
  ((s.runs.filter (fun r => r.dagID = dagID ∧ r.triggerType = .schedule)).map (·.logicalDate)).max?

/-- The runs that are exempt: scheduled runs at the newest date of their DAG. -/
def anchorRuns (s : Db) : List String :=
  (s.runs.filter (fun r => r.triggerType = .schedule ∧ s.maxScheduledDate r.dagID = some r.logicalDate)).map (·.runID)

/-- The runs that a cutoff selects. -/
def prunable (s : Db) (cutoff : Time) : List DagRun :=
  s.runs.filter (fun r => r.finishedAt.any (· < cutoff) ∧ r.state ∈ [.success, .failed, .cancelled, .timedOut] ∧
    r.runID ∉ s.anchorRuns)

/-- Delete some runs and what belongs to them. Their outputs are not among it. -/
def pruneChunk (s : Db) (ids : List String) : Db :=
  { s with
    events := s.events.delete (fun e => e.source = .dependency ∧ e.eventKey ∈ ids)
    tasks := s.tasks.delete (fun ti => ti.runID ∈ ids)
    runs := s.runs.delete (fun r => r.runID ∈ ids) }

/-- The statements are issued for this many runs at a time. -/
def pruneChunkSize : Nat := 500

def pruneChunks (s : Db) : (fuel : Nat) → (ids : List String) → Db
  | 0, _ => s
  | fuel + 1, ids =>
    if ids = [] then s else pruneChunks (s.pruneChunk (ids.take pruneChunkSize)) fuel (ids.drop pruneChunkSize)

/-- Delete the finished runs older than the cutoff, and report them by DAG and run.
Every chunk has a run, so their number bounds the chunks. -/
def pruneRuns (s : Db) (cutoff : Time) : List (String × String) × Db :=
  let pruned := s.prunable cutoff
  (pruned.map (fun r => (r.dagID, r.runID)), s.pruneChunks pruned.length (pruned.map (·.runID)))

/-! ### What is deleted -/

theorem pruneChunk_append (s : Db) (a b : List String) : (s.pruneChunk a).pruneChunk b = s.pruneChunk (a ++ b) := by
  simp only [pruneChunk, Table.delete, List.filter_filter, List.mem_append, Db.mk.injEq, Table.mk.injEq, and_true, true_and]
  refine ⟨?_, ?_, ?_⟩
  · refine List.filter_congr (fun r _ => ?_)
    by_cases ha : r.runID ∈ a <;> by_cases hb : r.runID ∈ b <;> simp [ha, hb]
  · refine List.filter_congr (fun ti _ => ?_)
    by_cases ha : ti.runID ∈ a <;> by_cases hb : ti.runID ∈ b <;> simp [ha, hb]
  · refine List.filter_congr (fun e _ => ?_)
    by_cases ha : e.eventKey ∈ a <;> by_cases hb : e.eventKey ∈ b <;> simp [ha, hb]

/-- The chunks together delete what one statement would. -/
theorem pruneChunks_eq (s : Db) (fuel : Nat) (ids : List String) (h : ids.length ≤ fuel) :
    s.pruneChunks fuel ids = s.pruneChunk ids := by
  have hnone : ∀ s : Db, s.pruneChunk [] = s := by
    intro s
    simp [pruneChunk, Table.delete]
  induction fuel generalizing s ids with
  | zero =>
    obtain rfl := List.length_eq_zero_iff.mp (Nat.le_zero.mp h)
    exact (hnone s).symm
  | succ fuel ih =>
    unfold pruneChunks
    split
    · rename_i hnil
      rw [hnil, hnone]
    · rename_i hne
      have hpos : 0 < ids.length := List.length_pos_iff.mpr hne
      have hdrop : (ids.drop pruneChunkSize).length ≤ fuel := by
        rw [List.length_drop]
        unfold pruneChunkSize
        omega
      rw [ih _ _ hdrop, pruneChunk_append, List.take_append_drop]

theorem pruneRuns_snd (s : Db) (cutoff : Time) :
    (s.pruneRuns cutoff).2 = s.pruneChunk ((s.prunable cutoff).map (·.runID)) :=
  s.pruneChunks_eq _ _ (by rw [List.length_map])

/-- The run is deleted. -/
def Pruned (s : Db) (cutoff : Time) (runID : String) : Prop := ∃ r ∈ s.prunable cutoff, r.runID = runID

theorem mem_prunable_ids {s : Db} {cutoff : Time} {id : String} :
    id ∈ (s.prunable cutoff).map (·.runID) ↔ s.Pruned cutoff id :=
  List.mem_map

theorem mem_pruneRuns_runs {s : Db} {cutoff : Time} {r : DagRun} :
    r ∈ (s.pruneRuns cutoff).2.runs.rows ↔ r ∈ s.runs.rows ∧ ¬ s.Pruned cutoff r.runID := by
  rw [pruneRuns_snd, pruneChunk, Table.mem_delete, decide_eq_false_iff_not, mem_prunable_ids]

theorem mem_pruneRuns_tasks {s : Db} {cutoff : Time} {ti : TaskInstance} :
    ti ∈ (s.pruneRuns cutoff).2.tasks.rows ↔ ti ∈ s.tasks.rows ∧ ¬ s.Pruned cutoff ti.runID := by
  rw [pruneRuns_snd, pruneChunk, Table.mem_delete, decide_eq_false_iff_not, mem_prunable_ids]

theorem mem_pruneRuns_events {s : Db} {cutoff : Time} {e : Event} :
    e ∈ (s.pruneRuns cutoff).2.events.rows ↔
      e ∈ s.events.rows ∧ ¬ (e.source = .dependency ∧ s.Pruned cutoff e.eventKey) := by
  rw [pruneRuns_snd, pruneChunk, Table.mem_delete, decide_eq_false_iff_not, mem_prunable_ids]

@[simp] theorem pruneRuns_outputs (s : Db) (cutoff : Time) : (s.pruneRuns cutoff).2.outputs = s.outputs := by
  rw [pruneRuns_snd]
  rfl

/-! ### The newest scheduled run -/

/-- `r` is the newest scheduled run of its DAG. -/
def Newest (s : Db) (dagID : String) (r : DagRun) : Prop :=
  (r ∈ s.runs.rows ∧ r.dagID = dagID ∧ r.triggerType = .schedule) ∧
    ∀ q ∈ s.runs.rows, q.dagID = dagID → q.triggerType = .schedule → q.logicalDate ≤ r.logicalDate

theorem Newest.unique {s : Db} {dagID : String} {a b : DagRun} (ha : s.Newest dagID a) (hb : s.Newest dagID b) : a = b := by
  have hab := hb.2 a ha.1.1 ha.1.2.1 ha.1.2.2
  have hba := ha.2 b hb.1.1 hb.1.2.1 hb.1.2.2
  exact run_unique ha.1.1 hb.1.1 (ha.1.2.1.trans hb.1.2.1.symm) (le_antisymm hab hba)

private theorem scheduled_rows {s : Db} {dagID : String} {r : DagRun} :
    r ∈ s.runs.filter (fun r => r.dagID = dagID ∧ r.triggerType = .schedule) ↔
      r ∈ s.runs.rows ∧ r.dagID = dagID ∧ r.triggerType = .schedule := by
  simp [Table.filter]

/-- The lookup finds the newest scheduled run, or there is none. -/
theorem latestScheduledRun_spec (s : Db) (dagID : String) :
    (∃ r, s.latestScheduledRun dagID = .ok r ∧ s.Newest dagID r) ∨
      s.latestScheduledRun dagID = .error .notFound ∧
        ∀ q ∈ s.runs.rows, q.dagID = dagID → q.triggerType ≠ .schedule := by
  unfold latestScheduledRun
  have hsorted : ((s.runs.filter (fun r => r.dagID = dagID ∧ r.triggerType = .schedule)).insertionSort
      (fun a b => b.logicalDate ≤ a.logicalDate)).Pairwise (fun a b => b.logicalDate ≤ a.logicalDate) := by
    have htotal : Std.Total (fun a b : DagRun => b.logicalDate ≤ a.logicalDate) := ⟨fun a b => le_total _ _⟩
    have htrans : IsTrans DagRun (fun a b => b.logicalDate ≤ a.logicalDate) := ⟨fun a b c hab hbc => hbc.trans hab⟩
    exact List.pairwise_insertionSort _ _
  have hmem : ∀ r, r ∈ (s.runs.filter (fun r => r.dagID = dagID ∧ r.triggerType = .schedule)).insertionSort
      (fun a b => b.logicalDate ≤ a.logicalDate) ↔ r ∈ s.runs.rows ∧ r.dagID = dagID ∧ r.triggerType = .schedule :=
    fun r => (List.mem_insertionSort _).trans scheduled_rows
  generalize (s.runs.filter (fun r => r.dagID = dagID ∧ r.triggerType = .schedule)).insertionSort
    (fun a b => b.logicalDate ≤ a.logicalDate) = sorted at hsorted hmem
  cases sorted with
  | nil =>
    refine .inr ⟨rfl, ?_⟩
    intro q hq hdag hschedule
    exact absurd ((hmem q).mpr ⟨hq, hdag, hschedule⟩) (List.not_mem_nil)
  | cons r rest =>
    refine .inl ⟨r, rfl, (hmem r).mp (by simp), ?_⟩
    intro q hq hdag hschedule
    rcases List.mem_cons.mp ((hmem q).mpr ⟨hq, hdag, hschedule⟩) with rfl | hrest
    · exact le_refl _
    · exact (List.pairwise_cons.mp hsorted).1 q hrest

theorem latestScheduledRun_of_newest {s : Db} {dagID : String} {r : DagRun} (h : s.Newest dagID r) :
    s.latestScheduledRun dagID = .ok r := by
  rcases s.latestScheduledRun_spec dagID with ⟨r', heq, hnew⟩ | ⟨-, hnone⟩
  · rw [heq, h.unique hnew]
  · exact absurd h.1.2.2 (hnone r h.1.1 h.1.2.1)

/-- The newest scheduled run of a DAG is exempt. -/
theorem Newest.kept {s : Db} {dagID : String} {r : DagRun} (h : s.Newest dagID r) (cutoff : Time) :
    ¬ s.Pruned cutoff r.runID := by
  obtain ⟨⟨hmem, hdag, hschedule⟩, hmax⟩ := h
  have hdate : s.maxScheduledDate r.dagID = some r.logicalDate := by
    unfold maxScheduledDate
    rw [List.max?_eq_some_iff]
    refine ⟨List.mem_map.mpr ⟨r, scheduled_rows.mpr ⟨hmem, rfl, hschedule⟩, rfl⟩, ?_⟩
    intro date hin
    obtain ⟨q, hq, rfl⟩ := List.mem_map.mp hin
    obtain ⟨hqmem, hqdag, hqschedule⟩ := scheduled_rows.mp hq
    exact hmax q hqmem (hqdag.trans hdag) hqschedule
  have hanchor : r.runID ∈ s.anchorRuns := by
    refine List.mem_map.mpr ⟨r, ?_, rfl⟩
    simp only [Table.filter, List.mem_filter, decide_eq_true_eq]
    exact ⟨hmem, hschedule, hdate⟩
  rintro ⟨q, hq, hid⟩
  simp only [prunable, Table.filter, List.mem_filter, decide_eq_true_eq] at hq
  rw [hid] at hq
  exact hq.2.2.2 hanchor

end Db
end Cronova.Store
