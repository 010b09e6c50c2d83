import Cronova.Relational.OrderBy
import Cronova.Store.Retention
import Cronova.Store.Timestamp
import Mathlib.Order.WithBot

/-! The queries that compare instants, as the database runs them: on the texts of the
columns. The tables of the model compare the instants; the two agree where no two of them
are swapped. -/
namespace Cronova.Store
open Cronova.Model Cronova.Relational

/-- The seconds that a database reads off a stored text, `strftime('%s', x)` or
`EXTRACT(EPOCH FROM x::timestamptz)`. They may be rounded; a later instant has no fewer. -/
structure Epoch where
  of : List Char → Int
  mono : ∀ t u, InRange t → InRange u → t ≤ u → of (fmtTime t) ≤ of (fmtTime u)

/-- A database that counts whole units of time. -/
def Epoch.every (unit : Int) (h : 0 < unit) : Epoch where
  of s := parseLoose (fun _ => none) s / unit
  mono t u ht hu hle := by
    rw [parseLoose_fmtTime _ ht, parseLoose_fmtTime _ hu]
    exact Int.ediv_le_ediv h hle

namespace Db

/-- `ORDER BY logical_date` -/
def byLogicalDate : Comparison DagRun := .column (fun r => fmtTime r.logicalDate)

def ListDagRunsByState (s : Db) (state : RunState) (out : List DagRun) : Prop :=
  byLogicalDate.Ordered (s.runs.filter (fun r => r.state = state)) out

def ListDagRunsByStateLimited (s : Db) (state : RunState) (limit : Int) (out : List DagRun) : Prop :=
  if limit ≤ 0 then s.ListDagRunsByState state out
  else ∃ all, s.ListDagRunsByState state all ∧ out = all.take limit.toNat

/-- `JOIN dags d ON r.dag_id=d.dag_id WHERE d.deleted_at IS NULL` -/
def liveRuns (s : Db) : List DagRun := s.runs.filter (fun r => s.isActiveDag r.dagID)

/-- When a run ran: its start, or its logical date while it has not started. -/
def ranAt (r : DagRun) : Time := r.startedAt.getD r.logicalDate

/-- `COALESCE` of the epochs of `started_at` and `logical_date`. -/
def epochOf (e : Epoch) (r : DagRun) : Int :=
  match r.startedAt with
  | some t => e.of (fmtTime t)
  | none => e.of (fmtTime r.logicalDate)

/-- `started_at`, where a missing one is the least text. -/
def startedText (r : DagRun) : WithBot (List Char) :=
  match r.startedAt with
  | some t => ↑(fmtTime t)
  | none => ⊥

/-- `ORDER BY COALESCE(..) DESC, r.started_at DESC NULLS LAST` -/
def byStart (e : Epoch) : Comparison DagRun := (Comparison.column (epochOf e)).desc.andThen (Comparison.column startedText).desc

def RecentRuns (e : Epoch) (s : Db) (limit : Int) (out : List DagRun) : Prop :=
  ∃ all, (byStart e).Ordered s.liveRuns all ∧ out = all.take (if limit ≤ 0 then 20 else limit.toNat)

/-- A scheduled run at the `MAX(logical_date)` of its DAG. -/
def IsAnchor (s : Db) (r : DagRun) : Prop :=
  r.triggerType = .schedule ∧
    ∀ q ∈ s.runs.rows, q.dagID = r.dagID → q.triggerType = .schedule → fmtTime q.logicalDate ≤ fmtTime r.logicalDate

instance (s : Db) (r : DagRun) : Decidable (s.IsAnchor r) := inferInstanceAs (Decidable (_ ∧ _))

/-- The runs that a cutoff may select: finished ones that no period is counted from. -/
def Expendable (s : Db) (r : DagRun) : Prop :=
  r.state ∈ [.success, .failed, .cancelled, .timedOut] ∧ ∀ q ∈ s.runs.rows, s.IsAnchor q → r.runID ≠ q.runID

instance (s : Db) (r : DagRun) : Decidable (s.Expendable r) := inferInstanceAs (Decidable (_ ∧ _))

/-- `finished_at IS NOT NULL AND finished_at < ?` -/
def prunableByText (s : Db) (cutoff : Time) : List DagRun :=
  s.runs.filter (fun r => r.finishedAt.any (fun t => fmtTime t < fmtTime cutoff) ∧ s.Expendable r)

/-- `PruneRuns`, with the runs that it selects by text. -/
def pruneRunsByText (s : Db) (cutoff : Time) : List (String × String) × Db :=
  let pruned := s.prunableByText cutoff
  (pruned.map (fun r => (r.dagID, r.runID)), s.pruneChunks pruned.length (pruned.map (·.runID)))

theorem mem_pruneRunsByText {s : Db} {cutoff : Time} {r : DagRun} (hr : r ∈ s.runs.rows) :
    r ∉ (s.pruneRunsByText cutoff).2.runs.rows ↔ r ∈ s.prunableByText cutoff := by
  have hchunk : (s.pruneRunsByText cutoff).2 = s.pruneChunk ((s.prunableByText cutoff).map (·.runID)) :=
    s.pruneChunks_eq _ _ (by simp)
  have hmem : r ∈ (s.pruneRunsByText cutoff).2.runs.rows ↔ ¬ r.runID ∈ (s.prunableByText cutoff).map (·.runID) := by
    rw [hchunk, pruneChunk, Table.mem_delete, decide_eq_false_iff_not]
    exact and_iff_right hr
  rw [hmem, not_not, List.mem_map]
  constructor
  · rintro ⟨q, hq, hid⟩
    have hstored : q ∈ s.runs.rows := List.mem_of_mem_filter hq
    have hsame := run?_of_mem hstored
    rw [hid, run?_of_mem hr] at hsame
    cases hsame
    exact hq
  · exact fun h => ⟨r, h, rfl⟩

/-- The stored instants can be written. -/
def Written (s : Db) : Prop :=
  ∀ r ∈ s.runs.rows, InRange r.logicalDate ∧ (∀ t, r.startedAt = some t → InRange t) ∧ ∀ t, r.finishedAt = some t → InRange t

theorem Written.ranAt {s : Db} (h : s.Written) {r : DagRun} (hr : r ∈ s.runs.rows) : InRange (ranAt r) := by
  obtain ⟨hdate, hstart, -⟩ := h r hr
  rw [Db.ranAt]
  cases hs : r.startedAt with
  | none => exact hdate
  | some t => exact hstart t hs

theorem epochOf_eq (e : Epoch) (r : DagRun) : epochOf e r = e.of (fmtTime (ranAt r)) := by
  rw [epochOf, ranAt]
  cases r.startedAt <;> rfl

end Db

/-! ### Where the texts agree with the instants -/

/-- The texts of two instants are in the order of the instants. -/
def Told (t u : Time) : Prop := (t < u → ¬ Swapped t u) ∧ (u < t → ¬ Swapped u t)

theorem fmtTime_le_iff {t u : Time} (ht : InRange t) (hu : InRange u) (h : Told t u) : fmtTime t ≤ fmtTime u ↔ t ≤ u := by
  rcases lt_trichotomy t u with hlt | rfl | hlt
  · exact iff_of_true ((fmtTime_lt_iff ht hu hlt).mpr (h.1 hlt)).le hlt.le
  · exact iff_of_true le_rfl le_rfl
  · exact iff_of_false (not_le.mpr ((fmtTime_lt_iff hu ht hlt).mpr (h.2 hlt))) (not_le.mpr hlt)

/-- Instants on whole seconds are told apart by their texts. -/
theorem told_of_whole {t u : Time} (ht : nanos t = 0) (hu : nanos u = 0) : Told t u := by
  have hsame : ∀ {t u : Time}, nanos t = 0 → nanos u = 0 → Swapped t u → t = u := by
    intro t u ht hu hswap
    have hsplit := Int.mul_ediv_add_emod t second
    have hsplit' := Int.mul_ediv_add_emod u second
    have hnanos : ((nanos t : Nat) : Int) = t % second := Int.toNat_of_nonneg (Int.emod_nonneg t (by decide))
    have hnanos' : ((nanos u : Nat) : Int) = u % second := Int.toNat_of_nonneg (Int.emod_nonneg u (by decide))
    rw [← hnanos, ht] at hsplit
    rw [← hnanos', hu] at hsplit'
    rw [← hsplit, ← hsplit']
    exact congrArg (second * · + ((0 : Nat) : Int)) hswap.1
  exact ⟨fun hlt hswap => hlt.ne (hsame ht hu hswap), fun hlt hswap => hlt.ne (hsame hu ht hswap)⟩

namespace Db
variable {s : Db} (hs : s.Written) (hdates : ∀ a ∈ s.runs.rows, ∀ b ∈ s.runs.rows, Told a.logicalDate b.logicalDate)
include hs hdates

theorem listDagRunsByState_byText (state : RunState) : s.ListDagRunsByState state (s.listDagRunsByState state) where
  perm := List.perm_insertionSort _ _
  sorted := by
    have htotal : Std.Total (fun a b : DagRun => a.logicalDate ≤ b.logicalDate) := ⟨fun a b => le_total _ _⟩
    have htrans : IsTrans DagRun (fun a b => a.logicalDate ≤ b.logicalDate) := ⟨fun a b c hab hbc => hab.trans hbc⟩
    have hmem : ∀ r ∈ s.listDagRunsByState state, r ∈ s.runs.rows := by
      intro r hr
      exact List.mem_of_mem_filter ((List.mem_insertionSort _).mp hr)
    refine (List.pairwise_insertionSort (fun a b : DagRun => a.logicalDate ≤ b.logicalDate) _).imp_of_mem ?_
    intro a b ha hb hle
    have ha := hmem a ha
    have hb := hmem b hb
    exact (fmtTime_le_iff (hs a ha).1 (hs b hb).1 (hdates a ha b hb)).mpr hle

theorem isAnchor_iff {q : DagRun} (hq : q ∈ s.runs.rows) :
    s.IsAnchor q ↔ q.triggerType = .schedule ∧ s.maxScheduledDate q.dagID = some q.logicalDate := by
  refine and_congr_right (fun hschedule => ?_)
  rw [maxScheduledDate, List.max?_eq_some_iff]
  have hdate : q.logicalDate ∈ (s.runs.filter (fun r => r.dagID = q.dagID ∧ r.triggerType = .schedule)).map (·.logicalDate) :=
    List.mem_map.mpr ⟨q, List.mem_filter.mpr ⟨hq, by simpa using hschedule⟩, rfl⟩
  rw [and_iff_right hdate]
  constructor
  · intro h date hin
    obtain ⟨p, hp, rfl⟩ := List.mem_map.mp hin
    obtain ⟨hstored, hmatch⟩ := List.mem_filter.mp hp
    rw [decide_eq_true_eq] at hmatch
    exact (fmtTime_le_iff (hs p hstored).1 (hs q hq).1 (hdates p hstored q hq)).mp (h p hstored hmatch.1 hmatch.2)
  · intro h p hstored hdag hschedule'
    rw [fmtTime_le_iff (hs p hstored).1 (hs q hq).1 (hdates p hstored q hq)]
    exact h _ (List.mem_map.mpr ⟨p, List.mem_filter.mpr ⟨hstored, decide_eq_true ⟨hdag, hschedule'⟩⟩, rfl⟩)

theorem prunableByText_eq {cutoff : Time} (hcutoff : InRange cutoff)
    (hfin : ∀ r ∈ s.runs.rows, ∀ t, r.finishedAt = some t → Told cutoff t) : s.prunableByText cutoff = s.prunable cutoff := by
  refine List.filter_congr (fun r hr => ?_)
  have hanchor : (∀ q ∈ s.runs.rows, s.IsAnchor q → r.runID ≠ q.runID) ↔ r.runID ∉ s.anchorRuns := by
    rw [anchorRuns, List.mem_map, not_exists]
    constructor
    · rintro h q ⟨hq, hid⟩
      obtain ⟨hstored, hexempt⟩ := List.mem_filter.mp hq
      exact h q hstored ((isAnchor_iff hs hdates hstored).mpr (of_decide_eq_true hexempt)) hid.symm
    · intro h q hq hexempt hid
      exact h q ⟨List.mem_filter.mpr ⟨hq, decide_eq_true ((isAnchor_iff hs hdates hq).mp hexempt)⟩, hid.symm⟩
  have hdate : r.finishedAt.any (fun t => fmtTime t < fmtTime cutoff) = r.finishedAt.any (· < cutoff) := by
    cases hf : r.finishedAt with
    | none => rfl
    | some t =>
      have hle := fmtTime_le_iff hcutoff ((hs r hr).2.2 t hf) (hfin r hr t hf)
      simp only [Option.any_some, decide_eq_decide]
      rw [← not_le, ← not_le, hle]
  rw [decide_eq_decide, hdate]
  exact and_congr_right (fun _ => and_congr_right (fun _ => hanchor))

end Db
end Cronova.Store
