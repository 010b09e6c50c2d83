import Cronova.Store.TextOrder

/-! Whether stored time order is chronological order. It is, except for instants of one
second of which the later one carries on the fraction of the earlier. -/
namespace Cronova.Properties.TimeOrder
open Cronova.Model Cronova.Relational Cronova.Store Cronova.Store.Db

/-- What the queries of a store are expected to give. Runs of one start have no order
between them, so the two databases agree on the starts, and on the runs where these
differ. -/
structure Chronological (sqlite postgres : Epoch) (s : Db) (cutoff : Time) : Prop where
  byState : ∀ state out, s.ListDagRunsByState state out → out.Pairwise (fun a b => a.logicalDate ≤ b.logicalDate)
  limited : ∀ state limit out, s.ListDagRunsByStateLimited state limit out →
    out.Pairwise (fun a b => a.logicalDate ≤ b.logicalDate)
  recent : ∀ e ∈ [sqlite, postgres], ∀ limit out, RecentRuns e s limit out → out.Pairwise (fun a b => ranAt b ≤ ranAt a)
  identical : ∀ limit out out', RecentRuns sqlite s limit out → RecentRuns postgres s limit out' →
    out.map ranAt = out'.map ranAt ∧ ((∀ a ∈ s.liveRuns, ∀ b ∈ s.liveRuns, ranAt a = ranAt b → a = b) → out = out')
  pruned : ∀ r ∈ s.runs.rows, r ∉ (s.pruneRunsByText cutoff).2.runs.rows → ∀ t, r.finishedAt = some t → t < cutoff

/-- The started text of `b` is above that of `a`, which may have none. -/
def StartedLater (a b : DagRun) : Prop := ∃ u, b.startedAt = some u ∧ ∀ t, a.startedAt = some t → ¬ Swapped t u

/-- No query meets two instants that their texts swap. -/
structure Clear (sqlite postgres : Epoch) (s : Db) (cutoff : Time) : Prop where
  dates : ∀ a ∈ s.runs.rows, ∀ b ∈ s.runs.rows, a.state = b.state → a.logicalDate < b.logicalDate →
    ¬ Swapped a.logicalDate b.logicalDate
  starts : ∀ e ∈ [sqlite, postgres], ∀ a ∈ s.liveRuns, ∀ b ∈ s.liveRuns, ranAt a < ranAt b →
    epochOf e a < epochOf e b ∨ StartedLater a b
  finishes : ∀ r ∈ s.runs.rows, s.Expendable r → ∀ t, r.finishedAt = some t → cutoff < t → ¬ Swapped cutoff t

/-- A text that is not above another belongs to an instant that is not, unless the two
are swapped. -/
theorem le_of_fmtTime_le {t u : Time} (ht : InRange t) (hu : InRange u) :
    (fmtTime t ≤ fmtTime u → t ≤ u) ↔ (u < t → ¬ Swapped u t) := by
  rw [← not_imp_not, not_le, not_le]
  exact forall_congr' (fun hlt => fmtTime_lt_iff hu ht hlt)

section Queries
variable {s : Db} (hs : s.Written)
include hs

theorem byState_iff (state : RunState) :
    (∀ out, s.ListDagRunsByState state out → out.Pairwise (fun a b => a.logicalDate ≤ b.logicalDate)) ↔
      ∀ a ∈ s.runs.rows, ∀ b ∈ s.runs.rows, a.state = state → b.state = state → a.logicalDate < b.logicalDate →
        ¬ Swapped a.logicalDate b.logicalDate := by
  unfold ListDagRunsByState
  rw [byLogicalDate.forall_ordered_iff (fun a b => a.logicalDate ≤ b.logicalDate) (fun a => le_refl a.logicalDate)]
  constructor
  · intro h a ha b hb hstate hstate'
    exact (le_of_fmtTime_le (hs b hb).1 (hs a ha).1).mp
      (h b (List.mem_filter.mpr ⟨hb, by simpa using hstate'⟩) a (List.mem_filter.mpr ⟨ha, by simpa using hstate⟩))
  · intro h a ha b hb
    obtain ⟨ha, hstate⟩ := List.mem_filter.mp ha
    obtain ⟨hb, hstate'⟩ := List.mem_filter.mp hb
    exact (le_of_fmtTime_le (hs a ha).1 (hs b hb).1).mpr
      (h b hb a ha (of_decide_eq_true hstate') (of_decide_eq_true hstate))

/-- The comparison of two starts, told from what it compares. -/
theorem byStart_le_iff {e : Epoch} {a b : DagRun} (ha : a ∈ s.runs.rows) (hb : b ∈ s.runs.rows) :
    ((byStart e).le a b → ranAt b ≤ ranAt a) ↔ (ranAt a < ranAt b → epochOf e a < epochOf e b ∨ StartedLater a b) := by
  rw [← not_imp_not, not_le]
  refine forall_congr' (fun hlt => ?_)
  have hle : epochOf e a ≤ epochOf e b := by
    rw [epochOf_eq, epochOf_eq]
    exact e.mono _ _ (hs.ranAt ha) (hs.ranAt hb) hlt.le
  have htext : startedText a < startedText b ↔ StartedLater a b := by
    unfold startedText StartedLater
    cases hb' : b.startedAt with
    | none => simp
    | some u =>
      cases ha' : a.startedAt with
      | none => simp
      | some t =>
        have hlt : t < u := by simpa [ranAt, ha', hb'] using hlt
        simpa using fmtTime_lt_iff ((hs a ha).2.1 t ha') ((hs b hb).2.1 u hb') hlt
  have hcompare : (byStart e).le a b ↔ epochOf e b ≤ epochOf e a ∧ (epochOf e a ≤ epochOf e b → startedText b ≤ startedText a) :=
    Iff.rfl
  rw [hcompare, ← htext, not_and_or, not_le, Classical.not_imp, not_le, and_iff_right hle]

theorem recent_iff (e : Epoch) :
    (∀ limit out, RecentRuns e s limit out → out.Pairwise (fun a b => ranAt b ≤ ranAt a)) ↔
      ∀ a ∈ s.liveRuns, ∀ b ∈ s.liveRuns, ranAt a < ranAt b → epochOf e a < epochOf e b ∨ StartedLater a b := by
  have hlimit : ∀ n : Nat, ∃ limit : Int, n ≤ if limit ≤ 0 then 20 else limit.toNat := by
    intro n
    refine ⟨n + 1, ?_⟩
    rw [if_neg (by omega)]
    omega
  have hquery : (∀ (limit : Int) all, (byStart e).Ordered s.liveRuns all →
      (all.take (if limit ≤ 0 then 20 else limit.toNat)).Pairwise (fun a b => ranAt b ≤ ranAt a)) ↔
      ∀ a ∈ s.liveRuns, ∀ b ∈ s.liveRuns, (byStart e).le a b → ranAt b ≤ ranAt a :=
    (byStart e).forall_limited_iff (fun a b => ranAt b ≤ ranAt a) (fun a => le_refl (ranAt a)) hlimit
  constructor
  · intro h a ha b hb
    refine (byStart_le_iff hs (List.mem_of_mem_filter ha) (List.mem_of_mem_filter hb)).mp (hquery.mp ?_ a ha b hb)
    exact fun limit all hall => h limit _ ⟨all, hall, rfl⟩
  · rintro h limit out ⟨all, hall, rfl⟩
    refine hquery.mpr ?_ limit all hall
    intro a ha b hb
    exact (byStart_le_iff hs (List.mem_of_mem_filter ha) (List.mem_of_mem_filter hb)).mpr (h a ha b hb)

/-- Two databases whose results are newest first agree. -/
theorem identical_of_recent {e e' : Epoch}
    (h : ∀ a ∈ s.liveRuns, ∀ b ∈ s.liveRuns, ranAt a < ranAt b → epochOf e a < epochOf e b ∨ StartedLater a b)
    (h' : ∀ a ∈ s.liveRuns, ∀ b ∈ s.liveRuns, ranAt a < ranAt b → epochOf e' a < epochOf e' b ∨ StartedLater a b)
    {limit : Int} {out out' : List DagRun} (hout : RecentRuns e s limit out) (hout' : RecentRuns e' s limit out') :
    out.map ranAt = out'.map ranAt ∧ ((∀ a ∈ s.liveRuns, ∀ b ∈ s.liveRuns, ranAt a = ranAt b → a = b) → out = out') := by
  have hsorted : ∀ e all, (∀ a ∈ s.liveRuns, ∀ b ∈ s.liveRuns, ranAt a < ranAt b → epochOf e a < epochOf e b ∨ StartedLater a b) →
      (byStart e).Ordered s.liveRuns all → all.Pairwise (fun a b => ranAt b ≤ ranAt a) := by
    intro e all h hall
    refine hall.sorted.imp_of_mem (fun {a b} ha hb => ?_)
    have ha := hall.perm.mem_iff.mp ha
    have hb := hall.perm.mem_iff.mp hb
    exact (byStart_le_iff hs (List.mem_of_mem_filter ha) (List.mem_of_mem_filter hb)).mpr (h a ha b hb)
  obtain ⟨all, hall, rfl⟩ := hout
  obtain ⟨all', hall', rfl⟩ := hout'
  have hstarts : all.map ranAt = all'.map ranAt :=
    map_eq_of_sorted (hall.perm.trans hall'.perm.symm) (hsorted e all h hall) (hsorted e' all' h' hall')
  constructor
  · rw [List.map_take, List.map_take, hstarts]
  · intro hdistinct
    have hall_eq : all = all' := by
      refine List.Perm.eq_of_pairwise ?_ (hsorted e all h hall) (hsorted e' all' h' hall') (hall.perm.trans hall'.perm.symm)
      intro a b ha hb hba hab
      exact hdistinct a (hall.perm.mem_iff.mp ha) b (hall'.perm.mem_iff.mp hb) (le_antisymm hab hba)
    rw [hall_eq]

theorem pruned_iff {cutoff : Time} (hcutoff : InRange cutoff) :
    (∀ r ∈ s.runs.rows, r ∉ (s.pruneRunsByText cutoff).2.runs.rows → ∀ t, r.finishedAt = some t → t < cutoff) ↔
      ∀ r ∈ s.runs.rows, s.Expendable r → ∀ t, r.finishedAt = some t → cutoff < t → ¬ Swapped cutoff t := by
  refine forall₂_congr (fun r hr => ?_)
  rw [mem_pruneRunsByText hr]
  have hselect : r ∈ s.prunableByText cutoff ↔ (∃ t, r.finishedAt = some t ∧ fmtTime t < fmtTime cutoff) ∧ s.Expendable r := by
    rw [prunableByText, Table.filter, List.mem_filter, and_iff_right hr, decide_eq_true_eq, Option.any_eq_true]
    simp only [decide_eq_true_eq]
  rw [hselect]
  constructor
  · intro h hexpendable t ht hlt hswap
    have htext : ¬ fmtTime cutoff < fmtTime t := (fmtTime_lt_iff hcutoff ((hs r hr).2.2 t ht) hlt).not.mpr (not_not.mpr hswap)
    have hne : fmtTime t ≠ fmtTime cutoff := (fmtTime_inj ((hs r hr).2.2 t ht) hcutoff).not.mpr hlt.ne'
    exact absurd (h ⟨⟨t, ht, lt_of_le_of_ne (not_lt.mp htext) hne⟩, hexpendable⟩ t ht) hlt.not_gt
  · rintro h ⟨⟨t, ht, htext⟩, hexpendable⟩ u hu
    obtain rfl : t = u := Option.some.inj (ht.symm.trans hu)
    rcases lt_trichotomy t cutoff with hlt | rfl | hlt
    · exact hlt
    · exact absurd htext (lt_irrefl _)
    · exact absurd ((fmtTime_lt_iff hcutoff ((hs r hr).2.2 t ht) hlt).mpr (h hexpendable t ht hlt)) htext.not_gt

end Queries

/-- The texts of two instants are in their order unless the two are swapped, they are read
back as they were, and the queries of a store are chronological exactly when they meet no
swapped instants. -/
theorem stored_order_iff (sqlite postgres : Epoch) (other : List Char → Option Time) :
    (∀ t u, InRange t → InRange u → t < u → (fmtTime t < fmtTime u ↔ ¬ Swapped t u)) ∧
      (∀ t, InRange t → parseLoose other (fmtTime t) = t) ∧
      ∀ s cutoff, s.Written → InRange cutoff → (Chronological sqlite postgres s cutoff ↔ Clear sqlite postgres s cutoff) := by
  refine ⟨fun t u ht hu => fmtTime_lt_iff ht hu, fun t ht => parseLoose_fmtTime other ht, ?_⟩
  intro s cutoff hs hcutoff
  constructor
  · intro h
    refine ⟨?_, ?_, (pruned_iff hs hcutoff).mp h.pruned⟩
    · intro a ha b hb hstate
      exact (byState_iff hs b.state).mp (h.byState b.state) a ha b hb hstate rfl
    · intro e he
      exact (recent_iff hs e).mp (h.recent e he)
  · intro h
    have hstate : ∀ state out, s.ListDagRunsByState state out → out.Pairwise (fun a b => a.logicalDate ≤ b.logicalDate) := by
      intro state
      refine (byState_iff hs state).mpr (fun a ha b hb heq heq' => h.dates a ha b hb (heq.trans heq'.symm))
    refine ⟨hstate, ?_, ?_, ?_, (pruned_iff hs hcutoff).mpr h.finishes⟩
    · intro state limit out hout
      unfold ListDagRunsByStateLimited at hout
      split at hout
      · exact hstate state out hout
      · obtain ⟨all, hall, rfl⟩ := hout
        exact (hstate state all hall).sublist (List.take_sublist _ _)
    · intro e he
      exact (recent_iff hs e).mpr (h.starts e he)
    · intro limit out out' hout hout'
      exact identical_of_recent hs (h.starts sqlite (by simp)) (h.starts postgres (by simp)) hout hout'

/-! A run queued at a whole second, one queued 0.3 s later, and one that finished then. -/

-- 2024-02-29 23:59:05 UTC
def whole : Time := 1709251145000000000

def fraction : Time := whole + 300000000

def early : DagRun := { runID := "early", dagID := "etl", logicalDate := whole, state := .queued, triggerType := .manual }

def late : DagRun := { runID := "late", dagID := "etl", logicalDate := fraction, state := .queued, triggerType := .manual }

def done : DagRun :=
  { runID := "done", dagID := "etl", logicalDate := whole - second, state := .success, triggerType := .manual
    startedAt := some (whole - second), finishedAt := some fraction }

def activity (runs : List DagRun) (h : runs.Pairwise (fun a b => ¬ runClash (runKey a) (runKey b))) : Db :=
  { dags := ⟨[{ dagID := "etl" }], .cons (by simp) .nil⟩, runs := ⟨runs, h⟩ }

/-- What is written on a whole second comes out of order with the rest of the second. -/
theorem stored_order_swapped : InRange whole ∧ InRange fraction ∧ whole < fraction ∧ ¬ fmtTime whole < fmtTime fraction ∧
    (activity [early, late] (by decide)).ListDagRunsByState .queued [late, early] ∧
    done ∉ ((activity [done] (by decide)).pruneRunsByText whole).2.runs.rows ∧
    ∀ sqlite postgres, ¬ Chronological sqlite postgres (activity [early, late] (by decide)) whole := by
  have hqueue : (activity [early, late] (by decide)).ListDagRunsByState .queued [late, early] := by
    refine ⟨List.Perm.swap early late [], ?_⟩
    have hle : fmtTime fraction ≤ fmtTime whole := by decide +kernel
    exact List.pairwise_pair.mpr hle
  refine ⟨by decide +kernel, by decide +kernel, by decide, by decide +kernel, hqueue, by decide +kernel, ?_⟩
  intro sqlite postgres h
  have hsorted := List.pairwise_pair.mp (h.byState .queued [late, early] hqueue)
  exact absurd hsorted (by decide)

theorem stored_order_second : fmtTime (whole - second) < fmtTime whole ∧ parseLoose (fun _ => none) (fmtTime fraction) = fraction ∧
    (Chronological (.every second (by decide)) (.every 1000 (by decide)) (activity [early, done] (by decide)) whole ↔
      Clear (.every second (by decide)) (.every 1000 (by decide)) (activity [early, done] (by decide)) whole) := by
  obtain ⟨htext, hread, hqueries⟩ := stored_order_iff (.every second (by decide)) (.every 1000 (by decide)) (fun _ => none)
  have hwhole : InRange whole := by decide +kernel
  have hbefore : InRange (whole - second) := by decide +kernel
  have hfraction : InRange fraction := by decide +kernel
  refine ⟨(htext _ _ hbefore hwhole (by decide)).mpr (by decide +kernel), hread _ hfraction, hqueries _ _ ?_ hwhole⟩
  have hrows : ∀ r ∈ [early, done], InRange r.logicalDate ∧ (∀ t, r.startedAt = some t → InRange t) ∧
      ∀ t, r.finishedAt = some t → InRange t := by
    simp only [List.forall_mem_cons, early, done, Option.some.injEq, reduceCtorEq, false_implies, implies_true, and_true,
      List.not_mem_nil]
    exact ⟨hwhole, hbefore, fun t h => h ▸ hbefore, fun t h => h ▸ hfraction⟩
  exact hrows

end Cronova.Properties.TimeOrder
