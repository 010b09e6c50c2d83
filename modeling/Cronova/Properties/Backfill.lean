import Cronova.Concurrency.Trace
import Cronova.Scheduler.Sequential

/-! Backfill and its window. A call enumerates the schedule from one second before the
window, and attempts one run for each point it meets. It covers the window exactly when
the second before holds no point, and the zero time, which stands for the end of the
schedule, is no obstacle. -/
namespace Cronova.Properties.Backfill
open Cronova.Model Cronova.Store Cronova.Scheduler Cronova.Concurrency

/-- `next` gives the least point after an instant, and the zero time when there is none. -/
def NextPoint (sched : Schedule) (points : Set Time) : Prop :=
  ∀ t, (sched.next t = zeroTime ∧ ∀ p ∈ points, p ≤ t) ∨
    (sched.next t ∈ points ∧ t < sched.next t ∧ ∀ p ∈ points, t < p → sched.next t ≤ p)

/-- A statement that a call issued: the database it met, and the run it was to create. -/
abbrev Attempt := Db × Option DagRun

/-- What a call of thread `t` meets while others run: these definitions, this time, and
any state at each of its commands. -/
def others (dags : List DAG) (now : Time) (k : Kind) (t : Nat) : Observer Cmd World Attempt where
  replies w c x := (∃ a w', w.exec k t a c = some (x, w')) ∧
    match c, x with
    | .registry q, x => x = q dags
    | .ask .now, x => x = now
    | _, _ => True
  note c w :=
    match c with
    | .write s => [(w.db, s.creates)]
    | _ => []

/-- The run that a backfill creates for a schedule point. -/
def backfillRun (cfg : Cfg) (dagID : String) (d : DAG) (p : Time) : DagRun :=
  snapshotRun cfg { runID := backfillRunID dagID p, dagID := dagID, logicalDate := p, state := .queued,
                    triggerType := .backfill } d

/-- The database has a run of this DAG at this date already. -/
def hasRunAt (a : Attempt) : Bool := a.2.any (fun run => a.1.runs.rows.any (fun r => r.dagID = run.dagID ∧ r.logicalDate = run.logicalDate))

/-- A run has the id already. -/
def hasRunID (a : Attempt) : Bool := a.2.any (fun run => a.1.runs.rows.any (fun r => r.runID = run.runID))

section Periods
variable {sched : Schedule} {points : Set Time} {start last : Time} {ps : List Time}

/-- The enumeration from `start` gets to `p`: the zero time is no point before it. -/
def Reached (points : Set Time) (start p : Time) : Prop := ¬ (zeroTime ∈ points ∧ start < zeroTime ∧ zeroTime ≤ p)

/-- Where the enumeration ends, there is no point that it would get to. -/
theorem ended (hcron : NextPoint sched points) (hend : sched.next start = zeroTime ∨ last < sched.next start) {p : Time}
    (hp : p ∈ points) (hstart : start < p) (hlast : p ≤ last) : ¬ Reached points start p := by
  rcases hcron start with ⟨-, hnone⟩ | ⟨hmem, hlt, hleast⟩
  · exact absurd hstart (not_lt.mpr (hnone p hp))
  · have hnext := hleast p hp hstart
    rcases hend with hzero | hover
    · rw [hzero] at hmem hlt hnext
      exact fun hreached => hreached ⟨hmem, hlt, hnext⟩
    · exact absurd (hnext.trans hlast) (not_le.mpr hover)

/-- The points behind `start`, up to `last`, that the enumeration gets to. -/
theorem backfillPeriods_ok (hcron : NextPoint sched points) (room : Nat) :
    ∀ start ps, backfillPeriods sched last room (sched.next start) = .ok ps →
      ps.Pairwise (· < ·) ∧ ps.length ≤ room ∧
      ∀ p, p ∈ ps ↔ p ∈ points ∧ start < p ∧ p ≤ last ∧ Reached points start p := by
  have hempty : ∀ start, (sched.next start = zeroTime ∨ last < sched.next start) →
      ∀ p, p ∈ ([] : List Time) ↔ p ∈ points ∧ start < p ∧ p ≤ last ∧ Reached points start p := by
    intro start hend p
    refine ⟨nofun, ?_⟩
    rintro ⟨hp, hstart, hlast, hreached⟩
    exact absurd hreached (ended hcron hend hp hstart hlast)
  induction room with
  | zero =>
    intro start ps h
    rw [backfillPeriods] at h
    split at h
    · rename_i hend
      cases h
      exact ⟨.nil, Nat.le_refl 0, hempty start hend⟩
    · cases h
  | succ room ih =>
    intro start ps h
    rw [backfillPeriods] at h
    split at h
    · rename_i hend
      cases h
      exact ⟨.nil, Nat.zero_le _, hempty start hend⟩
    · rename_i hmore
      rw [not_or, not_lt] at hmore
      obtain ⟨hne, hfits⟩ := hmore
      cases hrest : backfillPeriods sched last room (sched.next (sched.next start)) with
      | error e =>
        rw [hrest] at h
        cases h
      | ok rest =>
        rw [hrest] at h
        cases h
        obtain ⟨hsorted, hroom, hmem⟩ := ih (sched.next start) rest hrest
        obtain ⟨hpoint, hlt, hleast⟩ : sched.next start ∈ points ∧ start < sched.next start ∧
            ∀ p ∈ points, start < p → sched.next start ≤ p := by
          rcases hcron start with ⟨hzero, -⟩ | h
          · exact absurd hzero hne
          · exact h
        -- a zero time among the points lies behind the next one
        have hzero : zeroTime ∈ points → start < zeroTime → sched.next start < zeroTime := by
          intro hp hstart
          exact lt_of_le_of_ne (hleast zeroTime hp hstart) hne
        refine ⟨List.pairwise_cons.mpr ⟨fun p hp => ((hmem p).mp hp).2.1, hsorted⟩, Nat.succ_le_succ hroom, fun p => ?_⟩
        rw [List.mem_cons, hmem]
        constructor
        · rintro (rfl | ⟨hp, hnext, hlast, hreached⟩)
          · refine ⟨hpoint, hlt, hfits, ?_⟩
            rintro ⟨hp, hstart, hle⟩
            exact absurd (hzero hp hstart) (not_lt.mpr hle)
          · refine ⟨hp, hlt.trans hnext, hlast, ?_⟩
            rintro ⟨hz, hstart, hle⟩
            exact hreached ⟨hz, hzero hz hstart, hle⟩
        · rintro ⟨hp, hstart, hlast, hreached⟩
          have hle := hleast p hp hstart
          by_cases heq : p = sched.next start
          · exact .inl heq
          · right
            refine ⟨hp, lt_of_le_of_ne hle (Ne.symm heq), hlast, ?_⟩
            rintro ⟨hz, hnext, hzp⟩
            exact hreached ⟨hz, hlt.trans hnext, hzp⟩

end Periods

/-! The call -/

section Call
variable {cfg : Cfg} {dags : List DAG} {dagID : String} {d : DAG} {now first last : Time} {k : Kind} {t : Nat} {notes : List Attempt}

theorem acts_cachedDAG {r : Except Err (Option DAG)} (h : Acts (others dags now k t) (cachedDAG dagID).run notes r) :
    notes = [] ∧ r = .ok (dags.find? (fun d => d.dagID = dagID)) := by
  obtain ⟨x, front, rest, rfl, hx, rfl, rfl⟩ := Acts.bind h
  obtain ⟨w, ⟨-, rfl⟩, rfl⟩ := Acts.call hx
  exact ⟨rfl, rfl⟩

theorem acts_now {r : Except Err Time} (h : Acts (others dags now k t) (ask .now).run notes r) : notes = [] ∧ r = .ok now := by
  obtain ⟨x, front, rest, rfl, hx, rfl, rfl⟩ := Acts.bind h
  obtain ⟨w, ⟨-, rfl⟩, rfl⟩ := Acts.call hx
  exact ⟨rfl, rfl⟩

theorem acts_create {run : DagRun} {global : Int} {r : Except Err (Except Err Unit)}
    (h : Acts (others dags now k t) (Fallible.outcome (statement (.createDagRunBounded run global))).run notes r) :
    ∃ db out, r = .ok out ∧ notes = [(db, some run)] ∧
      (out = (db.apply (.createDagRunBounded run global)).1 ∨ out = .error .failed) := by
  obtain ⟨out, rfl, hx⟩ := Acts.outcome h
  obtain ⟨w, ⟨⟨a, w', hexec⟩, -⟩, rfl⟩ := Acts.call hx
  refine ⟨w.db, out, rfl, rfl, ?_⟩
  rcases World.exec_effect hexec with ⟨-, rfl⟩ | ⟨-, rfl⟩
  · exact .inr rfl
  · exact .inl rfl

/-- The result of an attempt tells whether the run's id or its date was taken. -/
theorem create_result (db : Db) (run : DagRun) (global : Int) :
    ((db.apply (.createDagRunBounded run global)).1 = .ok () → (hasRunAt (db, some run) || hasRunID (db, some run)) = false) ∧
    ((db.apply (.createDagRunBounded run global)).1 = .error .alreadyExists →
      (hasRunAt (db, some run) || hasRunID (db, some run)) = true) := by
  have hclash : (hasRunAt (db, some run) || hasRunID (db, some run)) = true ↔ ∃ b ∈ db.runs.rows, runClash (runKey b) (runKey run) := by
    simp only [hasRunAt, hasRunID, Option.any_some, Bool.or_eq_true, List.any_eq_true, decide_eq_true_iff, runClash, runKey,
      Prod.mk.injEq]
    constructor
    · rintro (⟨b, hb, h⟩ | ⟨b, hb, h⟩)
      · exact ⟨b, hb, .inr h⟩
      · exact ⟨b, hb, .inl h⟩
    · rintro ⟨b, hb, h | h⟩
      · exact .inr ⟨b, hb, h⟩
      · exact .inl ⟨b, hb, h⟩
  rw [← Bool.not_eq_true, hclash, ← Relational.Table.insert?_eq_none_iff]
  change ((db.insertRun run _).1 = .ok () → _) ∧ ((db.insertRun run _).1 = .error .alreadyExists → _)
  unfold Db.insertRun
  constructor
  · intro hok hnone
    split at hok
    · rw [hnone] at hok
      cases hok
    · split at hok
      · cases hok
      · cases hok
  · intro hexists
    split at hexists
    · cases hinsert : db.runs.insert? run with
      | none => rfl
      | some runs =>
        rw [hinsert] at hexists
        cases hexists
    · split at hexists
      · cases hexists
      · cases hexists

/-- One round of the loop over the periods. -/
def attempt (cfg : Cfg) (dagID : String) (d : DAG) : Nat × Nat → Time → M (Nat × Nat) := fun (created, skipped) p => do
  match ← Fallible.outcome (statement (.createDagRunBounded (backfillRun cfg dagID d p) cfg.maxQueuedRunsGlobal)) with
  | .ok _ => return (created + 1, skipped)
  | .error .alreadyExists => return (created, skipped + 1)
  | .error e => throw e

theorem acts_attempt {p : Time} {counts counts' : Nat × Nat}
    (h : Acts (others dags now k t) (attempt cfg dagID d counts p).run notes (.ok counts')) :
    ∃ db, notes = [(db, some (backfillRun cfg dagID d p))] ∧ counts'.1 + counts'.2 = counts.1 + counts.2 + 1 ∧
      counts'.2 = counts.2 + notes.countP (fun a => hasRunAt a || hasRunID a) := by
  rcases Acts.fallible_bind h with ⟨out, front, rest, rfl, hcreate, hrest⟩ | ⟨e, -, he⟩
  · obtain ⟨db, res, hres, rfl, hout⟩ := acts_create hcreate
    cases hres
    have hresult := create_result db (backfillRun cfg dagID d p) cfg.maxQueuedRunsGlobal
    cases out with
    | ok u =>
      obtain ⟨rfl, hcounts⟩ := hrest
      cases hcounts
      have hfree := hresult.1 (hout.resolve_right nofun).symm
      exact ⟨db, rfl, by omega, by simp [hfree]⟩
    | error e =>
      cases e with
      | alreadyExists =>
        obtain ⟨rfl, hcounts⟩ := hrest
        cases hcounts
        have htaken := hresult.2 (hout.resolve_right nofun).symm
        exact ⟨db, rfl, by omega, by simp [htaken]⟩
      | _ => exact absurd hrest.2 nofun
  · cases he

/-- All rounds of a loop that succeeds. -/
theorem acts_attempts {ps : List Time} {counts counts' : Nat × Nat}
    (h : Acts (others dags now k t) (ps.foldlM (attempt cfg dagID d) counts).run notes (.ok counts')) :
    notes.map (·.2) = ps.map (fun p => some (backfillRun cfg dagID d p)) ∧
      counts'.1 + counts'.2 = counts.1 + counts.2 + ps.length ∧
      counts'.2 = counts.2 + notes.countP (fun a => hasRunAt a || hasRunID a) := by
  refine Acts.foldlM (I := fun counts ps notes counts' =>
    notes.map (·.2) = ps.map (fun p => some (backfillRun cfg dagID d p)) ∧
      counts'.1 + counts'.2 = counts.1 + counts.2 + ps.length ∧
      counts'.2 = counts.2 + notes.countP (fun a => hasRunAt a || hasRunID a)) ?_ ?_ h
  · exact fun counts => ⟨rfl, rfl, rfl⟩
  · rintro counts p ps front rest counts₁ counts' hfirst ⟨hruns, hsum, hskip⟩
    obtain ⟨db, rfl, hsum₁, hskip₁⟩ := acts_attempt hfirst
    refine ⟨by rw [List.singleton_append, List.map_cons, List.map_cons, hruns], ?_, ?_⟩
    · rw [List.length_cons]
      omega
    · rw [List.countP_append]
      omega

/-- A call gives up before it writes anything, or attempts the points it has enumerated. -/
theorem acts_backfill {sched : Schedule} (hfind : dags.find? (fun d => d.dagID = dagID) = some d)
    (hparse : Parser.parseScheduleIn cfg.parser d.schedule d.timezone = .ok sched) {r : Except Err (Nat × Nat)}
    (h : Acts (others dags now k t) (backfill cfg dagID first last).run notes r) :
    ((∃ e, r = .error e) ∧ notes = []) ∨
    first < min last now ∧ ∃ ps, backfillPeriods sched (min last now) maxBackfillRuns (sched.next (first - second)) = .ok ps ∧
      Acts (others dags now k t) (ps.foldlM (attempt cfg dagID d) (0, 0)).run notes r := by
  rcases Acts.fallible_bind h with ⟨found, front, rest, rfl, hcached, hrest⟩ | ⟨e, hcached, -⟩
  · obtain ⟨rfl, hfound⟩ := acts_cachedDAG hcached
    cases hfound
    rw [hfind] at hrest
    rw [List.nil_append]
    have hgiven : ∀ {e : Err} {notes : List Attempt}, notes = [] ∧ r = .error e → (∃ e, r = .error e) ∧ notes = [] :=
      fun h => ⟨⟨_, h.2⟩, h.1⟩
    dsimp only at hrest
    split at hrest
    · exact .inl (hgiven (Acts.fallible_throw_bind hrest))
    · split at hrest
      · exact .inl (hgiven (Acts.fallible_throw_bind hrest))
      · rw [hparse] at hrest
        dsimp only at hrest
        rcases Acts.fallible_bind hrest with ⟨clock, front, rest', rfl, hnow, hrest⟩ | ⟨e, hnow, -⟩
        · obtain ⟨rfl, hclock⟩ := acts_now hnow
          cases hclock
          rw [List.nil_append]
          split at hrest
          · exact .inl (hgiven (Acts.fallible_throw_bind hrest))
          · rename_i hwindow
            rcases Acts.fallible_bind hrest with ⟨ps, front, rest, rfl, hperiods, hloop⟩ | ⟨e, hperiods, he⟩
            · obtain ⟨rfl, hps⟩ := hperiods
              exact .inr ⟨not_le.mp hwindow, ps, hps.symm, hloop⟩
            · exact .inl ⟨⟨e, he⟩, hperiods.1⟩
        · cases (acts_now hnow).2
  · cases (acts_cachedDAG hcached).2

end Call

/-! The window -/

/-- A schedule point of the window, as far as it has passed. -/
def InWindow (points : Set Time) (first last now p : Time) : Prop := p ∈ points ∧ first ≤ p ∧ p ≤ min last now

/-- The call attempts the points of the window in their order, and counts them. -/
structure Attempted (cfg : Cfg) (dagID : String) (d : DAG) (points : Set Time) (first last now : Time) (notes : List Attempt)
    (created skipped : Nat) : Prop where
  dates : ∃ ps : List Time, ps.Pairwise (· < ·) ∧ (∀ p, p ∈ ps ↔ InWindow points first last now p) ∧
    notes.map (·.2) = ps.map (fun p => some (backfillRun cfg dagID d p)) ∧ created + skipped = ps.length
  skips : skipped = notes.countP hasRunAt

/-- A call that succeeds covers the window, and one over too wide a window writes nothing. -/
structure Covers (cfg : Cfg) (dagID : String) (d : DAG) (points : Set Time) (first last now : Time) (notes : List Attempt)
    (r : Except Err (Nat × Nat)) : Prop where
  success : ∀ created skipped, r = .ok (created, skipped) →
    Attempted cfg dagID d points first last now notes created skipped
  wide : ∀ ps : List Time, ps.Nodup → (∀ p ∈ ps, InWindow points first last now p) → maxBackfillRuns < ps.length →
    (∃ e, r = .error e) ∧ notes = []

/-- No point that the enumeration gets to lies in the second before the window, it gets
to every point in it, and a run with the id of a point is the run of its date. -/
structure Exact (points : Set Time) (first last now : Time) (notes : List Attempt) : Prop where
  before : ∀ p ∈ points, first - second < p → p < first → ¬ Reached points (first - second) p
  within : ∀ p, InWindow points first last now p → Reached points (first - second) p
  ids : ∀ a ∈ notes, hasRunID a = true → hasRunAt a = true

section Window
variable {cfg : Cfg} {dags : List DAG} {dagID : String} {d : DAG} {now first last : Time} {k : Kind} {t : Nat} {notes : List Attempt}
variable {sched : Schedule} {points : Set Time}

theorem backfillRun_inj {p q : Time} (h : backfillRun cfg dagID d p = backfillRun cfg dagID d q) : p = q :=
  congrArg DagRun.logicalDate h

theorem second_pos : first - second < first := Int.sub_lt_self first (by decide)

/-- As many elements with the weaker property as with the stronger one. -/
theorem imp_of_countP_eq {α : Type} {p q : α → Bool} {l : List α} (hpq : ∀ a ∈ l, p a = true → q a = true)
    (h : l.countP p = l.countP q) : ∀ a ∈ l, q a = true → p a = true := by
  induction l with
  | nil => exact nofun
  | cons b l ih =>
    have hle : l.countP p ≤ l.countP q := List.countP_mono_left (fun a ha => hpq a (List.mem_cons_of_mem b ha))
    have hb := hpq b List.mem_cons_self
    rw [List.countP_cons, List.countP_cons] at h
    intro a ha hq
    rcases List.mem_cons.mp ha with rfl | ha
    · by_contra hp
      rw [if_neg hp, if_pos hq] at h
      omega
    · refine ih (fun a ha => hpq a (List.mem_cons_of_mem b ha)) ?_ a ha hq
      by_cases hp : p b = true
      · rw [if_pos hp, if_pos (hb hp)] at h
        omega
      · rw [if_neg hp] at h
        split at h
        · omega
        · exact h

/-- A call covers its window when the window is exact, and a call that succeeds covers
it only then. -/
theorem backfill_covers_iff (hcron : NextPoint sched points) (hfind : dags.find? (fun d => d.dagID = dagID) = some d)
    (hparse : Parser.parseScheduleIn cfg.parser d.schedule d.timezone = .ok sched) {r : Except Err (Nat × Nat)}
    (h : Acts (others dags now k t) (backfill cfg dagID first last).run notes r) :
    (Exact points first last now notes → Covers cfg dagID d points first last now notes r) ∧
    (r.isOk = true → Covers cfg dagID d points first last now notes r → Exact points first last now notes) := by
  rcases acts_backfill hfind hparse h with ⟨⟨e, rfl⟩, rfl⟩ | ⟨hwindow, ps, hps, hloop⟩
  · exact ⟨fun _ => ⟨nofun, fun _ _ _ _ => ⟨⟨e, rfl⟩, rfl⟩⟩, nofun⟩
  · obtain ⟨hsorted, hlength, hmem⟩ := backfillPeriods_ok hcron maxBackfillRuns (first - second) ps hps
    constructor
    · intro hexact
      have hwin : ∀ p, p ∈ ps ↔ InWindow points first last now p := by
        intro p
        rw [hmem]
        constructor
        · rintro ⟨hp, hstart, hlast, hreached⟩
          refine ⟨hp, ?_, hlast⟩
          by_contra hbefore
          exact hexact.before p hp hstart (not_le.mp hbefore) hreached
        · rintro ⟨hp, hfirst, hlast⟩
          exact ⟨hp, lt_of_lt_of_le second_pos hfirst, hlast, hexact.within p ⟨hp, hfirst, hlast⟩⟩
      refine ⟨?_, ?_⟩
      · rintro created skipped rfl
        obtain ⟨hruns, hsum, hskip⟩ := acts_attempts hloop
        have hcount : notes.countP (fun a => hasRunAt a || hasRunID a) = notes.countP hasRunAt := by
          apply List.countP_congr
          intro a ha
          rw [Bool.or_eq_true]
          exact ⟨fun h => h.elim id (hexact.ids a ha), .inl⟩
        rw [hcount, Nat.zero_add] at hskip
        exact ⟨⟨ps, hsorted, hwin, hruns, by simpa using hsum⟩, hskip⟩
      · intro qs hnodup hqs hwide
        have hsub : qs.Subperm ps := List.subperm_of_subset hnodup (fun p hp => (hwin p).mpr (hqs p hp))
        have hle := hsub.length_le
        omega
    · intro hok hcovers
      obtain ⟨⟨created, skipped⟩, rfl⟩ : ∃ counts, r = .ok counts := by
        cases r with
        | ok counts => exact ⟨counts, rfl⟩
        | error e => cases hok
      obtain ⟨⟨qs, -, hqs, hqruns, -⟩, hskips⟩ := hcovers.success created skipped rfl
      obtain ⟨hruns, -, hskip⟩ := acts_attempts hloop
      have heq : qs = ps := by
        rw [hruns] at hqruns
        exact (List.map_injective_iff.mpr (fun p q h => backfillRun_inj (Option.some.inj h)) hqruns).symm
      subst heq
      refine ⟨?_, ?_, ?_⟩
      · intro p hp hstart hfirst hreached
        have hmemp : p ∈ qs := (hmem p).mpr ⟨hp, hstart, (hfirst.trans hwindow).le, hreached⟩
        exact absurd ((hqs p).mp hmemp).2.1 (not_le.mpr hfirst)
      · intro p hp
        exact ((hmem p).mp ((hqs p).mpr hp)).2.2.2
      · have hcount : notes.countP hasRunAt = notes.countP (fun a => hasRunAt a || hasRunID a) := by
          rw [Nat.zero_add] at hskip
          exact hskips.symm.trans hskip
        have himp := imp_of_countP_eq (fun a _ ha => by rw [ha, Bool.true_or]) hcount
        intro a ha hid
        exact himp a ha (by rw [hid, Bool.or_true])

end Window
/-! A window that starts off the second -/

/-- A program that runs alone is one that runs among others. -/
theorem acts_of_perform {α : Type} {k : Kind} {t : Nat} {answers : Answers} {now : Time} {dags : List DAG}
    (hnow : ∀ n, Ask.now.reply (answers n (.ask .now)) = some now) {p : Program Cmd α} {n : Nat} {w w' : World} {r : α}
    (hdags : w.dags = dags) (h : w.perform k t answers n p = some (r, w')) : ∃ notes, Acts (others dags now k t) p notes r := by
  induction p generalizing n w with
  | pure a =>
    cases h
    exact ⟨[], rfl, rfl⟩
  | step c next ih =>
    rw [World.perform] at h
    cases hexec : w.exec k t (answers n c) c with
    | none =>
      rw [hexec] at h
      cases h
    | some p =>
      rw [hexec] at h
      have hsame : p.2.dags = w.dags := by
        exact World.Effect.dags (World.exec_effect hexec)
      obtain ⟨rest, hrest⟩ := ih p.1 (hsame.trans hdags) h
      refine ⟨_, w, p.1, rest, ⟨⟨answers n c, p.2, hexec⟩, ?_⟩, rfl, hrest⟩
      split
      · rw [← hdags]
        exact (World.exec_effect hexec).2
      · have hreply := hnow n
        rw [World.exec, hreply] at hexec
        cases hexec
        rfl
      · trivial

/-- Every minute. -/
def minutes : Set Time := { p | 60 * second ∣ p }

theorem minutes_next : NextPoint ⟨fun t => (t / (60 * second) + 1) * (60 * second)⟩ minutes := by
  intro t
  have hpos : (0 : Int) < 60 * second := by decide
  refine .inr ⟨Int.dvd_mul_left _ _, Int.lt_ediv_add_one_mul_self t hpos, ?_⟩
  rintro p ⟨m, rfl⟩ hp
  have hm : t / (60 * second) < m := by
    rw [Int.mul_comm] at hp
    exact (Int.ediv_lt_iff_lt_mul hpos).mpr hp
  rw [Int.mul_comm (60 * second) m]
  exact Int.mul_le_mul_of_nonneg_right hm hpos.le

def noon : Time := 1735732800 * second

def minuteDag : DAG := { dagID := "etl", schedule := "* * * * *", tasks := [{ id := "a", command := "x" }] }

def minuteCfg : Cfg := { parser := .ofDocuments [], definitionHash := id, decodeStringMap := fun _ => none }

def minuteWorld : World := { db := { dags := .single { dagID := "etl" } }, dags := [minuteDag] }

/-- One hour after noon. -/
def later : Answers := fun _ _ c =>
  match c with
  | .ask .now => .time (noon + 3600 * second)
  | _ => .fine

/-- A call for the half minute after `first`, an hour later. -/
def minuteCall (first : Time) : M (Nat × Nat) := backfill minuteCfg "etl" first (first + 30 * second)

theorem minuteCall_acts (first : Time)
    (h : ((minuteWorld.perform (.call (.backfill "etl" first (first + 30 * second))) 0 later 0 (minuteCall first).run).map (·.1)) =
      some (.ok (1, 0))) :
    ∃ notes, Acts (others [minuteDag] (noon + 3600 * second) (.call (.backfill "etl" first (first + 30 * second))) 0)
      (minuteCall first).run notes (.ok (1, 0)) := by
  obtain ⟨⟨r, w⟩, hperform, hr⟩ := Option.map_eq_some_iff.mp h
  cases hr
  exact acts_of_perform (fun _ => rfl) rfl hperform

/-- On the minute, the call creates the run of that minute. -/
theorem backfill_covers_noon : ∃ notes, Exact minutes noon (noon + 30 * second) (noon + 3600 * second) notes →
    Covers minuteCfg "etl" minuteDag minutes noon (noon + 30 * second) (noon + 3600 * second) notes (.ok (1, 0)) := by
  obtain ⟨notes, hacts⟩ := minuteCall_acts noon (by decide +kernel)
  exact ⟨notes, (backfill_covers_iff minutes_next (by decide) rfl hacts).1⟩

/-- Half a second after a minute, the call creates the run of a minute before its window. -/
theorem backfill_before_window :
    ¬ ∀ (cfg : Cfg) (dags : List DAG) (dagID : String) (d : DAG) (sched : Schedule) (points : Set Time) (now first last : Time)
      (k : Kind) (t : Nat) (notes : List Attempt) (r : Except Err (Nat × Nat)),
      NextPoint sched points → dags.find? (fun d => d.dagID = dagID) = some d →
      Parser.parseScheduleIn cfg.parser d.schedule d.timezone = .ok sched → first < last →
      Acts (others dags now k t) (backfill cfg dagID first last).run notes r →
      Covers cfg dagID d points first last now notes r := by
  intro h
  obtain ⟨notes, hacts⟩ := minuteCall_acts (noon + 500000000) (by decide +kernel)
  have hcovers := h minuteCfg [minuteDag] "etl" minuteDag _ minutes _ _ _ _ _ notes _ minutes_next (by decide) rfl (by decide) hacts
  obtain ⟨⟨ps, -, hps, -, hcount⟩, -⟩ := hcovers.success 1 0 rfl
  obtain ⟨p, hp⟩ := List.exists_mem_of_length_pos (show 0 < ps.length by omega)
  obtain ⟨⟨m, rfl⟩, hfirst, hlast⟩ := (hps p).mp hp
  have hlast := hlast.trans (min_le_left _ _)
  have hafter : (1735732800 * 1000000000 + 500000000 : Int) ≤ 60 * 1000000000 * m := hfirst
  have huntil : (60 * 1000000000 * m : Int) ≤ 1735732800 * 1000000000 + 500000000 + 30 * 1000000000 := hlast
  omega

end Cronova.Properties.Backfill
