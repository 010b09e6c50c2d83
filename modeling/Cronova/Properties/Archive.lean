import Cronova.Scheduler.Catalogue

/-! Archived DAGs and their runs. `deleteDAG` counts the active runs and archives
the row in two statements; a run that is created in between, or that is made
active again afterwards, belongs to an archived DAG. -/
namespace Cronova.Properties.Archive
open Cronova.Model Cronova.Store Cronova.Concurrency Cronova.Concurrency.Fallible Cronova.Scheduler

/-- The DAG that a thread has counted no active run of and has not archived yet. -/
abbrev Counted := Nat → Option String

variable {cfg : Cfg}

def noted (_ : CatalogueKind cfg) (t : Nat) : {β : Type} → CatalogueCmd β → β → Counted → Counted
  | _, .countActiveRuns dagID, r, counted =>
    Function.update counted t (match r with
      | .ok 0 => some dagID
      | _ => none)
  | _, .softDeleteDAG _, _, counted => Function.update counted t none
  | _, _, _, counted => counted

/-- No run of the DAG is queued or running. -/
def Dormant (db : Db) (dagID : String) : Prop := ∀ r ∈ db.runs.rows, r.dagID = dagID → r.state.isActive = false

/-- A statement that succeeds creates no run of a DAG that is counted and not yet
archived, and makes no finished run of such a DAG or of an archived one active. -/
def Careful (_ : CatalogueKind cfg) (_ : Nat) : {β : Type} → CatalogueCmd β → Console × Counted → β → Prop
  | _, .scheduler (.write st), s, r => r.isOk = true →
    (∀ run, st.creates = some run → ∀ t, s.2 t ≠ some run.dagID) ∧
    ∀ row ∈ s.1.process.db.runs.rows, row.state.isActive = false → ∀ state, st.recordsState row.runID = some state →
      state.isActive = true → s.1.process.db.isArchived row.dagID = false ∧ ∀ t, s.2 t ≠ some row.dagID
  | _, _, _, _ => True

/-- The console with a record of the counts. -/
def archiving (cfg : Cfg) : System (CatalogueKind cfg) CatalogueCmd (Except Err Unit) (Console × Counted) :=
  (console cfg).record noted (fun _ => none)

/-- No run of an archived DAG is active. -/
def Orderly (w : Console) : Prop := ∀ dagID, w.process.db.isArchived dagID = true → Dormant w.process.db dagID

/-! ### What one command does -/

/-- The DAGs that are archived or about to be have no active run. -/
structure Inv (s : Console × Counted) : Prop where
  orderly : Orderly s.1
  counted : ∀ t dagID, s.2 t = some dagID → Dormant s.1.process.db dagID

/-- Archived, or about to be. -/
def Leaving (s : Console × Counted) (dagID : String) : Prop :=
  s.1.process.db.isArchived dagID = true ∨ ∃ t, s.2 t = some dagID

section Step
variable {s s' : Console × Counted} {k : CatalogueKind cfg} {t : Nat} {a : Answer} {dagID : String}

theorem Inv.idle (hi : Inv s) (h : Leaving s dagID) : Dormant s.1.process.db dagID := by
  rcases h with harchived | ⟨t, ht⟩
  · exact hi.orderly dagID harchived
  · exact hi.counted t dagID ht

/-- The DAGs that leave were idle, and they stay so. -/
theorem Inv.of_idle (h : ∀ dagID, Leaving s' dagID → Dormant s'.1.process.db dagID) : Inv s' :=
  ⟨fun dagID harchived => h dagID (.inl harchived), fun t dagID ht => h dagID (.inr ⟨t, ht⟩)⟩

theorem Dormant.of_runs {db db' : Db} (h : Dormant db dagID) (hruns : db'.runs = db.runs) : Dormant db' dagID := by
  intro r hr
  rw [hruns] at hr
  exact h r hr

/-- A careful statement leaves the runs of a DAG that is leaving idle. -/
private theorem idle_apply {β : Type} {st : Write β} {r : Except Err β} (hr : r = (s.1.process.db.apply st).1)
    (hcareful : Careful k t (.scheduler (.write st)) s r) (hleaving : Leaving s dagID) (hidle : Dormant s.1.process.db dagID) :
    Dormant (s.1.process.db.apply st).2 dagID := by
  cases hres : (s.1.process.db.apply st).1 with
  | error e =>
    rw [Db.apply_error hres]
    exact hidle
  | ok v =>
    obtain ⟨hcreates, hstates⟩ := hcareful (by rw [hr, hres]; rfl)
    intro r' hr' hdag
    rcases Db.apply_run_cases st hr' with ⟨row, hrow, hkey, -, hstate⟩ | ⟨hnew, hactive, -⟩
    · simp only [runKey, Prod.mk.injEq] at hkey
      have hrowdag : row.dagID = dagID := hkey.2.1.symm.trans hdag
      have hfinished := hidle row hrow hrowdag
      rcases hstate with hsame | hrecorded
      · rw [hsame]
        exact hfinished
      · by_contra hne
        obtain ⟨hnot, hcount⟩ := hstates row hrow hfinished _ hrecorded (by simpa using hne)
        rw [hrowdag] at hnot hcount
        rcases hleaving with harchived | ⟨t', ht'⟩
        · rw [harchived] at hnot
          cases hnot
        · exact hcount t' ht'
    · rw [hdag] at hactive
      rcases hleaving with harchived | ⟨t', ht'⟩
      · rw [Db.isActiveDag_eq_false harchived] at hactive
        cases hactive
      · exact absurd ht' (hdag ▸ hcreates r' hnew t')

private theorem inv_scheduler {β : Type} {c : Cmd β} {r : β} (hi : Inv s)
    (hexec : s.1.exec k t a (.scheduler c) = some (r, s'.1)) (hnote : s'.2 = s.2) (hcareful : Careful k t (.scheduler c) s r) :
    Inv s' := by
  obtain ⟨⟨x, process⟩, hprocess, heq⟩ := Option.map_eq_some_iff.mp hexec
  simp only [Prod.mk.injEq] at heq
  obtain ⟨rfl, hworld⟩ := heq
  have heffect := World.exec_effect hprocess
  have hsame : process.db = s.1.process.db → Inv s' := by
    intro hdb
    refine .of_idle (fun dagID hleaving => ?_)
    have hdb' : s'.1.process.db = s.1.process.db := by rw [← hworld]; exact hdb
    unfold Leaving at hleaving
    rw [hdb', hnote] at hleaving
    rw [hdb']
    exact hi.idle hleaving
  cases c with
  | write st =>
    rcases heffect with ⟨hw, -⟩ | ⟨hw, hr⟩
    · exact hsame (by rw [hw])
    · refine .of_idle (fun dagID hleaving => ?_)
      have hdb' : s'.1.process.db = (s.1.process.db.apply st).2 := by rw [← hworld]; exact hw ▸ rfl
      have hleft : Leaving s dagID := by
        rcases hleaving with harchived | ⟨t', ht'⟩
        · left
          rw [hdb'] at harchived
          rw [Db.isArchived_congr (Db.apply_dag? st dagID)] at harchived
          exact harchived
        · exact .inr ⟨t', hnote ▸ ht'⟩
      rw [hdb']
      exact idle_apply hr hcareful hleft (hi.idle hleft)
  | _ => exact hsame (heffect.db rfl)

/-- Archiving is left to the thread that has counted. -/
def Owns (t : Nat) : {β : Type} → CatalogueCmd β → Counted → Prop
  | _, .softDeleteDAG dagID, counted => counted t = some dagID
  | _, _, _ => True

private theorem inv_keep (hi : Inv s) (hruns : s'.1.process.db.runs = s.1.process.db.runs)
    (hleaving : ∀ dagID, Leaving s' dagID → Leaving s dagID) : Inv s' :=
  .of_idle (fun dagID h => (hi.idle (hleaving dagID h)).of_runs hruns)

theorem inv_step {β : Type} {c : CatalogueCmd β} {r : β} (hi : Inv s) (hexec : s.1.exec k t a c = some (r, s'.1))
    (hnote : s'.2 = noted k t c r s.2) (hcareful : Careful k t c s r) (howns : Owns t c s.2) : Inv s' := by
  have hsame : s'.1.process.db = s.1.process.db → s'.2 = s.2 → Inv s' := by
    intro hdb hpast
    refine inv_keep hi (by rw [hdb]) (fun dagID hleaving => ?_)
    unfold Leaving at hleaving
    rw [hdb, hpast] at hleaving
    exact hleaving
  have hstatement : ∀ {γ : Type} (x : Except Err γ × Db) (r : Except Err γ), some (s.1.statement a x) = some (r, s'.1) →
      s'.2 = s.2 → x.2.runs = s.1.process.db.runs →
      (∀ dagID, x.2.isArchived dagID = true → s.1.process.db.isArchived dagID = true) → Inv s' := by
    intro γ x r hx hpast hruns harchived
    rcases Console.statement_cases hx with ⟨-, hw⟩ | ⟨-, hw⟩
    · exact hsame (by rw [hw]) hpast
    · refine inv_keep hi (by rw [hw]; exact hruns) (fun dagID hleaving => ?_)
      rcases hleaving with h | ⟨t', ht'⟩
      · rw [hw] at h
        exact .inl (harchived dagID h)
      · exact .inr ⟨t', hpast ▸ ht'⟩
  cases c with
  | scheduler c => exact inv_scheduler hi hexec hnote hcareful
  | getDAG dagID => exact hstatement _ _ hexec hnote rfl (fun _ h => h)
  | getPool name => exact hstatement _ _ hexec hnote rfl (fun _ h => h)
  | writeFile dagID yaml => exact hstatement _ _ hexec hnote rfl (fun _ h => h)
  | upsertPool p =>
    refine hstatement _ _ hexec hnote (Db.upsertPool_runs p) (fun dagID h => ?_)
    rw [Db.isArchived_congr (Db.upsertPool_dag? p dagID)] at h
    exact h
  | replaceDagDependencies down ups => exact hstatement _ _ hexec hnote rfl (fun _ h => h)
  | upsertDAG d =>
    refine hstatement _ _ hexec hnote (Db.upsertDAG_runs d) (fun dagID h => ?_)
    by_cases hid : dagID = d.dagID
    · obtain ⟨row, hrow, -, hactive, -⟩ := s.1.process.db.upsertDAG_self d
      rw [hid] at h
      simp only [Db.isArchived, hrow, Option.any_some, hactive] at h
      cases h
    · rw [Db.isArchived_congr (Db.upsertDAG_ne hid)] at h
      exact h
  | setDAGPaused id paused =>
    refine hstatement _ _ hexec hnote (Db.setDAGPaused_runs id paused) (fun dagID h => ?_)
    by_cases hid : dagID = id
    · subst hid
      cases hrow : s.1.process.db.dag? dagID with
      | none =>
        simp only [Db.setDAGPaused, hrow] at h
        exact h
      | some row =>
        simp only [Db.isArchived, Db.setDAGPaused_self hrow, hrow, Option.any_some] at h ⊢
        exact h
    · rw [Db.isArchived_congr (Db.setDAGPaused_ne hid)] at h
      exact h
  | countActiveRuns dagID =>
    have hdb : s'.1.process.db = s.1.process.db := by
      rcases Console.statement_cases hexec with ⟨-, hw⟩ | ⟨-, hw⟩ <;> rw [hw]
      rfl
    refine .of_idle (fun id hleaving => ?_)
    rw [hdb]
    rcases hleaving with h | ⟨t', ht'⟩
    · rw [hdb] at h
      exact hi.orderly id h
    · rw [hnote] at ht'
      by_cases htt : t' = t
      · subst htt
        simp only [noted, Function.update_self] at ht'
        split at ht'
        · obtain rfl : dagID = id := by simpa using ht'
          rcases Console.statement_cases hexec with ⟨hr, -⟩ | ⟨hr, -⟩
          · cases hr
          · have hcount : s.1.process.db.countActiveRuns dagID = 0 := by
              simpa using hr.symm
            intro row hrow hdag
            have hnil := List.length_eq_zero_iff.mp hcount
            by_contra hne
            have hmem : row ∈ s.1.process.db.runs.filter (fun r => r.dagID = dagID ∧ r.state.isActive) := by
              simp only [Relational.Table.filter, List.mem_filter]
              exact ⟨hrow, by simpa [hdag] using hne⟩
            rw [hnil] at hmem
            cases hmem
        · cases ht'
      · simp only [noted, Function.update_of_ne htt] at ht'
        exact hi.counted t' id ht'
  | softDeleteDAG dagID =>
    have hcounted : s.2 t = some dagID := howns
    have hruns : s'.1.process.db.runs = s.1.process.db.runs := by
      rcases Console.statement_cases hexec with ⟨-, hw⟩ | ⟨-, hw⟩ <;> rw [hw]
      exact Db.softDeleteDAG_runs dagID
    refine inv_keep hi hruns (fun id hleaving => ?_)
    rcases hleaving with h | ⟨t', ht'⟩
    · by_cases hid : id = dagID
      · exact .inr ⟨t, hid ▸ hcounted⟩
      · left
        rcases Console.statement_cases hexec with ⟨-, hw⟩ | ⟨-, hw⟩ <;> rw [hw] at h
        · exact h
        · exact Db.isArchived_congr (Db.softDeleteDAG_ne hid) ▸ h
    · right
      rw [hnote] at ht'
      by_cases htt : t' = t
      · subst htt
        simp only [noted, Function.update_self] at ht'
        cases ht'
      · simp only [noted, Function.update_of_ne htt] at ht'
        exact ⟨t', ht'⟩
  | lockMu =>
    simp only [Console.exec] at hexec
    split at hexec
    · exact hsame (congrArg (fun p => p.2.process.db) (Option.some.inj hexec)).symm hnote
    · cases hexec
  | unlockMu => exact hsame (congrArg (fun p => p.2.process.db) (Option.some.inj hexec)).symm hnote
  | updateCache f => exact hsame (congrArg (fun p => p.2.process.db) (Option.some.inj hexec)).symm hnote

end Step

/-! ### Every run -/

section Rules
variable {k : CatalogueKind cfg} {t : Nat} {α : Type}

/-- A thread relies on its own count, and archives only what it has counted. -/
private def rules (k : CatalogueKind cfg) (t : Nat) : Rules CatalogueCmd (Console × Counted) where
  sem := ((archiving cfg).answering Careful).sem k t
  rely s s' := s'.2 t = s.2 t
  guar _ s _ s' := (Inv s → Inv s') ∧ ∀ t', t' ≠ t → s'.2 t' = s.2 t'

private theorem sem_guar {β : Type} {c : CatalogueCmd β} {s s' : Console × Counted} {r : β} (hsem : (rules k t).sem c s r s')
    (howns : Owns t c s.2) : (rules k t).guar c s r s' := by
  obtain ⟨hcareful, ⟨a, hexec⟩, hnote⟩ := hsem
  refine ⟨fun hi => inv_step hi hexec hnote hcareful howns, ?_⟩
  intro t' hne
  rw [hnote]
  cases c with
  | countActiveRuns dagID => exact Function.update_of_ne hne _ _
  | softDeleteDAG dagID => exact Function.update_of_ne hne _ _
  | _ => rfl

/-- Commands other than the archiving. -/
private def plain : {β : Type} → CatalogueCmd β → Prop
  | _, .softDeleteDAG _ => False
  | _, _ => True

private theorem plain_keeps {p : Program CatalogueCmd α} (hp : p.Uses plain) (s : Console × Counted) :
    Holds (rules k t) p (fun _ _ => True) s := by
  have htrue : (fun _ : Console × Counted => True) s := trivial
  refine Holds.of_uses hp htrue (fun _ _ _ _ => trivial) ?_
  intro β c hc s r s' _ hsem
  refine ⟨sem_guar hsem ?_, trivial⟩
  cases c with
  | softDeleteDAG => exact hc.elim
  | _ => trivial

private theorem deleteDAG_keeps (dagID : String) : Keeps (rules k t) (fun _ => True) (deleteDAG dagID) := by
  have hcount : Triple (rules k t) (fun _ => True) (storeOp (.countActiveRuns dagID))
      (Ends (fun active s => 0 < active ∨ s.2 t = some dagID) (fun _ => True)) := by
    refine .call (fun _ _ _ _ => trivial) ?_
    intro s r s' _ hsem
    refine ⟨sem_guar hsem trivial, ?_⟩
    cases r with
    | error e => trivial
    | ok active =>
      cases active with
      | succ n => exact .inl (Nat.succ_pos n)
      | zero =>
        right
        rw [hsem.2.2]
        exact Function.update_self _ _ _
  have hcounted : ∀ active : Nat,
      Stable (rules k t) (fun s : Console × Counted => 0 < active ∨ s.2 t = some dagID) :=
    fun active s s' hrely h => h.imp id (fun h => hrely.trans h)
  have hcache : Uses plain (underMu (updateCache (fun dags => dags.filter (fun d => d.dagID ≠ dagID)))) :=
    .around trivial (fun _ => trivial) (.lift trivial)
  refine .seq hcount (fun active => .refuse (fun _ _ => trivial) (fun hzero => ?_)) (fun _ _ h => h)
  have harchive : Triple (rules k t) (fun s => 0 < active ∨ s.2 t = some dagID) (storeOp (.softDeleteDAG dagID))
      (fun _ _ => True) := by
    refine .call (hcounted active) ?_
    intro s r s' hs hsem
    exact ⟨sem_guar hsem (hs.resolve_left hzero), trivial⟩
  exact .bind harchive (fun _ s _ => plain_keeps hcache s) (fun _ _ h => h)

private def discipline (cfg : Cfg) : Discipline ((archiving cfg).answering Careful) where
  inv := Inv
  free _ _ := True
  rely t s s' := s'.2 t = s.2 t
  guar k t _ c s r s' := (rules k t).guar c s r s'
  rely_refl _ _ := rfl
  rely_trans _ _ _ _ h h' := h'.trans h
  free_rely _ _ _ _ h := h
  guar_inv _ _ _ _ _ _ _ hi h := h.1 hi
  guar_rely _ _ t' _ _ _ _ _ hne _ h := h.2 t' (Ne.symm hne)
  start_inv t k p s s' hi _ hstart := by
    obtain ⟨w', counted'⟩ := s'
    obtain ⟨hbegin, rfl⟩ := hstart
    obtain ⟨hdb, -⟩ := CatalogueStarts.same (show CatalogueStarts cfg t k p s.1 w' from hbegin)
    refine inv_keep hi (by rw [hdb]) (fun dagID hleaving => ?_)
    unfold Leaving at hleaving
    rw [hdb] at hleaving
    exact hleaving
  start_rely t k p s s' _ _ hstart t' _ := congrFun hstart.2 t'
  start_holds t k p s s' _ _ hstart := by
    obtain ⟨w', counted'⟩ := s'
    obtain ⟨hbegin, -⟩ := hstart
    change CatalogueStarts cfg t k p s.1 w' at hbegin
    have hsaving : ∀ {β : Type} (c : CatalogueCmd β), saving c → plain c := by
      intro β c hc
      cases c with
      | softDeleteDAG => exact hc.elim
      | _ => trivial
    cases hbegin with
    | scheduler h => exact plain_keeps (Program.Uses.translate (Program.Uses.any _) (fun _ _ => by trivial)) _
    | deleteDAG dagID => exact deleteDAG_keeps dagID _ trivial
    | setPaused dagID paused =>
      have huses : Uses plain (setPaused dagID paused) :=
        .bind (.call trivial) (fun _ => .around trivial (fun _ => trivial) (.lift trivial))
      exact plain_keeps huses _
    | registerDAG d => exact plain_keeps ((registerDAG_uses d).mono hsaving) _
    | buildDAG save => exact plain_keeps ((buildDAG_uses save).mono hsaving) _
  drift_inv _ _ _ h := h.1.elim
  drift_rely _ _ _ h := h.1.elim
  reset_inv s s' hi h := by
    obtain ⟨w', counted'⟩ := s'
    obtain ⟨hcrash, rfl⟩ := h
    obtain rfl : w' = _ := hcrash
    refine inv_keep hi rfl (fun dagID hleaving => hleaving.imp id ?_)
    rintro ⟨_, h⟩
    cases h
  reset_free _ _ _ _ _ := trivial

/-- While every statement is careful, no run of an archived DAG is active, whatever
calls are in progress. -/
theorem archived_dags_dormant (cfg : Cfg) {c : Config (CatalogueKind cfg) CatalogueCmd (Except Err Unit) (Console × Counted)}
    (hreach : ((archiving cfg).answering Careful).Reachable (fun s => Orderly s.1 ∧ s.2 = fun _ => none) c) :
    Orderly c.world.1 := by
  have hsound : (discipline cfg).Sound c := by
    refine (discipline cfg).reachable_sound ?_ hreach
    rintro ⟨w, counted⟩ ⟨horderly, rfl⟩
    exact ⟨⟨horderly, fun _ _ h => by cases h⟩, fun _ => trivial⟩
  have hinv : Inv c.world := hsound.1
  exact hinv.orderly

end Rules

/-! ### A finished run of an archived DAG -/

/-- A workflow of one task, as its document and as it is parsed. -/
def archiveCfg : Cfg := .ofDocuments [("job: a", { dagID := "job", tasks := [{ id := "a", command := "true" }] })]

def finishedRun : DagRun :=
  { runID := "job__1", dagID := "job", logicalDate := 0, state := .failed, triggerType := .manual, startedAt := some 0
    finishedAt := some 1, definitionYAML := "job: a" }

def finishedRow : TaskInstance := { id := 1, runID := "job__1", taskID := "a", state := .failed, tryNumber := 1 }

def archiveConsole : Console :=
  { process :=
    { db := { dags := .single { dagID := "job" }, runs := .single finishedRun, tasks := .single finishedRow } } }

private theorem archiveConsole_orderly : Orderly archiveConsole := by
  intro dagID harchived
  obtain ⟨row, hrow, hdeleted⟩ := (Option.any_eq_true _ _).mp harchived
  obtain rfl := List.mem_singleton.mp (Db.dag?_spec hrow).1
  cases hdeleted

/-- The DAG is archived; then its only task is marked. -/
def markMoves : List (CatalogueMove archiveCfg) :=
  .deleteDAG 1 "job" :: List.replicate 5 (.act 1 .fine) ++
    .call 2 (.markTask "job__1" "a" .success) :: List.replicate 10 (.act 2 .fine)

theorem archived_dag_active_again :
    ¬ ∀ (cfg : Cfg) (c : Recorded cfg Counted), (archiving cfg).Reachable (fun s => Orderly s.1 ∧ s.2 = fun _ => none) c →
      (∀ t, Idle (c.threads t)) → Orderly c.world.1 := by
  have hplay : (Recorded.turns noted (fun _ _ _ _ _ _ => true) (⟨(archiveConsole, fun _ => none), fun _ => none⟩ :
      Recorded archiveCfg Counted) markMoves).map (fun c => (c.finished 1, c.finished 2,
        c.world.1.process.db.isArchived "job", c.world.1.process.db.runs.rows.any (fun r => r.dagID = "job" && r.state.isActive))) =
      some (true, true, true, true) := by
    decide +kernel
  obtain ⟨c, hc, heq⟩ := Option.map_eq_some_iff.mp hplay
  simp only [Prod.mk.injEq] at heq
  obtain ⟨hdelete, hmark, harchived, hactive⟩ := heq
  have hreach : (archiving archiveCfg).Reachable (fun s => Orderly s.1 ∧ s.2 = fun _ => none) c := by
    have hruns : ((archiving archiveCfg).answering (fun _ _ _ _ _ _ => True)).Runs _ c :=
      Recorded.turns_runs (fun _ _ _ _ _ _ _ => trivial) hc
    exact ⟨_, ⟨archiveConsole_orderly, rfl⟩, hruns.of_answering⟩
  have hidle : ∀ t, Idle (c.threads t) := by
    intro t
    by_cases h1 : t = 1
    · rw [h1]
      exact Recorded.finished_idle hdelete
    · by_cases h2 : t = 2
      · rw [h2]
        exact Recorded.finished_idle hmark
      · have hnone := Recorded.turns_other hc (t := t) (by simp [markMoves, CatalogueMove.thread, h1, h2])
        rw [hnone]
        trivial
  intro h
  obtain ⟨r, hr, hrun⟩ := List.any_eq_true.mp hactive
  simp only [Bool.and_eq_true, decide_eq_true_eq] at hrun
  have hdormant := h archiveCfg c hreach hidle "job" harchived r hr hrun.1
  rw [hdormant] at hrun
  cases hrun.2

theorem archived_dags_dormant_delete :
    ∃ c, ((archiving archiveCfg).answering Careful).Reachable (fun s => Orderly s.1 ∧ s.2 = fun _ => none) c ∧
      c.world.1.process.db.isArchived "job" = true ∧ Orderly c.world.1 := by
  have hplay : (Recorded.turns noted (fun _ _ _ c _ _ => match c with | .scheduler _ => false | _ => true)
      (⟨(archiveConsole, fun _ => none), fun _ => none⟩ : Recorded archiveCfg Counted)
      (.deleteDAG 1 "job" :: List.replicate 5 (.act 1 .fine))).map (fun c => c.world.1.process.db.isArchived "job") =
      some true := by
    decide +kernel
  obtain ⟨c, hc, harchived⟩ := Option.map_eq_some_iff.mp hplay
  have hruns : ((archiving archiveCfg).answering Careful).Runs ⟨(archiveConsole, fun _ => none), fun _ => none⟩ c := by
    refine Recorded.turns_runs ?_ hc
    intro k t β cmd s r hok
    cases cmd with
    | scheduler => cases hok
    | _ => trivial
  have hreach : ((archiving archiveCfg).answering Careful).Reachable (fun s => Orderly s.1 ∧ s.2 = fun _ => none) c :=
    ⟨_, ⟨archiveConsole_orderly, rfl⟩, hruns⟩
  exact ⟨c, hreach, harchived, archived_dags_dormant archiveCfg hreach⟩

end Cronova.Properties.Archive
