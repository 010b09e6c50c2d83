import Cronova.Scheduler.Alone

/-! A second scan of an unchanged directory. A file is skipped if its text is the one
stored for its DAG and the DAG is in the cache; two files that name one DAG and have
different texts are therefore registered again on every scan, one after the other. -/
namespace Cronova.Properties.Idempotence
open Cronova.Model Cronova.Store Cronova.Concurrency Cronova.Concurrency.Fallible Cronova.Scheduler Cronova.Scheduler.Site

variable {cfg : Cfg} {F : Faults} {s s' : Site} {raw : String} {d : DAG}

/-- Nothing fails but the recording of versions. -/
def onlyVersions (lost : Bool) : Faults := { version := lost }

/-- The text is the one stored for its DAG, and the DAG is in the cache. -/
def Live (s : Site) (dagID raw : String) : Prop :=
  (∃ row, s.db.dag? dagID = some row ∧ row.definitionYAML = raw) ∧ (s.cached dagID).isSome = true

/-- No row is archived. -/
def Unarchived (s : Site) : Prop := ∀ dagID, s.db.isArchived dagID = false

/-- A scan can begin: the mutex is free and no row is archived. -/
structure Ready (s : Site) : Prop where
  mu : s.console.mu = none
  unarchived : Unarchived s

/-- Files that name one DAG have one text. -/
def OneText (cfg : Cfg) (files : List (Option String)) : Prop :=
  ∀ raw raw' d d', some raw ∈ files → some raw' ∈ files → parseDefinition cfg raw = .ok d → parseDefinition cfg raw' = .ok d' →
    d.dagID = d'.dagID → raw = raw'

theorem unarchived_row (h : Unarchived s) {dagID : String} {row : DagRow} (hrow : s.db.dag? dagID = some row) : row.deleted = false := by
  have hnone := h dagID
  unfold Db.isArchived at hnone
  rw [hrow] at hnone
  simpa using hnone

theorem announced_ready (h : Announced s s' d) (hs : Ready s) : Ready s' := by
  refine ⟨h.mu, fun dagID => ?_⟩
  by_cases hid : dagID = d.dagID
  · obtain ⟨row, hrow, -, hactive⟩ := h.row
    unfold Db.isArchived
    rw [hid, hrow]
    simpa using hactive
  · rw [Db.isArchived_congr (h.rows dagID hid)]
    exact hs.unarchived dagID

/-- A registration makes its text the live one, and leaves the others. -/
theorem announced_live (h : Announced s s' d) : Live s' d.dagID d.definitionYAML := by
  obtain ⟨row, hrow, htext, -⟩ := h.row
  exact ⟨⟨row, hrow, htext⟩, h.cached⟩

theorem announced_live_other (h : Announced s s' d) {dagID : String} (hne : dagID ≠ d.dagID) :
    Live s' dagID raw ↔ Live s dagID raw := by
  unfold Live
  rw [h.rows dagID hne, h.others dagID hne]

theorem live_unique {dagID raw' : String} (h : Live s dagID raw) (h' : Live s dagID raw') : raw = raw' := by
  obtain ⟨⟨row, hrow, rfl⟩, -⟩ := h
  obtain ⟨⟨row', hrow', rfl⟩, -⟩ := h'
  rw [hrow] at hrow'
  cases hrow'
  rfl

/-! ### One file -/

theorem run_lookup (dagID : String) (hfree : s.console.mu = none) :
    run cfg F (lookup (cachedDAG dagID)) s = some (.ok (s.cached dagID), s) := by
  have hbody : run cfg F (ExceptT.mk ((cachedDAG dagID).run.translate .scheduler) : CatalogueM (Option DAG)) (s.withMu (some 0)) =
      some (.ok (s.cached dagID), s.withMu (some 0)) := rfl
  have hrun := run_underMu hfree hbody
  have hback : (s.withMu (some 0)).withMu none = s := by
    rw [← hfree]
    rfl
  rw [hback] at hrun
  exact hrun

/-- Nothing fails: the rest of a registration, too. -/
theorem not_breaksLate (lost : Bool) : ¬ BreaksLate (onlyVersions lost) s d := by
  rintro (⟨t, -, -, h | ⟨-, h⟩⟩ | h) <;> cases h

/-- A file is left alone, or it is registered. -/
inductive Scanned (cfg : Cfg) (raw : String) (s s' : Site) : Prop where
  | skipped : s' = s → (∀ d, parseDefinition cfg raw = .ok d → Live s d.dagID raw) → Scanned cfg raw s s'
  | registered (d : DAG) : parseDefinition cfg raw = .ok d → ¬ Live s d.dagID raw → Announced s s' d → Scanned cfg raw s s'

variable (cfg) in
theorem run_loadDAGFile (hs : Ready s) (lost : Bool) (raw : String) :
    ∃ s', run cfg (onlyVersions lost) (loadDAGFile cfg true raw) s = some (.ok (), s') ∧ Scanned cfg raw s s' := by
  unfold loadDAGFile
  cases hparse : parseDefinition cfg raw with
  | error e => exact ⟨s, rfl, .skipped rfl (fun d hd => by rw [hparse] at hd; cases hd)⟩
  | ok d =>
    have hregister : ¬ Live s d.dagID raw → ∃ s', run cfg (onlyVersions lost) (do
        let _ ← Fallible.outcome (registerDAG cfg d)
        pure ()) s = some (.ok (), s') ∧ Scanned cfg raw s s' := by
      intro hstale
      obtain ⟨s', hrun, hdone⟩ :=
        run_registerDAG_ok (F := onlyVersions lost) rfl (not_breaksLate lost) (parseDefinition_scheduled hparse) hs.mu
      exact ⟨s', run_bind_ok (run_outcome hrun), .registered d hparse hstale hdone⟩
    have hread : run cfg (onlyVersions lost) (Fallible.outcome (storeOp (.getDAG d.dagID))) s = _ := run_outcome (run_getDAG d.dagID)
    dsimp only
    rw [run_bind_ok hread, if_neg (show ¬ (onlyVersions lost).fails (CatalogueCmd.getDAG d.dagID) = true from nofun)]
    cases hrow : s.db.dag? d.dagID with
    | none =>
      rw [Db.getDAG_of_dag?_none hrow]
      refine hregister ?_
      rintro ⟨⟨row, hsome, -⟩, -⟩
      rw [hrow] at hsome
      cases hsome
    | some row =>
      rw [Db.getDAG_of_dag? hrow]
      simp only [readArchived, readYAML, unarchived_row hs.unarchived hrow, Bool.false_eq_true, if_false, true_and, Option.some.injEq]
      by_cases htext : row.definitionYAML = raw
      · rw [if_pos htext, run_bind_ok (run_lookup d.dagID hs.mu)]
        cases hcached : s.cached d.dagID with
        | some old =>
          refine ⟨s, rfl, .skipped rfl (fun d' hd' => ?_)⟩
          rw [hparse] at hd'
          cases hd'
          exact ⟨⟨row, hrow, htext⟩, by rw [hcached]; rfl⟩
        | none =>
          refine hregister ?_
          rintro ⟨-, hsome⟩
          rw [hcached] at hsome
          cases hsome
      · rw [if_neg htext]
        refine hregister ?_
        rintro ⟨⟨row', hrow', htext'⟩, -⟩
        rw [hrow] at hrow'
        cases hrow'
        exact htext htext'

/-! ### A scan -/

/-- Every file that is accepted has the live text of its DAG. -/
def AllLive (cfg : Cfg) (files : List (Option String)) (s : Site) : Prop :=
  ∀ raw d, some raw ∈ files → parseDefinition cfg raw = .ok d → Live s d.dagID raw

theorem allLive_nil (s : Site) : AllLive cfg [] s := fun _ _ hmem => absurd hmem List.not_mem_nil

theorem scanned_ready (h : Scanned cfg raw s s') (hs : Ready s) : Ready s' := by
  cases h with
  | skipped hsame _ => exact hsame ▸ hs
  | registered d _ _ hdone => exact announced_ready hdone hs

theorem scanned_length (h : Scanned cfg raw s s') : s.registered.length ≤ s'.registered.length := by
  cases h with
  | skipped hsame _ => rw [hsame]
  | registered d _ _ hdone =>
    rw [hdone.registered, List.length_cons]
    omega

/-- A file becomes live, and the other files of the same text stay so. -/
theorem scanned_live {files : List (Option String)} (h : Scanned cfg raw s s') (hlive : AllLive cfg files s)
    (htext : OneText cfg (some raw :: files)) : AllLive cfg (some raw :: files) s' := by
  intro raw' d' hmem hparse'
  cases h with
  | skipped hsame hskip =>
    rw [hsame]
    rcases List.mem_cons.mp hmem with heq | hold
    · cases heq
      exact hskip d' hparse'
    · exact hlive raw' d' hold hparse'
  | registered d hparse hstale hdone =>
    have hraw : d.definitionYAML = raw := (parseDefinition_source hparse).1
    by_cases hid : d'.dagID = d.dagID
    · have hsame : raw' = raw := htext raw' raw d' d hmem (by simp) hparse' hparse hid
      rw [hid, hsame, ← hraw]
      exact announced_live hdone
    · rw [announced_live_other hdone hid]
      rcases List.mem_cons.mp hmem with heq | hold
      · cases heq
        rw [hparse] at hparse'
        cases hparse'
        exact absurd rfl hid
      · exact hlive raw' d' hold hparse'

/-- One file after the other. -/
private def scan (cfg : Cfg) (files : List (Option String)) : CatalogueM Unit :=
  files.forM (fun file =>
    match file with
    | none => return
    | some raw => loadDAGFile cfg true raw)

private theorem run_scan_none (files : List (Option String)) : run cfg F (scan cfg (none :: files)) s = run cfg F (scan cfg files) s :=
  run_bind_ok (run_pure ())

private theorem run_scan_some (files : List (Option String)) (h : run cfg F (loadDAGFile cfg true raw) s = some (.ok (), s')) :
    run cfg F (scan cfg (some raw :: files)) s = run cfg F (scan cfg files) s' := run_bind_ok h

variable (cfg) in
/-- A scan of live files does nothing, and one of other files registers some. -/
theorem run_scan (lost : Bool) (files : List (Option String)) (hs : Ready s) :
    ∃ s', run cfg (onlyVersions lost) (scan cfg files) s = some (.ok (), s') ∧ Ready s' ∧
      s.registered.length ≤ s'.registered.length ∧ (s'.registered.length = s.registered.length → s' = s ∧ AllLive cfg files s) ∧
        (AllLive cfg files s → s' = s) := by
  induction files generalizing s with
  | nil => exact ⟨s, rfl, hs, le_rfl, fun _ => ⟨rfl, allLive_nil s⟩, fun _ => rfl⟩
  | cons file files ih =>
    cases file with
    | none =>
      obtain ⟨s', hrun, hready, hle, hsame, hskip⟩ := ih hs
      refine ⟨s', (run_scan_none files).trans hrun, hready, hle, fun h => ⟨(hsame h).1, fun raw d hmem => ?_⟩, fun h => hskip (fun raw d hmem => ?_)⟩
      · exact (hsame h).2 raw d (by simpa using hmem)
      · exact h raw d (by simp [hmem])
    | some raw =>
      obtain ⟨s₁, hfirst, hscanned⟩ := run_loadDAGFile cfg hs lost raw
      obtain ⟨s', hrun, hready, hle, hsame, hskip⟩ := ih (scanned_ready hscanned hs)
      have hlength := scanned_length hscanned
      refine ⟨s', (run_scan_some files hfirst).trans hrun, hready, hlength.trans hle, ?_, ?_⟩
      · intro heq
        obtain ⟨hrest, hlive⟩ := hsame (by omega)
        cases hscanned with
        | skipped hkept hfile =>
          rw [hkept] at hlive hrest
          refine ⟨hrest, fun raw' d hmem hparse => ?_⟩
          rcases List.mem_cons.mp hmem with hfirst | hlater
          · cases hfirst
            exact hfile d hparse
          · exact hlive raw' d hlater hparse
        | registered d _ _ hdone =>
          rw [hdone.registered, List.length_cons] at hle
          omega
      · intro hlive
        cases hscanned with
        | skipped hkept hfile =>
          rw [hkept] at hskip
          exact hskip (fun raw' d hmem => hlive raw' d (by simp [hmem]))
        | registered d hparse hstale hdone => exact absurd (hlive raw d (by simp) hparse) hstale

/-- A scan of files of one text each makes them live. -/
theorem scan_live (lost : Bool) (files before : List (Option String)) (hs : Ready s) (hlive : AllLive cfg before s)
    (htext : OneText cfg (before ++ files)) :
    ∃ s', run cfg (onlyVersions lost) (scan cfg files) s = some (.ok (), s') ∧ AllLive cfg (before ++ files) s' := by
  induction files generalizing s before with
  | nil => exact ⟨s, rfl, by simpa using hlive⟩
  | cons file files ih =>
    cases file with
    | none =>
      have hless : ∀ raw, some raw ∈ before ++ none :: files ↔ some raw ∈ before ++ files := by simp
      obtain ⟨s', hrun, hdone⟩ := ih before hs hlive
        (fun raw raw' d d' hmem hmem' => htext raw raw' d d' ((hless raw).mpr hmem) ((hless raw').mpr hmem'))
      exact ⟨s', (run_scan_none files).trans hrun, fun raw d hmem => hdone raw d ((hless raw).mp hmem)⟩
    | some raw =>
      have hmove : ∀ raw', some raw' ∈ (some raw :: before) ++ files ↔ some raw' ∈ before ++ some raw :: files := by
        intro raw'
        simp only [List.cons_append, List.mem_cons, List.mem_append]
        tauto
      have hordered : OneText cfg ((some raw :: before) ++ files) :=
        fun raw₁ raw₂ d d' hmem hmem' => htext raw₁ raw₂ d d' ((hmove raw₁).mp hmem) ((hmove raw₂).mp hmem')
      obtain ⟨s₁, hfirst, hscanned⟩ := run_loadDAGFile cfg hs lost raw
      have hlive₁ := scanned_live hscanned hlive
        (fun raw₁ raw₂ d d' hmem hmem' => hordered raw₁ raw₂ d d' (List.mem_append_left _ hmem) (List.mem_append_left _ hmem'))
      obtain ⟨s', hrun, hdone⟩ := ih (some raw :: before) (scanned_ready hscanned hs) hlive₁ hordered
      exact ⟨s', (run_scan_some files hfirst).trans hrun, fun raw' d hmem => hdone raw' d ((hmove raw').mpr hmem)⟩

/-- A second scan of an unchanged directory registers nothing exactly if no DAG has
files of different texts. -/
theorem reloadDAGs_idempotent_iff (cfg : Cfg) (lost lost' : Bool) (files : List (Option String)) (s : Site) (hs : Ready s) :
    ∃ s₁ s₂, run cfg (onlyVersions lost) (reloadDAGs cfg (.ok files)) s = some (.ok (), s₁) ∧
      run cfg (onlyVersions lost') (reloadDAGs cfg (.ok files)) s₁ = some (.ok (), s₂) ∧
        ((s₂.registered = s₁.registered ∧ s₂.versions = s₁.versions ∧ s₂.console.process.dags = s₁.console.process.dags) ↔
          OneText cfg files) := by
  obtain ⟨s₁, hfirst, hready, -⟩ := run_scan cfg lost files hs
  obtain ⟨s₂, hsecond, -, -, hsame, hskip⟩ := run_scan cfg lost' files hready
  refine ⟨s₁, s₂, hfirst, hsecond, ?_, ?_⟩
  · rintro ⟨hregistered, -⟩ raw raw' d d' hmem hmem' hparse hparse' hid
    obtain ⟨-, hlive⟩ := hsame (congrArg List.length hregistered)
    exact live_unique (hlive raw d hmem hparse) (hid ▸ hlive raw' d' hmem' hparse')
  · intro htext
    obtain ⟨s', hrun, hlive⟩ := scan_live lost files [] hs (allLive_nil s) htext
    rw [hfirst] at hrun
    cases hrun
    rw [hskip hlive]
    exact ⟨rfl, rfl, rfl⟩

/-! ### Two files for one DAG -/

/-- Two texts for the DAG `job`. -/
def twiceCfg : Cfg :=
  .ofDocuments [("job: b", { dagID := "job", tasks := [{ id := "a", command := "b" }] }),
    ("job: c", { dagID := "job", tasks := [{ id := "a", command := "c" }] })]

theorem ready_empty : Ready {} := ⟨rfl, fun _ => rfl⟩

theorem reloadDAGs_idempotent_iff_copies : ∃ s₁ s₂,
    run twiceCfg (onlyVersions false) (reloadDAGs twiceCfg (.ok [some "job: b", none, some "job: b"])) {} = some (.ok (), s₁) ∧
      run twiceCfg (onlyVersions false) (reloadDAGs twiceCfg (.ok [some "job: b", none, some "job: b"])) s₁ = some (.ok (), s₂) ∧
        ((s₂.registered = s₁.registered ∧ s₂.versions = s₁.versions ∧ s₂.console.process.dags = s₁.console.process.dags) ↔
          OneText twiceCfg [some "job: b", none, some "job: b"]) :=
  reloadDAGs_idempotent_iff twiceCfg false false [some "job: b", none, some "job: b"] {} ready_empty

/-- Every scan registers both files, each over the other, and records two versions. -/
theorem reloadDAGs_not_idempotent : ¬ ∀ (cfg : Cfg) (files : List (Option String)) (s s₁ s₂ : Site), Ready s →
    run cfg {} (reloadDAGs cfg (.ok files)) s = some (.ok (), s₁) → run cfg {} (reloadDAGs cfg (.ok files)) s₁ = some (.ok (), s₂) →
      s₂.registered = s₁.registered ∧ s₂.versions = s₁.versions ∧ s₂.console.process.dags = s₁.console.process.dags := by
  intro h
  have hscans : (run twiceCfg {} (reloadDAGs twiceCfg (.ok [some "job: b", some "job: c"])) {}).bind (fun r =>
      (run twiceCfg {} (reloadDAGs twiceCfg (.ok [some "job: b", some "job: c"])) r.2).map (fun r' =>
        (r.1.isOk, r'.1.isOk, r.2.versions.length, r'.2.versions.length))) = some (true, true, 2, 4) := by decide +kernel
  obtain ⟨⟨r₁, s₁⟩, hfirst, hrest⟩ := Option.bind_eq_some_iff.mp hscans
  obtain ⟨⟨r₂, s₂⟩, hsecond, hcounts⟩ := Option.map_eq_some_iff.mp hrest
  simp only [Prod.mk.injEq] at hcounts
  obtain ⟨hok₁, hok₂, hlength₁, hlength₂⟩ := hcounts
  cases r₁ with
  | error e => cases hok₁
  | ok u =>
    cases r₂ with
    | error e => cases hok₂
    | ok u' =>
      have hversions := (h _ _ _ s₁ s₂ ready_empty hfirst hsecond).2.1
      rw [hversions, hlength₁] at hlength₂
      cases hlength₂

end Cronova.Properties.Idempotence
