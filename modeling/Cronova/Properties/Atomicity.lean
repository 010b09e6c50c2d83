import Cronova.Scheduler.Alone

/-! A definition that is refused. Its file is written first and in place, then its row
is stored; what fails afterwards takes neither of them back. The edges and the cache
come last, and nothing fails after them. -/
namespace Cronova.Properties.Atomicity
open Cronova.Model Cronova.Store Cronova.Concurrency Cronova.Concurrency.Fallible Cronova.Scheduler Cronova.Scheduler.Site

variable {cfg : Cfg} {F : Faults} {s s' : Site} {definitionYAML : String} {d : DAG}

/-- The files, the rows, the edges and the cache are as they were. -/
structure Unchanged (s s' : Site) : Prop where
  files : s'.files = s.files
  rows : ∀ dagID, s'.db.dag? dagID = s.db.dag? dagID
  dependencies : s'.db.dependencies = s.db.dependencies
  cached : s'.cached = s.cached

/-- The row of the definition is there already, and active. -/
def RowCurrent (s : Site) (d : DAG) : Prop :=
  ∃ row, s.db.dag? d.dagID = some row ∧ row.definitionYAML = d.definitionYAML ∧ row.deleted = false

/-- What fails finds nothing that it would have to take back. -/
def Harmless (F : Faults) (s : Site) (d : DAG) : Prop :=
  match s.dagDir, F.file with
  | true, some .unopened => True
  | true, some (.cut n) => s.files d.dagID = some ((contents d.definitionYAML).take n)
  | true, none =>
    if F.fails (.upsertDAG d) then s.files d.dagID = some (contents d.definitionYAML)
    else BreaksLate F s d → s.files d.dagID = some (contents d.definitionYAML) ∧ RowCurrent s d
  | false, _ => F.fails (.upsertDAG d) = false → BreaksLate F s d → RowCurrent s d

theorem update_same_iff {files : String → Option (List UInt8)} {dagID : String} {text : List UInt8} :
    Function.update files dagID (some text) = files ↔ files dagID = some text := by
  rw [Function.update_eq_self_iff]
  exact eq_comm

/-- The row that a registration stores is the one that was there. -/
theorem upsertDAG_same_iff : (∀ dagID, (s.db.upsertDAG d).2.dag? dagID = s.db.dag? dagID) ↔ RowCurrent s d := by
  constructor
  · intro h
    obtain ⟨row, hrow, htext, hactive, -⟩ := s.db.upsertDAG_self d
    exact ⟨row, (h d.dagID).symm.trans hrow, htext, hactive⟩
  · rintro ⟨row, hrow, htext, hactive⟩ dagID
    by_cases hid : dagID = d.dagID
    · subst hid
      rw [Db.upsertDAG_some hrow, hrow, ← htext, ← hactive]
    · exact Db.upsertDAG_ne hid

/-- What a registration leaves that failed after its row was stored. -/
theorem stored_unchanged_iff {s₁ : Site} (hstored : Stored s₁ s' d) (hedges : s'.db.dependencies = s₁.db.dependencies)
    (hconsole : s₁.console = s.console) : Unchanged s s' ↔ s₁.files = s.files ∧ RowCurrent s d := by
  have hdb : s₁.db = s.db := congrArg (fun c => c.process.db) hconsole
  rw [← upsertDAG_same_iff]
  constructor
  · intro h
    refine ⟨hstored.files.symm.trans h.files, fun dagID => ?_⟩
    rw [← h.rows dagID, hstored.rows dagID, hdb]
  · rintro ⟨hfiles, hrows⟩
    exact {
      files := hstored.files.trans hfiles
      rows := fun dagID => by rw [hstored.rows dagID, hdb, hrows dagID]
      dependencies := by rw [hedges, hdb]
      cached := by
        rw [hstored.console.2]
        funext dagID
        exact congrArg (fun c => c.process.dags.find? (fun d => d.dagID = dagID)) hconsole }

theorem files_unchanged_iff {s₁ : Site} (hconsole : s₁.console = s.console) : Unchanged s s₁ ↔ s₁.files = s.files := by
  have hdb : s₁.db = s.db := congrArg (fun c => c.process.db) hconsole
  constructor
  · exact fun h => h.files
  · intro hfiles
    refine ⟨hfiles, fun dagID => by rw [hdb], by rw [hdb], ?_⟩
    funext dagID
    exact congrArg (fun c => c.process.dags.find? (fun d => d.dagID = dagID)) hconsole

/-- When a registration may fail that follows the writing of the file. -/
theorem registerDAG_unchanged_iff {s₁ : Site} (hconsole : s₁.console = s.console) (hschedule : Scheduled cfg d) :
    (∀ e s', run cfg F (registerDAG cfg d) s₁ = some (.error e, s') → Unchanged s s') ↔
      if F.fails (.upsertDAG d) then s₁.files = s.files else BreaksLate F s d → s₁.files = s.files ∧ RowCurrent s d := by
  have hlate : BreaksLate F s₁ d ↔ BreaksLate F s d := by
    have hdb : s₁.db = s.db := congrArg (fun c => c.process.db) hconsole
    simp only [BreaksLate, PoolBreaks, hdb]
  cases hupsert : F.fails (.upsertDAG d) with
  | true =>
    have hrun := run_registerDAG_unstored cfg (s := s₁) hupsert
    rw [if_pos rfl, ← files_unchanged_iff hconsole]
    constructor
    · exact fun h => h _ _ hrun
    · intro h e s' herr
      rw [hrun] at herr
      cases herr
      exact h
  | false =>
    rw [if_neg (by decide)]
    by_cases hbreaks : BreaksLate F s d
    · obtain ⟨e, s', hrun, hstored, hedges⟩ := run_registerDAG_broken cfg hupsert (hlate.mpr hbreaks)
      have hiff := stored_unchanged_iff hstored hedges hconsole
      constructor
      · exact fun h _ => hiff.mp (h e s' hrun)
      · intro h e' s'' herr
        rw [hrun] at herr
        cases herr
        exact hiff.mpr (h hbreaks)
    · refine iff_of_true (fun e s' herr => ?_) (fun hlate => absurd hlate hbreaks)
      exact absurd herr (run_registerDAG_ne_error hupsert (mt hlate.mp hbreaks) hschedule e)

theorem run_createDAG (hparse : parseDefinition cfg definitionYAML = .ok d) : run cfg F (createDAG cfg definitionYAML) s =
    run cfg F (storeOp (.writeFile d.dagID definitionYAML) >>= fun _ => registerDAG cfg d) s := by
  unfold createDAG
  rw [hparse]
  exact run_bind_ok rfl

/-- A definition is refused before its file is written, or when writing the file fails,
or when the registration fails. -/
theorem createDAG_parsed_iff (hparse : parseDefinition cfg definitionYAML = .ok d) :
    (∀ e s', run cfg F (createDAG cfg definitionYAML) s = some (.error e, s') → Unchanged s s') ↔ Harmless F s d := by
  have hschedule := parseDefinition_scheduled hparse
  have htext := (parseDefinition_source hparse).1
  rw [run_createDAG hparse]
  have hwritten : ∀ {s₁ : Site}, s.writeFile F.file d.dagID definitionYAML = (.ok (), s₁) →
      run cfg F (storeOp (.writeFile d.dagID definitionYAML) >>= fun _ => registerDAG cfg d) s = run cfg F (registerDAG cfg d) s₁ := by
    intro s₁ h
    exact run_bind_ok (by rw [run_storeOp, exec, h])
  have hrefused : ∀ {s₁ : Site} {e : Err}, s.writeFile F.file d.dagID definitionYAML = (.error e, s₁) → s₁.console = s.console →
      ((∀ e s', run cfg F (storeOp (.writeFile d.dagID definitionYAML) >>= fun _ => registerDAG cfg d) s = some (.error e, s') →
        Unchanged s s') ↔ s₁.files = s.files) := by
    intro s₁ e h hconsole
    rw [← files_unchanged_iff hconsole, run_bind_error (by rw [run_storeOp, exec, h])]
    constructor
    · exact fun hall => hall e s₁ rfl
    · intro hunchanged e' s' herr
      cases herr
      exact hunchanged
  unfold Harmless
  rw [htext]
  cases hdir : s.dagDir with
  | false =>
    have hkept : s.writeFile F.file d.dagID definitionYAML = (.ok (), s) := by
      unfold writeFile
      rw [if_neg (by simp [hdir])]
    rw [hwritten hkept, registerDAG_unchanged_iff rfl hschedule]
    cases F.fails (.upsertDAG d) <;> simp
  | true =>
    cases hfile : F.file with
    | none =>
      obtain ⟨s₁, hfull, hconsole, hfiles⟩ : ∃ s₁, s.writeFile F.file d.dagID definitionYAML = (.ok (), s₁) ∧
          s₁.console = s.console ∧ s₁.files = Function.update s.files d.dagID (some (contents definitionYAML)) := by
        simp only [writeFile, hdir, hfile, if_true]
        exact ⟨_, rfl, rfl, rfl⟩
      rw [hwritten hfull, registerDAG_unchanged_iff hconsole hschedule, hfiles, update_same_iff]
    | some fault =>
      cases fault with
      | unopened =>
        have hkept : s.writeFile F.file d.dagID definitionYAML = (.error .failed, s) := by
          simp only [writeFile, hdir, hfile, if_true]
        rw [hrefused hkept rfl]
        exact iff_of_true rfl trivial
      | cut n =>
        have hcut : s.writeFile F.file d.dagID definitionYAML =
            (.error .failed, { s with files := Function.update s.files d.dagID (some ((contents definitionYAML).take n)) }) := by
          simp only [writeFile, hdir, hfile, if_true]
        rw [hrefused hcut rfl]
        exact update_same_iff

/-- A refused definition leaves everything as it was exactly if the text is not accepted
or what fails is harmless. -/
theorem createDAG_atomic_iff (cfg : Cfg) (F : Faults) (s : Site) (definitionYAML : String) :
    (∀ e s', run cfg F (createDAG cfg definitionYAML) s = some (.error e, s') → Unchanged s s') ↔
      ∀ d, parseDefinition cfg definitionYAML = .ok d → Harmless F s d := by
  cases hparse : parseDefinition cfg definitionYAML with
  | ok d =>
    rw [createDAG_parsed_iff hparse]
    constructor
    · intro h d' hd'
      cases hd'
      exact h
    · exact fun h => h d rfl
  | error e =>
    have hnone : ∀ d, (Except.error e : Except Err DAG) = .ok d → Harmless F s d := by
      intro d hd
      cases hd
    refine iff_of_true (fun e' s' herr => ?_) hnone
    have hrun : run cfg F (createDAG cfg definitionYAML) s = some (.error e, s) := by
      unfold createDAG
      rw [hparse]
      exact run_bind_error rfl
    rw [hrun] at herr
    cases herr
    exact ⟨rfl, fun _ => rfl, rfl, rfl⟩

/-! ### A registration that stops at the edges -/

/-- One accepted text for the DAG `job`. -/
def editedCfg : Cfg := .ofDocuments [("job: b", { dagID := "job", tasks := [{ id := "a", command := "b" }] })]

/-- The DAG is there with another text. -/
def editedSite : Site where
  console := { process := { db := { dags := .single { dagID := "job", definitionYAML := "job: a" } } } }

/-- The edges cannot be replaced. -/
def edgesFail : {β : Type} → CatalogueCmd β → Bool
  | _, .replaceDagDependencies _ _ => true
  | _, _ => false

/-- The call returns an error, and the row carries the text that was refused. -/
theorem createDAG_not_atomic : ¬ ∀ (cfg : Cfg) (F : Faults) (s : Site) (definitionYAML : String) (e : Err) (s' : Site),
    run cfg F (createDAG cfg definitionYAML) s = some (.error e, s') → Unchanged s s' := by
  intro h
  have hrun : (run editedCfg { fails := edgesFail } (createDAG editedCfg "job: b") editedSite).map
      (fun r => (r.1.isOk, (r.2.db.dag? "job").map (·.definitionYAML))) = some (false, some "job: b") := by decide +kernel
  obtain ⟨⟨r, s'⟩, hcreate, hresult⟩ := Option.map_eq_some_iff.mp hrun
  simp only [Prod.mk.injEq] at hresult
  obtain ⟨hfailed, htext⟩ := hresult
  cases r with
  | ok u => cases hfailed
  | error e =>
    have hrow := (h _ _ _ _ e s' hcreate).rows "job"
    rw [hrow] at htext
    exact absurd htext (by decide +kernel)

end Cronova.Properties.Atomicity
