import Cronova.Scheduler.Catalogue

/-! Loading the definition files: at the start of the process, and again while it
runs. The loader works beside the catalogue calls. -/
namespace Cronova.Scheduler
open Cronova.Model Cronova.Store Cronova.Concurrency Cronova.Concurrency.Fallible Cronova.Text

/-- A lookup in the caches, under their mutex. -/
def lookup {β : Type} (x : M β) : CatalogueM β := underMu (ExceptT.mk (x.run.translate .scheduler))

/-- The stored definition is archived. A read that failed finds no archived one. -/
def readArchived : Except Err DagRow → Bool
  | .ok row => row.deleted
  | .error _ => false

def readYAML : Except Err DagRow → Option String
  | .ok row => some row.definitionYAML
  | .error _ => none

/-- One definition file. No failure stops the loader. -/
def loadDAGFile (cfg : Cfg) (skipUnchanged : Bool) (raw : String) : CatalogueM Unit :=
  match parseDefinition cfg raw with
  | .error _ => return
  | .ok d => do
    let existing ← Fallible.outcome (storeOp (.getDAG d.dagID))
    if readArchived existing then pure ()
    else do
      let cached ← if skipUnchanged ∧ readYAML existing = some raw then lookup (cachedDAG d.dagID) else pure none
      if cached.isSome then pure ()
      else do
        let _ ← Fallible.outcome (registerDAG cfg d)
        pure ()

/-- The definition files of the directory, in its order, each with what reading it
gives. -/
abbrev Scan := Except Err (List (Option String))

def loadDAGFiles (cfg : Cfg) (entries : Scan) (skipUnchanged : Bool) : CatalogueM Unit :=
  match entries with
  | .error .notFound => return
  | .error e => throw e
  | .ok files =>
    files.forM (fun file =>
      match file with
      | none => return
      | some raw => loadDAGFile cfg skipUnchanged raw)

def loadDAGs (cfg : Cfg) (entries : Scan) : CatalogueM Unit := loadDAGFiles cfg entries false

def reloadDAGs (cfg : Cfg) (entries : Scan) : CatalogueM Unit := loadDAGFiles cfg entries true

/-! ### The system -/

inductive ReloadKind (cfg : Cfg) where
  | catalogue (k : CatalogueKind cfg)
  | createDAG (definitionYAML : String)
  | loadDAGFiles (entries : Scan) (skipUnchanged : Bool)

variable {cfg : Cfg}

/-- The kind a command is executed for. -/
def ReloadKind.base : ReloadKind cfg → CatalogueKind cfg
  | .catalogue k => k
  | _ => .scheduler .loop

/-- The DAG that an explicit request creates. -/
def ReloadKind.creates : ReloadKind cfg → Option String
  | .catalogue (.buildDAG save) => some save.dagID
  | .createDAG definitionYAML =>
    match parseDefinition cfg definitionYAML with
    | .ok d => some d.dagID
    | .error _ => none
  | _ => none

/-- A definition is registered by the loader or by a request. -/
inductive ReloadStarts (cfg : Cfg) : Nat → ReloadKind cfg → Program CatalogueCmd (Except Err Unit) → Console → Console → Prop where
  | catalogue {t : Nat} {k : CatalogueKind cfg} {p : Program CatalogueCmd (Except Err Unit)} {w w' : Console} :
      CatalogueStarts cfg t k p w w' → (∀ d, k ≠ .registerDAG d) → ReloadStarts cfg t (.catalogue k) p w w'
  | createDAG (t : Nat) (definitionYAML : String) (w : Console) : t ≠ 0 →
      ReloadStarts cfg t (.createDAG definitionYAML) (createDAG cfg definitionYAML).run w w
  | loadDAGFiles (t : Nat) (entries : Scan) (skipUnchanged : Bool) (w : Console) : t ≠ 0 →
      ReloadStarts cfg t (.loadDAGFiles entries skipUnchanged) (loadDAGFiles cfg entries skipUnchanged).run w w

/-- No program changes the store, the cache or the mutex by beginning. -/
theorem ReloadStarts.same {t : Nat} {k : ReloadKind cfg} {p : Program CatalogueCmd (Except Err Unit)} {w w' : Console}
    (h : ReloadStarts cfg t k p w w') :
    w'.process.db = w.process.db ∧ w'.process.dags = w.process.dags ∧ w'.mu = w.mu := by
  cases h with
  | catalogue h _ => exact h.same
  | _ => exact ⟨rfl, rfl, rfl⟩

/-- The scheduler with the catalogue calls and the loader. -/
def reloading (cfg : Cfg) : System (ReloadKind cfg) CatalogueCmd (Except Err Unit) Console where
  sem k t _ c w r w' := ∃ a, w.exec k.base t a c = some (r, w')
  start := ReloadStarts cfg
  drift _ _ := False
  reset w w' := w' = { process := { db := w.process.db } }

end Cronova.Scheduler
