import Cronova.Concurrency.Triples
import Cronova.Parser.Accepted
import Cronova.Scheduler.System
import Cronova.Store.Catalogue

/-! The operations on the catalogue of definitions: registering and saving a
definition, pausing and archiving a DAG. They run beside the scheduler, on the
same store and the same caches. -/
namespace Cronova.Scheduler
open Cronova.Model Cronova.Store Cronova.Concurrency Cronova.Concurrency.Fallible Cronova.Text

/-- The commands of the scheduler, the statements on the catalogue, the definition
files, and what is done under `s.mu`. -/
inductive CatalogueCmd : Type → Type 1 where
  | scheduler {β : Type} (c : Cmd β) : CatalogueCmd β
  | getDAG (dagID : String) : CatalogueCmd (Except Err DagRow)
  | countActiveRuns (dagID : String) : CatalogueCmd (Except Err Nat)
  | getPool (name : String) : CatalogueCmd (Except Err Model.Pool)
  | upsertDAG (d : DAG) : CatalogueCmd (Except Err Unit)
  | setDAGPaused (dagID : String) (paused : Bool) : CatalogueCmd (Except Err Unit)
  | softDeleteDAG (dagID : String) : CatalogueCmd (Except Err Unit)
  | upsertPool (p : Model.Pool) : CatalogueCmd (Except Err Unit)
  | replaceDagDependencies (downstream : String) (upstreams : List String) : CatalogueCmd (Except Err Unit)
  /-- No operation modelled here reads the file back. -/
  | writeFile (dagID definitionYAML : String) : CatalogueCmd (Except Err Unit)
  | lockMu : CatalogueCmd Unit
  | unlockMu : CatalogueCmd Unit
  | updateCache (f : List DAG → List DAG) : CatalogueCmd Unit

abbrev CatalogueM := Fallible Err CatalogueCmd

def storeOp {β : Type} (c : CatalogueCmd (Except Err β)) : CatalogueM β := ExceptT.mk (Program.call c)

/-- Hold `s.mu` around the body. -/
def underMu {β : Type} (body : CatalogueM β) : CatalogueM β := Fallible.around .lockMu (fun _ => .unlockMu) body

def updateCache (f : List DAG → List DAG) : CatalogueM Unit := ExceptT.lift (Program.call (.updateCache f))

/-- Provide the pools that are named and not there yet. -/
def ensurePools : (tasks : List Task) → (seen : List String) → CatalogueM Unit
  | [], _ => return
  | t :: tasks, seen => do
    if t.pool = "" ∨ t.pool ∈ seen then ensurePools tasks seen
    else
      match ← Fallible.outcome (storeOp (.getPool t.pool)) with
      | .ok _ => ensurePools tasks (t.pool :: seen)
      | .error .notFound => do
        storeOp (.upsertPool ⟨t.pool, defaultPoolSlots⟩)
        ensurePools tasks (t.pool :: seen)
      | .error e => throw e

/-- The cache with the definition in its place. -/
def publish (d : DAG) (dags : List DAG) : List DAG := d :: dags.filter (fun old => old.dagID ≠ d.dagID)

/-- Store and publish a parsed definition. The pause flag is read back under the
lock; when it cannot be read, the flag of the parsed definition stays. -/
def registerDAG (cfg : Cfg) (d : DAG) : CatalogueM Unit := do
  storeOp (.upsertDAG d)
  ensurePools d.tasks []
  storeOp (.replaceDagDependencies d.dagID d.triggerAfter)
  if d.schedule ≠ "" then
    let _ ← Fallible.ofExcept ((Parser.parseScheduleIn cfg.parser d.schedule d.timezone).mapError (fun _ => .badDefinition))
  underMu do
    match ← Fallible.outcome (storeOp (.getDAG d.dagID)) with
    | .ok row => updateCache (publish { d with paused := row.paused })
    | .error _ => updateCache (publish d)

/-- Validate a definition, write its file and register it. -/
def createDAG (cfg : Cfg) (definitionYAML : String) : CatalogueM Unit := do
  let d ← Fallible.ofExcept (parseDefinition cfg definitionYAML)
  storeOp (.writeFile d.dagID definitionYAML)
  registerDAG cfg d

/-- A definition carries its text, and is not paused. -/
theorem parseDefinition_source {cfg : Cfg} {definitionYAML : String} {d : DAG} (h : parseDefinition cfg definitionYAML = .ok d) :
    d.definitionYAML = definitionYAML ∧ d.paused = false := by
  unfold parseDefinition at h
  cases hparse : Parser.parse cfg.parser definitionYAML with
  | error e =>
    rw [hparse] at h
    cases h
  | ok parsed =>
    rw [hparse] at h
    cases h
    exact Parser.parse_source hparse

def deleteDAG (dagID : String) : CatalogueM Unit := do
  let active ← storeOp (.countActiveRuns dagID)
  if 0 < active then throw .activeRuns
  storeOp (.softDeleteDAG dagID)
  underMu (updateCache (fun dags => dags.filter (fun d => d.dagID ≠ dagID)))

def setPaused (dagID : String) (paused : Bool) : CatalogueM Unit := do
  storeOp (.setDAGPaused dagID paused)
  underMu (updateCache (fun dags => dags.map (fun d => if d.dagID = dagID then { d with paused := paused } else d)))

/-- A save from the editor: the rendered definition names the DAG it is for. -/
structure Save (cfg : Cfg) where
  dagID : String
  definitionYAML : String
  expectedHash : String
  names : ∀ d, parseDefinition cfg definitionYAML = .ok d → d.dagID = dagID

/-- Save a definition, unless the caller has seen another one than the stored. An
archived row counts as new. -/
def buildDAG (cfg : Cfg) (save : Save cfg) : CatalogueM Unit := do
  match ← Fallible.outcome (storeOp (.getDAG save.dagID)) with
  | .ok row =>
    if save.expectedHash ≠ "" ∧ row.deleted = false ∧ cfg.definitionHash row.definitionYAML ≠ save.expectedHash then
      throw .dagConflict
    createDAG cfg save.definitionYAML
  | .error .notFound => createDAG cfg save.definitionYAML
  | .error e => throw e

/-! ### The system -/

/-- The process with its cache mutex. -/
structure Console where
  process : World := {}
  /-- The thread that holds `s.mu`. -/
  mu : Option Nat := none

/-- What a statement makes of a row. -/
def CatalogueCmd.onRow : {β : Type} → CatalogueCmd β → DagRow → DagRow
  | _, .upsertDAG d, row => if row.dagID = d.dagID then { row with definitionYAML := d.definitionYAML, deleted := false } else row
  | _, .setDAGPaused dagID paused, row => if row.dagID = dagID then { row with paused := paused } else row
  | _, .softDeleteDAG dagID, row => if row.dagID = dagID then { row with deleted := true } else row
  | _, _, row => row

inductive CatalogueKind (cfg : Cfg) where
  | scheduler (k : Kind)
  | deleteDAG (dagID : String)
  | setPaused (dagID : String) (paused : Bool)
  | registerDAG (d : DAG)
  | buildDAG (save : Save cfg)

variable {cfg : Cfg}

/-- The kind a scheduler command is executed for. -/
def CatalogueKind.base : CatalogueKind cfg → Kind
  | .scheduler k => k
  | _ => .loop

namespace Console

def withDb (w : Console) (db : Db) : Console := { w with process := { w.process with db := db } }

/-- A statement and its result. -/
def statement (w : Console) (a : Answer) {β : Type} (r : Except Err β × Db) : Except Err β × Console :=
  if a = .fault then (.error .failed, w) else (r.1, w.withDb r.2)

theorem statement_cases {w w' : Console} {a : Answer} {β : Type} {x : Except Err β × Db} {r : Except Err β}
    (h : some (w.statement a x) = some (r, w')) : (r = .error .failed ∧ w' = w) ∨ (r = x.1 ∧ w' = w.withDb x.2) := by
  unfold statement at h
  split at h
  · cases h
    exact .inl ⟨rfl, rfl⟩
  · cases h
    exact .inr ⟨rfl, rfl⟩

/-- Execute one command for thread `t`. No result means that it is blocked. -/
def exec (w : Console) (k : CatalogueKind cfg) (t : Nat) (a : Answer) : {β : Type} → CatalogueCmd β → Option (β × Console)
  | _, .scheduler c => (w.process.exec k.base t a c).map (fun p => (p.1, { w with process := p.2 }))
  | _, .getDAG dagID => some (w.statement a (w.process.db.getDAG dagID, w.process.db))
  | _, .countActiveRuns dagID => some (w.statement a (.ok (w.process.db.countActiveRuns dagID), w.process.db))
  | _, .getPool name => some (w.statement a (w.process.db.getPool name, w.process.db))
  | _, .upsertDAG d => some (w.statement a (w.process.db.upsertDAG d))
  | _, .setDAGPaused dagID paused => some (w.statement a (w.process.db.setDAGPaused dagID paused))
  | _, .softDeleteDAG dagID => some (w.statement a (w.process.db.softDeleteDAG dagID))
  | _, .upsertPool p => some (w.statement a (w.process.db.upsertPool p))
  | _, .replaceDagDependencies down ups => some (w.statement a (w.process.db.replaceDagDependencies down ups))
  | _, .writeFile _ _ => some (w.statement a (.ok (), w.process.db))
  | _, .lockMu => if w.mu = none then some ((), { w with mu := some t }) else none
  | _, .unlockMu => some ((), { w with mu := none })
  | _, .updateCache f => some ((), { w with process := { w.process with dags := f w.process.dags } })

/-- A command leaves the row of a DAG, or makes of it what its statement says. -/
theorem exec_dag? {w w' : Console} {k : CatalogueKind cfg} {t : Nat} {a : Answer} {β : Type} {c : CatalogueCmd β} {r : β}
    (h : w.exec k t a c = some (r, w')) {dagID : String} {row : DagRow} (hrow : w.process.db.dag? dagID = some row) :
    w'.process.db.dag? dagID = some row ∨ w'.process.db.dag? dagID = some (c.onRow row) := by
  have hid := (Db.dag?_spec hrow).2
  have hsame : w'.process.db.dag? dagID = w.process.db.dag? dagID → w'.process.db.dag? dagID = some row ∨
      w'.process.db.dag? dagID = some (c.onRow row) := fun hdb => .inl (hdb.trans hrow)
  have hstatement : ∀ {γ : Type} {x : Except Err γ × Db} {r : Except Err γ}, some (w.statement a x) = some (r, w') →
      x.2.dag? dagID = some (c.onRow row) →
      w'.process.db.dag? dagID = some row ∨ w'.process.db.dag? dagID = some (c.onRow row) := by
    intro γ x r hx hdb
    rcases statement_cases hx with ⟨-, hw⟩ | ⟨-, hw⟩
    · exact hsame (by rw [hw])
    · exact .inr (by rw [hw]; exact hdb)
  cases c with
  | scheduler c =>
    obtain ⟨⟨x, process⟩, hprocess, heq⟩ := Option.map_eq_some_iff.mp h
    simp only [Prod.mk.injEq] at heq
    obtain ⟨-, hworld⟩ := heq
    have heffect := World.exec_effect hprocess
    refine hsame ?_
    rw [← hworld]
    cases c with
    | write st =>
      rcases heffect with ⟨hw, -⟩ | ⟨hw, -⟩ <;> rw [hw]
      exact Db.apply_dag? st dagID
    | _ => rw [heffect.db rfl]
  | upsertDAG d =>
    refine hstatement h ?_
    by_cases hd : dagID = d.dagID
    · subst hd
      rw [Db.upsertDAG_some hrow, CatalogueCmd.onRow, if_pos hid]
    · rw [Db.upsertDAG_ne hd, CatalogueCmd.onRow, if_neg (by rw [hid]; exact hd), hrow]
  | setDAGPaused id paused =>
    refine hstatement h ?_
    by_cases hd : dagID = id
    · subst hd
      rw [Db.setDAGPaused_self hrow, CatalogueCmd.onRow, if_pos hid]
    · rw [Db.setDAGPaused_ne hd, CatalogueCmd.onRow, if_neg (by rw [hid]; exact hd), hrow]
  | softDeleteDAG id =>
    refine hstatement h ?_
    by_cases hd : dagID = id
    · subst hd
      rw [Db.softDeleteDAG_self hrow, CatalogueCmd.onRow, if_pos hid]
    · rw [Db.softDeleteDAG_ne hd, CatalogueCmd.onRow, if_neg (by rw [hid]; exact hd), hrow]
  | upsertPool p => exact hstatement h ((Db.upsertPool_dag? p dagID).trans hrow)
  | getDAG | countActiveRuns | getPool | replaceDagDependencies | writeFile => exact hstatement h hrow
  | lockMu =>
    simp only [exec] at h
    split at h
    · exact hsame (congrArg (fun p => p.2.process.db.dag? dagID) (Option.some.inj h)).symm
    · cases h
  | unlockMu | updateCache => exact hsame (congrArg (fun p => p.2.process.db.dag? dagID) (Option.some.inj h)).symm

end Console

/-- Which programs may begin: those of the scheduler, and the catalogue calls on any
thread but the loop's. The parser leaves a definition unpaused. -/
inductive CatalogueStarts (cfg : Cfg) : Nat → CatalogueKind cfg → Program CatalogueCmd (Except Err Unit) → Console → Console → Prop where
  | scheduler {t : Nat} {k : Kind} {p : Program Cmd (Except Err Unit)} {w : Console} {process : World} :
      Starts cfg t k p w.process process →
      CatalogueStarts cfg t (.scheduler k) (p.translate .scheduler) w { w with process := process }
  | deleteDAG (t : Nat) (dagID : String) (w : Console) : t ≠ 0 →
      CatalogueStarts cfg t (.deleteDAG dagID) (deleteDAG dagID).run w w
  | setPaused (t : Nat) (dagID : String) (paused : Bool) (w : Console) : t ≠ 0 →
      CatalogueStarts cfg t (.setPaused dagID paused) (setPaused dagID paused).run w w
  | registerDAG (t : Nat) (d : DAG) (w : Console) : t ≠ 0 → d.paused = false →
      CatalogueStarts cfg t (.registerDAG d) (registerDAG cfg d).run w w
  | buildDAG (t : Nat) (save : Save cfg) (w : Console) : t ≠ 0 →
      CatalogueStarts cfg t (.buildDAG save) (buildDAG cfg save).run w w

/-- No program changes the store, the cache or the mutex by beginning. -/
theorem CatalogueStarts.same {t : Nat} {k : CatalogueKind cfg} {p : Program CatalogueCmd (Except Err Unit)} {w w' : Console}
    (h : CatalogueStarts cfg t k p w w') :
    w'.process.db = w.process.db ∧ w'.process.dags = w.process.dags ∧ w'.mu = w.mu := by
  cases h with
  | scheduler h => cases h <;> exact ⟨rfl, rfl, rfl⟩
  | _ => exact ⟨rfl, rfl, rfl⟩

/-- The scheduler with the catalogue calls. After a crash the definitions have to be
registered again. -/
def console (cfg : Cfg) : System (CatalogueKind cfg) CatalogueCmd (Except Err Unit) Console where
  sem k t _ c w r w' := ∃ a, w.exec k t a c = some (r, w')
  start := CatalogueStarts cfg
  drift _ _ := False
  reset w w' := w' = { process := { db := w.process.db } }

/-! ### Which commands the calls issue -/

section Commands
variable {allowed : {β : Type} → CatalogueCmd β → Prop}

/-- The commands of a registration or a save. -/
def saving : {β : Type} → CatalogueCmd β → Prop
  | _, .scheduler _ | _, .countActiveRuns _ | _, .setDAGPaused _ _ | _, .softDeleteDAG _ => False
  | _, _ => True

theorem ensurePools_uses (hget : ∀ name, allowed (.getPool name)) (hput : ∀ p, allowed (.upsertPool p)) (tasks : List Task)
    (seen : List String) : (ensurePools tasks seen).Uses allowed := by
  induction tasks generalizing seen with
  | nil => exact .pure _
  | cons t tasks ih =>
    unfold ensurePools
    split
    · exact ih _
    · refine .bind (.outcome (.call (hget _))) ?_
      intro result
      split
      · exact ih _
      · exact .bind (.call (hput _)) (fun _ => ih _)
      · exact .throw _

/-- The commands of a registration after it has stored the row. -/
def publishing : {β : Type} → CatalogueCmd β → Prop
  | _, .getPool _ | _, .upsertPool _ | _, .replaceDagDependencies _ _ | _, .getDAG _ => True
  | _, .lockMu | _, .unlockMu | _, .updateCache _ => True
  | _, _ => False

theorem registerDAG_rest {d : DAG} {next : Except Err Unit → Program CatalogueCmd (Except Err Unit)}
    (h : (registerDAG cfg d).run = .step (.upsertDAG d) next) (r : Except Err Unit) : (next r).Uses publishing := by
  have hpublish : Uses publishing (underMu (do
      match ← Fallible.outcome (storeOp (.getDAG d.dagID)) with
      | .ok row => updateCache (publish { d with paused := row.paused })
      | .error _ => updateCache (publish d))) := by
    refine .around trivial (fun _ => trivial) (.bind (.outcome (.call trivial)) ?_)
    intro result
    split <;> exact .lift trivial
  cases h
  cases r with
  | error e => trivial
  | ok u =>
    refine Uses.bind (ensurePools_uses (fun _ => trivial) (fun _ => trivial) _ _) (fun _ => .bind (.call trivial) (fun _ => ?_))
    split
    · exact .bind (.ofExcept _) (fun _ => hpublish)
    · exact hpublish

theorem publishing.saving {β : Type} {c : CatalogueCmd β} (h : publishing c) : saving c := by
  cases c with
  | scheduler | countActiveRuns | setDAGPaused | softDeleteDAG => exact h.elim
  | _ => trivial

theorem registerDAG_uses (d : DAG) : (registerDAG cfg d).Uses saving :=
  ⟨trivial, fun r => (registerDAG_rest rfl r).mono (fun _ h => h.saving)⟩

theorem createDAG_uses (definitionYAML : String) : (createDAG cfg definitionYAML).Uses saving :=
  .bind (.ofExcept _) (fun d => .bind (.call trivial) (fun _ => registerDAG_uses d))

theorem buildDAG_uses (save : Save cfg) : (buildDAG cfg save).Uses saving := by
  refine .bind (.outcome (.call trivial)) ?_
  intro result
  split
  · split
    · exact .throw _
    · exact createDAG_uses _
  · exact createDAG_uses _
  · exact .throw _

end Commands

/-! ### Concrete runs -/

/-- One move of a concrete run: a command of a thread, or a call. -/
inductive CatalogueMove (cfg : Cfg) where
  | act (t : Nat) (a : Answer)
  | call (t : Nat) (c : Call)
  | deleteDAG (t : Nat) (dagID : String)
  | setPaused (t : Nat) (dagID : String) (paused : Bool)
  | registerDAG (t : Nat) (d : DAG)
  | buildDAG (t : Nat) (save : Save cfg)

def CatalogueMove.thread : CatalogueMove cfg → Nat
  | act t _ | call t _ | deleteDAG t _ | setPaused t _ _ | registerDAG t _ | buildDAG t _ => t

/-- The console with a record of its run. -/
abbrev Recorded (cfg : Cfg) (H : Type) := Config (CatalogueKind cfg) CatalogueCmd (Except Err Unit) (Console × H)

namespace Recorded
variable {H : Type} (note : CatalogueKind cfg → Nat → {β : Type} → CatalogueCmd β → β → H → H)
  (ok : CatalogueKind cfg → Nat → {β : Type} → CatalogueCmd β → Console × H → β → Bool)

/-- Begin a program on a free thread. -/
def begins (c : Recorded cfg H) (t : Nat) (k : CatalogueKind cfg) (p : Program CatalogueCmd (Except Err Unit)) :
    Option (Recorded cfg H) :=
  match c.threads t with
  | some (_, .step _ _) => none
  | _ => if t = 0 then none else some ⟨c.world, Function.update c.threads t (some (k, p))⟩

/-- The state after a move; `ok` accepts the answers. -/
def turn (c : Recorded cfg H) : CatalogueMove cfg → Option (Recorded cfg H)
  | .act t a =>
    match c.threads t with
    | some (k, .step cmd next) =>
      match c.world.1.exec k t a cmd with
      | some (r, w) =>
        if ok k t cmd c.world r then some ⟨(w, note k t cmd r c.world.2), Function.update c.threads t (some (k, next r))⟩ else none
      | none => none
    | _ => none
  | .call t call => c.begins t (.scheduler (.call call)) ((call.body cfg).run.translate .scheduler)
  | .deleteDAG t dagID => c.begins t (.deleteDAG dagID) (Scheduler.deleteDAG dagID).run
  | .setPaused t dagID paused => c.begins t (.setPaused dagID paused) (Scheduler.setPaused dagID paused).run
  | .registerDAG t d => if d.paused then none else c.begins t (.registerDAG d) (Scheduler.registerDAG cfg d).run
  | .buildDAG t save => c.begins t (.buildDAG save) (Scheduler.buildDAG cfg save).run

def turns (c : Recorded cfg H) : List (CatalogueMove cfg) → Option (Recorded cfg H)
  | [] => some c
  | m :: ms => (c.turn note ok m).bind (fun c' => turns c' ms)

variable {note ok} {blank : H} {cond : CatalogueKind cfg → Nat → {β : Type} → CatalogueCmd β → Console × H → β → Prop}

private theorem begins_step {c c' : Recorded cfg H} {t : Nat} {k : CatalogueKind cfg} {p : Program CatalogueCmd (Except Err Unit)}
    (hstart : t ≠ 0 → CatalogueStarts cfg t k p c.world.1 c.world.1) (h : c.begins t k p = some c') :
    (((console cfg).record note blank).answering cond).Step c (.start t k) c' := by
  unfold begins at h
  split at h
  · cases h
  · rename_i hfree
    split at h
    · cases h
    · rename_i ht
      cases h
      refine .start ?_ ⟨hstart ht, rfl⟩
      cases hth : c.threads t with
      | none => trivial
      | some entry =>
        obtain ⟨k', prog⟩ := entry
        cases prog with
        | pure a => trivial
        | step cmd next => exact absurd hth (hfree k' _ cmd next)

private theorem turn_step (hok : ∀ k t {β : Type} (cmd : CatalogueCmd β) s r, ok k t cmd s r = true → cond k t cmd s r)
    {c c' : Recorded cfg H} {m : CatalogueMove cfg} (h : c.turn note ok m = some c') :
    ∃ l, (((console cfg).record note blank).answering cond).Step c l c' := by
  cases m with
  | act t a =>
    simp only [turn] at h
    split at h
    · rename_i k β cmd next hthread
      split at h
      · rename_i r w hexec
        split at h
        · rename_i hallowed
          cases h
          exact ⟨_, .act hthread ⟨hok k t cmd _ r hallowed, ⟨a, hexec⟩, rfl⟩⟩
        · cases h
      · cases h
    · cases h
  | call t call => exact ⟨_, begins_step (fun ht => .scheduler (.call t call _ ht)) h⟩
  | deleteDAG t dagID => exact ⟨_, begins_step (fun ht => .deleteDAG t dagID _ ht) h⟩
  | setPaused t dagID paused => exact ⟨_, begins_step (fun ht => .setPaused t dagID paused _ ht) h⟩
  | registerDAG t d =>
    simp only [turn] at h
    split at h
    · cases h
    · rename_i hpaused
      exact ⟨_, begins_step (fun ht => .registerDAG t d _ ht (by simpa using hpaused)) h⟩
  | buildDAG t save => exact ⟨_, begins_step (fun ht => .buildDAG t save _ ht) h⟩

/-- A concrete run is a run of the recorded console. -/
theorem turns_runs (hok : ∀ k t {β : Type} (cmd : CatalogueCmd β) s r, ok k t cmd s r = true → cond k t cmd s r)
    {c c' : Recorded cfg H} {ms : List (CatalogueMove cfg)} (h : c.turns note ok ms = some c') :
    (((console cfg).record note blank).answering cond).Runs c c' := by
  induction ms generalizing c with
  | nil =>
    cases h
    exact .refl
  | cons m ms ih =>
    obtain ⟨mid, hmid, hrest⟩ := Option.bind_eq_some_iff.mp h
    obtain ⟨l, hl⟩ := turn_step hok hmid
    exact Relation.ReflTransGen.head ⟨l, hl, trivial⟩ (ih hrest)

private theorem begins_other {c c' : Recorded cfg H} {t t' : Nat} {k : CatalogueKind cfg}
    {p : Program CatalogueCmd (Except Err Unit)} (h : c.begins t k p = some c') (hne : t' ≠ t) : c'.threads t' = c.threads t' := by
  unfold begins at h
  split at h
  · cases h
  · split at h
    · cases h
    · cases h
      exact Function.update_of_ne hne _ _

private theorem turn_other {c c' : Recorded cfg H} {m : CatalogueMove cfg} {t' : Nat} (h : c.turn note ok m = some c')
    (hne : t' ≠ m.thread) : c'.threads t' = c.threads t' := by
  cases m with
  | act t a =>
    simp only [turn] at h
    split at h
    · split at h
      · split at h
        · cases h
          exact Function.update_of_ne hne _ _
        · cases h
      · cases h
    · cases h
  | registerDAG t d =>
    simp only [turn] at h
    split at h
    · cases h
    · exact begins_other h hne
  | _ => exact begins_other h hne

/-- A concrete run leaves the threads alone that it does not name. -/
theorem turns_other {c c' : Recorded cfg H} {ms : List (CatalogueMove cfg)} {t : Nat} (h : c.turns note ok ms = some c')
    (hne : ∀ m ∈ ms, t ≠ m.thread) : c'.threads t = c.threads t := by
  induction ms generalizing c with
  | nil =>
    cases h
    rfl
  | cons m ms ih =>
    obtain ⟨mid, hmid, hrest⟩ := Option.bind_eq_some_iff.mp h
    exact (ih hrest (fun m' hm' => hne m' (by simp [hm']))).trans (turn_other hmid (hne m (by simp)))

/-- The thread has nothing left to do. -/
def finished (c : Recorded cfg H) (t : Nat) : Bool :=
  match c.threads t with
  | some (_, .step _ _) => false
  | _ => true

theorem finished_idle {c : Recorded cfg H} {t : Nat} (h : c.finished t = true) : Idle (c.threads t) := by
  unfold finished at h
  split at h
  · cases h
  · rename_i hfree
    cases hth : c.threads t with
    | none => trivial
    | some entry =>
      obtain ⟨k, prog⟩ := entry
      cases prog with
      | pure a => trivial
      | step cmd next => exact absurd hth (hfree k _ cmd next)

end Recorded

end Cronova.Scheduler
