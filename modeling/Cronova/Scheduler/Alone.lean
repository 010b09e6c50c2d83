import Cronova.Parser.Canonical
import Cronova.Scheduler.Reload

/-! The calls on the catalogue run alone, one after the other, on a process with its
definition directory. A file operation or a statement can fail on the way. -/
namespace Cronova.Scheduler
open Cronova.Model Cronova.Store Cronova.Concurrency Cronova.Concurrency.Fallible

/-- A recorded version of a definition. -/
structure DagVersion where
  dagID : String
  hash : String
  yaml : String
  deriving DecidableEq, Repr

/-- A process, its definition directory and the history of its definitions. -/
structure Site where
  console : Console := {}
  /-- The process has a definition directory. -/
  dagDir : Bool := true
  /-- The contents of the file of a DAG. -/
  files : String → Option (List UInt8) := fun _ => none
  /-- The newest version comes first. -/
  versions : List DagVersion := []
  /-- The registrations that were stored, the latest first. -/
  registered : List DAG := []

/-- How writing a definition file fails: before the file is open, or after some bytes.
Opening the file empties it. -/
inductive FileFault where
  | unopened
  | cut (n : Nat)
  deriving DecidableEq, Repr

/-- The operations that fail. A statement that fails has no effect. -/
structure Faults where
  file : Option FileFault := none
  version : Bool := false
  fails : {β : Type} → CatalogueCmd β → Bool := fun _ => false

/-- The bytes of a definition text. -/
def contents (definitionYAML : String) : List UInt8 := definitionYAML.toUTF8.toList

namespace Site
variable (s : Site)

def db : Db := s.console.process.db

def withDb (db : Db) : Site := { s with console := s.console.withDb db }

def withMu (mu : Option Nat) : Site := { s with console := { s.console with mu := mu } }

def withDags (dags : List DAG) : Site :=
  { s with console := { s.console with process := { s.console.process with dags := dags } } }

def cached (dagID : String) : Option DAG := s.console.process.dags.find? (fun d => d.dagID = dagID)

/-- Write the file of a DAG. A process without a definition directory writes none. -/
def writeFile (fault : Option FileFault) (dagID definitionYAML : String) : Except Err Unit × Site :=
  if s.dagDir then
    match fault with
    | none => (.ok (), { s with files := Function.update s.files dagID (some (contents definitionYAML)) })
    | some .unopened => (.error .failed, s)
    | some (.cut n) => (.error .failed, { s with files := Function.update s.files dagID (some ((contents definitionYAML).take n)) })
  else (.ok (), s)

/-- Record a definition unless its hash is that of the latest version. -/
def appendDagVersion (dagID hash yaml : String) : Site :=
  let last := ((s.versions.find? (fun v => v.dagID = dagID)).map (·.hash)).getD ""
  if last = hash then s else { s with versions := ⟨dagID, hash, yaml⟩ :: s.versions }

/-- Store a definition and record its version. Nobody hears of a version that was not
recorded. -/
def upsertDAG (cfg : Cfg) (F : Faults) (d : DAG) : Except Err Unit × Site :=
  if F.fails (.upsertDAG d) then (.error .failed, s)
  else
    let stored := { s.withDb (s.db.upsertDAG d).2 with registered := d :: s.registered }
    ((s.db.upsertDAG d).1,
      if F.version = true ∨ d.definitionYAML = "" then stored
      else stored.appendDagVersion d.dagID (cfg.definitionHash d.definitionYAML) d.definitionYAML)

/-- Execute one command. No result means that it is blocked. -/
def exec (cfg : Cfg) (F : Faults) (s : Site) : {β : Type} → CatalogueCmd β → Option (β × Site)
  | _, .writeFile dagID definitionYAML => some (s.writeFile F.file dagID definitionYAML)
  | _, .upsertDAG d => some (s.upsertDAG cfg F d)
  | _, c =>
    (s.console.exec (.scheduler .loop : CatalogueKind cfg) 0 (if F.fails c then .fault else .fine) c).map
      (fun p => (p.1, { s with console := p.2 }))

def perform (cfg : Cfg) (F : Faults) {α : Type} : Program CatalogueCmd α → Site → Option (α × Site)
  | .pure a, s => some (a, s)
  | .step c next, s =>
    match s.exec cfg F c with
    | none => none
    | some (r, s') => perform cfg F (next r) s'

/-- The outcome of a call and what it leaves. -/
def run (cfg : Cfg) (F : Faults) {α : Type} (x : CatalogueM α) (s : Site) : Option (Except Err α × Site) := perform cfg F x.run s

variable {s}

@[simp] theorem db_withDb (db : Db) : (s.withDb db).db = db := rfl
@[simp] theorem db_withMu (mu : Option Nat) : (s.withMu mu).db = s.db := rfl
@[simp] theorem db_withDags (dags : List DAG) : (s.withDags dags).db = s.db := rfl
@[simp] theorem cached_withDb (db : Db) : (s.withDb db).cached = s.cached := rfl
@[simp] theorem cached_withMu (mu : Option Nat) : (s.withMu mu).cached = s.cached := rfl

section Append
variable {dagID hash yaml : String}

@[simp] theorem appendDagVersion_console : (s.appendDagVersion dagID hash yaml).console = s.console := by
  simp only [appendDagVersion]
  split <;> rfl

@[simp] theorem appendDagVersion_files : (s.appendDagVersion dagID hash yaml).files = s.files := by
  simp only [appendDagVersion]
  split <;> rfl

@[simp] theorem appendDagVersion_registered : (s.appendDagVersion dagID hash yaml).registered = s.registered := by
  simp only [appendDagVersion]
  split <;> rfl

end Append

/-! ### Sequences -/

section Sequences
variable {cfg : Cfg} {F : Faults} {α β : Type} {s' : Site}

theorem perform_bind (p : Program CatalogueCmd α) (f : α → Program CatalogueCmd β) :
    perform cfg F (p >>= f) s = (perform cfg F p s).bind (fun r => perform cfg F (f r.1) r.2) := by
  induction p generalizing s with
  | pure a => rfl
  | step c next ih =>
    rw [Program.step_bind]
    simp only [perform]
    cases s.exec cfg F c with
    | none => rfl
    | some r => exact ih r.1

@[simp] theorem run_pure (a : α) : run cfg F (pure a : CatalogueM α) s = some (.ok a, s) := rfl

@[simp] theorem run_throw (e : Err) : run cfg F (throw e : CatalogueM α) s = some (.error e, s) := rfl

@[simp] theorem run_ofExcept (r : Except Err α) : run cfg F (Fallible.ofExcept r) s = some (r, s) := rfl

theorem run_bind_ok {x : CatalogueM α} {f : α → CatalogueM β} {a : α} (h : run cfg F x s = some (.ok a, s')) :
    run cfg F (x >>= f) s = run cfg F (f a) s' := by
  have hbind : perform cfg F (x.run >>= ExceptT.bindCont f) s = _ := perform_bind _ _
  rw [show perform cfg F x.run s = some (.ok a, s') from h] at hbind
  exact hbind

theorem run_bind_error {x : CatalogueM α} {f : α → CatalogueM β} {e : Err} (h : run cfg F x s = some (.error e, s')) :
    run cfg F (x >>= f) s = some (.error e, s') := by
  have hbind : perform cfg F (x.run >>= ExceptT.bindCont f) s = _ := perform_bind _ _
  rw [show perform cfg F x.run s = some (.error e, s') from h] at hbind
  exact hbind

theorem run_storeOp (c : CatalogueCmd (Except Err β)) : run cfg F (storeOp c) s = s.exec cfg F c := by
  unfold run storeOp
  rw [ExceptT.run_mk]
  simp only [Program.call, perform]
  cases s.exec cfg F c <;> rfl

theorem run_outcome {x : CatalogueM α} {r : Except Err α} (h : run cfg F x s = some (r, s')) :
    run cfg F (Fallible.outcome x) s = some (.ok r, s') := by
  have hbind : perform cfg F (x.run >>= fun r => Program.pure (Except.ok r : Except Err (Except Err α))) s = _ := perform_bind _ _
  rw [show perform cfg F x.run s = some (r, s') from h] at hbind
  exact hbind

/-- The mutex is free before and after. -/
theorem run_underMu {body : CatalogueM α} {r : Except Err α} (hfree : s.console.mu = none)
    (h : run cfg F body (s.withMu (some 0)) = some (r, s')) : run cfg F (underMu body) s = some (r, s'.withMu none) := by
  have hlock : s.exec cfg F .lockMu = some ((), s.withMu (some 0)) := by
    simp only [exec, Console.exec, if_pos hfree]
    rfl
  have hbind : perform cfg F (body.run >>= fun r => Program.step .unlockMu (fun _ => .pure r)) (s.withMu (some 0)) = _ :=
    perform_bind _ _
  rw [show perform cfg F body.run (s.withMu (some 0)) = some (r, s') from h] at hbind
  simp only [run, underMu, Fallible.around, ExceptT.run_mk, perform, hlock]
  exact hbind

/-- A mutex that is not free blocks. -/
theorem run_underMu_blocked {body : CatalogueM α} (hheld : s.console.mu ≠ none) : run cfg F (underMu body) s = none := by
  have hlock : s.exec cfg F .lockMu = none := by
    simp only [exec, Console.exec, if_neg hheld]
    rfl
  simp only [run, underMu, Fallible.around, ExceptT.run_mk, perform, hlock]

@[simp] theorem run_updateCache (f : List DAG → List DAG) :
    run cfg F (Scheduler.updateCache f) s = some (.ok (), s.withDags (f s.console.process.dags)) := rfl

theorem run_getDAG (dagID : String) : run cfg F (storeOp (.getDAG dagID)) s =
    some (if F.fails (.getDAG dagID) then .error .failed else s.db.getDAG dagID, s) := by
  rw [run_storeOp]
  simp only [exec, Console.exec, Console.statement]
  split <;> rfl

theorem run_getPool (name : String) : run cfg F (storeOp (.getPool name)) s =
    some (if F.fails (.getPool name) then .error .failed else s.db.getPool name, s) := by
  rw [run_storeOp]
  simp only [exec, Console.exec, Console.statement]
  split <;> rfl

theorem run_upsertPool (p : Model.Pool) : run cfg F (storeOp (.upsertPool p)) s =
    some (if F.fails (.upsertPool p) then (.error .failed, s) else ((s.db.upsertPool p).1, s.withDb (s.db.upsertPool p).2)) := by
  rw [run_storeOp]
  simp only [exec, Console.exec, Console.statement]
  split <;> rfl

theorem run_replaceDagDependencies (downstream : String) (upstreams : List String) :
    run cfg F (storeOp (.replaceDagDependencies downstream upstreams)) s =
      some (if F.fails (.replaceDagDependencies downstream upstreams) then (.error .failed, s)
        else ((s.db.replaceDagDependencies downstream upstreams).1, s.withDb (s.db.replaceDagDependencies downstream upstreams).2)) := by
  rw [run_storeOp]
  simp only [exec, Console.exec, Console.statement]
  split <;> rfl

/-! ### Registration -/

/-- Providing a pool fails. -/
def PoolBreaks (F : Faults) (s : Site) (name : String) : Prop :=
  F.fails (.getPool name) = true ∨
    s.db.getPool name = .error .notFound ∧ F.fails (.upsertPool ⟨name, defaultPoolSlots⟩) = true

/-- At most the pools are others. -/
def Provided (s s' : Site) : Prop := ∃ pools, s' = s.withDb { s.db with pools := pools }

theorem Provided.refl (s : Site) : Provided s s := ⟨s.db.pools, rfl⟩

theorem Provided.trans {s'' : Site} (h : Provided s s') (h' : Provided s' s'') : Provided s s'' := by
  obtain ⟨pools, rfl⟩ := h
  obtain ⟨pools', rfl⟩ := h'
  exact ⟨pools', rfl⟩

variable (cfg) in
/-- The pools of the tasks are provided one after the other, unless one breaks. -/
theorem run_ensurePools (tasks : List Task) (seen : List String) : ∃ r s', run cfg F (ensurePools tasks seen) s = some (r, s') ∧
    Provided s s' ∧ (r = .ok () ↔ ∀ t ∈ tasks, t.pool ≠ "" → t.pool ∉ seen → ¬ PoolBreaks F s t.pool) := by
  induction tasks generalizing s seen with
  | nil => exact ⟨_, _, rfl, .refl s, by simp⟩
  | cons t tasks ih =>
    unfold ensurePools
    by_cases hskip : t.pool = "" ∨ t.pool ∈ seen
    · obtain ⟨r, s', hrun, hprovided, hok⟩ := ih (s := s) seen
      rw [if_pos hskip]
      refine ⟨r, s', hrun, hprovided, hok.trans ?_⟩
      rw [List.forall_mem_cons]
      refine (and_iff_right ?_).symm
      intro hne hnew
      exact absurd hskip (not_or.mpr ⟨hne, hnew⟩)
    · obtain ⟨hne, hnew⟩ := not_or.mp hskip
      have hrest : ∀ {s₁ : Site}, (∀ name, name ≠ t.pool → s₁.db.getPool name = s.db.getPool name) →
          ((∀ u ∈ tasks, u.pool ≠ "" → u.pool ∉ t.pool :: seen → ¬ PoolBreaks F s₁ u.pool) ↔
            ∀ u ∈ tasks, u.pool ≠ "" → u.pool ∉ t.pool :: seen → ¬ PoolBreaks F s u.pool) := by
        intro s₁ hother
        refine forall₂_congr (fun u _ => forall₂_congr (fun _ hfresh => ?_))
        have hread := hother u.pool (List.ne_of_not_mem_cons hfresh)
        unfold PoolBreaks
        rw [hread]
      have hsplit : ¬ PoolBreaks F s t.pool → ((∀ u ∈ tasks, u.pool ≠ "" → u.pool ∉ t.pool :: seen → ¬ PoolBreaks F s u.pool) ↔
          ∀ u ∈ t :: tasks, u.pool ≠ "" → u.pool ∉ seen → ¬ PoolBreaks F s u.pool) := by
        intro hwell
        rw [List.forall_mem_cons]
        refine ⟨fun h => ⟨fun _ _ => hwell, fun u hu hname hu' => ?_⟩, fun h u hu hname hu' => h.2 u hu hname (fun hmem => hu' (by simp [hmem]))⟩
        by_cases heq : u.pool = t.pool
        · rw [heq]
          exact hwell
        · exact h u hu hname (by simp [heq, hu'])
      have hbroken : PoolBreaks F s t.pool → ∀ e : Err, ((Except.error e : Except Err Unit) = .ok () ↔
          ∀ u ∈ t :: tasks, u.pool ≠ "" → u.pool ∉ seen → ¬ PoolBreaks F s u.pool) := by
        intro hbreaks e
        exact iff_of_false (by simp) (fun h => h t (by simp) hne hnew hbreaks)
      rw [if_neg hskip, run_bind_ok (run_outcome (run_getPool t.pool))]
      by_cases hget : F.fails (.getPool t.pool) = true
      · rw [if_pos hget]
        exact ⟨_, _, rfl, .refl s, hbroken (.inl hget) _⟩
      · rw [if_neg hget]
        cases hpool : s.db.getPool t.pool with
        | ok pool =>
          have hwell : ¬ PoolBreaks F s t.pool := by
            rintro (h | ⟨h, -⟩)
            · exact hget h
            · rw [hpool] at h
              cases h
          obtain ⟨r, s', hrun, hprovided, hok⟩ := ih (s := s) (t.pool :: seen)
          exact ⟨r, s', hrun, hprovided, hok.trans (hsplit hwell)⟩
        | error e =>
          obtain rfl := Db.getPool_error hpool
          by_cases hput : F.fails (.upsertPool ⟨t.pool, defaultPoolSlots⟩) = true
          · have hfails : run cfg F (storeOp (.upsertPool ⟨t.pool, defaultPoolSlots⟩)) s = some (.error .failed, s) := by
              rw [run_upsertPool, if_pos hput]
            exact ⟨_, _, run_bind_error hfails, .refl s, hbroken (.inr ⟨hpool, hput⟩) _⟩
          · have hwell : ¬ PoolBreaks F s t.pool := by
              rintro (h | ⟨-, h⟩)
              · exact hget h
              · exact hput h
            obtain ⟨pools, hdb⟩ := Db.upsertPool_pools s.db ⟨t.pool, defaultPoolSlots⟩
            have hstored : run cfg F (storeOp (.upsertPool ⟨t.pool, defaultPoolSlots⟩)) s =
                some (.ok (), s.withDb (s.db.upsertPool ⟨t.pool, defaultPoolSlots⟩).2) := by
              rw [run_upsertPool, if_neg hput, Db.upsertPool_ok (show 1 ≤ defaultPoolSlots by decide) (show defaultPoolSlots ≤ maxPoolSlots by decide)]
            obtain ⟨r, s', hrun, hprovided, hok⟩ :=
              ih (s := s.withDb (s.db.upsertPool ⟨t.pool, defaultPoolSlots⟩).2) (t.pool :: seen)
            have hother : ∀ name, name ≠ t.pool →
                (s.withDb (s.db.upsertPool ⟨t.pool, defaultPoolSlots⟩).2).db.getPool name = s.db.getPool name :=
              fun name hname => Db.upsertPool_getPool_ne hname
            refine ⟨r, s', (run_bind_ok hstored).trans hrun, Provided.trans ⟨pools, ?_⟩ hprovided, ?_⟩
            · rw [hdb]
            · exact hok.trans ((hrest hother).trans (hsplit hwell))

/-- A statement after the one that stores the row fails. -/
def BreaksLate (F : Faults) (s : Site) (d : DAG) : Prop :=
  (∃ t ∈ d.tasks, t.pool ≠ "" ∧ PoolBreaks F s t.pool) ∨ F.fails (.replaceDagDependencies d.dagID d.triggerAfter) = true

/-- The schedule of a definition can be read. -/
def Scheduled (cfg : Cfg) (d : DAG) : Prop :=
  d.schedule = "" ∨ ∃ schedule, Parser.parseScheduleIn cfg.parser d.schedule d.timezone = .ok schedule

theorem parseDefinition_scheduled {definitionYAML : String} {d : DAG} (h : parseDefinition cfg definitionYAML = .ok d) :
    Scheduled cfg d := by
  obtain ⟨-, -, y, -, haccepted⟩ := Parser.parse_iff.mp (Parser.mapError_eq_ok.mp h)
  obtain ⟨loc, hheader, -⟩ := haccepted.header
  obtain ⟨-, -, hschedule, -⟩ := Parser.parseHeader_iff.mp hheader
  have hsame : d.schedule = y.trimmed.schedule ∧ d.timezone = y.trimmed.timezone := by
    rw [haccepted.result]
    exact ⟨rfl, rfl⟩
  unfold Scheduled
  rw [hsame.1, hsame.2]
  exact hschedule

/-- The last part of a registration: the definition goes into the cache. -/
private def announce (d : DAG) : CatalogueM Unit :=
  underMu do
    match ← Fallible.outcome (storeOp (.getDAG d.dagID)) with
    | .ok row => Scheduler.updateCache (publish { d with paused := row.paused })
    | .error _ => Scheduler.updateCache (publish d)

private theorem registerDAG_eq (d : DAG) : registerDAG cfg d =
    storeOp (.upsertDAG d) >>= fun _ => ensurePools d.tasks [] >>= fun _ =>
      storeOp (.replaceDagDependencies d.dagID d.triggerAfter) >>= fun _ =>
        if d.schedule ≠ "" then
          Fallible.ofExcept ((Parser.parseScheduleIn cfg.parser d.schedule d.timezone).mapError (fun _ => .badDefinition)) >>=
            fun _ => announce d
        else announce d := rfl

private theorem run_scheduled {d : DAG} (h : Scheduled cfg d) :
    run cfg F (if d.schedule ≠ "" then
      Fallible.ofExcept ((Parser.parseScheduleIn cfg.parser d.schedule d.timezone).mapError (fun _ => .badDefinition)) >>=
        fun _ => announce d
      else announce d) s = run cfg F (announce d) s := by
  by_cases hempty : d.schedule = ""
  · rw [if_neg (by simp [hempty])]
  · obtain ⟨schedule, hschedule⟩ := h.resolve_left hempty
    rw [if_pos hempty, hschedule]
    exact run_bind_ok rfl

/-- What a registration leaves that has come to its end. -/
structure Announced (s s' : Site) (d : DAG) : Prop where
  mu : s'.console.mu = none
  registered : s'.registered = d :: s.registered
  row : ∃ row, s'.db.dag? d.dagID = some row ∧ row.definitionYAML = d.definitionYAML ∧ row.deleted = false
  rows : ∀ id, id ≠ d.dagID → s'.db.dag? id = s.db.dag? id
  cached : (s'.cached d.dagID).isSome = true
  others : ∀ id, id ≠ d.dagID → s'.cached id = s.cached id

private theorem cached_publish {d d' : DAG} (hid : d'.dagID = d.dagID) :
    ((s.withDags (publish d' s.console.process.dags)).cached d.dagID).isSome = true ∧
      ∀ id, id ≠ d.dagID → (s.withDags (publish d' s.console.process.dags)).cached id = s.cached id := by
  constructor
  · change ((d' :: _).find? _).isSome = true
    rw [List.find?_cons_of_pos (by simpa using hid)]
    rfl
  · intro id hne
    change (d' :: _).find? _ = _
    rw [List.find?_cons_of_neg (by simpa [hid] using Ne.symm hne), List.find?_filter]
    unfold cached
    congr 1
    funext old
    by_cases hold : old.dagID = id
    · simp [hold, hid, hne]
    · simp [hold]

variable (cfg) in
private theorem run_announce (d : DAG) (hfree : s.console.mu = none) : ∃ s', run cfg F (announce d) s = some (.ok (), s') ∧
    s'.db = s.db ∧ s'.registered = s.registered ∧ s'.console.mu = none ∧ (s'.cached d.dagID).isSome = true ∧
      ∀ id, id ≠ d.dagID → s'.cached id = s.cached id := by
  have hdone : ∀ d' : DAG, d'.dagID = d.dagID →
      run cfg F (Fallible.outcome (storeOp (.getDAG d.dagID)) >>= fun r => match r with
        | .ok row => Scheduler.updateCache (publish { d with paused := row.paused })
        | .error _ => Scheduler.updateCache (publish d)) (s.withMu (some 0)) =
        some (.ok (), (s.withMu (some 0)).withDags (publish d' s.console.process.dags)) →
      ∃ s', run cfg F (announce d) s = some (.ok (), s') ∧ s'.db = s.db ∧ s'.registered = s.registered ∧
        s'.console.mu = none ∧ (s'.cached d.dagID).isSome = true ∧ ∀ id, id ≠ d.dagID → s'.cached id = s.cached id := by
    intro d' hid hbody
    obtain ⟨hself, hothers⟩ := cached_publish (s := s) hid
    exact ⟨_, run_underMu hfree hbody, rfl, rfl, rfl, hself, hothers⟩
  cases hrow : (if F.fails (.getDAG d.dagID) then .error .failed else s.db.getDAG d.dagID : Except Err DagRow) with
  | ok row =>
    refine hdone { d with paused := row.paused } rfl ?_
    rw [run_bind_ok (run_outcome (run_getDAG d.dagID)), db_withMu, hrow]
    rfl
  | error e =>
    refine hdone d rfl ?_
    rw [run_bind_ok (run_outcome (run_getDAG d.dagID)), db_withMu, hrow]
    rfl

/-- The row is stored, and the cache is as it was. -/
structure Stored (s s' : Site) (d : DAG) : Prop where
  console : s'.console.mu = s.console.mu ∧ s'.cached = s.cached
  files : s'.files = s.files
  registered : s'.registered = d :: s.registered
  rows : ∀ id, s'.db.dag? id = (s.db.upsertDAG d).2.dag? id

variable (cfg) in
/-- A statement that cannot store the row ends the registration. -/
theorem run_registerDAG_unstored {d : DAG} (h : F.fails (.upsertDAG d) = true) :
    run cfg F (registerDAG cfg d) s = some (.error .failed, s) := by
  rw [registerDAG_eq]
  refine run_bind_error ?_
  rw [run_storeOp, exec, upsertDAG, if_pos h]

variable (cfg) in
private theorem run_upsertDAG {d : DAG} (h : F.fails (.upsertDAG d) = false) : ∃ s₁, run cfg F (storeOp (.upsertDAG d)) s = some (.ok (), s₁) ∧
    Stored s s₁ d ∧ s₁.db = (s.db.upsertDAG d).2 := by
  refine ⟨(s.upsertDAG cfg F d).2, ?_, ?_⟩
  · rw [run_storeOp, exec]
    refine congrArg some (Prod.ext ?_ rfl)
    simp only [upsertDAG, h, Bool.false_eq_true, if_false]
    exact Db.upsertDAG_ok d
  · have hstored : ∀ s₁ : Site, s₁.console = (s.withDb (s.db.upsertDAG d).2).console → s₁.files = s.files →
        s₁.registered = d :: s.registered → Stored s s₁ d ∧ s₁.db = (s.db.upsertDAG d).2 := by
      intro s₁ hconsole hfiles hregistered
      have hdb : s₁.db = (s.db.upsertDAG d).2 := congrArg (fun c => c.process.db) hconsole
      refine ⟨⟨⟨congrArg (fun c => c.mu) hconsole, ?_⟩, hfiles, hregistered, fun id => by rw [hdb]⟩, hdb⟩
      funext id
      exact congrArg (fun c => c.process.dags.find? (fun d => d.dagID = id)) hconsole
    simp only [upsertDAG, h, Bool.false_eq_true, if_false]
    split
    · exact hstored _ rfl rfl rfl
    · refine hstored _ ?_ ?_ ?_
      · rw [appendDagVersion_console]
      · rw [appendDagVersion_files]
        rfl
      · rw [appendDagVersion_registered]

private theorem poolBreaks_stored {s₁ : Site} {d : DAG} (h : s₁.db = (s.db.upsertDAG d).2) (name : String) :
    PoolBreaks F s₁ name ↔ PoolBreaks F s name := by
  unfold PoolBreaks
  rw [h, Db.upsertDAG_getPool]

variable (cfg) in
/-- A failure after the row is stored leaves the row and ends the registration. -/
theorem run_registerDAG_broken {d : DAG} (hupsert : F.fails (.upsertDAG d) = false) (hbreaks : BreaksLate F s d) :
    ∃ e s', run cfg F (registerDAG cfg d) s = some (.error e, s') ∧ Stored s s' d ∧ s'.db.dependencies = s.db.dependencies := by
  obtain ⟨s₁, hrow, hstored, hdb⟩ := run_upsertDAG cfg (s := s) hupsert
  obtain ⟨r, s₂, hpools, ⟨pools, rfl⟩, hok⟩ := run_ensurePools cfg (F := F) (s := s₁) d.tasks []
  have hleft : Stored s (s₁.withDb { s₁.db with pools := pools }) d := ⟨hstored.console, hstored.files, hstored.registered, hstored.rows⟩
  have hedges : s₁.db.dependencies = s.db.dependencies := by
    rw [hdb]
    exact Db.upsertDAG_dependencies d
  rw [registerDAG_eq, run_bind_ok hrow]
  cases r with
  | error e => exact ⟨e, _, run_bind_error hpools, hleft, hedges⟩
  | ok u =>
    have hprovided := hok.mp rfl
    have hreplace : F.fails (.replaceDagDependencies d.dagID d.triggerAfter) = true := by
      refine hbreaks.resolve_left ?_
      rintro ⟨t, ht, hname, hbroken⟩
      exact hprovided t ht hname (by simp) ((poolBreaks_stored hdb _).mpr hbroken)
    refine ⟨.failed, _, ?_, hleft, hedges⟩
    rw [run_bind_ok hpools]
    refine run_bind_error ?_
    rw [run_replaceDagDependencies, if_pos hreplace]

/-- Without a failure only the cache is left to be updated. -/
private theorem run_registerDAG_stored {d : DAG} (hupsert : F.fails (.upsertDAG d) = false) (hwell : ¬ BreaksLate F s d)
    (hschedule : Scheduled cfg d) : ∃ s', run cfg F (registerDAG cfg d) s = run cfg F (announce d) s' ∧ Stored s s' d := by
  obtain ⟨s₁, hrow, hstored, hdb⟩ := run_upsertDAG cfg (s := s) hupsert
  obtain ⟨r, s₂, hpools, ⟨pools, rfl⟩, hok⟩ := run_ensurePools cfg (F := F) (s := s₁) d.tasks []
  obtain ⟨hpool, hreplace⟩ := not_or.mp hwell
  have hr : r = .ok () := by
    refine hok.mpr (fun t ht hname _ hbroken => hpool ?_)
    exact ⟨t, ht, hname, (poolBreaks_stored hdb _).mp hbroken⟩
  subst hr
  have hedges : ∃ s₃, run cfg F (storeOp (.replaceDagDependencies d.dagID d.triggerAfter))
      (s₁.withDb { s₁.db with pools := pools }) = some (.ok (), s₃) ∧ Stored s s₃ d := by
    rw [run_replaceDagDependencies, if_neg hreplace]
    exact ⟨_, rfl, hstored.console, hstored.files, hstored.registered, hstored.rows⟩
  obtain ⟨s₃, hreplaced, hdone⟩ := hedges
  refine ⟨s₃, ?_, hdone⟩
  rw [registerDAG_eq, run_bind_ok hrow, run_bind_ok hpools, run_bind_ok hreplaced, run_scheduled hschedule]

/-- A registration in which nothing fails returns no error. -/
theorem run_registerDAG_ne_error {d : DAG} (hupsert : F.fails (.upsertDAG d) = false) (hwell : ¬ BreaksLate F s d)
    (hschedule : Scheduled cfg d) (e : Err) : run cfg F (registerDAG cfg d) s ≠ some (.error e, s') := by
  obtain ⟨s₁, hrun, -⟩ := run_registerDAG_stored hupsert hwell hschedule
  rw [hrun]
  by_cases hfree : s₁.console.mu = none
  · obtain ⟨s₂, hannounce, -⟩ := run_announce cfg (F := F) d hfree
    rw [hannounce]
    nofun
  · rw [announce, run_underMu_blocked hfree]
    nofun

theorem run_registerDAG_ok {d : DAG} (hupsert : F.fails (.upsertDAG d) = false) (hwell : ¬ BreaksLate F s d)
    (hschedule : Scheduled cfg d) (hfree : s.console.mu = none) :
    ∃ s', run cfg F (registerDAG cfg d) s = some (.ok (), s') ∧ Announced s s' d := by
  obtain ⟨s₁, hrun, hstored⟩ := run_registerDAG_stored hupsert hwell hschedule
  obtain ⟨s₂, hannounce, hdb, hregistered, hmu, hself, hothers⟩ :=
    run_announce cfg (F := F) d (hstored.console.1.trans hfree)
  refine ⟨s₂, hrun.trans hannounce, ?_⟩
  exact {
    mu := hmu
    registered := hregistered.trans hstored.registered
    row := by
      obtain ⟨row, hrow, htext, hactive, -⟩ := s.db.upsertDAG_self d
      exact ⟨row, by rw [hdb, hstored.rows, hrow], htext, hactive⟩
    rows := fun id hne => by rw [hdb, hstored.rows, Db.upsertDAG_ne hne]
    cached := hself
    others := fun id hne => by rw [hothers id hne, hstored.console.2] }

end Sequences

end Site
end Cronova.Scheduler
