import Cronova.Store.Rows

/-! The statements on the catalogue of definitions: registration, the pause flag,
archiving, and the pools and edges a definition brings along. -/
namespace Cronova.Store
open Cronova.Model Cronova.Relational

namespace Db
variable (s : Db)

def dag? (dagID : String) : Option DagRow := s.dags.find? (fun d => d.dagID = dagID)

/-- The DAG has a row, and it is archived. -/
def isArchived (dagID : String) : Bool := (s.dag? dagID).any (·.deleted)

/-- `UPDATE dags ... WHERE dag_id = dagID`. -/
def modifyDag (dagID : String) (f : DagRow → DagRow) (hf : ∀ d, (f d).dagID = d.dagID) : Db :=
  { s with dags := s.dags.modify (fun d => d.dagID = dagID) f hf }

/-- Register a definition. An existing row keeps its pause flag and is active again. -/
def upsertDAG (d : DAG) : Except Err Unit × Db :=
  match s.dags.insert? { dagID := d.dagID, definitionYAML := d.definitionYAML, paused := d.paused } with
  | some dags => (.ok (), { s with dags := dags })
  | none =>
    (.ok (), s.modifyDag d.dagID (fun row => { row with definitionYAML := d.definitionYAML, deleted := false }) (fun _ => rfl))

/-- An archived row is paused like any other. -/
def setDAGPaused (dagID : String) (paused : Bool) : Except Err Unit × Db :=
  match s.dag? dagID with
  | none => (.error .notFound, s)
  | some _ => (.ok (), s.modifyDag dagID (fun row => { row with paused := paused }) (fun _ => rfl))

def softDeleteDAG (dagID : String) : Except Err Unit × Db :=
  match s.dag? dagID with
  | none => (.error .notFound, s)
  | some row =>
    if row.deleted then (.error .notFound, s)
    else (.ok (), s.modifyDag dagID (fun row => { row with deleted := true }) (fun _ => rfl))

def upsertPool (p : Pool) : Except Err Unit × Db :=
  if p.slots < 1 ∨ maxPoolSlots < p.slots then (.error .failed, s)
  else
    match s.pools.insert? p with
    | some pools => (.ok (), { s with pools := pools })
    | none =>
      let pools := s.pools.modify (fun row => row.name = p.name) (fun row => { row with slots := p.slots }) (fun _ => rfl)
      (.ok (), { s with pools := pools })

/-- Replace the edges into a DAG; an edge named twice is stored once. -/
def replaceDagDependencies (downstream : String) (upstreams : List String) : Except Err Unit × Db :=
  let edges := upstreams.foldl (fun edges up => (edges.insert? (up, downstream)).getD edges)
    (s.dependencies.delete (fun e => e.2 = downstream))
  (.ok (), { s with dependencies := edges })

variable {s}

theorem dag?_spec {dagID : String} {row : DagRow} (h : s.dag? dagID = some row) : row ∈ s.dags.rows ∧ row.dagID = dagID :=
  ⟨List.mem_of_find?_eq_some h, by simpa using List.find?_some h⟩

theorem getDAG_of_dag? {dagID : String} {row : DagRow} (h : s.dag? dagID = some row) : s.getDAG dagID = .ok row := by
  have hfind : s.dags.find? (fun d => d.dagID = dagID) = some row := h
  simp only [getDAG, hfind]

theorem getDAG_of_dag?_none {dagID : String} (h : s.dag? dagID = none) : s.getDAG dagID = .error .notFound := by
  have hfind : s.dags.find? (fun d => d.dagID = dagID) = none := h
  simp only [getDAG, hfind]

theorem dag?_modifyDag (dagID id : String) (f : DagRow → DagRow) (hf : ∀ d, (f d).dagID = d.dagID) :
    (s.modifyDag dagID f hf).dag? id = (s.dag? id).map (fun row => if row.dagID = dagID then f row else row) := by
  have hkey : ∀ row, decide ((f row).dagID = id) = decide (row.dagID = id) := by
    intro row
    rw [hf row]
  have h := Table.find?_modify (t := s.dags) (p := fun d => d.dagID = dagID) (q := fun d => d.dagID = id) hf hkey
  simp only [decide_eq_true_eq] at h
  exact h

theorem dag?_modifyDag_self {dagID : String} {f : DagRow → DagRow} {hf : ∀ d, (f d).dagID = d.dagID} {row : DagRow}
    (h : s.dag? dagID = some row) : (s.modifyDag dagID f hf).dag? dagID = some (f row) := by
  rw [dag?_modifyDag, h, Option.map_some, if_pos (dag?_spec h).2]

theorem dag?_modifyDag_ne {dagID id : String} {f : DagRow → DagRow} {hf : ∀ d, (f d).dagID = d.dagID} (hne : id ≠ dagID) :
    (s.modifyDag dagID f hf).dag? id = s.dag? id := by
  rw [dag?_modifyDag]
  cases h : s.dag? id with
  | none => rfl
  | some row => rw [Option.map_some, if_neg (by rw [(dag?_spec h).2]; exact hne)]

/-- A registration writes the row of its DAG and no other. -/
theorem upsertDAG_self (d : DAG) :
    ∃ row, (s.upsertDAG d).2.dag? d.dagID = some row ∧ row.definitionYAML = d.definitionYAML ∧ row.deleted = false ∧
      row.paused = ((s.dag? d.dagID).map (·.paused)).getD d.paused := by
  unfold upsertDAG
  split
  · rename_i dags hdags
    have hnone : s.dag? d.dagID = none := by
      cases hrow : s.dag? d.dagID with
      | none => rfl
      | some row =>
        have hfree := Table.insert?_isSome_iff.mp ⟨dags, hdags⟩ row (dag?_spec hrow).1
        exact absurd (dag?_spec hrow).2 hfree
    refine ⟨{ dagID := d.dagID, definitionYAML := d.definitionYAML, paused := d.paused }, ?_, rfl, rfl, by rw [hnone]; rfl⟩
    have hfind := Table.find?_insert? hdags (fun row => row.dagID = d.dagID)
    rw [show s.dags.find? (fun row => decide (row.dagID = d.dagID)) = none from hnone] at hfind
    simp only [decide_true, if_true, Option.none_or] at hfind
    exact hfind
  · rename_i hdags
    obtain ⟨old, hold, hid⟩ := Table.insert?_eq_none_iff.mp hdags
    have hsome : (s.dag? d.dagID).isSome := by
      unfold dag? Table.find?
      rw [List.find?_isSome]
      exact ⟨old, hold, by simpa using hid⟩
    obtain ⟨row, hrow⟩ := Option.isSome_iff_exists.mp hsome
    refine ⟨_, dag?_modifyDag_self hrow, rfl, rfl, ?_⟩
    rw [hrow]
    rfl

/-- A row that is there keeps its pause flag. -/
theorem upsertDAG_some {d : DAG} {row : DagRow} (h : s.dag? d.dagID = some row) :
    (s.upsertDAG d).2.dag? d.dagID = some { row with definitionYAML := d.definitionYAML, deleted := false } := by
  obtain ⟨new, hnew, hyaml, hdeleted, hpaused⟩ := s.upsertDAG_self d
  rw [hnew, Option.some.injEq]
  have hid : new.dagID = row.dagID := (dag?_spec hnew).2.trans (dag?_spec h).2.symm
  have hflag : new.paused = row.paused := by rw [hpaused, h]; rfl
  cases new
  cases row
  simp only at hyaml hdeleted hid hflag
  simp only [hyaml, hdeleted, hid, hflag]

theorem upsertDAG_ne {d : DAG} {id : String} (hne : id ≠ d.dagID) : (s.upsertDAG d).2.dag? id = s.dag? id := by
  unfold upsertDAG
  split
  · rename_i dags hdags
    have hfind := Table.find?_insert? hdags (fun row => row.dagID = id)
    simp only [decide_eq_true_eq, if_neg (Ne.symm hne), Option.or_none] at hfind
    exact hfind
  · exact dag?_modifyDag_ne hne

@[simp] theorem upsertDAG_runs (d : DAG) : (s.upsertDAG d).2.runs = s.runs := by
  unfold upsertDAG
  split <;> rfl

theorem upsertDAG_ok (d : DAG) : (s.upsertDAG d).1 = .ok () := by
  unfold upsertDAG
  split <;> rfl

@[simp] theorem upsertDAG_dependencies (d : DAG) : (s.upsertDAG d).2.dependencies = s.dependencies := by
  unfold upsertDAG
  split <;> rfl

theorem upsertDAG_getPool (d : DAG) (name : String) : (s.upsertDAG d).2.getPool name = s.getPool name := by
  unfold upsertDAG
  split <;> rfl

@[simp] theorem setDAGPaused_runs (dagID : String) (paused : Bool) : (s.setDAGPaused dagID paused).2.runs = s.runs := by
  unfold setDAGPaused
  split <;> rfl

@[simp] theorem softDeleteDAG_runs (dagID : String) : (s.softDeleteDAG dagID).2.runs = s.runs := by
  unfold softDeleteDAG
  split
  · rfl
  · split <;> rfl

@[simp] theorem upsertPool_runs (p : Pool) : (s.upsertPool p).2.runs = s.runs := by
  unfold upsertPool
  split
  · rfl
  · split <;> rfl

@[simp] theorem upsertPool_dag? (p : Pool) (id : String) : (s.upsertPool p).2.dag? id = s.dag? id := by
  unfold upsertPool
  split
  · rfl
  · split <;> rfl

theorem getPool_error {name : String} {e : Err} (h : s.getPool name = .error e) : e = .notFound := by
  unfold getPool at h
  split at h
  · cases h
  · cases h
    rfl

theorem upsertPool_ok {p : Pool} (hmin : 1 ≤ p.slots) (hmax : p.slots ≤ maxPoolSlots) : (s.upsertPool p).1 = .ok () := by
  unfold upsertPool
  rw [if_neg (by omega)]
  split <;> rfl

variable (s) in
theorem upsertPool_pools (p : Pool) : ∃ pools, (s.upsertPool p).2 = { s with pools := pools } := by
  unfold upsertPool
  split
  · exact ⟨_, rfl⟩
  · split <;> exact ⟨_, rfl⟩

/-- A pool keeps its size when another one is stored. -/
theorem upsertPool_getPool_ne {p : Pool} {name : String} (hne : name ≠ p.name) : (s.upsertPool p).2.getPool name = s.getPool name := by
  have hfind : (s.upsertPool p).2.pools.find? (fun row => row.name = name) = s.pools.find? (fun row => row.name = name) := by
    unfold upsertPool
    split
    · rfl
    · split
      · rename_i pools hpools
        have hfind := Table.find?_insert? hpools (fun row => row.name = name)
        simp only [decide_eq_true_eq, if_neg (Ne.symm hne), Option.or_none] at hfind
        exact hfind
      · have hfind := Table.find?_modify (t := s.pools) (p := fun row => row.name = p.name) (q := fun row => row.name = name)
          (f := fun row => { row with slots := p.slots }) (fun _ => rfl) (fun _ => rfl)
        simp only [decide_eq_true_eq] at hfind
        rw [hfind]
        cases hrow : s.pools.find? (fun row => row.name = name) with
        | none => rfl
        | some row =>
          have hname : row.name = name := by simpa using List.find?_some hrow
          rw [Option.map_some, if_neg (by rw [hname]; exact hne)]
  unfold getPool
  rw [hfind]

theorem setDAGPaused_self {dagID : String} {paused : Bool} {row : DagRow} (h : s.dag? dagID = some row) :
    (s.setDAGPaused dagID paused).2.dag? dagID = some { row with paused := paused } := by
  simp only [setDAGPaused, h]
  exact dag?_modifyDag_self h

theorem setDAGPaused_ne {dagID id : String} {paused : Bool} (hne : id ≠ dagID) :
    (s.setDAGPaused dagID paused).2.dag? id = s.dag? id := by
  unfold setDAGPaused
  split
  · rfl
  · exact dag?_modifyDag_ne hne

theorem softDeleteDAG_ne {dagID id : String} (hne : id ≠ dagID) : (s.softDeleteDAG dagID).2.dag? id = s.dag? id := by
  unfold softDeleteDAG
  split
  · rfl
  · split
    · rfl
    · exact dag?_modifyDag_ne hne

/-- Archiving changes nothing but the mark. -/
theorem softDeleteDAG_self {dagID : String} {row : DagRow} (h : s.dag? dagID = some row) :
    (s.softDeleteDAG dagID).2.dag? dagID = some { row with deleted := true } := by
  simp only [softDeleteDAG, h]
  split
  · rename_i hdeleted
    rw [h, ← hdeleted]
  · exact dag?_modifyDag_self h

theorem isArchived_congr {s' : Db} {dagID : String} (h : s'.dag? dagID = s.dag? dagID) :
    s'.isArchived dagID = s.isArchived dagID := by
  unfold isArchived
  rw [h]

@[simp] theorem apply_dag? {β : Type} (w : Write β) (dagID : String) : (s.apply w).2.dag? dagID = s.dag? dagID := by
  unfold dag?
  rw [apply_dags]

/-- An archived DAG is not an active one. -/
theorem isActiveDag_eq_false {dagID : String} (h : s.isArchived dagID = true) : s.isActiveDag dagID = false := by
  obtain ⟨row, hrow, hdeleted⟩ := (Option.any_eq_true _ _).mp h
  have hfind : s.dags.find? (fun d => d.dagID = dagID) = some row := hrow
  simp [isActiveDag, hfind, hdeleted]

end Db
end Cronova.Store
