import Cronova.Concurrency.Triples
import Cronova.Parser.Accepted
import Cronova.Scheduler.Runs

/-! Block propagation leaves no run stuck: at its fixpoint an accepted definition
either has nothing left to do or has a task that may start. -/
namespace Cronova.Properties.BlockPropagation
open Cronova.Model Cronova.Store Cronova.Concurrency Cronova.Concurrency.Fallible Cronova.Scheduler

/-- A scheduled task whose rule can no longer be satisfied. -/
def Blockable (byTask : List TaskInstance) (t : Task) : Prop :=
  ∃ ti, findTI byTask t.id = some ti ∧ ti.state = .scheduled ∧ (taskGate t byTask).2 = true

/-- A scheduled task that `taskGate` lets start. -/
def Startable (byTask : List TaskInstance) (t : Task) : Prop :=
  ∃ ti, findTI byTask t.id = some ti ∧ ti.state = .scheduled ∧ (taskGate t byTask).1 = true

/-- No instance is in the hands of the executor or waits for a retry. -/
def AtRest (byTask : List TaskInstance) : Prop :=
  ∀ ti ∈ byTask, ti.state = .scheduled ∨ ti.state.isTerminal = true

def scheduledCount (byTask : List TaskInstance) : Nat := byTask.countP (fun ti => ti.state = .scheduled)

private theorem countP_map_lt {α : Type} {q : α → Bool} {f : α → α} (hf : ∀ a, q (f a) = true → q a = true) :
    ∀ {l : List α} {a : α}, a ∈ l → q a = true → q (f a) = false → (l.map f).countP q < l.countP q := by
  intro l
  induction l with
  | nil =>
    intro a ha
    cases ha
  | cons b l ih =>
    intro a ha hqa hfa
    have hle : (l.map f).countP q ≤ l.countP q := by
      rw [List.countP_map]
      exact List.countP_mono_left (fun x _ hx => hf x hx)
    rw [List.map_cons, List.countP_cons, List.countP_cons]
    rcases List.mem_cons.mp ha with rfl | hal
    · simp only [hqa, hfa, if_true]
      simp only [Bool.false_eq_true, if_false]
      omega
    · have hlt := ih hal hqa hfa
      have hb : (if q (f b) = true then 1 else 0) ≤ (if q b = true then 1 else 0) := by
        split
        · rename_i hfb
          rw [if_pos (hf b hfb)]
        · exact Nat.zero_le _
      omega

/-- Blocking a scheduled task uses it up. -/
theorem scheduledCount_setTI {tis : List TaskInstance} {id : String} {ti new : TaskInstance}
    (hfind : findTI tis id = some ti) (hti : ti.state = .scheduled) (hid : new.taskID = ti.taskID)
    (hnew : new.state ≠ .scheduled) : scheduledCount (setTI tis new) < scheduledCount tis := by
  refine countP_map_lt ?_ (findTI_spec hfind).1 (by simpa using hti) (by simp [hid, hnew])
  intro row hrow
  split at hrow
  · exact absurd (by simpa using hrow) hnew
  · exact hrow

theorem blockTask_yields (ti : TaskInstance) :
    Yields (fun new => new.taskID = ti.taskID ∧ new.state = .upstreamFailed) (blockTask ti) :=
  .bind (.any _) (fun _ _ => .bind (.any _) (fun _ _ => .pure ⟨rfl, rfl⟩))

/-- What a pass over the tasks does to the instances: while nothing changed, no
task visited so far is blockable. -/
structure Pass (tasks : List Task) (start : List TaskInstance) (rest : List Task) (now : List TaskInstance × Bool) :
    Prop where
  ids : now.1.map (·.taskID) = start.map (·.taskID)
  atRest : AtRest now.1
  same : now.2 = false → now.1 = start
  visited : now.2 = false → ∀ t ∈ tasks, t ∈ rest ∨ ¬ Blockable now.1 t
  fewer : now.2 = true → scheduledCount now.1 < scheduledCount start

private theorem pass_skip {tasks rest : List Task} {start : List TaskInstance} {now : List TaskInstance × Bool}
    {t : Task} (h : Pass tasks start (t :: rest) now) (ht : ¬ Blockable now.1 t) : Pass tasks start rest now := by
  refine { h with visited := ?_ }
  intro hsame u hu
  rcases h.visited hsame u hu with hmem | hnot
  · rcases List.mem_cons.mp hmem with rfl | hrest
    · exact .inr ht
    · exact .inl hrest
  · exact .inr hnot

private theorem pass_block {tasks rest : List Task} {start : List TaskInstance} {now : List TaskInstance × Bool}
    {t : Task} {ti new : TaskInstance} (h : Pass tasks start (t :: rest) now) (hfind : findTI now.1 t.id = some ti)
    (hti : ti.state = .scheduled) (hid : new.taskID = ti.taskID) (hnew : new.state = .upstreamFailed) :
    Pass tasks start rest (setTI now.1 new, true) := by
  have hless := scheduledCount_setTI hfind hti hid (by rw [hnew]; decide)
  refine ⟨setTI_ids.trans h.ids, ?_, nofun, nofun, ?_⟩
  · intro row hrow
    rcases mem_setTI hrow with rfl | hold
    · exact .inr (by rw [hnew]; rfl)
    · exact h.atRest row hold
  · intro _
    cases hchanged : now.2 with
    | true => exact hless.trans (h.fewer hchanged)
    | false => exact (h.same hchanged) ▸ hless

theorem propagatePass_yields {tasks : List Task} {byTask : List TaskInstance} (hrest : AtRest byTask) :
    Yields (Pass tasks byTask []) (propagatePass blockTask tasks byTask) := by
  have hinit : Pass tasks byTask tasks (byTask, false) :=
    ⟨rfl, hrest, fun _ => rfl, fun _ _ ht => .inl ht, nofun⟩
  refine Yields.foldlM ?_ tasks hinit
  rintro t rest ⟨now, changed⟩ hpass
  dsimp only
  split
  · rename_i hnone
    refine Yields.pure (pass_skip hpass ?_)
    rintro ⟨ti, hti, -⟩
    rw [hnone] at hti
    cases hti
  · rename_i ti hti
    split
    · rename_i hcond
      refine Yields.bind (blockTask_yields ti) ?_
      rintro new ⟨hid, hnew⟩
      exact Yields.pure (pass_block hpass hti hcond.1 hid hnew)
    · rename_i hcond
      refine Yields.pure (pass_skip hpass ?_)
      rintro ⟨ti', hti', hsched, hgate⟩
      rw [hti] at hti'
      cases hti'
      exact hcond ⟨hsched, hgate⟩

/-- The instances of the same tasks, none of which is still blockable. -/
structure Settled (tasks : List Task) (start byTask : List TaskInstance) : Prop where
  ids : byTask.map (·.taskID) = start.map (·.taskID)
  atRest : AtRest byTask
  fixpoint : ∀ t ∈ tasks, ¬ Blockable byTask t

/-- The loop is at its fixpoint when it returns: it is never cut short. -/
theorem propagate_yields {tasks : List Task} (passes : Nat) {byTask : List TaskInstance} (hrest : AtRest byTask)
    (hpasses : scheduledCount byTask < passes) :
    Yields (Settled tasks byTask) (propagate blockTask tasks passes byTask) := by
  induction passes generalizing byTask with
  | zero => omega
  | succ passes ih =>
    refine Yields.bind (propagatePass_yields hrest) ?_
    rintro ⟨after, changed⟩ hpass
    cases changed with
    | true =>
      have hless := hpass.fewer rfl
      refine (ih hpass.atRest (by dsimp only at hless ⊢; omega)).mono ?_
      intro final hfinal
      exact { hfinal with ids := hfinal.ids.trans hpass.ids }
    | false =>
      refine Yields.pure ⟨hpass.ids, hpass.atRest, ?_⟩
      intro t ht
      exact (hpass.visited rfl t ht).resolve_left (by simp)

/-- At the fixpoint, a task that is not terminal has one before it that may start. -/
theorem startable_of_settled {tasks : List Task} {byTask : List TaskInstance} (hacyclic : Parser.Acyclic tasks)
    (hone : (byTask.map (·.taskID)).Perm (tasks.map (·.id))) (hrest : AtRest byTask)
    (hfix : ∀ t ∈ tasks, ¬ Blockable byTask t) {ti : TaskInstance} (hti : ti ∈ byTask)
    (hopen : ti.state.isTerminal = false) : ∃ t ∈ tasks, Startable byTask t := by
  obtain ⟨order, hordered, hcover⟩ := hacyclic.ordered
  have hnd : (byTask.map (·.taskID)).Nodup := hone.nodup_iff.mpr hacyclic.nodup
  have hknown : ∀ {row}, row ∈ byTask → row.taskID ∈ tasks.map (·.id) := fun hrow =>
    hone.subset (List.mem_map.mpr ⟨_, hrow, rfl⟩)
  -- the first task in dependency order whose instance is open
  obtain ⟨id, -, ⟨row, hrow, hrowOpen⟩, hdeps⟩ := hordered.exists_minimal
    (P := fun id => ∃ row, findTI byTask id = some row ∧ row.state.isTerminal = false)
    (hcover (hknown hti)) ⟨ti, findTI_of_mem hnd hti, hopen⟩
  obtain ⟨hrowMem, hrowID⟩ := findTI_spec hrow
  obtain ⟨t, ht, htid, hdepsOf⟩ := Parser.depsOf_eq (hrowID ▸ hknown hrowMem)
  rw [hdepsOf] at hdeps
  have hsched : row.state = .scheduled :=
    (hrest row hrowMem).resolve_right (by simp [hrowOpen])
  have hfind : findTI byTask t.id = some row := by rw [htid]; exact hrow
  have hterminal : ∀ s ∈ t.deps.map (fun dep => (findTI byTask dep).map (·.state)),
      s.any TaskState.isTerminal = true := by
    intro s hs
    obtain ⟨dep, hdep, rfl⟩ := List.mem_map.mp hs
    have hdepRow : dep ∈ byTask.map (·.taskID) := hone.symm.subset (hacyclic.known t ht dep hdep)
    obtain ⟨drow, hdrow, rfl⟩ := List.mem_map.mp hdepRow
    have hdfind := findTI_of_mem hnd hdrow
    simp only [hdfind, Option.map_some, Option.any_some]
    by_contra hnot
    exact hdeps _ hdep ⟨drow, hdfind, by simpa using hnot⟩
  rcases evalTriggerRule_decisive t.triggerRule _ hterminal with hready | hblocked
  · exact ⟨t, ht, row, hfind, hsched, hready⟩
  · exact absurd ⟨row, hfind, hsched, hblocked⟩ (hfix t ht)

/-- A failed extract, a load that needs it, and an alarm that waits for a failure. -/
def etlYAML : String :=
  "dag_id: etl\ntasks:\n- {id: extract, command: x}\n- {id: load, command: x, deps: [extract]}\n" ++
    "- {id: alarm, command: x, deps: [load], trigger_rule: one_failed}\n"

def etlDocument : Parser.DagYAML :=
  { dagID := "etl"
    tasks := [{ id := "extract", command := "x" }, { id := "load", command := "x", deps := ["extract"] },
      { id := "alarm", command := "x", deps := ["load"], triggerRule := "one_failed" }] }

def etl : DAG :=
  { dagID := "etl", definitionYAML := etlYAML
    tasks := [{ id := "extract", command := "x" }, { id := "load", command := "x", deps := ["extract"] },
      { id := "alarm", command := "x", deps := ["load"], triggerRule := .oneFailed }] }

def etlRows : List TaskInstance :=
  [{ id := 1, runID := "r", taskID := "extract", state := .failed },
   { id := 2, runID := "r", taskID := "load", state := .scheduled },
   { id := 3, runID := "r", taskID := "alarm", state := .scheduled }]

end Cronova.Properties.BlockPropagation
