import Cronova.Parser.Canonical

/-! The task list after fan-out: every entry as it is written becomes one entry, or
one for each of its items, and every dependency names what its entry became. -/
namespace Cronova.Parser
open Cronova.Model Cronova.Text
variable {env : Env} {dagID : String} {tasks entries : List TaskYAML} {t e : TaskYAML}

/-- What one entry becomes, before its dependencies are rewritten. -/
def entriesOf (env : Env) (t : TaskYAML) : List TaskYAML := if t.foreach = [] then [t] else shardsOf env t

/-- An entry with its dependencies rewritten. -/
def rewritten (env : Env) (tasks : List TaskYAML) (t : TaskYAML) : TaskYAML :=
  { t with deps := t.deps.flatMap (rewriteDep env tasks) }

theorem entriesOf_plain (h : t.foreach = []) : entriesOf env t = [t] := if_pos h

theorem entriesOf_fanned (h : t.foreach ≠ []) : entriesOf env t = shardsOf env t := if_neg h

/-- Without fan-out a dependency stays what it is. -/
theorem rewriteDep_plain (h : ∀ t ∈ tasks, t.foreach = []) (dep : String) : rewriteDep env tasks dep = [dep] := by
  have hnone : tasks.filter (fun t => decide (t.id = dep ∧ t.foreach ≠ [])) = [] := by
    rw [List.filter_eq_nil_iff]
    intro t ht hmem
    exact (of_decide_eq_true hmem).2 (h t ht)
  unfold rewriteDep
  rw [hnone]
  rfl

theorem rewritten_plain (h : ∀ t ∈ tasks, t.foreach = []) (e : TaskYAML) : rewritten env tasks e = e := by
  have hdeps : e.deps.flatMap (rewriteDep env tasks) = e.deps := by
    rw [show rewriteDep env tasks = fun dep => [dep] from funext (rewriteDep_plain h)]
    exact List.flatMap_singleton' e.deps
  rw [rewritten, hdeps]

/-- What an entry that fans out has to look like. -/
def Fannable (t : TaskYAML) : Prop := t.foreach = [] ∨ t.id ≠ "" ∧ t.foreach.length ≤ maxTasks

theorem expandEntry_eq_ok {part : List TaskYAML} :
    expandEntry env dagID t = .ok part ↔ Fannable t ∧ part = entriesOf env t := by
  unfold expandEntry Fannable
  by_cases hplain : t.foreach = []
  · rw [if_pos hplain, entriesOf_plain hplain]
    exact ⟨fun h => ⟨.inl hplain, by cases h; rfl⟩, fun h => by rw [h.2]⟩
  · rw [if_neg hplain, entriesOf_fanned hplain]
    by_cases hid : t.id = ""
    · simp [hplain, hid]
    · by_cases hlength : maxTasks < t.foreach.length
      · rw [if_neg hid, if_pos hlength]
        refine ⟨nofun, ?_⟩
        rintro ⟨hempty | ⟨-, hle⟩, -⟩
        · exact absurd hempty hplain
        · omega
      · rw [if_neg hid, if_neg hlength]
        exact ⟨fun h => ⟨.inr ⟨hid, by omega⟩, by cases h; rfl⟩, fun h => by rw [h.2]⟩

private theorem mapM_all {α β ε : Type} {f : α → Except ε β} {P : α → Prop} {g : α → β}
    (hf : ∀ a b, f a = .ok b ↔ P a ∧ b = g a) (l : List α) :
    ∀ out, l.mapM f = .ok out ↔ (∀ a ∈ l, P a) ∧ out = l.map g := by
  induction l with
  | nil =>
    intro out
    rw [List.mapM_nil, pure_eq_ok]
    simp [eq_comm]
  | cons a l ih =>
    intro out
    simp only [List.mapM_cons, bind_eq_ok, pure_eq_ok, hf, ih, List.forall_mem_cons, List.map_cons]
    constructor
    · rintro ⟨b, ⟨ha, rfl⟩, rest, ⟨hl, rfl⟩, rfl⟩
      exact ⟨⟨ha, hl⟩, rfl⟩
    · rintro ⟨⟨ha, hl⟩, rfl⟩
      exact ⟨g a, ⟨ha, rfl⟩, l.map g, ⟨hl, rfl⟩, rfl⟩

/-- The expanded list, entry by entry. -/
def expanded (env : Env) (tasks : List TaskYAML) : List TaskYAML :=
  tasks.flatMap (fun t => (entriesOf env t).map (rewritten env tasks))

theorem expanded_plain (h : ∀ t ∈ tasks, t.foreach = []) : expanded env tasks = tasks := by
  have hone : ∀ t ∈ tasks, (entriesOf env t).map (rewritten env tasks) = [t] := by
    intro t ht
    rw [entriesOf_plain (h t ht), List.map_singleton, rewritten_plain h]
  rw [expanded, List.flatMap_congr hone]
  exact List.flatMap_singleton' tasks

/-- Fan-out succeeds when every entry can fan out and there is room for the result. -/
theorem expandForeach_eq_ok : expandForeach env dagID tasks = .ok entries ↔
    ((∀ t ∈ tasks, t.foreach = []) ∨ (∀ t ∈ tasks, Fannable t) ∧ (expanded env tasks).length ≤ maxTasks) ∧
      entries = expanded env tasks := by
  unfold expandForeach
  by_cases hplain : ∀ t ∈ tasks, t.foreach = []
  · have hall : tasks.all (fun t => t.foreach = []) = true := by simpa using hplain
    rw [if_pos hall, expanded_plain hplain]
    exact ⟨fun h => ⟨.inl hplain, by cases h; rfl⟩, fun h => by rw [h.2]⟩
  · have hall : ¬ tasks.all (fun t => t.foreach = []) = true := by simpa using hplain
    have hflat : expanded env tasks = (tasks.map (entriesOf env)).flatten.map (rewritten env tasks) := by
      rw [← List.flatMap_def, List.map_flatMap]
      rfl
    have hcount : (expanded env tasks).length = (tasks.map (entriesOf env)).flatten.length := by
      rw [hflat, List.length_map]
    rw [if_neg hall, hcount]
    cases hparts : tasks.mapM (expandEntry env dagID) with
    | error e =>
      refine ⟨nofun, ?_⟩
      rintro ⟨hempty | ⟨hfan, -⟩, -⟩
      · exact absurd hempty hplain
      · rw [(mapM_all (fun _ _ => expandEntry_eq_ok) tasks _).mpr ⟨hfan, rfl⟩] at hparts
        cases hparts
    | ok parts =>
      obtain ⟨hfan, rfl⟩ := (mapM_all (fun _ _ => expandEntry_eq_ok) tasks parts).mp hparts
      dsimp only
      split
      · rename_i hlong
        refine ⟨nofun, ?_⟩
        rintro ⟨hempty | ⟨-, hshort⟩, -⟩
        · exact absurd hempty hplain
        · exact absurd hlong (Nat.not_lt_of_le hshort)
      · rename_i hshort
        rw [hflat]
        exact ⟨fun h => ⟨.inr ⟨hfan, Nat.le_of_not_lt hshort⟩, by cases h; rfl⟩, fun h => by rw [h.2]; rfl⟩

/-- Every entry after fan-out stands for an entry of the list as it is written. -/
theorem mem_expanded : e ∈ expanded env tasks ↔ ∃ t ∈ tasks, ∃ e' ∈ entriesOf env t, e = rewritten env tasks e' := by
  simp only [expanded, List.mem_flatMap, List.mem_map, @eq_comm _ e]

theorem mem_entriesOf_retryDelay (h : e ∈ entriesOf env t) : e.retryDelay = t.retryDelay := by
  unfold entriesOf at h
  split at h
  · rw [List.mem_singleton.mp h]
  · obtain ⟨i, hi, rfl⟩ := List.mem_mapIdx.mp h
    rfl

end Cronova.Parser
