import Cronova.Parser.Foreach
import Cronova.Properties.Executable

/-! Fan-out and the dependency graph. Each task of an accepted definition stands for
one entry of the list as it is written. The graph of the tasks is the graph of the
entries exactly when every dependency names one entry. -/
namespace Cronova.Properties.FanOut
open Cronova.Model Cronova.Parser Cronova.Properties.Executable

/-- The ids that an entry gives its tasks. -/
def taskIDs (env : Env) (t : TaskYAML) : List String := (entriesOf env t).map (·.id)

/-- Task `x` stands for entry `t`. -/
def CameFrom (env : Env) (t : TaskYAML) (x : Task) : Prop := x.id ∈ taskIDs env t

instance (env : Env) (t : TaskYAML) : DecidablePred (CameFrom env t) := fun _ => inferInstanceAs (Decidable (_ ∈ _))

/-- The number of tasks that an entry should become. -/
def copies (t : TaskYAML) : Nat := if t.foreach = [] then 1 else t.foreach.length

/-- Entry `t` names entry `u` as a dependency. -/
def SourceEdge (sources : List TaskYAML) (t u : TaskYAML) : Prop := t ∈ sources ∧ u ∈ sources ∧ u.id ∈ t.deps

/-- The tasks are the entries fanned out, and depend on each other as their entries do. -/
structure Preserves (env : Env) (sources : List TaskYAML) (tasks : List Task) : Prop where
  origin : ∀ x ∈ tasks, ∃! t, t ∈ sources ∧ CameFrom env t x
  count : ∀ t ∈ sources, (tasks.filter (fun x => decide (CameFrom env t x))).length = copies t
  depends : ∀ t ∈ sources, ∀ u ∈ sources, ∀ x ∈ tasks, ∀ z ∈ tasks, CameFrom env t x → CameFrom env u z →
    (z.id ∈ x.deps ↔ u.id ∈ t.deps)
  kept : ∀ t ∈ sources, ∀ u ∈ sources, u.id ∈ t.deps → ∀ x ∈ tasks, CameFrom env t x →
    ∃ z ∈ tasks, CameFrom env u z ∧ z.id ∈ x.deps
  acyclic : (∀ id, ¬ Relation.TransGen (DependsOn tasks) id id) ↔ ∀ t, ¬ Relation.TransGen (SourceEdge sources) t t

section Expanded
variable {env : Env} {sources : List TaskYAML} {t u e : TaskYAML}

theorem entriesOf_length (env : Env) (t : TaskYAML) : (entriesOf env t).length = copies t := by
  unfold entriesOf copies
  split
  · rfl
  · exact List.length_mapIdx

theorem entriesOf_ne_nil (t : TaskYAML) : entriesOf env t ≠ [] := by
  intro hnil
  have hlength := entriesOf_length env t
  rw [hnil, List.length_nil] at hlength
  unfold copies at hlength
  split at hlength
  · cases hlength
  · rename_i hforeach
    exact hforeach (List.length_eq_zero_iff.mp hlength.symm)

/-- A shard depends on what its task depends on. -/
theorem entriesOf_deps (he : e ∈ entriesOf env t) : e.deps = t.deps := by
  unfold entriesOf at he
  split at he
  · rw [List.mem_singleton.mp he]
  · obtain ⟨i, hi, rfl⟩ := List.mem_mapIdx.mp he
    rfl

theorem taskIDs_plain (h : t.foreach = []) : taskIDs env t = [t.id] := by
  rw [taskIDs, entriesOf_plain h, List.map_singleton]

theorem taskIDs_ne_nil (env : Env) (t : TaskYAML) : taskIDs env t ≠ [] := by
  intro hnil
  exact entriesOf_ne_nil t (List.map_eq_nil_iff.mp hnil)

/-- Two fanned out entries with one id share the id of their first shard. -/
theorem taskIDs_shared (env : Env) (ht : t.foreach ≠ []) (hu : u.foreach ≠ []) (hid : t.id = u.id) :
    ∃ id, id ∈ taskIDs env t ∧ id ∈ taskIDs env u := by
  have hfirst : ∀ v : TaskYAML, v.foreach ≠ [] → v.id ++ "_" ++ toString 0 ∈ taskIDs env v := by
    intro v hv
    obtain ⟨item, items, hitems⟩ := List.exists_cons_of_ne_nil hv
    rw [taskIDs, entriesOf_fanned hv, shardsOf, hitems, List.mapIdx_cons, List.map_cons]
    exact List.mem_cons_self
  exact ⟨t.id ++ "_" ++ toString 0, hfirst t ht, hid ▸ hfirst u hu⟩

theorem expanded_ids : (expanded env sources).map (·.id) = sources.flatMap (taskIDs env) := by
  rw [expanded, List.map_flatMap]
  simp only [List.map_map]
  rfl

/-- A dependency after fan-out: on a shard of the entry it names, or on the id itself. -/
theorem mem_rewriteDep {dep id : String} : id ∈ rewriteDep env sources dep ↔
    (∃ v ∈ sources, v.id = dep ∧ v.foreach ≠ [] ∧ id ∈ taskIDs env v) ∨
      (∀ v ∈ sources, v.id = dep → v.foreach = []) ∧ id = dep := by
  have hmem : ∀ id, id ∈ (sources.filter (fun t => t.id = dep ∧ t.foreach ≠ [])).flatMap (fun t => (shardsOf env t).map (·.id)) ↔
      ∃ v ∈ sources, v.id = dep ∧ v.foreach ≠ [] ∧ id ∈ taskIDs env v := by
    intro id
    rw [List.mem_flatMap]
    constructor
    · rintro ⟨v, hv, hid⟩
      obtain ⟨hsource, hnamed⟩ := List.mem_filter.mp hv
      obtain ⟨hdep, hforeach⟩ := of_decide_eq_true hnamed
      rw [← entriesOf_fanned hforeach] at hid
      exact ⟨v, hsource, hdep, hforeach, hid⟩
    · rintro ⟨v, hsource, hdep, hforeach, hid⟩
      rw [taskIDs, entriesOf_fanned hforeach] at hid
      exact ⟨v, List.mem_filter.mpr ⟨hsource, decide_eq_true ⟨hdep, hforeach⟩⟩, hid⟩
  have hnone : (sources.filter (fun t => t.id = dep ∧ t.foreach ≠ [])).flatMap (fun t => (shardsOf env t).map (·.id)) = [] ↔
      ∀ v ∈ sources, v.id = dep → v.foreach = [] := by
    rw [List.eq_nil_iff_forall_not_mem]
    simp only [hmem]
    constructor
    · intro h v hv hdep
      by_contra hforeach
      obtain ⟨id, hid⟩ := List.exists_mem_of_ne_nil _ (taskIDs_ne_nil env v)
      exact h id ⟨v, hv, hdep, hforeach, hid⟩
    · rintro h id ⟨v, hv, hdep, hforeach, -⟩
      exact hforeach (h v hv hdep)
  unfold rewriteDep
  dsimp only
  split
  · rename_i hnil
    have hplain := hnone.mp hnil
    rw [List.mem_singleton]
    constructor
    · exact fun h => .inr ⟨hplain, h⟩
    · rintro (⟨v, hv, hdep, hforeach, -⟩ | ⟨-, h⟩)
      · exact absurd (hplain v hv hdep) hforeach
      · exact h
  · rename_i hne
    rw [hmem]
    constructor
    · exact .inl
    · rintro (h | ⟨hplain, -⟩)
      · exact h
      · exact absurd (hnone.mpr hplain) hne

end Expanded

/-- A task list that was accepted after fan-out. -/
structure Fanned (env : Env) (sources : List TaskYAML) (tasks : List Task) : Prop where
  parsed : List.Forall₂ (fun e x => x.id = e.id ∧ x.deps = e.deps) (expanded env sources) tasks
  runnable : Runnable tasks

/-- Entry `t` is the only one with its id. -/
def Named (sources : List TaskYAML) (id : String) : Prop := ∃! u, u ∈ sources ∧ u.id = id

namespace Fanned
variable {env : Env} {sources : List TaskYAML} {tasks : List Task} {t u : TaskYAML} {x z : Task}

theorem ids (h : Fanned env sources tasks) : tasks.map (·.id) = sources.flatMap (taskIDs env) := by
  rw [← expanded_ids]
  obtain ⟨hparsed, -⟩ := h
  generalize expanded env sources = entries at hparsed
  induction hparsed with
  | nil => rfl
  | cons hsame _ ih => rw [List.map_cons, List.map_cons, hsame.1, ih]

theorem nodup (h : Fanned env sources tasks) : (sources.flatMap (taskIDs env)).Nodup := h.ids ▸ h.runnable.ids

/-- Different entries give different ids, and no entry is listed twice. -/
theorem disjoint (h : Fanned env sources tasks) :
    sources.Nodup ∧ ∀ t ∈ sources, ∀ u ∈ sources, ∀ id, id ∈ taskIDs env t → id ∈ taskIDs env u → t = u := by
  have hpairwise := (List.nodup_flatMap.mp h.nodup).2
  constructor
  · apply hpairwise.imp
    rintro t u hdisjoint rfl
    obtain ⟨id, hid⟩ := List.exists_mem_of_ne_nil _ (taskIDs_ne_nil env t)
    exact hdisjoint hid hid
  · intro t ht u hu id hidt hidu
    by_contra hne
    have : Std.Symm (Function.onFun List.Disjoint (taskIDs env)) := ⟨fun _ _ hdisjoint => List.disjoint_symm hdisjoint⟩
    exact hpairwise.forall ht hu hne hidt hidu

theorem origin (h : Fanned env sources tasks) (hx : x ∈ tasks) : ∃! t, t ∈ sources ∧ CameFrom env t x := by
  have hid : x.id ∈ sources.flatMap (taskIDs env) := h.ids ▸ List.mem_map_of_mem hx
  obtain ⟨t, ht, hxt⟩ := List.mem_flatMap.mp hid
  refine ⟨t, ⟨ht, hxt⟩, ?_⟩
  rintro u ⟨hu, hxu⟩
  exact h.disjoint.2 u hu t ht x.id hxu hxt

/-- Every id that an entry gives is the id of a task. -/
theorem task_of_id (h : Fanned env sources tasks) {id : String} (ht : t ∈ sources) (hid : id ∈ taskIDs env t) :
    ∃ x ∈ tasks, x.id = id := by
  have hmem : id ∈ tasks.map (·.id) := h.ids ▸ List.mem_flatMap.mpr ⟨t, ht, hid⟩
  exact List.mem_map.mp hmem

theorem exists_task (h : Fanned env sources tasks) (ht : t ∈ sources) : ∃ x ∈ tasks, CameFrom env t x := by
  obtain ⟨id, hid⟩ := List.exists_mem_of_ne_nil _ (taskIDs_ne_nil env t)
  obtain ⟨x, hx, rfl⟩ := h.task_of_id ht hid
  exact ⟨x, hx, hid⟩

theorem count (h : Fanned env sources tasks) (ht : t ∈ sources) :
    (tasks.filter (fun x => decide (CameFrom env t x))).length = copies t := by
  have hfilter : (tasks.filter (fun x => decide (CameFrom env t x))).map (·.id) =
      (tasks.map (·.id)).filter (fun id => decide (id ∈ taskIDs env t)) := by
    rw [List.filter_map]
    rfl
  have hnodup : ((tasks.map (·.id)).filter (fun id => decide (id ∈ taskIDs env t))).Nodup := h.runnable.ids.filter _
  have hperm : ((tasks.map (·.id)).filter (fun id => decide (id ∈ taskIDs env t))).Perm (taskIDs env t) := by
    rw [List.perm_ext_iff_of_nodup hnodup ((List.nodup_flatMap.mp h.nodup).1 t ht)]
    intro id
    rw [List.mem_filter, decide_eq_true_iff]
    refine ⟨fun hid => hid.2, fun hid => ⟨?_, hid⟩⟩
    obtain ⟨x, hx, rfl⟩ := h.task_of_id ht hid
    exact List.mem_map_of_mem hx
  calc
    _ = ((tasks.filter (fun x => decide (CameFrom env t x))).map (·.id)).length := (List.length_map _).symm
    _ = (taskIDs env t).length := by rw [hfilter, hperm.length_eq]
    _ = copies t := by rw [taskIDs, List.length_map, entriesOf_length]

/-- The dependencies of a task are those of its entry, rewritten. -/
theorem deps (h : Fanned env sources tasks) (ht : t ∈ sources) (hx : x ∈ tasks) (hxt : CameFrom env t x) :
    x.deps = t.deps.flatMap (rewriteDep env sources) := by
  obtain ⟨e, he, hid, hdeps⟩ := forall₂_left h.parsed.flip hx
  obtain ⟨u, hu, e', he', rfl⟩ := mem_expanded.mp he
  have hxu : x.id ∈ taskIDs env u := by
    rw [hid]
    exact List.mem_map_of_mem (f := (·.id)) he'
  have hsame : t = u := h.disjoint.2 t ht u hu x.id hxt hxu
  rw [hdeps, hsame, rewritten, entriesOf_deps he']

theorem mem_deps (h : Fanned env sources tasks) (ht : t ∈ sources) (hx : x ∈ tasks) (hxt : CameFrom env t x) {id : String} :
    id ∈ x.deps ↔ ∃ dep ∈ t.deps, id ∈ rewriteDep env sources dep := by
  rw [h.deps ht hx hxt, List.mem_flatMap]

/-- What a rewritten dependency says about the entry behind it. -/
theorem mem_rewriteDep_iff (h : Fanned env sources tasks) (hu : u ∈ sources) (hzu : CameFrom env u z) {dep : String} :
    z.id ∈ rewriteDep env sources dep ↔
      (u.id = dep ∧ u.foreach ≠ []) ∨ (∀ v ∈ sources, v.id = dep → v.foreach = []) ∧ z.id = dep := by
  rw [mem_rewriteDep]
  constructor
  · rintro (⟨v, hv, hdep, hforeach, hid⟩ | hplain)
    · have hsame : v = u := h.disjoint.2 v hv u hu z.id hid hzu
      exact .inl ⟨hsame ▸ hdep, hsame ▸ hforeach⟩
    · exact .inr hplain
  · rintro (⟨hdep, hforeach⟩ | hplain)
    · exact .inl ⟨u, hu, hdep, hforeach, hzu⟩
    · exact .inr hplain

/-! ### Dependencies that name one entry -/

theorem depends (h : Fanned env sources tasks) (hnamed : ∀ t ∈ sources, ∀ dep ∈ t.deps, Named sources dep)
    (ht : t ∈ sources) (hu : u ∈ sources) (hx : x ∈ tasks) (hxt : CameFrom env t x) (hzu : CameFrom env u z) :
    z.id ∈ x.deps ↔ u.id ∈ t.deps := by
  rw [h.mem_deps ht hx hxt]
  constructor
  · rintro ⟨dep, hdep, hz⟩
    rcases (h.mem_rewriteDep_iff hu hzu).mp hz with ⟨rfl, -⟩ | ⟨hplain, hid⟩
    · exact hdep
    · obtain ⟨w, ⟨hw, hwid⟩, -⟩ := hnamed t ht dep hdep
      -- the entry that the dependency names is a plain one, so it has given the task its id
      have hzw : z.id ∈ taskIDs env w := by
        rw [taskIDs_plain (hplain w hw hwid), hid, hwid]
        exact List.mem_singleton_self dep
      have hsame : u = w := h.disjoint.2 u hu w hw z.id hzu hzw
      rw [hsame, hwid]
      exact hdep
  · intro hdep
    refine ⟨u.id, hdep, (h.mem_rewriteDep_iff hu hzu).mpr ?_⟩
    by_cases hforeach : u.foreach = []
    · obtain ⟨w, -, hunique⟩ := hnamed t ht u.id hdep
      refine .inr ⟨?_, ?_⟩
      · intro v hv hid
        rw [hunique v ⟨hv, hid⟩, ← hunique u ⟨hu, rfl⟩]
        exact hforeach
      · rw [CameFrom, taskIDs_plain hforeach] at hzu
        exact List.mem_singleton.mp hzu
    · exact .inl ⟨rfl, hforeach⟩

/-- A cycle of entries becomes a cycle of tasks. -/
theorem lift_path (h : Fanned env sources tasks) (hnamed : ∀ t ∈ sources, ∀ dep ∈ t.deps, Named sources dep)
    (hpath : Relation.TransGen (SourceEdge sources) t u) : ∀ x ∈ tasks, CameFrom env t x → ∀ z, CameFrom env u z →
      Relation.TransGen (DependsOn tasks) x.id z.id := by
  induction hpath with
  | single hedge =>
    obtain ⟨ht, hu, hdep⟩ := hedge
    intro x hx hxt z hzu
    exact .single ⟨x, hx, rfl, (h.depends hnamed ht hu hx hxt hzu).mpr hdep⟩
  | tail _ hedge ih =>
    obtain ⟨hv, hu, hdep⟩ := hedge
    intro x hx hxt z hzu
    obtain ⟨m, hm, hmv⟩ := h.exists_task hv
    exact .tail (ih x hx hxt m hmv) ⟨m, hm, rfl, (h.depends hnamed hv hu hm hmv hzu).mpr hdep⟩

theorem source_acyclic (h : Fanned env sources tasks) (hnamed : ∀ t ∈ sources, ∀ dep ∈ t.deps, Named sources dep) :
    ∀ t, ¬ Relation.TransGen (SourceEdge sources) t t := by
  intro t hcycle
  obtain ⟨u, ⟨ht, -, -⟩, -⟩ := Relation.TransGen.head'_iff.mp hcycle
  obtain ⟨x, hx, hxt⟩ := h.exists_task ht
  exact h.runnable.acyclic x.id (h.lift_path hnamed hcycle x hx hxt x hxt)

theorem preserves (h : Fanned env sources tasks) (hnamed : ∀ t ∈ sources, ∀ dep ∈ t.deps, Named sources dep) :
    Preserves env sources tasks where
  origin _ hx := h.origin hx
  count _ ht := h.count ht
  depends _ ht _ hu _ hx _ _ hxt hzu := h.depends hnamed ht hu hx hxt hzu
  kept t ht u hu hdep x hx hxt := by
    obtain ⟨z, hz, hzu⟩ := h.exists_task hu
    exact ⟨z, hz, hzu, (h.depends hnamed ht hu hx hxt hzu).mpr hdep⟩
  acyclic := ⟨fun _ => h.source_acyclic hnamed, fun _ => h.runnable.acyclic⟩

/-! ### And conversely -/

/-- A task of a fanned out entry and the entry cannot both be named. -/
theorem shard_or_task (h : Fanned env sources tasks) (ht : t ∈ sources) (hu : u ∈ sources) (hz : z ∈ tasks)
    (hzu : CameFrom env u z) (hforeach : u.foreach ≠ []) (hother : z.id ≠ u.id) (hdep : z.id ∈ t.deps)
    (hplain : ∀ v ∈ sources, v.id = z.id → v.foreach = []) : u.id ∉ t.deps := by
  intro htask
  obtain ⟨x, hx, hxt⟩ := h.exists_task ht
  have hnodup := (h.runnable.deps x hx).1
  rw [h.deps ht hx hxt, List.nodup_flatMap] at hnodup
  -- the shard would be a dependency twice
  have : Std.Symm (Function.onFun List.Disjoint (rewriteDep env sources)) := ⟨fun _ _ hdisjoint => List.disjoint_symm hdisjoint⟩
  have hdisjoint := hnodup.2.forall hdep htask hother
  exact hdisjoint ((h.mem_rewriteDep_iff hu hzu).mpr (.inr ⟨hplain, rfl⟩))
    ((h.mem_rewriteDep_iff hu hzu).mpr (.inl ⟨rfl, hforeach⟩))

/-- A dependency that is kept names some entry. -/
theorem exists_named (h : Fanned env sources tasks) (hp : Preserves env sources tasks) (ht : t ∈ sources) {dep : String}
    (hdep : dep ∈ t.deps) : ∃ u ∈ sources, u.id = dep := by
  by_contra hnone
  have hplain : ∀ v ∈ sources, v.id = dep → v.foreach = [] := fun v hv hid => absurd ⟨v, hv, hid⟩ hnone
  obtain ⟨x, hx, hxt⟩ := h.exists_task ht
  have hxdep : dep ∈ x.deps := (h.mem_deps ht hx hxt).mpr ⟨dep, hdep, mem_rewriteDep.mpr (.inr ⟨hplain, rfl⟩)⟩
  obtain ⟨z, hz, rfl, -⟩ := (h.runnable.deps x hx).2 dep hxdep
  obtain ⟨u, ⟨hu, hzu⟩, -⟩ := h.origin hz
  have hother : z.id ≠ u.id := fun hid => hnone ⟨u, hu, hid.symm⟩
  have hforeach : u.foreach ≠ [] := by
    intro hempty
    rw [CameFrom, taskIDs_plain hempty, List.mem_singleton] at hzu
    exact hother hzu
  exact h.shard_or_task ht hu hz hzu hforeach hother hdep hplain ((hp.depends t ht u hu x hx z hz hxt hzu).mp hxdep)

/-- A plain entry is lost behind a fanned out one with its id. -/
theorem not_hidden (h : Fanned env sources tasks) (hp : Preserves env sources tasks) (ht : t ∈ sources) (hu : u ∈ sources)
    (hdep : u.id ∈ t.deps) (hforeach : u.foreach = []) : ∀ v ∈ sources, v.id = u.id → v.foreach = [] := by
  obtain ⟨x, hx, hxt⟩ := h.exists_task ht
  obtain ⟨z, hz, hzu⟩ := h.exists_task hu
  have hzid : z.id = u.id := by
    rw [CameFrom, taskIDs_plain hforeach, List.mem_singleton] at hzu
    exact hzu
  obtain ⟨dep, -, hmem⟩ := (h.mem_deps ht hx hxt).mp ((hp.depends t ht u hu x hx z hz hxt hzu).mpr hdep)
  rcases (h.mem_rewriteDep_iff hu hzu).mp hmem with ⟨-, hfanned⟩ | ⟨hplain, rfl⟩
  · exact absurd hforeach hfanned
  · intro v hv hid
    exact hplain v hv (hid.trans hzid.symm)

theorem named (h : Fanned env sources tasks) (hp : Preserves env sources tasks) :
    ∀ t ∈ sources, ∀ dep ∈ t.deps, Named sources dep := by
  intro t ht dep hdep
  obtain ⟨u, hu, rfl⟩ := h.exists_named hp ht hdep
  refine ⟨u, ⟨hu, rfl⟩, ?_⟩
  rintro v ⟨hv, hid⟩
  by_cases hplain : u.foreach = [] ∨ v.foreach = []
  · have hboth : v.foreach = [] ∧ u.foreach = [] := by
      rcases hplain with hplain | hplain
      · exact ⟨h.not_hidden hp ht hu hdep hplain v hv hid, hplain⟩
      · exact ⟨hplain, h.not_hidden hp ht hv (hid ▸ hdep) hplain u hu hid.symm⟩
    apply h.disjoint.2 v hv u hu u.id
    · rw [taskIDs_plain hboth.1, hid]
      exact List.mem_singleton_self u.id
    · rw [taskIDs_plain hboth.2]
      exact List.mem_singleton_self u.id
  · obtain ⟨hu', hv'⟩ := not_or.mp hplain
    obtain ⟨id, hidv, hidu⟩ := taskIDs_shared env hv' hu' hid
    exact h.disjoint.2 v hv u hu id hidv hidu

end Fanned

theorem fanned_of_accepted {env : Env} {raw : String} {y : DagYAML} {d : DAG} (hparse : parse env raw = .ok d)
    (hdecode : env.decode raw = .ok (y, .eof)) : Fanned env y.tasks d.tasks := by
  obtain ⟨-, -, y', hdecoded, haccepted⟩ := parse_iff.mp hparse
  rw [hdecode] at hdecoded
  cases hdecoded
  obtain ⟨entries, hentries, htasks⟩ := haccepted.tasks
  obtain ⟨-, rfl⟩ := expandForeach_eq_ok.mp hentries
  refine ⟨?_, parse_runnable hparse⟩
  apply (parseTasks_each _ _ htasks).imp
  rintro e x ⟨seen, n, hx⟩
  exact ⟨congrArg Task.id hx.result, congrArg Task.deps hx.result⟩

/-- Fan-out preserves the dependency structure of an accepted definition exactly when
every dependency names one entry of the task list as it is written. -/
theorem fan_out_preserves_iff {env : Env} {raw : String} {y : DagYAML} {d : DAG} (hparse : parse env raw = .ok d)
    (hdecode : env.decode raw = .ok (y, .eof)) :
    Preserves env y.tasks d.tasks ↔ ∀ t ∈ y.tasks, ∀ dep ∈ t.deps, ∃! u, u ∈ y.tasks ∧ u.id = dep := by
  have hfanned := fanned_of_accepted hparse hdecode
  exact ⟨hfanned.named, hfanned.preserves⟩

def exportYAML : String :=
  "dag_id: export\ntasks:\n- {id: dump, command: x, foreach: [eu, us]}\n- {id: pack, command: x, deps: [dump], foreach: [zip]}\n" ++
    "- {id: send, command: x, deps: [dump, pack]}\n"

def exportDocument : DagYAML :=
  { dagID := "export"
    tasks := [{ id := "dump", command := "x", foreach := ["eu", "us"] },
      { id := "pack", command := "x", deps := ["dump"], foreach := ["zip"] },
      { id := "send", command := "x", deps := ["dump", "pack"] }] }

def exportEnv : Env := .ofDocuments [(exportYAML, exportDocument)]

def exportDag : DAG :=
  { dagID := "export", definitionYAML := exportYAML
    tasks := [{ id := "dump_0", command := "x" }, { id := "dump_1", command := "x" },
      { id := "pack_0", command := "x", deps := ["dump_0", "dump_1"] },
      { id := "send", command := "x", deps := ["dump_0", "dump_1", "pack_0"] }] }

theorem fan_out_preserves_export : Preserves exportEnv exportDocument.tasks exportDag.tasks := by
  have hparse : parse exportEnv exportYAML = .ok exportDag := by decide +kernel
  have hdecode : exportEnv.decode exportYAML = .ok (exportDocument, .eof) := by decide +kernel
  refine (fan_out_preserves_iff hparse hdecode).mpr ?_
  have hnames : ∀ t ∈ exportDocument.tasks, ∀ dep ∈ t.deps, dep = "dump" ∨ dep = "pack" := by decide
  have hunique : ∀ u ∈ exportDocument.tasks, ∀ v ∈ exportDocument.tasks, u.id = v.id → u = v := by decide
  intro t ht dep hdep
  rcases hnames t ht dep hdep with rfl | rfl
  · exact ⟨exportDocument.tasks[0], ⟨by decide, rfl⟩, fun u hu => hunique u hu.1 _ (by decide) hu.2⟩
  · exact ⟨exportDocument.tasks[1], ⟨by decide, rfl⟩, fun u hu => hunique u hu.1 _ (by decide) hu.2⟩

def hiddenYAML : String :=
  "dag_id: report\ntasks:\n- {id: load, command: x, foreach: [eu]}\n- {id: load, command: y}\n- {id: mail, command: z, deps: [load]}\n"

def hiddenDocument : DagYAML :=
  { dagID := "report"
    tasks := [{ id := "load", command := "x", foreach := ["eu"] }, { id := "load", command := "y" },
      { id := "mail", command := "z", deps := ["load"] }] }

def hiddenEnv : Env := .ofDocuments [(hiddenYAML, hiddenDocument)]

def hiddenDag : DAG :=
  { dagID := "report", definitionYAML := hiddenYAML
    tasks := [{ id := "load_0", command := "x" }, { id := "load", command := "y" },
      { id := "mail", command := "z", deps := ["load_0"] }] }

/-- The last task waits for the shard and not for the plain task of the same id. -/
theorem plain_task_hidden :
    parse hiddenEnv hiddenYAML = .ok hiddenDag ∧ hiddenEnv.decode hiddenYAML = .ok (hiddenDocument, .eof) ∧
      ¬ Preserves hiddenEnv hiddenDocument.tasks hiddenDag.tasks := by
  refine ⟨by decide +kernel, by decide +kernel, ?_⟩
  intro hp
  have hdepends := hp.depends hiddenDocument.tasks[2] (by decide) hiddenDocument.tasks[1] (by decide) hiddenDag.tasks[2]
    (by decide) hiddenDag.tasks[1] (by decide) (by decide +kernel) (by decide +kernel)
  have hlost : hiddenDag.tasks[1].id ∉ hiddenDag.tasks[2].deps := by decide
  exact hlost (hdepends.mpr (by decide))

end Cronova.Properties.FanOut
