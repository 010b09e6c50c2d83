import Cronova.Web.Graph
import Cronova.Concurrency.Machine
import Cronova.Properties.Executable

/-! The graph editor and the server agree on cycles: whatever the events of a session make
of the tasks of a definition, the server finds no cycle in them. -/
namespace Cronova.Properties.GraphEdits
open Cronova.Web Cronova.Concurrency

def Needs (tasks : List GraphTask) (a b : String) : Prop := ∃ t ∈ tasks, t.id = a ∧ b ∈ t.deps

/-- Tasks of different names that depend on each other only. -/
structure Linked (tasks : List GraphTask) : Prop where
  ids : (tasks.map (·.id)).Nodup
  plain : ∀ t ∈ tasks, t.id ≠ "" ∧ t.id ∉ inherited
  deps : ∀ t ∈ tasks, t.deps.Nodup ∧ ∀ d ∈ t.deps, d ∈ tasks.map (·.id)

def Acyclic (tasks : List GraphTask) : Prop := ∀ id, ¬ Relation.TransGen (Needs tasks) id id

structure Sound (tasks : List GraphTask) : Prop where
  linked : Linked tasks
  acyclic : Acyclic tasks

/-- A map into a graph without cycles that keeps the edges. -/
theorem Acyclic.of_hom {old new : List GraphTask} (hold : Acyclic old) (f : String → String)
    (hf : ∀ a b, Needs new a b → Needs old (f a) (f b)) : Acyclic new :=
  fun id hcycle => hold (f id) (hcycle.lift f hf)

section Lookup
variable {tasks : List GraphTask} {t u : GraphTask} {a b id : String}

theorem Linked.same (h : Linked tasks) (ht : t ∈ tasks) (hu : u ∈ tasks) (hid : t.id = u.id) : t = u :=
  List.inj_on_of_nodup_map h.ids ht hu hid

theorem byId_self (h : Linked tasks) (ht : t ∈ tasks) : byId tasks t.id = some t.deps := by
  unfold byId
  cases hfind : tasks.reverse.find? (fun u => decide (u.id = t.id)) with
  | none =>
    have hnone := List.find?_eq_none.1 hfind t (List.mem_reverse.2 ht)
    exact absurd (decide_eq_true rfl) hnone
  | some u =>
    have hu : u ∈ tasks := List.mem_reverse.1 (List.mem_of_find?_eq_some hfind)
    have hid : u.id = t.id := by simpa using List.find?_some hfind
    rw [h.same hu ht hid]

theorem byId_other (ha : a ∉ tasks.map (·.id)) : (byId tasks a).getD [] = [] := by
  unfold byId
  have hnone : tasks.reverse.find? (fun u => decide (u.id = a)) = none := by
    rw [List.find?_eq_none]
    intro u hu hid
    exact ha (List.mem_map.2 ⟨u, List.mem_reverse.1 hu, of_decide_eq_true hid⟩)
  rw [hnone]
  by_cases hin : a ∈ inherited
  · simp only [hin, if_true, Option.getD_some]
  · simp only [hin, if_false, Option.getD_none]

theorem edge_iff (h : Linked tasks) : Graph.Edge (followed tasks) a b ↔ Needs tasks a b := by
  unfold Graph.Edge followed
  rw [List.mem_filter]
  constructor
  · rintro ⟨hb, -⟩
    by_cases ha : a ∈ tasks.map (·.id)
    · obtain ⟨t, ht, rfl⟩ := List.mem_map.1 ha
      rw [byId_self h ht, Option.getD_some] at hb
      exact ⟨t, ht, rfl, hb⟩
    · rw [byId_other ha] at hb
      cases hb
  · rintro ⟨t, ht, rfl, hb⟩
    obtain ⟨u, hu, rfl⟩ := List.mem_map.1 ((h.deps t ht).2 b hb)
    rw [byId_self h ht, byId_self h hu, Option.getD_some]
    exact ⟨hb, rfl⟩

/-- The cycle check of the console answers, and it is right. -/
theorem hasCycle_linked (h : Linked tasks) :
    ∃ cyc, hasCycle tasks = some cyc ∧ (cyc = true ↔ ∃ id, Relation.TransGen (Needs tasks) id id) := by
  have hnodes : ∀ n, followed tasks n ≠ [] → n ∈ (tasks.map (·.id)).filter (fun id => id ≠ "" ∧ id ∉ inherited) := by
    intro n hn
    obtain ⟨b, hb⟩ := List.exists_mem_of_ne_nil _ hn
    obtain ⟨t, ht, rfl, -⟩ := (edge_iff h).1 hb
    exact List.mem_filter.2 ⟨List.mem_map_of_mem ht, decide_eq_true (h.plain t ht)⟩
  have hfuel : ((tasks.map (·.id)).filter (fun id => id ≠ "" ∧ id ∉ inherited)).length + 1 ≤ tasks.length + 1 := by
    have hle := List.length_filter_le (fun id => decide (id ≠ "" ∧ id ∉ inherited)) (tasks.map (·.id))
    rw [List.length_map] at hle
    omega
  have hedges : Graph.Edge (followed tasks) = Needs tasks := by
    funext a b
    exact propext (edge_iff h)
  obtain ⟨s, hs, hcyc⟩ := Graph.colour_exact hnodes hfuel
  rw [hedges] at hcyc
  refine ⟨s.cyc, ?_, hcyc⟩
  unfold hasCycle
  rw [hs, Option.map_some]

theorem Linked.filter (h : Linked tasks) : tasks.filter (fun t => t.id ≠ "") = tasks :=
  List.filter_eq_self.2 (fun t ht => decide_eq_true (h.plain t ht).1)

theorem hasCycle_false (h : Linked tasks) : hasCycle tasks = some false ↔ Acyclic tasks := by
  obtain ⟨cyc, hcyc, hiff⟩ := hasCycle_linked h
  rw [hcyc]
  cases cyc with
  | false => exact ⟨fun _ id hid => Bool.noConfusion (hiff.2 ⟨id, hid⟩), fun _ => rfl⟩
  | true =>
    obtain ⟨id, hid⟩ := hiff.1 rfl
    exact ⟨fun hfalse => absurd hfalse (by decide), fun hacyclic => absurd hid (hacyclic id)⟩

end Lookup

/-! ### Dependencies of one task -/

section WithDeps
variable {tasks : List GraphTask} {id : String} {f : List String → List String}

theorem withDeps_ids : (withDeps id f tasks).map (·.id) = tasks.map (·.id) := by
  induction tasks with
  | nil => rfl
  | cons t tasks ih =>
    rw [withDeps]
    by_cases hid : t.id = id
    · rw [if_pos hid]
      rfl
    · rw [if_neg hid, List.map_cons, List.map_cons, ih]

theorem mem_withDeps {t : GraphTask} (ht : t ∈ withDeps id f tasks) :
    t ∈ tasks ∨ ∃ u ∈ tasks, u.id = id ∧ t = { u with deps := f u.deps } := by
  induction tasks with
  | nil => exact .inl ht
  | cons a tasks ih =>
    rw [withDeps] at ht
    by_cases hid : a.id = id
    · rw [if_pos hid] at ht
      rcases List.mem_cons.1 ht with rfl | ht
      · exact .inr ⟨a, List.mem_cons_self, hid, rfl⟩
      · exact .inl (List.mem_cons_of_mem a ht)
    · rw [if_neg hid] at ht
      rcases List.mem_cons.1 ht with rfl | ht
      · exact .inl List.mem_cons_self
      · rcases ih ht with ht | ⟨u, hu, huid, heq⟩
        · exact .inl (List.mem_cons_of_mem a ht)
        · exact .inr ⟨u, List.mem_cons_of_mem a hu, huid, heq⟩

theorem Linked.withDeps (h : Linked tasks)
    (hf : ∀ u ∈ tasks, u.id = id → (f u.deps).Nodup ∧ ∀ d ∈ f u.deps, d ∈ tasks.map (·.id)) : Linked (withDeps id f tasks) where
  ids := by
    rw [withDeps_ids]
    exact h.ids
  plain t ht := by
    rcases mem_withDeps ht with ht | ⟨u, hu, -, rfl⟩
    · exact h.plain t ht
    · exact h.plain u hu
  deps t ht := by
    rw [withDeps_ids]
    rcases mem_withDeps ht with ht | ⟨u, hu, hid, rfl⟩
    · exact h.deps t ht
    · exact hf u hu hid

theorem Acyclic.withDeps (h : Acyclic tasks) (hf : ∀ u ∈ tasks, u.id = id → f u.deps ⊆ u.deps) : Acyclic (withDeps id f tasks) := by
  apply h.of_hom (fun a => a)
  rintro a b ⟨t, ht, rfl, hb⟩
  rcases mem_withDeps ht with ht | ⟨u, hu, hid, rfl⟩
  · exact ⟨t, ht, rfl, hb⟩
  · exact ⟨u, hu, rfl, hf u hu hid hb⟩

theorem Sound.erase (h : Sound tasks) (dep : String) : Sound (withDeps id (fun deps => deps.erase dep) tasks) where
  linked := h.linked.withDeps (fun u hu _ =>
    ⟨(h.linked.deps u hu).1.erase dep, fun d hd => (h.linked.deps u hu).2 d (List.mem_of_mem_erase hd)⟩)
  acyclic := h.acyclic.withDeps (fun _ _ _ => List.erase_subset)

theorem withDeps_withDeps {g : List String → List String} : withDeps id g (withDeps id f tasks) = withDeps id (fun deps => g (f deps)) tasks := by
  induction tasks with
  | nil => rfl
  | cons t tasks ih =>
    rw [withDeps, withDeps]
    by_cases hid : t.id = id
    · rw [if_pos hid, if_pos hid, withDeps, if_pos hid]
    · rw [if_neg hid, if_neg hid, withDeps, if_neg hid, ih]

theorem withDeps_congr {g : List String → List String} (hfg : ∀ u ∈ tasks, u.id = id → f u.deps = g u.deps) : withDeps id f tasks = withDeps id g tasks := by
  induction tasks with
  | nil => rfl
  | cons t tasks ih =>
    rw [withDeps, withDeps]
    by_cases hid : t.id = id
    · rw [if_pos hid, if_pos hid, hfg t List.mem_cons_self hid]
    · rw [if_neg hid, if_neg hid, ih (fun u hu => hfg u (List.mem_cons_of_mem t hu))]

theorem withDeps_self : withDeps id (fun deps => deps) tasks = tasks := by
  induction tasks with
  | nil => rfl
  | cons t tasks ih =>
    rw [withDeps, ih]
    split
    · rfl
    · rfl

theorem toggled_toggled {dep : String} {deps : List String} (h : dep ∉ deps) : toggled dep (toggled dep deps) = deps := by
  unfold toggled
  rw [if_neg h, if_pos (List.mem_append_right deps (List.mem_singleton_self dep)), List.erase_append_right _ h, List.erase_cons_head,
    List.append_nil]

/-- A dependency more. -/
theorem Linked.push (h : Linked tasks) (id : String) {dep : String} (hdep : dep ∈ tasks.map (·.id)) (hnew : ∀ u ∈ tasks, u.id = id → dep ∉ u.deps) :
    Linked (Web.withDeps id (fun deps => deps ++ [dep]) tasks) := by
  apply h.withDeps
  intro u hu hid
  constructor
  · exact (h.deps u hu).1.append (List.nodup_singleton dep) (by simpa using hnew u hu hid)
  · intro d hd
    rcases List.mem_append.1 hd with hd | hd
    · exact (h.deps u hu).2 d hd
    · rw [List.mem_singleton.1 hd]
      exact hdep

end WithDeps

/-! ### Tasks that come and go -/

section Tasks
variable {tasks : List GraphTask}

theorem Linked.append (h : Linked tasks) {t : GraphTask} (hid : t.id ∉ tasks.map (·.id)) (hplain : t.id ≠ "" ∧ t.id ∉ inherited)
    (hdeps : t.deps.Nodup ∧ ∀ d ∈ t.deps, d ∈ tasks.map (·.id)) : Linked (tasks ++ [t]) where
  ids := by
    rw [List.map_append]
    exact h.ids.append (List.nodup_singleton t.id) (by simpa using hid)
  plain u hu := by
    rcases List.mem_append.1 hu with hu | hu
    · exact h.plain u hu
    · rw [List.mem_singleton.1 hu]
      exact hplain
  deps u hu := by
    have hknown : u.deps.Nodup ∧ ∀ d ∈ u.deps, d ∈ tasks.map (·.id) := by
      rcases List.mem_append.1 hu with hu | hu
      · exact h.deps u hu
      · rw [List.mem_singleton.1 hu]
        exact hdeps
    rw [List.map_append]
    exact ⟨hknown.1, fun d hd => List.mem_append_left _ (hknown.2 d hd)⟩

/-- A task that no other depends on closes no cycle. -/
theorem Sound.append (h : Sound tasks) {t : GraphTask} (hid : t.id ∉ tasks.map (·.id)) (hplain : t.id ≠ "" ∧ t.id ∉ inherited)
    (hdeps : t.deps.Nodup ∧ ∀ d ∈ t.deps, d ∈ tasks.map (·.id)) : Sound (tasks ++ [t]) where
  linked := h.linked.append hid hplain hdeps
  acyclic := by
    have hedge : ∀ {a b}, Needs (tasks ++ [t]) a b → b ≠ t.id ∧ (a ≠ t.id → Needs tasks a b) := by
      rintro a b ⟨u, hu, rfl, hb⟩
      rcases List.mem_append.1 hu with hu | hu
      · exact ⟨fun heq => hid (heq ▸ (h.linked.deps u hu).2 b hb), fun _ => ⟨u, hu, rfl, hb⟩⟩
      · rw [List.mem_singleton.1 hu] at hb ⊢
        exact ⟨fun heq => hid (heq ▸ hdeps.2 b hb), fun hne => absurd rfl hne⟩
    have hpath : ∀ {a b}, Relation.TransGen (Needs (tasks ++ [t])) a b →
        b ≠ t.id ∧ (a ≠ t.id → Relation.TransGen (Needs tasks) a b) := by
      intro a b hab
      induction hab with
      | single hstep => exact ⟨(hedge hstep).1, fun ha => .single ((hedge hstep).2 ha)⟩
      | tail _ hstep ih => exact ⟨(hedge hstep).1, fun ha => .tail (ih.2 ha) ((hedge hstep).2 ih.1)⟩
    intro a hcycle
    obtain ⟨hne, hold⟩ := hpath hcycle
    exact h.acyclic a (hold hne)

theorem Sound.add (h : Sound tasks) {id : String} (hid : id ∉ tasks.map (·.id)) (hne : id ≠ "") (hplain : id ∉ inherited) :
    Sound (tasks ++ [{ id := id, deps := [] }]) :=
  h.append hid ⟨hne, hplain⟩ ⟨List.nodup_nil, fun d hd => by cases hd⟩

theorem Sound.delete (h : Sound tasks) (taskID : String) :
    Sound ((tasks.filter (fun t => t.id ≠ taskID)).map (fun t => { t with deps := t.deps.filter (fun dep => dep ≠ taskID) })) := by
  have hmem : ∀ {t}, t ∈ (tasks.filter (fun t => t.id ≠ taskID)).map (fun t => { t with deps := t.deps.filter (fun dep => dep ≠ taskID) }) →
      ∃ u ∈ tasks, t = { u with deps := u.deps.filter (fun dep => dep ≠ taskID) } := by
    intro t ht
    obtain ⟨u, hu, rfl⟩ := List.mem_map.1 ht
    exact ⟨u, (List.mem_filter.1 hu).1, rfl⟩
  have hids : ((tasks.filter (fun t => t.id ≠ taskID)).map (fun t => { t with deps := t.deps.filter (fun dep => dep ≠ taskID) })).map (·.id) =
      (tasks.filter (fun t => t.id ≠ taskID)).map (·.id) := by
    rw [List.map_map]
    rfl
  constructor
  · constructor
    · rw [hids]
      exact h.linked.ids.sublist (List.filter_sublist.map _)
    · intro t ht
      obtain ⟨u, hu, rfl⟩ := hmem ht
      exact h.linked.plain u hu
    · intro t ht
      obtain ⟨u, hu, rfl⟩ := hmem ht
      refine ⟨(h.linked.deps u hu).1.filter _, ?_⟩
      intro d hd
      obtain ⟨hd, hne⟩ := List.mem_filter.1 hd
      obtain ⟨v, hv, rfl⟩ := List.mem_map.1 ((h.linked.deps u hu).2 d hd)
      rw [hids]
      exact List.mem_map_of_mem (List.mem_filter.2 ⟨hv, hne⟩)
  · apply h.acyclic.of_hom (fun a => a)
    rintro a b ⟨t, ht, rfl, hb⟩
    obtain ⟨u, hu, rfl⟩ := hmem ht
    exact ⟨u, hu, rfl, (List.mem_filter.1 hb).1⟩

end Tasks

/-! ### A new name -/

theorem replace_eq_map {l : List String} (hl : l.Nodup) (a b : String) : l.replace a b = l.map (fun x => if x = a then b else x) := by
  induction l with
  | nil => rfl
  | cons x l ih =>
    obtain ⟨hx, hl⟩ := List.nodup_cons.1 hl
    by_cases hxa : x = a
    · subst hxa
      have hrest : l.map (fun y => if y = x then b else y) = l.map (fun y => y) := by
        apply List.map_congr_left
        intro y hy
        rw [if_neg]
        rintro rfl
        exact hx hy
      rw [List.replace_cons_self, List.map_cons, if_pos rfl, hrest, List.map_id']
    · have hbeq : (a == x) = false := beq_eq_false_iff_ne.2 (Ne.symm hxa)
      rw [List.replace_cons, hbeq, List.map_cons, if_neg hxa, ← ih hl]

theorem nodup_replace {l : List String} (hl : l.Nodup) {a b : String} (hb : b ∉ l) : (l.replace a b).Nodup := by
  rw [replace_eq_map hl]
  apply List.Nodup.map_on _ hl
  intro x hx y hy heq
  by_cases hxa : x = a
  · by_cases hya : y = a
    · rw [hxa, hya]
    · rw [if_pos hxa, if_neg hya] at heq
      exact absurd (heq ▸ hy) hb
  · by_cases hya : y = a
    · rw [if_neg hxa, if_pos hya] at heq
      exact absurd (heq ▸ hx) hb
    · rwa [if_neg hxa, if_neg hya] at heq

theorem mem_replace {l : List String} (hl : l.Nodup) {a b x : String} (hx : x ∈ l.replace a b) : x = b ∧ a ∈ l ∨ x ∈ l ∧ x ≠ a := by
  rw [replace_eq_map hl] at hx
  obtain ⟨y, hy, rfl⟩ := List.mem_map.1 hx
  by_cases hya : y = a
  · subst hya
    rw [if_pos rfl]
    exact .inl ⟨rfl, hy⟩
  · rw [if_neg hya]
    exact .inr ⟨hy, hya⟩

section Renamed
variable {tasks : List GraphTask} {oldId newId : String}

theorem renamed_ids : (renamed oldId newId tasks).map (·.id) = (tasks.map (·.id)).replace oldId newId := by
  induction tasks with
  | nil => rfl
  | cons t tasks ih =>
    rw [renamed, List.map_cons]
    by_cases hid : t.id = oldId
    · rw [if_pos hid, hid, List.replace_cons_self, List.map_cons, List.map_map]
      rfl
    · have hbeq : (oldId == t.id) = false := beq_eq_false_iff_ne.2 (Ne.symm hid)
      rw [if_neg hid, List.replace_cons, hbeq, List.map_cons, ih]
      rfl

theorem mem_renamed {t : GraphTask} (ht : t ∈ renamed oldId newId tasks) :
    ∃ u ∈ tasks, t = relink oldId newId u ∨ u.id = oldId ∧ t = { u with id := newId } := by
  induction tasks with
  | nil => cases ht
  | cons a tasks ih =>
    rw [renamed] at ht
    by_cases hid : a.id = oldId
    · rw [if_pos hid] at ht
      rcases List.mem_cons.1 ht with rfl | ht
      · exact ⟨a, List.mem_cons_self, .inr ⟨hid, rfl⟩⟩
      · obtain ⟨u, hu, rfl⟩ := List.mem_map.1 ht
        exact ⟨u, List.mem_cons_of_mem a hu, .inl rfl⟩
    · rw [if_neg hid] at ht
      rcases List.mem_cons.1 ht with rfl | ht
      · exact ⟨a, List.mem_cons_self, .inl rfl⟩
      · obtain ⟨u, hu, heq⟩ := ih ht
        exact ⟨u, List.mem_cons_of_mem a hu, heq⟩

/-- A name that is not in use stands for another. -/
theorem standing_same {name old b : String} (hname : name ∉ tasks.map (·.id)) (hb : b ∈ tasks.map (·.id)) : (if b = name then old else b) = b := by
  rw [if_neg]
  rintro rfl
  exact hname hb

/-- The new name stands for the old one. -/
theorem Sound.rename (h : Sound tasks) (hnew : newId ∉ tasks.map (·.id)) (hne : newId ≠ "") (hplain : newId ∉ inherited) :
    Sound (renamed oldId newId tasks) := by
  have hknown : ∀ {u d}, u ∈ tasks → d ∈ u.deps → d ≠ oldId → d ∈ (renamed oldId newId tasks).map (·.id) := by
    intro u d hu hd hd'
    rw [renamed_ids, replace_eq_map h.linked.ids]
    exact List.mem_map.2 ⟨d, (h.linked.deps u hu).2 d hd, if_neg hd'⟩
  have hnewdep : ∀ {u}, u ∈ tasks → newId ∉ u.deps := fun hu hd => hnew ((h.linked.deps _ hu).2 _ hd)
  constructor
  · constructor
    · rw [renamed_ids]
      exact nodup_replace h.linked.ids hnew
    · intro t ht
      obtain ⟨u, hu, rfl | ⟨-, rfl⟩⟩ := mem_renamed ht
      · exact h.linked.plain u hu
      · exact ⟨hne, hplain⟩
    · intro t ht
      obtain ⟨u, hu, rfl | ⟨hid, rfl⟩⟩ := mem_renamed ht
      · refine ⟨nodup_replace (h.linked.deps u hu).1 (hnewdep hu), ?_⟩
        intro d hd
        rcases mem_replace (h.linked.deps u hu).1 hd with ⟨rfl, hold⟩ | ⟨hd, hd'⟩
        · rw [renamed_ids, replace_eq_map h.linked.ids]
          exact List.mem_map.2 ⟨oldId, (h.linked.deps u hu).2 oldId hold, if_pos rfl⟩
        · exact hknown hu hd hd'
      · refine ⟨(h.linked.deps u hu).1, ?_⟩
        intro d hd
        apply hknown hu hd
        -- the task does not depend on itself
        rintro rfl
        exact h.acyclic d (.single ⟨u, hu, hid, hd⟩)
  · apply h.acyclic.of_hom (fun a => if a = newId then oldId else a)
    rintro a b ⟨t, ht, rfl, hb⟩
    obtain ⟨u, hu, rfl | ⟨hid, rfl⟩⟩ := mem_renamed ht
    · change Needs tasks (if u.id = newId then oldId else u.id) _
      rw [standing_same hnew (List.mem_map_of_mem hu)]
      rcases mem_replace (h.linked.deps u hu).1 hb with ⟨rfl, hold⟩ | ⟨hb, -⟩
      · rw [if_pos rfl]
        exact ⟨u, hu, rfl, hold⟩
      · rw [standing_same hnew ((h.linked.deps u hu).2 b hb)]
        exact ⟨u, hu, rfl, hb⟩
    · rw [if_pos rfl, standing_same hnew ((h.linked.deps u hu).2 b hb)]
      exact ⟨u, hu, hid, hb⟩

end Renamed

/-! ### The order of the steps -/

section Steps
variable {tasks out rest : List GraphTask}

/-- Tasks that are put out, each behind its dependencies. -/
structure Placed (tasks out : List GraphTask) : Prop where
  subset : out ⊆ tasks
  ids : (out.map (·.id)).Nodup
  ordered : Graph.Ordered (followed tasks) (out.map (·.id)).reverse

/-- No task of a round is left that could be put out. -/
def Stuck (out rest : List GraphTask) : Prop := ∀ t ∈ rest, t.id ∉ out.map (·.id) → ∃ d ∈ t.deps, d ∉ out.map (·.id)

theorem byId_known (h : Linked tasks) {d : String} (hd : d ∈ tasks.map (·.id)) : (byId tasks d).isNone = false := by
  obtain ⟨u, hu, rfl⟩ := List.mem_map.1 hd
  rw [byId_self h hu]
  rfl

theorem Placed.append (h : Linked tasks) (hout : Placed tasks out) {t : GraphTask} (ht : t ∈ tasks) (hnew : t.id ∉ out.map (·.id))
    (hdeps : ∀ d ∈ t.deps, d ∈ out.map (·.id)) : Placed tasks (out ++ [t]) where
  subset u hu := by
    rcases List.mem_append.1 hu with hu | hu
    · exact hout.subset hu
    · rw [List.mem_singleton.1 hu]
      exact ht
  ids := by
    rw [List.map_append]
    exact hout.ids.append (List.nodup_singleton t.id) (by simpa using hnew)
  ordered := by
    rw [List.map_append, List.reverse_append]
    apply Graph.Ordered.cons _ hout.ordered
    intro d hd
    obtain ⟨u, hu, hid, hd⟩ := (edge_iff h).1 hd
    rw [h.same hu ht hid] at hd
    exact List.mem_reverse.2 (hdeps d hd)

/-- A round puts out what it can, and where it puts out nothing there is nothing. -/
theorem topoRound_placed (h : Linked tasks) (hout : Placed tasks out) (hrest : rest ⊆ tasks) :
    Placed tasks (topoRound tasks out rest) ∧ out.length ≤ (topoRound tasks out rest).length ∧
      ((topoRound tasks out rest).length = out.length → Stuck out rest) := by
  induction rest generalizing out with
  | nil => exact ⟨hout, Nat.le_refl _, fun _ t ht => by cases ht⟩
  | cons t rest ih =>
    obtain ⟨ht, hrest⟩ := List.cons_subset.1 hrest
    rw [topoRound]
    by_cases hdone : t.id ∈ out.map (·.id)
    · rw [if_pos hdone]
      obtain ⟨hplaced, hlength, hstuck⟩ := ih hout hrest
      refine ⟨hplaced, hlength, ?_⟩
      intro heq u hu hnew
      rcases List.mem_cons.1 hu with rfl | hu
      · exact absurd hdone hnew
      · exact hstuck heq u hu hnew
    · rw [if_neg hdone]
      by_cases hready : (t.deps.all (fun d => d ∈ out.map (·.id) || (byId tasks d).isNone)) = true
      · rw [if_pos hready]
        have hdeps : ∀ d ∈ t.deps, d ∈ out.map (·.id) := by
          intro d hd
          have hd' := List.all_eq_true.1 hready d hd
          rw [byId_known h ((h.deps t ht).2 d hd), Bool.or_false] at hd'
          exact of_decide_eq_true hd'
        obtain ⟨hplaced, hlength, -⟩ := ih (hout.append h ht hdone hdeps) hrest
        rw [List.length_append, List.length_singleton] at hlength
        refine ⟨hplaced, by omega, ?_⟩
        intro heq
        omega
      · rw [if_neg hready]
        obtain ⟨hplaced, hlength, hstuck⟩ := ih hout hrest
        refine ⟨hplaced, hlength, ?_⟩
        intro heq u hu hnew
        rcases List.mem_cons.1 hu with rfl | hu
        · by_contra hall
          push Not at hall
          apply hready
          rw [List.all_eq_true]
          intro d hd
          rw [Bool.or_eq_true]
          exact .inl (decide_eq_true (hall d hd))
        · exact hstuck heq u hu hnew

/-- The rounds end with all tasks, or with some that wait for each other. -/
theorem topoRounds_placed (h : Linked tasks) (hout : Placed tasks out) (fuel : ℕ) (hfuel : tasks.length ≤ fuel + out.length) :
    Placed tasks (topoRounds tasks fuel out) ∧ (tasks.length ≤ (topoRounds tasks fuel out).length ∨ Stuck (topoRounds tasks fuel out) tasks) := by
  induction fuel generalizing out with
  | zero => exact ⟨hout, .inl (by rw [topoRounds]; omega)⟩
  | succ fuel ih =>
    rw [topoRounds]
    by_cases hmore : out.length < tasks.length
    · rw [if_pos hmore]
      obtain ⟨hplaced, hlength, hstuck⟩ := topoRound_placed h hout (List.Subset.refl tasks)
      by_cases heq : (topoRound tasks out tasks).length = out.length
      · simp only [if_pos heq]
        exact ⟨hout, .inr (hstuck heq)⟩
      · simp only [if_neg heq]
        exact ih hplaced (by omega)
    · rw [if_neg hmore]
      exact ⟨hout, .inl (by omega)⟩

theorem placed_nil (tasks : List GraphTask) : Placed tasks [] := ⟨List.nil_subset tasks, List.nodup_nil, .nil⟩

/-- Among tasks without a cycle that are not all out, one can be put out. -/
theorem Sound.not_stuck (h : Sound tasks) {t : GraphTask} (ht : t ∈ tasks) (hnew : t.id ∉ out.map (·.id)) : ¬ Stuck out tasks := by
  intro hstuck
  have hedges : Graph.Edge (followed tasks) = Needs tasks := by
    funext a b
    exact propext (edge_iff h.linked)
  have hknown : ∀ {a b}, b ∈ followed tasks a → b ∈ tasks.map (·.id) := by
    intro a b hb
    obtain ⟨u, hu, -, hb⟩ := (edge_iff h.linked).1 hb
    exact (h.linked.deps u hu).2 b hb
  have hclosed : ∀ n ∈ tasks.map (·.id), followed tasks n ⊆ tasks.map (·.id) := fun _ _ _ hb => hknown hb
  have hacyclic : ∀ n ∈ tasks.map (·.id), ¬ Relation.TransGen (Graph.Edge (followed tasks)) n n := by
    intro n _
    rw [hedges]
    exact h.acyclic n
  obtain ⟨order, horder⟩ := (Graph.detect_iff hclosed).2 hacyclic
  obtain ⟨hordered, hall⟩ := Graph.detect_ordered horder
  obtain ⟨m, -, ⟨hm, hm'⟩, hmin⟩ := hordered.exists_minimal (P := fun n => n ∈ tasks.map (·.id) ∧ n ∉ out.map (·.id))
    (hall (List.mem_map_of_mem ht)) ⟨List.mem_map_of_mem ht, hnew⟩
  obtain ⟨u, hu, rfl⟩ := List.mem_map.1 hm
  obtain ⟨d, hd, hd'⟩ := hstuck u hu hm'
  exact hmin d ((edge_iff h.linked).2 ⟨u, hu, rfl, hd⟩) ⟨(h.linked.deps u hu).2 d hd, hd'⟩

theorem topoOrder_perm (h : Linked tasks) : (topoOrder tasks).Perm tasks := by
  obtain ⟨hplaced, -⟩ := topoRounds_placed h (placed_nil tasks) tasks.length (by simp)
  have hnodup : tasks.Nodup := List.Nodup.of_map _ h.ids
  have hout : (topoRounds tasks tasks.length []).Nodup := List.Nodup.of_map _ hplaced.ids
  unfold topoOrder
  refine (List.perm_ext_iff_of_nodup ?_ hnodup).2 ?_
  · apply hout.append (hnodup.filter _)
    intro t ht ht'
    have hnot := of_decide_eq_true (List.mem_filter.1 ht').2
    exact hnot (List.mem_map_of_mem ht)
  · intro t
    rw [List.mem_append]
    constructor
    · rintro (ht | ht)
      · exact hplaced.subset ht
      · exact (List.mem_filter.1 ht).1
    · intro ht
      by_cases hdone : t.id ∈ (topoRounds tasks tasks.length []).map (·.id)
      · obtain ⟨u, hu, hid⟩ := List.mem_map.1 hdone
        rw [h.same ht (hplaced.subset hu) hid.symm]
        exact .inl hu
      · exact .inr (List.mem_filter.2 ⟨ht, decide_eq_true hdone⟩)

/-- Steps that are listed the wrong way round. -/
def backwards : List GraphTask := [{ id := "load", deps := ["transform"] }, { id := "transform", deps := ["extract"] }, { id := "extract", deps := [] }]

end Steps

/-! ### Sessions -/

/-- The graph shows tasks that are there; a new name is not one that every object has. -/
def Allowed (s : GraphSession) : GraphEvent → Prop
  | .toggleDep up _ _ => up ∈ s.ids
  | .chip _ dep => dep ∈ s.ids
  | .addTaskFromGraph id => id ∉ inherited
  | .addTask id => id ≠ "" ∧ id ∉ inherited
  | .nvAddStep id => id ≠ "" ∧ id ∉ inherited
  | .duplicateTask _ nid => nid ≠ "" ∧ nid ∉ inherited
  | .rename _ newId => newId ∉ inherited
  | _ => True

structure Kept (s : GraphSession) : Prop where
  tasks : Sound s.tasks
  base : ∀ tasks, s.graphBase = some tasks → Sound tasks

section Session
variable {s s' : GraphSession}

theorem Kept.set (h : Kept s) {tasks : List GraphTask} (htasks : Sound tasks) : Kept { s with tasks := tasks } :=
  ⟨htasks, h.base⟩

theorem Kept.getD (h : Kept s) : Sound (s.graphBase.getD s.tasks) := by
  cases hbase : s.graphBase with
  | none => exact h.tasks
  | some tasks => exact h.base tasks hbase

theorem Kept.mutate (h : Kept s) {tasks : List GraphTask} (htasks : Sound tasks) : Kept (s.graphMutate tasks) :=
  ⟨htasks, fun _ hbase => Option.some.inj hbase ▸ h.getD⟩

theorem idPattern_ne {id : String} (h : Text.idPattern id ≠ false) : id ≠ "" := by
  rintro rfl
  exact h (by decide)

theorem find_mem {tasks : List GraphTask} {id : String} {t : GraphTask} (h : tasks.find? (fun t => t.id = id) = some t) : t ∈ tasks ∧ t.id = id :=
  ⟨List.mem_of_find?_eq_some h, by simpa using List.find?_some h⟩

/-- A check that finds no cycle in a graph that may have one. -/
theorem sound_of_check {tasks : List GraphTask} (h : Linked tasks) (hcheck : hasCycle (tasks.filter (fun t => t.id ≠ "")) = some false) : Sound tasks := by
  rw [h.filter] at hcheck
  exact ⟨h, (hasCycle_false h).1 hcheck⟩

theorem kept_toggleDep (h : Kept s) {up down : String} {allowRemove : Bool} (hup : up ∈ s.ids)
    (hstep : s.graphToggleDep up down allowRemove = some s') : Kept s' := by
  unfold GraphSession.graphToggleDep at hstep
  cases hfind : s.tasks.find? (fun t => decide (t.id = down)) with
  | none =>
    rw [hfind] at hstep
    cases hstep
    exact h
  | some dt =>
    obtain ⟨hdt, hid⟩ := find_mem hfind
    simp only [hfind] at hstep
    by_cases hself : up = down
    · rw [if_pos hself] at hstep
      cases hstep
      exact h
    · rw [if_neg hself] at hstep
      by_cases hin : up ∈ dt.deps
      · rw [if_pos hin] at hstep
        by_cases hremove : allowRemove = true
        · rw [if_pos hremove] at hstep
          cases hstep
          exact h.mutate (h.tasks.erase up)
        · rw [if_neg hremove] at hstep
          cases hstep
          exact h
      · rw [if_neg hin] at hstep
        have hpushed := h.tasks.linked.push down hup (fun u hu huid => by
          rw [h.tasks.linked.same hu hdt (huid.trans hid.symm)]
          exact hin)
        obtain ⟨cyc, hcyc, rfl⟩ := Option.map_eq_some_iff.1 hstep
        cases cyc with
        | true => exact h
        | false => exact h.mutate (sound_of_check hpushed hcyc)

/-- A chip that closes a cycle is put back; one that is taken off closes none. -/
theorem kept_chip (h : Kept s) {id dep : String} (hdep : dep ∈ s.ids) (hstep : s.chip id dep = some s') : Kept s' := by
  unfold GraphSession.chip at hstep
  cases hfind : s.tasks.find? (fun t => decide (t.id = id)) with
  | none =>
    rw [hfind] at hstep
    cases hstep
    exact h
  | some tk =>
    obtain ⟨htk, hid⟩ := find_mem hfind
    have hsame : ∀ u ∈ s.tasks, u.id = id → u = tk := fun u hu huid => h.tasks.linked.same hu htk (huid.trans hid.symm)
    simp only [hfind] at hstep
    obtain ⟨cyc, hcyc, rfl⟩ := Option.map_eq_some_iff.1 hstep
    by_cases hin : dep ∈ tk.deps
    · have heq : withDeps id (toggled dep) s.tasks = withDeps id (fun deps => deps.erase dep) s.tasks :=
        withDeps_congr (fun u hu huid => by rw [hsame u hu huid, toggled, if_pos hin])
      have herased : Sound (withDeps id (fun deps => deps.erase dep) s.tasks) := h.tasks.erase dep
      rw [heq] at hcyc ⊢
      rw [herased.linked.filter, (hasCycle_false herased.linked).2 herased.acyclic] at hcyc
      cases hcyc
      exact h.set herased
    · have heq : withDeps id (toggled dep) s.tasks = withDeps id (fun deps => deps ++ [dep]) s.tasks :=
        withDeps_congr (fun u hu huid => by rw [hsame u hu huid, toggled, if_neg hin])
      cases cyc with
      | true =>
        have hback : withDeps id (toggled dep) (withDeps id (toggled dep) s.tasks) = s.tasks := by
          rw [withDeps_withDeps]
          have hstay : withDeps id (fun deps => toggled dep (toggled dep deps)) s.tasks = withDeps id (fun deps => deps) s.tasks :=
            withDeps_congr (fun u hu huid => by rw [hsame u hu huid, toggled_toggled hin])
          rw [hstay, withDeps_self]
        exact h.set (by rw [if_pos rfl, hback]; exact h.tasks)
      | false =>
        have hpushed := h.tasks.linked.push id hdep (fun u hu huid => by
          rw [hsame u hu huid]
          exact hin)
        rw [heq] at hcyc
        exact h.set (by rw [if_neg Bool.false_ne_true, heq]; exact sound_of_check hpushed hcyc)

theorem kept_duplicateTask (h : Kept s) {taskID nid : String} (hne : nid ≠ "") (hplain : nid ∉ inherited)
    (hstep : s.duplicateTask taskID nid = some s') : Kept s' := by
  unfold GraphSession.duplicateTask at hstep
  cases hfind : s.tasks.find? (fun t => decide (t.id = taskID)) with
  | none =>
    rw [hfind] at hstep
    cases hstep
    exact h
  | some src =>
    simp only [hfind] at hstep
    by_cases hid : nid ∈ s.ids
    · rw [if_pos hid] at hstep
      cases hstep
    · rw [if_neg hid] at hstep
      cases hstep
      exact h.set (h.tasks.append hid ⟨hne, hplain⟩ (h.tasks.linked.deps src (find_mem hfind).1))

theorem kept_nvAddStep (h : Kept s) {id : String} (hne : id ≠ "") (hplain : id ∉ inherited) (hstep : s.nvAddStep id = some s') : Kept s' := by
  unfold GraphSession.nvAddStep at hstep
  rw [h.tasks.linked.filter] at hstep
  by_cases hid : id ∈ s.ids
  · simp only [if_pos hid] at hstep
    cases hstep
  · simp only [if_neg hid] at hstep
    cases hstep
    apply h.set (h.tasks.append hid ⟨hne, hplain⟩ _)
    cases hlast : (topoOrder s.tasks).getLast? with
    | none => exact ⟨List.nodup_nil, fun d hd => by cases hd⟩
    | some u =>
      have hu : u ∈ s.tasks := (topoOrder_perm h.tasks.linked).subset (List.mem_of_getLast? hlast)
      refine ⟨List.nodup_singleton u.id, ?_⟩
      intro d hd
      rw [List.mem_singleton.1 hd]
      exact List.mem_map_of_mem hu

theorem kept_rename (h : Kept s) (oldId : String) {newId : String} (hplain : newId ∉ inherited) : Kept (s.renameActiveTask oldId newId) := by
  unfold GraphSession.renameActiveTask
  by_cases hrefused : newId = oldId ∨ Text.idPattern newId = false ∨ newId ∈ s.ids
  · rw [if_pos hrefused]
    exact h
  · rw [if_neg hrefused]
    push Not at hrefused
    obtain ⟨-, hpattern, hnew⟩ := hrefused
    exact h.set (h.tasks.rename hnew (idPattern_ne hpattern) hplain)

theorem kept_step (h : Kept s) {e : GraphEvent} (hok : Allowed s e) (hstep : s.step e = some s') : Kept s' := by
  cases e with
  | toggleDep up down allowRemove => exact kept_toggleDep h hok hstep
  | chip id dep => exact kept_chip h hok hstep
  | addTaskFromGraph id =>
    simp only [GraphSession.step] at hstep
    by_cases hrefused : Text.idPattern id = false ∨ id ∈ s.ids
    · rw [if_pos hrefused] at hstep
      cases hstep
      exact h
    · rw [if_neg hrefused] at hstep
      cases hstep
      push Not at hrefused
      exact h.mutate (h.tasks.add hrefused.2 (idPattern_ne hrefused.1) hok)
  | addTask id =>
    simp only [GraphSession.step] at hstep
    by_cases hid : id ∈ s.ids
    · rw [if_pos hid] at hstep
      cases hstep
    · rw [if_neg hid] at hstep
      cases hstep
      exact h.set (h.tasks.add hid hok.1 hok.2)
  | nvAddStep id => exact kept_nvAddStep h hok.1 hok.2 hstep
  | duplicateTask taskID nid => exact kept_duplicateTask h hok.1 hok.2 hstep
  | deleteTask taskID =>
    cases hstep
    exact h.set (h.tasks.delete taskID)
  | rename oldId newId =>
    cases hstep
    exact kept_rename h oldId hok
  | saveSession =>
    cases hstep
    exact ⟨h.tasks, fun _ hbase => by cases hbase⟩
  | discardSession =>
    cases hstep
    exact ⟨h.getD, fun _ hbase => by cases hbase⟩

end Session

/-! ### The server -/

section Server
open Cronova.Model Cronova.Parser Cronova.Properties.Executable
variable {tasks : List Task}

/-- What the graph has of a task of a definition. -/
def view (t : Task) : GraphTask := { id := t.id, deps := t.deps }

theorem view_ids : (tasks.map view).map (·.id) = tasks.map (·.id) := by
  rw [List.map_map]
  rfl

theorem needs_view : Needs (tasks.map view) = DependsOn tasks := by
  funext a b
  refine propext ⟨?_, ?_⟩
  · rintro ⟨t, ht, rfl, hb⟩
    obtain ⟨u, hu, rfl⟩ := List.mem_map.1 ht
    exact ⟨u, hu, rfl, hb⟩
  · rintro ⟨u, hu, rfl, hb⟩
    exact ⟨view u, List.mem_map_of_mem hu, rfl, hb⟩

theorem detectCycle_linked (y : DagYAML) (h : Linked (tasks.map view)) :
    detectCycle y tasks = .ok () ↔ Acyclic (tasks.map view) := by
  have hids : (tasks.map (·.id)).Nodup := by
    rw [← view_ids]
    exact h.ids
  have hknown : ∀ t ∈ tasks, ∀ dep ∈ t.deps, dep ∈ tasks.map (·.id) := by
    intro t ht dep hdep
    rw [← view_ids]
    exact (h.deps (view t) (List.mem_map_of_mem ht)).2 dep hdep
  rw [(detectCycle_exact y hids hknown).2, Acyclic, needs_view]

/-- On tasks of different names that depend on each other only, the check of the console
ends and finds a cycle exactly where the server refuses the definition for one. -/
theorem hasCycle_detectCycle (y : DagYAML) (h : Linked (tasks.map view)) :
    ∃ cyc, hasCycle (tasks.map view) = some cyc ∧ (cyc = true ↔ detectCycle y tasks ≠ .ok ()) := by
  obtain ⟨cyc, hcyc, hiff⟩ := hasCycle_linked h
  refine ⟨cyc, hcyc, ?_⟩
  rw [hiff, ne_eq, detectCycle_linked y h, Acyclic, not_forall_not]

def loop : List Task := [{ id := "extract", deps := ["load"] }, { id := "load", deps := ["extract"] }]

theorem hasCycle_detectCycle_loop : hasCycle (loop.map view) = some true ∧ detectCycle {} loop ≠ .ok () := by
  have hlinked : Linked (loop.map view) := ⟨by decide, by decide, by decide⟩
  have htrue : hasCycle (loop.map view) = some true := by decide +kernel
  obtain ⟨cyc, hcyc, hiff⟩ := hasCycle_detectCycle {} hlinked
  rw [htrue] at hcyc
  cases hcyc
  exact ⟨htrue, hiff.1 rfl⟩

/-- The check takes tasks with names that every object has for visited. -/
example : hasCycle [{ id := "constructor", deps := ["valueOf"] }, { id := "valueOf", deps := ["constructor"] }] = some false := by
  decide +kernel

/-- The tasks of a definition that the server accepts. -/
theorem sound_view (h : Runnable tasks) (hplain : ∀ t ∈ tasks, t.id ∉ inherited) : Sound (tasks.map view) where
  linked :=
    { ids := by
        rw [view_ids]
        exact h.ids
      plain := by
        intro t ht
        obtain ⟨u, hu, rfl⟩ := List.mem_map.1 ht
        exact ⟨(h.valid u hu).1, hplain u hu⟩
      deps := by
        intro t ht
        obtain ⟨u, hu, rfl⟩ := List.mem_map.1 ht
        refine ⟨(h.deps u hu).1, ?_⟩
        intro d hd
        obtain ⟨v, hv, rfl, -⟩ := (h.deps u hu).2 d hd
        rw [view_ids]
        exact List.mem_map_of_mem hv }
  acyclic := by
    rw [Acyclic, needs_view]
    exact h.acyclic

def pipeline : List Task := [{ id := "extract" }, { id := "load", deps := ["extract"] }]

/-- A dependency that would close a cycle, a new name, a copy and a dependency of it. -/
def pipelineEdits : List GraphEvent :=
  [.toggleDep "load" "extract" false, .rename "extract" "fetch", .duplicateTask "load" "load_copy", .chip "load_copy" "load"]

def longerPipeline : List Task := [{ id := "fetch" }, { id := "load", deps := ["fetch"] }, { id := "load_copy", deps := ["fetch", "load"] }]

instance (s : GraphSession) (e : GraphEvent) : Decidable (Allowed s e) := by
  cases e <;> unfold Allowed <;> infer_instance

end Server

end Cronova.Properties.GraphEdits
