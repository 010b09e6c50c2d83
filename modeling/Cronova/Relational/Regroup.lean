import Mathlib.Data.List.Sort
import Mathlib.Data.List.Perm.Basic
import Mathlib.Tactic.Common

/-! Lists in groups. A list is rebuilt from a queue for each of its groups, where every
position takes the next element of the group that is there. -/
namespace Cronova.Relational.Regroup

section Fill
variable {α κ : Type*} [DecidableEq κ] (key : α → κ)

/-- How many elements of a group there are. -/
def members (group : κ) (rows : List α) : List α := rows.filter (fun a => key a = group)

/-- Every position takes the next element of its group; `front` has been placed already. -/
def fill (queues : κ → List α) (front rows : List α) : List α :=
  rows.mapIdx (fun i a => ((queues (key a))[(members key (key a) (front ++ rows.take i)).length]?).getD a)

/-- The queue of a group is as long as the group and has no other elements. -/
structure Fits (queues : κ → List α) (rows : List α) : Prop where
  length : ∀ group, (queues group).length = (members key group rows).length
  keys : ∀ group, ∀ a ∈ queues group, key a = group

variable {key} {queues : κ → List α} {front rows : List α} {group : κ} {a : α}

theorem members_append (front back : List α) : members key group (front ++ back) = members key group front ++ members key group back :=
  List.filter_append ..

theorem members_self (h : key a = group) : members key group [a] = [a] := List.filter_cons_of_pos (decide_eq_true h)

theorem members_other (h : key a ≠ group) : members key group [a] = [] := List.filter_cons_of_neg (by simpa using h)

theorem fill_cons (a : α) : fill key queues front (a :: rows) =
    ((queues (key a))[(members key (key a) front).length]?).getD a :: fill key queues (front ++ [a]) rows := by
  unfold fill
  rw [List.mapIdx_cons]
  simp only [List.take_zero, List.append_nil, List.take_succ_cons, List.append_assoc, List.singleton_append]

/-- The element that a position takes. -/
theorem fill_head (h : Fits key queues (front ++ a :: rows)) :
    ∃ x, (queues (key a))[(members key (key a) front).length]? = some x ∧ key x = key a := by
  have hlength := h.length (key a)
  rw [← List.singleton_append, members_append, members_append, members_self rfl, List.length_append, List.length_append,
    List.length_singleton] at hlength
  have hless : (members key (key a) front).length < (queues (key a)).length := by omega
  exact ⟨_, List.getElem?_eq_getElem hless, h.keys _ _ (List.getElem_mem hless)⟩

/-- Every position keeps its group. -/
theorem map_key_fill (h : Fits key queues (front ++ rows)) : (fill key queues front rows).map key = rows.map key := by
  induction rows generalizing front with
  | nil => rfl
  | cons a rows ih =>
    obtain ⟨x, hx, hkey⟩ := fill_head h
    rw [← List.singleton_append, ← List.append_assoc] at h
    rw [fill_cons, hx, List.map_cons, List.map_cons, ih h]
    exact congrArg (· :: rows.map key) hkey

/-- Every group is what is left of its queue. -/
theorem members_fill (h : Fits key queues (front ++ rows)) :
    members key group (fill key queues front rows) = (queues group).drop (members key group front).length := by
  induction rows generalizing front with
  | nil =>
    have hlength := h.length group
    rw [List.append_nil] at hlength
    rw [← hlength, List.drop_length]
    rfl
  | cons a rows ih =>
    obtain ⟨x, hx, hkey⟩ := fill_head h
    rw [← List.singleton_append, ← List.append_assoc] at h
    have hrest := ih h
    rw [members_append, List.length_append] at hrest
    rw [fill_cons, hx, Option.getD_some, ← List.singleton_append, members_append, hrest]
    by_cases ha : key a = group
    · subst ha
      obtain ⟨hless, rfl⟩ := List.getElem?_eq_some_iff.mp hx
      rw [members_self rfl, members_self hkey, List.length_singleton, List.drop_eq_getElem_cons hless]
      rfl
    · rw [members_other ha, members_other (by rwa [hkey]), List.length_nil, Nat.add_zero]
      rfl

theorem members_fill_nil (h : Fits key queues rows) : members key group (fill key queues [] rows) = queues group := by
  rw [← List.nil_append rows] at h
  exact members_fill h

/-- Lists with the same groups have the same elements. -/
theorem perm_of_members {out : List α} (h : ∀ group, (members key group out).Perm (members key group rows)) : out.Perm rows := by
  classical
  have hcount : ∀ (list : List α) (a : α), list.count a = (members key (key a) list).count a := by
    intro list a
    unfold members
    rw [List.count_filter (by simp)]
  rw [List.perm_iff_count]
  intro a
  rw [hcount, hcount rows, (h (key a)).count_eq]

/-- A list is determined by its groups and where they stand. -/
theorem eq_of_members {out : List α} (hkeys : out.map key = rows.map key)
    (h : ∀ group, members key group out = members key group rows) : out = rows := by
  induction rows generalizing out with
  | nil => exact List.map_eq_nil_iff.mp hkeys
  | cons b rows ih =>
    cases out with
    | nil => cases hkeys
    | cons a out =>
      rw [List.map_cons, List.map_cons, List.cons.injEq] at hkeys
      have hsplit : ∀ group, members key group [a] ++ members key group out = members key group [b] ++ members key group rows := by
        intro group
        rw [← members_append, ← members_append]
        exact h group
      have hfirst := hsplit (key b)
      rw [members_self hkeys.1, members_self rfl, List.singleton_append, List.singleton_append, List.cons.injEq] at hfirst
      obtain rfl := hfirst.1
      exact congrArg (a :: ·) (ih hkeys.2 (fun group => List.append_cancel_left (hsplit group)))

end Fill

/-! ### Stable sorting -/

section Stable
variable {α : Type*} (r : α → α → Prop) [DecidableRel r] [Std.Total r] [IsTrans α r]

/-- In order, and elements that compare alike stand as before. -/
structure StablySorted (rows out : List α) : Prop where
  perm : out.Perm rows
  sorted : out.Pairwise r
  ties : ∀ a, out.filter (fun b => r a b ∧ r b a) = rows.filter (fun b => r a b ∧ r b a)

theorem stablySorted_insertionSort (rows : List α) : StablySorted r rows (rows.insertionSort r) := by
  constructor
  · exact List.perm_insertionSort r rows
  · exact List.pairwise_insertionSort r rows
  · intro a
    have halike : (rows.filter (fun b => decide (r a b ∧ r b a))).Pairwise r := by
      refine List.pairwise_iff_forall_sublist.mpr ?_
      intro b c hsub
      have hb := List.of_mem_filter (hsub.subset (List.mem_cons_self))
      have hc := List.of_mem_filter (hsub.subset (List.mem_cons_of_mem _ List.mem_cons_self))
      rw [decide_eq_true_eq] at hb hc
      exact IsTrans.trans b a c hb.2 hc.1
    have hsub := (List.sublist_insertionSort halike List.filter_sublist).filter (fun b => decide (r a b ∧ r b a))
    simp only [List.filter_filter, Bool.and_self] at hsub
    have hlength := ((List.perm_insertionSort r rows).filter (fun b => decide (r a b ∧ r b a))).length_eq
    exact (hsub.eq_of_length hlength.symm).symm

end Stable

end Cronova.Relational.Regroup
