import Mathlib.Data.List.Infix
import Mathlib.Data.List.Dedup

/-! Trees of directories and files. -/
namespace Cronova.Files

inductive Node (δ : Type*) where
  | dir
  | file (data : δ)
deriving DecidableEq

/-- What is where, by the names on the way from the root. Everything is in a directory. -/
structure FileTree (ν δ : Type*) where
  node : List ν → Option (Node δ)
  listed : List (List ν)
  covers : ∀ p, node p ≠ none → p ∈ listed
  root : node [] = some .dir
  rooted : ∀ p n, node (p ++ [n]) ≠ none → node p = some .dir

namespace FileTree

def empty (ν δ : Type*) [DecidableEq ν] : FileTree ν δ where
  node p := if p = [] then some .dir else none
  listed := [[]]
  covers := by
    intro p h
    by_cases hp : p = []
    · rw [hp]
      exact List.mem_singleton_self []
    · exact absurd (if_neg hp) h
  root := rfl
  rooted := by
    intro p n h
    exact absurd (if_neg (List.append_ne_nil_of_right_ne_nil p (List.cons_ne_nil n []))) h

variable {ν δ : Type*} {t t' : FileTree ν δ} {p q src dst : List ν} {data : δ} {n : Node δ}

theorem node_dropLast (h : t.node p ≠ none) (hp : p ≠ []) : t.node p.dropLast = some .dir := by
  refine t.rooted p.dropLast (p.getLast hp) ?_
  rw [List.dropLast_append_getLast]
  exact h

/-- Above whatever there is are directories. -/
theorem dir_above (h : t.node p ≠ none) (hq : q <+: p) (hne : q ≠ p) : t.node q = some .dir := by
  obtain ⟨r, rfl⟩ := hq
  induction r using List.reverseRecOn with
  | nil => exact absurd (List.append_nil q).symm hne
  | append_singleton r x ih =>
    rw [← List.append_assoc] at h
    have hparent := t.rooted _ _ h
    by_cases hr : r = []
    · rw [hr, List.append_nil] at hparent
      exact hparent
    · refine ih (by rw [hparent]; exact Option.some_ne_none _) ?_
      intro heq
      exact hr (List.append_cancel_left (heq.symm.trans (List.append_nil q).symm))

/-- Below nothing there is nothing. -/
theorem none_below (h : t.node p = none) (hq : p <+: q) : t.node q = none := by
  by_contra hsome
  by_cases hne : p = q
  · rw [hne] at h
    exact hsome h
  · rw [dir_above hsome hq hne] at h
    exact Option.some_ne_none _ h

theorem eq_none_of_leaf (h : t.node p ≠ some .dir) (x : ν) : t.node (p ++ [x]) = none :=
  not_not.mp (fun hsome => h (t.rooted p x hsome))

variable [DecidableEq ν]

/-- Something in place of what there was. -/
def set (t : FileTree ν δ) (p : List ν) (n : Node δ) (hp : p ≠ []) (hparent : t.node p.dropLast = some .dir)
    (hchildren : ∀ x, n = .dir ∨ t.node (p ++ [x]) = none) : FileTree ν δ where
  node q := if q = p then some n else t.node q
  listed := p :: t.listed
  covers := by
    intro q h
    split at h
    · rename_i hq
      rw [hq]
      exact List.mem_cons_self
    · exact List.mem_cons_of_mem _ (t.covers q h)
  root := by
    rw [if_neg (Ne.symm hp)]
    exact t.root
  rooted := by
    intro q x h
    split at h
    · rename_i hq
      have hdrop : q = p.dropLast := by rw [← hq, List.dropLast_concat]
      rw [if_neg (by rw [← hq]; simp), hdrop]
      exact hparent
    · split
      · rename_i hq
        rw [hq] at h
        rcases hchildren x with hdir | hnone
        · rw [hdir]
        · exact absurd hnone h
      · exact t.rooted q x h

/-- Nothing in place of what there was, where this is no directory or is empty. -/
def erase (t : FileTree ν δ) (p : List ν) (hp : p ≠ []) (hchildren : ∀ x, t.node (p ++ [x]) = none) : FileTree ν δ where
  node q := if q = p then none else t.node q
  listed := t.listed
  covers := by
    intro q h
    split at h
    · exact absurd rfl h
    · exact t.covers q h
  root := by
    rw [if_neg (Ne.symm hp)]
    exact t.root
  rooted := by
    intro q x h
    split at h
    · exact absurd rfl h
    · rw [if_neg]
      · exact t.rooted q x h
      · intro hq
        rw [hq] at h
        exact h (hchildren x)

/-- One tree with a part of it in another place. -/
def moved (t : FileTree ν δ) (src dst : List ν) (hdst : t.node dst = none)
    (hparent : t.node dst.dropLast = some .dir) (hin : ¬ src <+: dst) : FileTree ν δ where
  node q := if dst <+: q then t.node (src ++ q.drop dst.length) else if src <+: q then none else t.node q
  listed := t.listed ++ t.listed.map (fun q => dst ++ q.drop src.length)
  covers := by
    intro q h
    rw [List.mem_append]
    split at h
    · rename_i hq
      obtain ⟨r, rfl⟩ := hq
      rw [List.drop_left] at h
      refine .inr (List.mem_map.mpr ⟨_, t.covers _ h, ?_⟩)
      rw [List.drop_left]
    · split at h
      · exact absurd rfl h
      · exact .inl (t.covers q h)
  root := by
    have hne : dst ≠ [] := by
      intro h
      rw [h, t.root] at hdst
      exact Option.some_ne_none _ hdst
    have hsne : src ≠ [] := by
      intro h
      rw [h] at hin
      exact hin List.nil_prefix
    rw [if_neg (fun h => hne (List.prefix_nil.mp h)), if_neg (fun h => hsne (List.prefix_nil.mp h))]
    exact t.root
  rooted := by
    intro q x h
    split at h
    · rename_i hq
      rcases List.prefix_concat_iff.mp hq with heq | hq
      · have hout : ¬ dst <+: q := by
          intro h
          have hlength := h.length_le
          rw [heq, List.length_append, List.length_singleton] at hlength
          omega
        have hsrcq : ¬ src <+: q := by
          intro h
          rw [heq] at hin
          exact hin (h.trans (List.prefix_append q [x]))
        rw [heq, List.dropLast_concat] at hparent
        rw [if_neg hout, if_neg hsrcq]
        exact hparent
      · obtain ⟨r, rfl⟩ := hq
        rw [if_pos (List.prefix_append dst r), List.drop_left]
        rw [List.append_assoc, List.drop_left, ← List.append_assoc] at h
        exact t.rooted _ _ h
    · rename_i hq
      split at h
      · exact absurd rfl h
      · rename_i hsrcq
        rw [if_neg (fun hpre => hq (hpre.trans (List.prefix_append q [x]))), if_neg (fun hpre => hsrcq (hpre.trans (List.prefix_append q [x])))]
        exact t.rooted q x h

/-- What there is below a directory, each by the names from there. -/
def below (t : FileTree ν δ) (p : List ν) : List (List ν) :=
  ((t.listed.filter (fun q => p <+: q ∧ q ≠ p ∧ (t.node q).isSome)).map (·.drop p.length)).dedup

theorem mem_below {r : List ν} : r ∈ t.below p ↔ r ≠ [] ∧ t.node (p ++ r) ≠ none := by
  unfold below
  rw [List.mem_dedup, List.mem_map]
  constructor
  · rintro ⟨q, hq, rfl⟩
    rw [List.mem_filter, decide_eq_true_eq] at hq
    obtain ⟨-, ⟨r, rfl⟩, hne, hsome⟩ := hq
    rw [List.drop_left]
    refine ⟨?_, Option.isSome_iff_ne_none.mp hsome⟩
    intro hr
    exact hne (by rw [hr, List.append_nil])
  · intro ⟨hr, hsome⟩
    refine ⟨p ++ r, ?_, List.drop_left⟩
    rw [List.mem_filter, decide_eq_true_eq]
    refine ⟨t.covers _ hsome, List.prefix_append p r, ?_, Option.isSome_iff_ne_none.mpr hsome⟩
    intro heq
    exact hr (List.append_cancel_left (heq.trans (List.append_nil p).symm))

/-! ### What a system does to its tree -/

def remove (t : FileTree ν δ) (p : List ν) : Option (FileTree ν δ) :=
  if h : p ≠ [] ∧ t.node p ≠ none ∧ t.below p = [] then
    some (t.erase p h.1 (fun x => not_not.mp (fun hsome => List.not_mem_nil (h.2.2 ▸ mem_below.mpr ⟨List.cons_ne_nil x [], hsome⟩))))
  else none

theorem remove_spec (h : t.remove p = some t') : ∀ q, t'.node q = if q = p then none else t.node q := by
  unfold remove at h
  split at h
  · cases h
    exact fun _ => rfl
  · cases h

variable [DecidableEq δ]

def mkdir (t : FileTree ν δ) (p : List ν) : Option (FileTree ν δ) :=
  if h : p ≠ [] ∧ t.node p = none ∧ t.node p.dropLast = some .dir then
    some (t.set p .dir h.1 h.2.2 (fun _ => .inl rfl))
  else none

def write (t : FileTree ν δ) (p : List ν) (data : δ) : Option (FileTree ν δ) :=
  if h : p ≠ [] ∧ t.node p ≠ some .dir ∧ t.node p.dropLast = some .dir then
    some (t.set p (.file data) h.1 h.2.2 (fun x => .inr (eq_none_of_leaf h.2.1 x)))
  else none

def rename (t : FileTree ν δ) (src dst : List ν) : Option (FileTree ν δ) :=
  if h : t.node src ≠ none ∧ t.node dst = none ∧ t.node dst.dropLast = some .dir ∧ ¬ src <+: dst then
    some (t.moved src dst h.2.1 h.2.2.1 h.2.2.2)
  else none

theorem mkdir_spec (h : t.mkdir p = some t') :
    t.node p = none ∧ t.node p.dropLast = some .dir ∧ ∀ q, t'.node q = if q = p then some .dir else t.node q := by
  unfold mkdir at h
  split at h
  · rename_i hok
    cases h
    exact ⟨hok.2.1, hok.2.2, fun _ => rfl⟩
  · cases h

theorem write_spec (h : t.write p data = some t') :
    t.node p ≠ some .dir ∧ t.node p.dropLast = some .dir ∧ ∀ q, t'.node q = if q = p then some (.file data) else t.node q := by
  unfold write at h
  split at h
  · rename_i hok
    cases h
    exact ⟨hok.2.1, hok.2.2, fun _ => rfl⟩
  · cases h

theorem rename_spec (h : t.rename src dst = some t') : t.node src ≠ none ∧ t.node dst = none ∧ ¬ src <+: dst ∧
    ∀ q, t'.node q = if dst <+: q then t.node (src ++ q.drop dst.length) else if src <+: q then none else t.node q := by
  unfold rename at h
  split at h
  · rename_i hok
    cases h
    exact ⟨hok.1, hok.2.1, hok.2.2.2, fun _ => rfl⟩
  · cases h

theorem rename_isSome (hsrc : t.node src ≠ none) (hdst : t.node dst = none) (hparent : t.node dst.dropLast = some .dir)
    (hin : ¬ src <+: dst) : t.rename src dst ≠ none := by
  unfold rename
  rw [dif_pos ⟨hsrc, hdst, hparent, hin⟩]
  exact Option.some_ne_none _

end FileTree
end Cronova.Files
