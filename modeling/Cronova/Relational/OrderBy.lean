import Mathlib.Data.List.Sort
import Mathlib.Tactic.Common

/-! The results of a query with `ORDER BY`: the rows in any order that the comparison
allows, since it says nothing about rows that compare alike. -/
namespace Cronova.Relational
variable {α : Type}

/-- A total comparison without cycles. Different rows may compare alike. -/
structure Comparison (α : Type) where
  le : α → α → Prop
  total : ∀ a b, le a b ∨ le b a
  trans : ∀ a b c, le a b → le b c → le a c

namespace Comparison
variable (o : Comparison α) {rows out : List α} {a b : α}

theorem refl (a : α) : o.le a a := (o.total a a).elim id id

/-- Compare by a column. -/
def column {κ : Type} [LinearOrder κ] (key : α → κ) : Comparison α where
  le a b := key a ≤ key b
  total a b := le_total (key a) (key b)
  trans _ _ _ := le_trans

/-- `DESC` -/
def desc : Comparison α where
  le a b := o.le b a
  total a b := o.total b a
  trans a b c hab hbc := o.trans c b a hbc hab

/-- A second column decides where the first one does not. -/
def andThen (p : Comparison α) : Comparison α where
  le a b := o.le a b ∧ (o.le b a → p.le a b)
  total a b := by
    by_cases hab : o.le a b
    · by_cases hba : o.le b a
      · rcases p.total a b with h | h
        · exact .inl ⟨hab, fun _ => h⟩
        · exact .inr ⟨hba, fun _ => h⟩
      · exact .inl ⟨hab, fun h => absurd h hba⟩
    · exact .inr ⟨(o.total a b).resolve_left hab, fun h => absurd h hab⟩
  trans a b c := by
    rintro ⟨hab, htie⟩ ⟨hbc, htie'⟩
    refine ⟨o.trans a b c hab hbc, fun hca => p.trans a b c (htie ?_) (htie' ?_)⟩
    · exact o.trans b c a hbc hca
    · exact o.trans c a b hca hab

/-- The rows in an order that the comparison allows. -/
structure Ordered (rows out : List α) : Prop where
  perm : out.Perm rows
  sorted : out.Pairwise o.le

private theorem decided [DecidableRel o.le] :
    (∀ a b c, decide (o.le a b) = true → decide (o.le b c) = true → decide (o.le a c) = true) ∧
      ∀ a b, (decide (o.le a b) || decide (o.le b a)) = true :=
  ⟨by simpa using o.trans, by simpa using o.total⟩

theorem exists_ordered (rows : List α) : ∃ out, o.Ordered rows out := by
  classical
  obtain ⟨htrans, htotal⟩ := o.decided
  exact ⟨_, List.mergeSort_perm rows _, by simpa using List.pairwise_mergeSort htrans htotal rows⟩

/-- Two rows may come in any order that the comparison allows. -/
theorem exists_ordered_pair (ha : a ∈ rows) (hb : b ∈ rows) (hne : a ≠ b) (hle : o.le a b) :
    ∃ out, o.Ordered rows out ∧ [a, b].Sublist out := by
  classical
  have hperm : (a :: b :: (rows.erase a).erase b).Perm rows := by
    have hb' : b ∈ rows.erase a := (List.mem_erase_of_ne hne.symm).mpr hb
    exact ((List.perm_cons_erase hb').symm.cons a).trans (List.perm_cons_erase ha).symm
  obtain ⟨htrans, htotal⟩ := o.decided
  refine ⟨_, ⟨(List.mergeSort_perm _ _).trans hperm, by simpa using List.pairwise_mergeSort htrans htotal _⟩, ?_⟩
  exact List.pair_sublist_mergeSort htrans htotal (decide_eq_true hle) (by simp)

/-- Every result is in an order exactly when the comparison asks for it. -/
theorem forall_ordered_iff (le : α → α → Prop) (hrefl : ∀ a, le a a) :
    (∀ out, o.Ordered rows out → out.Pairwise le) ↔ ∀ a ∈ rows, ∀ b ∈ rows, o.le a b → le a b := by
  constructor
  · intro h a ha b hb hle
    by_cases heq : a = b
    · subst heq
      exact hrefl a
    · obtain ⟨out, hout, hsub⟩ := o.exists_ordered_pair ha hb heq hle
      exact List.pairwise_pair.mp ((h out hout).sublist hsub)
  · intro h out hout
    exact hout.sorted.imp_of_mem (fun ha hb => h _ (hout.perm.mem_iff.mp ha) _ (hout.perm.mem_iff.mp hb))

/-- `LIMIT`: the first rows of a result. -/
theorem forall_limited_iff (le : α → α → Prop) (hrefl : ∀ a, le a a) {limit : Int → Nat} (hlimit : ∀ n : Nat, ∃ l, n ≤ limit l) :
    (∀ l out, o.Ordered rows out → (out.take (limit l)).Pairwise le) ↔ ∀ a ∈ rows, ∀ b ∈ rows, o.le a b → le a b := by
  rw [← o.forall_ordered_iff le hrefl]
  constructor
  · intro h out hout
    obtain ⟨l, hl⟩ := hlimit out.length
    simpa [List.take_of_length_le hl] using h l out hout
  · intro h l out hout
    exact (h out hout).sublist (List.take_sublist _ _)

end Comparison

/-- Results that are in the order of a column have the same columns. -/
theorem map_eq_of_sorted {κ : Type} [LinearOrder κ] {key : α → κ} {a b : List α} (hperm : a.Perm b)
    (ha : a.Pairwise (fun x y => key y ≤ key x)) (hb : b.Pairwise (fun x y => key y ≤ key x)) : a.map key = b.map key := by
  refine List.Perm.eq_of_pairwise (fun x y _ _ hxy hyx => le_antisymm hyx hxy) ?_ ?_ (hperm.map key)
  · exact List.pairwise_map.mpr ha
  · exact List.pairwise_map.mpr hb

end Cronova.Relational
