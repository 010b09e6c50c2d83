import Mathlib.Data.List.Pairwise

/-! Database tables with uniqueness constraints. A table is a list of rows no two
of which clash on their key columns, so an insert that would break a constraint
has no result and an update that keeps the key columns always has one. -/
namespace Cronova.Relational

structure Table (α : Type) {K : Type} (key : α → K) (clash : K → K → Prop) where
  rows : List α
  distinct : rows.Pairwise (fun a b => ¬ clash (key a) (key b))

namespace Table
variable {α K : Type} {key : α → K} {clash : K → K → Prop}

def empty : Table α key clash := ⟨[], .nil⟩

instance : Inhabited (Table α key clash) := ⟨empty⟩

/-- The table of one row. -/
def single (a : α) : Table α key clash := ⟨[a], List.pairwise_singleton _ _⟩

/-- `INSERT`: refused when the new row clashes with a stored one. -/
def insert? [DecidableRel clash] (t : Table α key clash) (a : α) : Option (Table α key clash) :=
  if h : ∀ b ∈ t.rows, ¬ clash (key b) (key a) then
    some ⟨t.rows ++ [a], List.pairwise_append.mpr ⟨t.distinct, List.pairwise_singleton _ _, by simpa using h⟩⟩
  else none

private theorem map_distinct (rows : List α) (f : α → α) (hf : ∀ a, key (f a) = key a)
    (h : rows.Pairwise (fun a b => ¬ clash (key a) (key b))) :
    (rows.map f).Pairwise (fun a b => ¬ clash (key a) (key b)) := by
  rw [List.pairwise_map]
  exact h.imp (fun hab => by simpa only [hf] using hab)

/-- `UPDATE ... WHERE p`: `f` must leave the key columns alone. -/
def modify (t : Table α key clash) (p : α → Bool) (f : α → α) (hf : ∀ a, key (f a) = key a) :
    Table α key clash :=
  ⟨t.rows.map (fun a => if p a then f a else a),
    map_distinct t.rows _ (fun a => by split <;> simp only [hf]) t.distinct⟩

/-- `DELETE ... WHERE p`. -/
def delete (t : Table α key clash) (p : α → Bool) : Table α key clash :=
  ⟨t.rows.filter (fun a => !p a), t.distinct.filter _⟩

/-- The row a query on key columns selects. -/
def find? (t : Table α key clash) (p : α → Bool) : Option α := t.rows.find? p

def filter (t : Table α key clash) (p : α → Bool) : List α := t.rows.filter p

@[simp] theorem rows_empty : (empty : Table α key clash).rows = [] := rfl

theorem rows_insert? [DecidableRel clash] {t t' : Table α key clash} {a : α} (h : t.insert? a = some t') :
    t'.rows = t.rows ++ [a] := by
  unfold insert? at h
  split at h
  · cases h
    rfl
  · cases h

theorem insert?_eq_none_iff [DecidableRel clash] {t : Table α key clash} {a : α} :
    t.insert? a = none ↔ ∃ b ∈ t.rows, clash (key b) (key a) := by
  unfold insert?
  split
  · rename_i h
    simp only [reduceCtorEq, false_iff, not_exists, not_and]
    exact h
  · rename_i h
    simpa only [not_forall, not_not, exists_prop, true_iff] using h

theorem insert?_isSome_iff [DecidableRel clash] {t : Table α key clash} {a : α} :
    (∃ t', t.insert? a = some t') ↔ ∀ b ∈ t.rows, ¬ clash (key b) (key a) := by
  rw [← Option.isSome_iff_exists, Option.isSome_iff_ne_none, Ne, insert?_eq_none_iff]
  simp only [not_exists, not_and]

theorem mem_modify {t : Table α key clash} {p : α → Bool} {f : α → α} (hf : ∀ a, key (f a) = key a) {b : α} :
    b ∈ (t.modify p f hf).rows ↔ ∃ a ∈ t.rows, (if p a then f a else a) = b := by
  simp only [modify, List.mem_map]

@[simp] theorem mem_delete {t : Table α key clash} {p : α → Bool} {a : α} :
    a ∈ (t.delete p).rows ↔ a ∈ t.rows ∧ p a = false := by
  simp only [delete, List.mem_filter, Bool.not_eq_true']

/-- Rows that clash are the same row. -/
theorem eq_of_clash (hsymm : ∀ a b, clash a b → clash b a) (t : Table α key clash) {a b : α}
    (ha : a ∈ t.rows) (hb : b ∈ t.rows) (h : clash (key a) (key b)) : a = b := by
  by_contra hne
  have : Std.Symm (fun a b : α => ¬ clash (key a) (key b)) := ⟨fun x y hxy hyx => hxy (hsymm _ _ hyx)⟩
  exact (t.distinct.forall ha hb hne) h

theorem find?_modify {t : Table α key clash} {p q : α → Bool} {f : α → α} (hf : ∀ a, key (f a) = key a)
    (hq : ∀ a, q (f a) = q a) :
    (t.modify p f hf).find? q = (t.find? q).map (fun a => if p a then f a else a) := by
  simp only [find?, modify, List.find?_map]
  congr 2
  funext a
  simp only [Function.comp_apply]
  split <;> simp only [hq]

theorem find?_insert? [DecidableRel clash] {t t' : Table α key clash} {a : α} (h : t.insert? a = some t')
    (q : α → Bool) : t'.find? q = (t.find? q).or (if q a then some a else none) := by
  simp only [find?, rows_insert? h, List.find?_append, List.find?_cons, List.find?_nil]
  cases q a <;> rfl

end Table
end Cronova.Relational
