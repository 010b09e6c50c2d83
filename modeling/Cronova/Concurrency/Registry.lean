import Mathlib.Data.List.AList

/-! Finite maps from keys to values, and how many of their entries satisfy a
predicate. -/
namespace Cronova.Concurrency

/-- A map from keys to values; its entries stand in some order. -/
abbrev Registry (α β : Type*) := AList (fun _ : α => β)

namespace Registry
variable {α β : Type*} {m m' : Registry α β} {p q : α → β → Bool} {a : α} {b : β}

def count (m : Registry α β) (p : α → β → Bool) : ℕ := m.entries.countP (fun e => p e.1 e.2)

/-- The entries that satisfy `p`. -/
def keep (m : Registry α β) (p : α → β → Bool) : Registry α β :=
  ⟨m.entries.filter (fun e => p e.1 e.2), m.nodupKeys.sublist List.filter_sublist⟩

theorem count_perm (h : m.entries.Perm m'.entries) : count m p = count m' p := h.countP_eq _

theorem count_keep : count (keep m p) q = count m (fun a b => q a b && p a b) := List.countP_filter

variable [DecidableEq α]

theorem mem_entries : (⟨a, b⟩ : Sigma fun _ : α => β) ∈ m.entries ↔ m.lookup a = some b :=
  AList.mem_lookup_iff.symm

theorem lookup_keep : (keep m p).lookup a = some b ↔ m.lookup a = some b ∧ p a b = true := by
  rw [← mem_entries, ← mem_entries]
  exact List.mem_filter

theorem count_congr (h : ∀ a b, m.lookup a = some b → p a b = q a b) : count m p = count m q := by
  refine List.countP_congr ?_
  rintro ⟨a, b⟩ hmem
  rw [h a b (mem_entries.1 hmem)]

/-- An entry that is there counts for itself. -/
theorem count_of_lookup (h : m.lookup a = some b) :
    count m p = count (m.erase a) p + if p a b then 1 else 0 := by
  have hkey : a ∈ m.keys := AList.mem_keys.1 (AList.lookup_isSome.1 (by rw [h]; rfl))
  obtain ⟨b', l₁, l₂, -, hl, herase⟩ := List.exists_of_kerase hkey
  have hb : b' = b := by
    have hmem : (⟨a, b'⟩ : Sigma fun _ : α => β) ∈ m.entries := by
      rw [hl]
      simp
    rw [mem_entries, h] at hmem
    exact (Option.some.inj hmem).symm
  subst hb
  change m.entries.countP _ = (m.entries.kerase a).countP _ + _
  rw [herase, hl]
  simp only [List.countP_append, List.countP_cons]
  omega

theorem count_of_lookup_none (h : m.lookup a = none) : count m p = count (m.erase a) p := by
  have hkey : a ∉ m.entries.keys := AList.lookup_eq_none.1 h
  change m.entries.countP _ = (m.entries.kerase a).countP _
  rw [List.kerase_of_notMem_keys hkey]

theorem count_insert : count (m.insert a b) p = count (m.erase a) p + if p a b then 1 else 0 := by
  change (m.insert a b).entries.countP _ = (m.entries.kerase a).countP _ + _
  rw [AList.entries_insert, List.countP_cons]

theorem lookup_erase_cases {a' : α} {b' : β} (h : (m.erase a).lookup a' = some b') : a' ≠ a ∧ m.lookup a' = some b' := by
  by_cases ha : a' = a
  · subst ha
    rw [AList.lookup_erase] at h
    cases h
  · rw [AList.lookup_erase_ne ha] at h
    exact ⟨ha, h⟩

theorem lookup_insert_cases {a' : α} {b' : β} (h : (m.insert a b).lookup a' = some b') :
    a' = a ∧ b' = b ∨ a' ≠ a ∧ m.lookup a' = some b' := by
  by_cases ha : a' = a
  · subst ha
    rw [AList.lookup_insert] at h
    exact .inl ⟨rfl, (Option.some.inj h).symm⟩
  · rw [AList.lookup_insert_ne ha] at h
    exact .inr ⟨ha, h⟩

end Registry
end Cronova.Concurrency
