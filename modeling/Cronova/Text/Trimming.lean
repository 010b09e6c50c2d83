import Mathlib.Data.List.DropRight

/-! Lists cut at the ends: what is dropped from a list that continues, and the front and
the back cut in either order. -/
namespace Cronova.Text.Trimming
variable {α : Type*} {p : α → Bool}

/-- The list does not begin with an element that is dropped. -/
def Begins (p : α → Bool) (s : List α) : Prop := ∀ a ∈ s.head?, p a = false

theorem begins_nil : Begins p [] := nofun

theorem begins_cons {a : α} {s : List α} : Begins p (a :: s) ↔ p a = false := by simp [Begins]

theorem begins_append {s t : List α} (hs : Begins p s) (ht : Begins p t) : Begins p (s ++ t) := by
  cases s with
  | nil => exact ht
  | cons a s => exact hs

theorem begins_dropWhile (s : List α) : Begins p (s.dropWhile p) := by
  induction s with
  | nil => exact begins_nil
  | cons a s ih =>
    by_cases ha : p a = true
    · rw [List.dropWhile_cons_of_pos ha]
      exact ih
    · rw [List.dropWhile_cons_of_neg ha, begins_cons]
      simpa using ha

/-- A run ends where a list begins that is not dropped. -/
theorem takeWhile_run {run rest : List α} (hrun : ∀ a ∈ run, p a = true) (hrest : Begins p rest) :
    (run ++ rest).takeWhile p = run ∧ (run ++ rest).dropWhile p = rest := by
  rw [List.takeWhile_append_of_pos hrun, List.dropWhile_append_of_pos hrun]
  cases rest with
  | nil => simp
  | cons a rest =>
    have ha : ¬ p a = true := by simp [begins_cons.mp hrest]
    rw [List.takeWhile_cons_of_neg ha, List.dropWhile_cons_of_neg ha, List.append_nil]
    exact ⟨rfl, rfl⟩

/-- Behind an element that is not taken nothing matters. -/
theorem takeWhile_barrier {a : α} (ha : p a = false) (s t : List α) :
    (s ++ a :: t).takeWhile p = s.takeWhile p ∧ (s ++ a :: t).dropWhile p = s.dropWhile p ++ a :: t := by
  have hneg : ¬ p a = true := by simp [ha]
  induction s with
  | nil =>
    rw [List.nil_append, List.takeWhile_cons_of_neg hneg, List.dropWhile_cons_of_neg hneg]
    exact ⟨rfl, rfl⟩
  | cons b s ih =>
    rw [List.cons_append]
    by_cases hb : p b = true
    · rw [List.takeWhile_cons_of_pos hb, List.dropWhile_cons_of_pos hb, List.takeWhile_cons_of_pos hb, List.dropWhile_cons_of_pos hb,
        ih.1, ih.2]
      exact ⟨rfl, rfl⟩
    · rw [List.takeWhile_cons_of_neg hb, List.dropWhile_cons_of_neg hb, List.takeWhile_cons_of_neg hb, List.dropWhile_cons_of_neg hb]
      exact ⟨rfl, rfl⟩

/-- From the back nothing is dropped beyond an element that stays. -/
theorem rdropWhile_barrier {a : α} (ha : p a = false) (s t : List α) :
    (s ++ a :: t).rdropWhile p = s ++ a :: t.rdropWhile p := by
  have hneg : ¬ p a = true := by simp [ha]
  induction t using List.reverseRecOn with
  | nil => rw [List.rdropWhile_concat_neg p s a hneg, List.rdropWhile_nil]
  | append_singleton t b ih =>
    have hsplit : s ++ a :: (t ++ [b]) = (s ++ a :: t) ++ [b] := by simp
    rw [hsplit]
    by_cases hb : p b = true
    · rw [List.rdropWhile_concat_pos p _ b hb, ih, List.rdropWhile_concat_pos p t b hb]
    · rw [List.rdropWhile_concat_neg p _ b hb, List.rdropWhile_concat_neg p t b hb, hsplit]

/-- Both ends are cut off in either order. -/
theorem rdropWhile_dropWhile (s : List α) : (s.dropWhile p).rdropWhile p = (s.rdropWhile p).dropWhile p := by
  have hfront : ∀ a ∈ s.takeWhile p, p a = true := fun a ha => List.mem_takeWhile_imp ha
  have hbegins := begins_dropWhile (p := p) s
  have hsplit := List.takeWhile_append_dropWhile (p := p) (l := s)
  cases hrest : s.dropWhile p with
  | nil =>
    rw [hrest, List.append_nil] at hsplit
    have hall : ∀ a ∈ s, p a = true := hsplit ▸ hfront
    rw [List.rdropWhile_eq_nil_iff.mpr hall, List.rdropWhile_nil, List.dropWhile_nil]
  | cons a y =>
    rw [hrest] at hbegins hsplit
    have ha := begins_cons.mp hbegins
    have hkeep := rdropWhile_barrier ha [] y
    rw [List.nil_append, List.nil_append] at hkeep
    rw [hkeep, ← hsplit, rdropWhile_barrier ha, List.dropWhile_append_of_pos hfront, List.dropWhile_cons_of_neg (by simp [ha])]

/-- What is cut off at the ends. -/
theorem trim_split (s : List α) : ∃ front back, s = front ++ (s.dropWhile p).rdropWhile p ++ back ∧
    (∀ a ∈ front, p a = true) ∧ ∀ a ∈ back, p a = true := by
  refine ⟨s.takeWhile p, (s.dropWhile p).rtakeWhile p, ?_, fun a ha => List.mem_takeWhile_imp ha, fun a ha => ?_⟩
  · rw [List.append_assoc, List.rdropWhile_append_rtakeWhile, List.takeWhile_append_dropWhile]
  · exact List.mem_rtakeWhile_imp ha

end Cronova.Text.Trimming
