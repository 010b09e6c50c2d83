import Mathlib.Data.List.Basic
import Mathlib.Data.List.Count
import Mathlib.Tactic.Common

/-! Rewriting a text from left to right: a finder says how many symbols an occurrence
at the head of a text takes, the text is cut into single symbols and occurrences, and
each occurrence is replaced by a value. -/
namespace Cronova.Text.Rewriting
variable {α : Type}

/-- A test for an occurrence at the head of a text. -/
structure Finder (α : Type) where
  find : List α → Option Nat
  pos : ∀ {t n}, find t = some n → 0 < n
  le : ∀ {t n}, find t = some n → n ≤ t.length

/-- A text cut into symbols and occurrences; `skip` counts the symbols that belong
to an occurrence already found. -/
def pieces (f : Finder α) : List α → (skip : Nat) → List (α ⊕ List α)
  | [], _ => []
  | _ :: t, skip + 1 => pieces f t skip
  | c :: t, 0 =>
    match f.find (c :: t) with
    | some n => .inr ((c :: t).take n) :: pieces f t (n - 1)
    | none => .inl c :: pieces f t 0

/-- The pieces as a text again, with `value w` in the place of each occurrence `w`. -/
def render (value : List α → List α) (ps : List (α ⊕ List α)) : List α :=
  ps.flatMap (Sum.elim (fun c => [c]) value)

def rewrite (f : Finder α) (value : List α → List α) (t : List α) : List α := render value (pieces f t 0)

def occurrences (f : Finder α) (t : List α) : Nat := (pieces f t 0).countP (·.isRight)

section Scan
variable {f : Finder α} {t : List α} {c : α} {n : Nat}

theorem find_nil : f.find [] = none := by
  cases hfind : f.find [] with
  | none => rfl
  | some n =>
    have hpos := f.pos hfind
    have hle := f.le hfind
    simp only [List.length_nil] at hle
    omega

theorem pieces_skip (t : List α) : ∀ k, pieces f t k = pieces f (t.drop k) 0 := by
  induction t with
  | nil => intro k; cases k <;> rfl
  | cons c t ih =>
    intro k
    cases k with
    | zero => rfl
    | succ k => exact ih k

@[simp] theorem pieces_nil : pieces f [] 0 = [] := rfl

theorem pieces_found (h : f.find t = some n) : pieces f t 0 = .inr (t.take n) :: pieces f (t.drop n) 0 := by
  cases t with
  | nil => rw [find_nil] at h; cases h
  | cons c t =>
    obtain ⟨k, rfl⟩ := Nat.exists_eq_succ_of_ne_zero (Nat.ne_of_gt (f.pos h))
    rw [pieces, h]
    exact congrArg _ (pieces_skip t k)

theorem pieces_none (h : f.find (c :: t) = none) : pieces f (c :: t) 0 = .inl c :: pieces f t 0 := by
  rw [pieces, h]

/-- Induction along the cuts of a text. -/
theorem scan_induction (f : Finder α) {motive : List α → Prop} (nil : motive [])
    (found : ∀ t n, f.find t = some n → motive (t.drop n) → motive t)
    (none : ∀ c t, f.find (c :: t) = Option.none → motive t → motive (c :: t)) (t : List α) : motive t := by
  induction hlen : t.length using Nat.strongRecOn generalizing t with
  | ind len ih =>
    cases t with
    | nil => exact nil
    | cons c t =>
      cases hfind : f.find (c :: t) with
      | none => exact none c t hfind (ih t.length (by rw [← hlen]; exact Nat.lt_succ_self _) t rfl)
      | some n =>
        have hpos := f.pos hfind
        have hle := f.le hfind
        exact found _ n hfind (ih _ (by rw [List.length_drop]; omega) _ rfl)

end Scan

section Render
variable {value value' : List α → List α} {ps qs : List (α ⊕ List α)}

@[simp] theorem render_nil : render value [] = [] := rfl

@[simp] theorem render_inl {c : α} : render value (.inl c :: ps) = c :: render value ps := rfl

@[simp] theorem render_inr {w : List α} : render value (.inr w :: ps) = value w ++ render value ps := rfl

@[simp] theorem render_append : render value (ps ++ qs) = render value ps ++ render value qs := List.flatMap_append

/-- Writing each occurrence as it is gives the text back. -/
theorem render_self (f : Finder α) (t : List α) : render id (pieces f t 0) = t := by
  induction t using scan_induction f with
  | nil => rfl
  | found t n h ih => rw [pieces_found h, render_inr, ih, id, List.take_append_drop]
  | none c t h ih => rw [pieces_none h, render_inl, ih]

theorem render_congr (h : ∀ w, .inr w ∈ ps → value w = value' w) :
    render value ps = render value' ps := by
  unfold render
  apply List.flatMap_congr
  intro p hp
  cases p with
  | inl c => rfl
  | inr w => exact h w hp

variable [DecidableEq α] {x : α}

/-- Replacing changes the number of a symbol by the same amount for each occurrence. -/
theorem count_render {j k : Nat} (h : ∀ w, .inr w ∈ ps → (value w).count x = j ∧ w.count x = k) :
    (render value ps).count x + k * ps.countP (·.isRight) = (render id ps).count x + j * ps.countP (·.isRight) := by
  induction ps with
  | nil => rfl
  | cons p ps ih =>
    have ih := ih (fun w hw => h w (List.mem_cons_of_mem _ hw))
    cases p with
    | inl c =>
      have hcount : (Sum.inl c :: ps).countP (·.isRight) = ps.countP (·.isRight) := List.countP_cons_of_neg nofun
      rw [hcount, render_inl, render_inl, List.count_cons, List.count_cons]
      omega
    | inr w =>
      obtain ⟨hj, hk⟩ := h w List.mem_cons_self
      have hcount : (Sum.inr w :: ps).countP (·.isRight) = ps.countP (·.isRight) + 1 := List.countP_cons_of_pos rfl
      rw [hcount, render_inr, render_inr, List.count_append, List.count_append, hj, id, hk, Nat.mul_succ, Nat.mul_succ]
      omega

/-- A value with fewer of a symbol loses some at each occurrence. -/
theorem count_render_lt (h : ∀ w, .inr w ∈ ps → (value w).count x < (value' w).count x) :
    (render value ps).count x + ps.countP (·.isRight) ≤ (render value' ps).count x := by
  induction ps with
  | nil => exact Nat.le_refl _
  | cons p ps ih =>
    have ih := ih (fun w hw => h w (List.mem_cons_of_mem _ hw))
    cases p with
    | inl c =>
      have hcount : (Sum.inl c :: ps).countP (·.isRight) = ps.countP (·.isRight) := List.countP_cons_of_neg nofun
      rw [hcount, render_inl, render_inl, List.count_cons, List.count_cons]
      omega
    | inr w =>
      have hlt := h w List.mem_cons_self
      have hcount : (Sum.inr w :: ps).countP (·.isRight) = ps.countP (·.isRight) + 1 := List.countP_cons_of_pos rfl
      rw [hcount, render_inr, render_inr, List.count_append, List.count_append]
      omega

end Render

/-- The occurrences of a finder are the words of a language, and no word begins inside
another. -/
structure Spells (f : Finder α) (Word : List α → Prop) : Prop where
  found : ∀ {w}, Word w → ∀ a, f.find (w ++ a) = some w.length
  word : ∀ {t n}, f.find t = some n → Word (t.take n)
  solid : ∀ {u v}, Word (u ++ v) → u ≠ [] → v ≠ [] → ∀ a, f.find (v ++ a) = none

section Words
variable {f : Finder α} {Word : List α → Prop} {value : List α → List α} {w t z p : List α}

theorem pieces_word (hf : Spells f Word) (hw : Word w) (t : List α) :
    pieces f (w ++ t) 0 = .inr w :: pieces f t 0 := by
  rw [pieces_found (hf.found hw t), List.take_left, List.drop_left]

theorem word_of_mem (hf : Spells f Word) (hw : .inr w ∈ pieces f t 0) : Word w := by
  induction t using scan_induction f with
  | nil => cases hw
  | found t n h ih =>
    rw [pieces_found h, List.mem_cons] at hw
    rcases hw with heq | hw
    · cases heq
      exact hf.word h
    · exact ih hw
  | none c t h ih =>
    rw [pieces_none h, List.mem_cons] at hw
    rcases hw with heq | hw
    · cases heq
    · exact ih hw

/-- No occurrence starts before a word and ends in it. -/
theorem find_before (hf : Spells f Word) (hw : Word w) {c : α} (h : f.find (c :: p) = none) :
    f.find (c :: p ++ (w ++ z)) = none := by
  cases hfind : f.find (c :: p ++ (w ++ z)) with
  | none => rfl
  | some n =>
    exfalso
    have hword := hf.word hfind
    by_cases hn : n ≤ (c :: p).length
    · rw [List.take_append_of_le_length hn] at hword
      have hfound := hf.found hword ((c :: p).drop n)
      rw [List.take_append_drop, h] at hfound
      cases hfound
    · rw [List.take_append, List.take_of_length_le (by omega)] at hword
      have hrest : (w ++ z).take (n - (c :: p).length) ≠ [] := by
        intro hnil
        have hle := f.le hfind
        have hlen := congrArg List.length hnil
        rw [List.length_append] at hle
        rw [List.length_take, List.length_nil] at hlen
        omega
      have hnone := hf.solid hword (List.cons_ne_nil _ _) hrest ((w ++ z).drop (n - (c :: p).length))
      rw [List.take_append_drop, hf.found hw] at hnone
      cases hnone

/-- A word in a text is cut out, whatever stands before it. -/
theorem pieces_cut (hf : Spells f Word) (hw : Word w) (p z : List α) :
    pieces f (p ++ (w ++ z)) 0 = pieces f p 0 ++ .inr w :: pieces f z 0 := by
  induction p using scan_induction f with
  | nil => exact pieces_word hf hw z
  | found p n h ih =>
    have hle := f.le h
    have hlen : (p.take n).length = n := List.length_take_of_le hle
    have hfound : f.find (p ++ (w ++ z)) = some n := by
      have := hf.found (hf.word h) (p.drop n ++ (w ++ z))
      rwa [← List.append_assoc, List.take_append_drop, hlen] at this
    rw [pieces_found hfound, pieces_found h, List.take_append_of_le_length hle, List.drop_append_of_le_length hle, ih,
      List.cons_append]
  | none c p h ih =>
    have hnone : f.find (c :: (p ++ (w ++ z))) = none := find_before hf hw h
    rw [List.cons_append, pieces_none hnone, pieces_none h, ih, List.cons_append]

theorem rewrite_cut (hf : Spells f Word) (hw : Word w) (p z : List α) :
    rewrite f value (p ++ (w ++ z)) = rewrite f value p ++ (value w ++ rewrite f value z) := by
  rw [rewrite, pieces_cut hf hw, render_append, render_inr, rewrite, rewrite]

theorem occurrences_cut (hf : Spells f Word) (hw : Word w) (p z : List α) :
    occurrences f (p ++ (w ++ z)) = occurrences f p + (occurrences f z + 1) := by
  rw [occurrences, pieces_cut hf hw, List.countP_append, List.countP_cons_of_pos rfl, occurrences, occurrences]

end Words

section Absent
variable {f : Finder α} {value : List α → List α} {w t : List α}

/-- Where no occurrence starts, nothing is cut. -/
theorem pieces_pass (h : ∀ v, v ≠ [] → v <:+ w → ∀ a, f.find (v ++ a) = none) (t : List α) :
    pieces f (w ++ t) 0 = w.map .inl ++ pieces f t 0 := by
  induction w with
  | nil => rfl
  | cons c w ih =>
    have hnone : f.find (c :: (w ++ t)) = none := h _ (List.cons_ne_nil c w) (List.suffix_refl _) t
    rw [List.cons_append, pieces_none hnone, ih (fun v hv hsuf => h v hv (hsuf.trans (List.suffix_cons c w))), List.map_cons,
      List.cons_append]

theorem render_symbols (w : List α) : render value (w.map .inl) = w := by
  induction w with
  | nil => rfl
  | cons c w ih => rw [List.map_cons, render_inl, ih]

theorem rewrite_pass (h : ∀ v, v ≠ [] → v <:+ w → ∀ a, f.find (v ++ a) = none) (t : List α) :
    rewrite f value (w ++ t) = w ++ rewrite f value t := by
  rw [rewrite, pieces_pass h, render_append, render_symbols, rewrite]

theorem occurrences_pass (h : ∀ v, v ≠ [] → v <:+ w → ∀ a, f.find (v ++ a) = none) (t : List α) :
    occurrences f (w ++ t) = occurrences f t := by
  have hzero : (w.map (Sum.inl : α → α ⊕ List α)).countP (·.isRight) = 0 := by
    rw [List.countP_eq_zero]
    intro p hp
    obtain ⟨c, -, rfl⟩ := List.mem_map.mp hp
    exact nofun
  rw [occurrences, pieces_pass h, List.countP_append, hzero, Nat.zero_add, occurrences]

/-- A text without occurrences stays as it is. -/
theorem rewrite_free (h : occurrences f t = 0) : rewrite f value t = t := by
  have hnone : ∀ w, .inr w ∈ pieces f t 0 → value w = id w := by
    intro w hw
    exact absurd rfl (List.countP_eq_zero.mp h _ hw)
  rw [rewrite, render_congr hnone, render_self]

end Absent
end Cronova.Text.Rewriting
