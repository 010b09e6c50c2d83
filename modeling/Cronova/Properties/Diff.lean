import Cronova.Web.Diff

/-! The diff that the graph editor shows before a save: it is a script from the saved
definition to the pending one, and no script changes fewer lines. -/
namespace Cronova.Properties.Diff
open Cronova.Text Cronova.Text.Edit Cronova.Web

section Table
variable {α : Type} [DecidableEq α]

theorem getD_replicate (n j : ℕ) : (List.replicate n 0).getD j 0 = 0 := by
  rw [List.getD_eq_getElem?_getD, List.getElem?_replicate]
  split
  · rfl
  · rfl

theorem headD_eq_getD {β : Type} (l : List β) (d : β) : l.headD d = l.getD 0 d := by
  cases l with
  | nil => rfl
  | cons b l => rfl

theorem getD_tail {β : Type} (l : List β) (j : ℕ) (d : β) : l.tail.getD j d = l.getD (j + 1) d := by
  cases l with
  | nil => rfl
  | cons b l => rfl

/-- A row that is filled from the row of the shorter list. -/
theorem fillRow_spec (a : α) (as : List α) (below : List ℕ) (bs : List α) (hbelow : ∀ j, below.getD j 0 = best as (bs.drop j)) (j : ℕ) :
    (fillRow a bs below).getD j 0 = best (a :: as) (bs.drop j) := by
  induction bs generalizing below j with
  | nil =>
    rw [List.drop_nil, best_nil_right]
    cases j with
    | zero => rfl
    | succ j => rfl
  | cons b bs ih =>
    have htail : ∀ j, below.tail.getD j 0 = best as (bs.drop j) := by
      intro j
      rw [getD_tail, hbelow, List.drop_succ_cons]
    have hrest := ih below.tail htail
    cases j with
    | succ j => exact hrest j
    | zero =>
      have hdown : below.headD 0 = best as (b :: bs) := (headD_eq_getD below 0).trans (hbelow 0)
      have hdiag : below.tail.headD 0 = best as bs := (headD_eq_getD below.tail 0).trans (htail 0)
      have hright : (fillRow a bs below.tail).headD 0 = best (a :: as) bs := (headD_eq_getD _ 0).trans (hrest 0)
      change (if a = b then below.tail.headD 0 + 1 else max (below.headD 0) ((fillRow a bs below.tail).headD 0)) = best (a :: as) (b :: bs)
      rw [hdown, hdiag, hright]
      by_cases hab : a = b
      · subst hab
        rw [if_pos rfl, best_same]
      · rw [if_neg hab, best_ne hab]

/-- `dp[i][j]` is the most that can be kept of what is behind `i` and `j`. -/
theorem entry_dpTable (as bs : List α) (i j : ℕ) : entry (dpTable as bs) i j = best (as.drop i) (bs.drop j) := by
  induction as generalizing i j with
  | nil =>
    rw [List.drop_nil, best_nil_left]
    cases i with
    | zero => exact getD_replicate _ j
    | succ i => rfl
  | cons a as ih =>
    cases i with
    | succ i => exact ih i j
    | zero =>
      refine fillRow_spec a as _ bs ?_ j
      intro k
      rw [headD_eq_getD]
      exact ih 0 k

/-- The loop is at `i` and `j` with what is behind them, and makes a script of it that keeps
the most. -/
theorem walk_spec (A B : List α) (i j : ℕ) (as bs : List α) (has : as = A.drop i) (hbs : bs = B.drop j) :
    old (walk (dpTable A B) i j as bs) = as ∧ new (walk (dpTable A B) i j as bs) = bs ∧ common (walk (dpTable A B) i j as bs) = best as bs := by
  induction hk : as.length + bs.length using Nat.strongRecOn generalizing i j as bs with
  | ind k ih =>
    cases as with
    | nil =>
      rw [walk, best_nil_left]
      exact ⟨old_map_ins bs, new_map_ins bs, common_map_ins bs⟩
    | cons a as =>
      have has' : as = A.drop (i + 1) := by rw [← List.tail_drop, ← has, List.tail_cons]
      cases bs with
      | nil =>
        rw [walk, best_nil_right]
        exact ⟨old_map_del _, new_map_del _, common_map_del _⟩
      | cons b bs =>
        have hbs' : bs = B.drop (j + 1) := by rw [← List.tail_drop, ← hbs, List.tail_cons]
        rw [List.length_cons, List.length_cons] at hk
        rw [walk]
        by_cases hab : a = b
        · subst hab
          obtain ⟨hold, hnew, hcommon⟩ := ih (as.length + bs.length) (by omega) (i + 1) (j + 1) as bs has' hbs' rfl
          rw [if_pos rfl, old, new, common, hold, hnew, hcommon, best_same]
          exact ⟨rfl, rfl, rfl⟩
        · rw [if_neg hab, best_ne hab, entry_dpTable, entry_dpTable, ← has, ← hbs, ← has', ← hbs']
          by_cases hle : best (a :: as) bs ≤ best as (b :: bs)
          · obtain ⟨hold, hnew, hcommon⟩ := ih (as.length + (b :: bs).length) (by rw [List.length_cons]; omega) (i + 1) j as (b :: bs) has' hbs rfl
            rw [if_pos hle, old, new, common, hold, hnew, hcommon, Nat.max_eq_left hle]
            exact ⟨rfl, rfl, rfl⟩
          · obtain ⟨hold, hnew, hcommon⟩ := ih ((a :: as).length + bs.length) (by rw [List.length_cons]; omega) i (j + 1) (a :: as) bs has hbs' rfl
            rw [if_neg hle, old, new, common, hold, hnew, hcommon, Nat.max_eq_right (by omega)]
            exact ⟨rfl, rfl, rfl⟩

end Table

/-- The diff has both texts in it, and no script from one to the other changes fewer lines. -/
theorem diffLines_minimal (a b : Text) :
    List.intercalate ['\n'] (old (diffLines a b)) = a ∧ List.intercalate ['\n'] (new (diffLines a b)) = b ∧
      ∀ s, old s = lines a → new s = lines b → changes (diffLines a b) ≤ changes s := by
  obtain ⟨hold, hnew, hcommon⟩ := walk_spec (lines a) (lines b) 0 0 (lines a) (lines b) rfl rfl
  refine ⟨?_, ?_, ?_⟩
  · unfold diffLines
    rw [hold]
    exact List.intercalate_splitOn '\n'
  · unfold diffLines
    rw [hnew]
    exact List.intercalate_splitOn '\n'
  · intro s hs hs'
    have hmost := common_le_best s
    have hsum := length_old_new s
    have hdiff := length_old_new (diffLines a b)
    unfold diffLines at hdiff ⊢
    rw [hs, hs'] at hmost hsum
    rw [hold, hnew, hcommon] at hdiff
    omega

end Cronova.Properties.Diff
