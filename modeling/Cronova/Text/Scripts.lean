import Mathlib.Data.List.Basic

/-! Edit scripts between two lists, and how much of both a script can keep. -/
namespace Cronova.Text

inductive Edit (α : Type*) where
  | keep (a : α)
  | del (a : α)
  | ins (a : α)
  deriving DecidableEq, Repr

namespace Edit
variable {α : Type*}

/-- What a script is for. -/
def old : List (Edit α) → List α
  | [] => []
  | .keep a :: s => a :: old s
  | .del a :: s => a :: old s
  | .ins _ :: s => old s

/-- What a script makes of it. -/
def new : List (Edit α) → List α
  | [] => []
  | .keep a :: s => a :: new s
  | .del _ :: s => new s
  | .ins a :: s => a :: new s

def common : List (Edit α) → ℕ
  | [] => 0
  | .keep _ :: s => common s + 1
  | .del _ :: s => common s
  | .ins _ :: s => common s

def changes : List (Edit α) → ℕ
  | [] => 0
  | .keep _ :: s => changes s
  | .del _ :: s => changes s + 1
  | .ins _ :: s => changes s + 1

theorem length_old_new (s : List (Edit α)) : (old s).length + (new s).length = 2 * common s + changes s := by
  induction s with
  | nil => rfl
  | cons e s ih =>
    cases e with
    | keep a =>
      simp only [old, new, common, changes, List.length_cons]
      omega
    | del a =>
      simp only [old, new, common, changes, List.length_cons]
      omega
    | ins a =>
      simp only [old, new, common, changes, List.length_cons]
      omega

@[simp] theorem old_map_del (xs : List α) : old (xs.map del) = xs := by
  induction xs with
  | nil => rfl
  | cons x xs ih => rw [List.map_cons, old, ih]

@[simp] theorem new_map_del (xs : List α) : new (xs.map del) = [] := by
  induction xs with
  | nil => rfl
  | cons x xs ih => rw [List.map_cons, new, ih]

@[simp] theorem old_map_ins (xs : List α) : old (xs.map ins) = [] := by
  induction xs with
  | nil => rfl
  | cons x xs ih => rw [List.map_cons, old, ih]

@[simp] theorem new_map_ins (xs : List α) : new (xs.map ins) = xs := by
  induction xs with
  | nil => rfl
  | cons x xs ih => rw [List.map_cons, new, ih]

@[simp] theorem common_map_del (xs : List α) : common (xs.map del) = 0 := by
  induction xs with
  | nil => rfl
  | cons x xs ih => rw [List.map_cons, common, ih]

@[simp] theorem common_map_ins (xs : List α) : common (xs.map ins) = 0 := by
  induction xs with
  | nil => rfl
  | cons x xs ih => rw [List.map_cons, common, ih]

/-! ### The most that can be common -/

variable [DecidableEq α]

/-- The length of the longest common subsequence. -/
def best : List α → List α → ℕ
  | [], _ => 0
  | _ :: _, [] => 0
  | a :: xs, b :: ys => if a = b then best xs ys + 1 else max (best xs (b :: ys)) (best (a :: xs) ys)
termination_by xs ys => xs.length + ys.length

@[simp] theorem best_nil_left (ys : List α) : best [] ys = 0 := by rw [best]

@[simp] theorem best_nil_right (xs : List α) : best xs [] = 0 := by
  cases xs with
  | nil => rw [best]
  | cons a xs => rw [best]

theorem best_same (a : α) (xs ys : List α) : best (a :: xs) (a :: ys) = best xs ys + 1 := by
  rw [best, if_pos rfl]

theorem best_ne {a b : α} (h : a ≠ b) (xs ys : List α) : best (a :: xs) (b :: ys) = max (best xs (b :: ys)) (best (a :: xs) ys) := by
  rw [best, if_neg h]

/-- One element more, on one side, is at most one more to keep. -/
theorem best_cons (xs ys : List α) (a b : α) : best xs ys ≤ best (a :: xs) ys ∧ best xs ys ≤ best xs (b :: ys) ∧
    best (a :: xs) ys ≤ best xs ys + 1 ∧ best xs (b :: ys) ≤ best xs ys + 1 := by
  induction hk : xs.length + ys.length using Nat.strongRecOn generalizing xs ys a b with
  | ind k ih =>
    have hleft : best xs ys ≤ best (a :: xs) ys ∧ best (a :: xs) ys ≤ best xs ys + 1 := by
      cases ys with
      | nil => simp
      | cons c ys =>
        obtain ⟨-, hright, hup, hup'⟩ := ih (xs.length + ys.length) (by rw [← hk, List.length_cons]; omega) xs ys a c rfl
        by_cases hac : a = c
        · subst hac
          rw [best_same]
          omega
        · rw [best_ne hac]
          omega
    have hright : best xs ys ≤ best xs (b :: ys) ∧ best xs (b :: ys) ≤ best xs ys + 1 := by
      cases xs with
      | nil => simp
      | cons c xs =>
        obtain ⟨hleft, -, hup, hup'⟩ := ih (xs.length + ys.length) (by rw [← hk, List.length_cons]; omega) xs ys c b rfl
        by_cases hcb : c = b
        · subst hcb
          rw [best_same]
          omega
        · rw [best_ne hcb]
          omega
    exact ⟨hleft.1, hright.1, hleft.2, hright.2⟩

/-- No script keeps more. -/
theorem common_le_best (s : List (Edit α)) : common s ≤ best (old s) (new s) := by
  induction s with
  | nil => exact Nat.zero_le _
  | cons e s ih =>
    cases e with
    | keep a =>
      rw [common, old, new, best_same]
      omega
    | del a =>
      have hmore := (best_cons (old s) (new s) a a).1
      rw [common, old, new]
      omega
    | ins a =>
      have hmore := (best_cons (old s) (new s) a a).2.1
      rw [common, old, new]
      omega

end Edit
end Cronova.Text
