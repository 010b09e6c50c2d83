import Mathlib.Data.List.Basic
import Mathlib.Data.List.Infix

/-! One text replaced by another wherever it occurs, and steps that are taken in any order. -/
namespace Cronova.Text.Replacing

section Replace
variable {α : Type*} [DecidableEq α]

/-- Every occurrence of `old`, from left to right, becomes `new`; `skip` counts what is left
of an occurrence. -/
def replaceFrom (old new : List α) : (skip : Nat) → List α → List α
  | _, [] => []
  | skip + 1, _ :: t => replaceFrom old new skip t
  | 0, a :: t =>
    if old <+: a :: t then new ++ replaceFrom old new (old.length - 1) t
    else a :: replaceFrom old new 0 t

def replaceAll (old new t : List α) : List α := replaceFrom old new 0 t

/-- A text without an occurrence stays. -/
theorem replaceAll_absent {old new t : List α} (h : ¬ old <:+: t) : replaceAll old new t = t := by
  induction t with
  | nil => rfl
  | cons a t ih =>
    have hhead : ¬ old <+: a :: t := fun hfirst => h hfirst.isInfix
    have htail : ¬ old <:+: t := fun hlater => h (List.infix_cons hlater)
    change (if old <+: a :: t then _ else a :: replaceAll old new t) = a :: t
    rw [if_neg hhead, ih htail]

end Replace

/-! ### Any order -/

section Order
variable {σ ε : Type*} (f : σ → ε → σ)

/-- Whatever steps have been taken, in any order, two that are left can change places. -/
def Settled (steps : List ε) (s : σ) : Prop :=
  ∀ ks a b rest, (ks ++ a :: b :: rest).Perm steps → f (f (ks.foldl f s) a) b = f (f (ks.foldl f s) b) a

/-- All orders of the steps end alike. -/
def Confluent (steps : List ε) (s : σ) : Prop := ∀ l : List ε, l.Perm steps → l.foldl f s = steps.foldl f s

variable {f} {steps : List ε} {s : σ}

/-- Steps that can change places end alike in any order. -/
theorem Settled.confluent (h : Settled f steps s) : Confluent f steps s := by
  have hafter : ∀ {l l' : List ε}, l.Perm l' → ∀ ks, (ks ++ l).Perm steps → (ks ++ l).foldl f s = (ks ++ l').foldl f s := by
    intro l l' hperm
    induction hperm with
    | nil => exact fun _ _ => rfl
    | cons a _ ih =>
      intro ks hks
      rw [← List.singleton_append, ← List.append_assoc] at hks
      rw [← List.singleton_append, ← List.append_assoc, ih (ks ++ [a]) hks, List.append_assoc, List.singleton_append]
    | swap a b l =>
      intro ks hks
      rw [List.foldl_append, List.foldl_append]
      simp only [List.foldl_cons]
      rw [h ks b a l hks]
    | trans hperm hperm' ih ih' =>
      intro ks hks
      exact (ih ks hks).trans (ih' ks ((hperm.symm.append_left ks).trans hks))
  intro l hl
  exact hafter hl [] hl

/-- When no other step that is left does anything, two steps that end alike in any order can
change places. -/
theorem Confluent.swap (h : Confluent f steps s) {ks rest : List ε} {a b : ε} (hks : (ks ++ a :: b :: rest).Perm steps)
    (hidle : ∀ e ∈ rest, f (ks.foldl f s) e = ks.foldl f s) : f (f (ks.foldl f s) a) b = f (f (ks.foldl f s) b) a := by
  have hrest : rest.foldl f (ks.foldl f s) = ks.foldl f s := by
    generalize ks.foldl f s = t at hidle
    clear hks
    induction rest with
    | nil => rfl
    | cons e rest ih =>
      rw [List.foldl_cons, hidle e List.mem_cons_self]
      exact ih (fun e he => hidle e (List.mem_cons_of_mem _ he))
  have hfirst : (ks ++ (rest ++ [a, b])).Perm steps := by
    refine List.Perm.trans ?_ hks
    exact List.Perm.append_left ks List.perm_append_comm
  have hsecond : (ks ++ (rest ++ [b, a])).Perm steps := by
    refine List.Perm.trans ?_ hfirst
    exact List.Perm.append_left ks (List.Perm.append_left rest (List.Perm.swap a b []))
  have heq := (h _ hfirst).trans (h _ hsecond).symm
  rw [List.foldl_append, List.foldl_append, List.foldl_append, List.foldl_append, hrest] at heq
  exact heq

end Order

end Cronova.Text.Replacing
