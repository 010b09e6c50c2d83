import Mathlib.Logic.Function.Basic

/-! Programs as trees of atomic commands. A program fixes the order of the
commands it issues and what it does with each reply; how a command acts on the
shared state is left to the semantics that executes the tree. -/
namespace Cronova.Concurrency

/-- A tree of typed commands. Every reply selects a continuation, so the tree
holds all the paths the program can take. -/
inductive Program (Cmd : Type → Type 1) (α : Type) : Type 1 where
  | pure : α → Program Cmd α
  | step {β : Type} : Cmd β → (β → Program Cmd α) → Program Cmd α

namespace Program
variable {Cmd : Type → Type 1} {α β γ : Type}

def bind : Program Cmd α → (α → Program Cmd β) → Program Cmd β
  | .pure a, next => next a
  | .step c k, next => .step c (fun r => (k r).bind next)

instance : Monad (Program Cmd) where
  pure := .pure
  bind := bind

/-- One command, its reply returned. -/
def call (c : Cmd α) : Program Cmd α := .step c .pure

@[simp] theorem pure_def (a : α) : (Pure.pure a : Program Cmd α) = .pure a := rfl
@[simp] theorem pure_bind_def (a : α) (next : α → Program Cmd β) :
    (Program.pure a >>= next) = next a := rfl
@[simp] theorem step_bind {δ : Type} (c : Cmd δ) (k : δ → Program Cmd α) (next : α → Program Cmd β) :
    (Program.step c k >>= next) = .step c (fun r => k r >>= next) := rfl
@[simp] theorem call_bind (c : Cmd α) (next : α → Program Cmd β) :
    (call c >>= next) = .step c next := rfl

theorem bind_pure_id (p : Program Cmd α) : p.bind .pure = p := by
  induction p with
  | pure a => rfl
  | step c k ih => simp only [bind, ih]

theorem bind_assoc' (p : Program Cmd α) (f : α → Program Cmd β) (g : β → Program Cmd γ) :
    (p.bind f).bind g = p.bind (fun a => (f a).bind g) := by
  induction p with
  | pure a => rfl
  | step c k ih => simp only [bind, ih]

instance : LawfulMonad (Program Cmd) :=
  LawfulMonad.mk' _ bind_pure_id (fun _ _ => rfl) bind_assoc'

/-- Every command on every path satisfies `allowed`, whatever the replies are. -/
def Uses (allowed : {β : Type} → Cmd β → Prop) : Program Cmd α → Prop
  | .pure _ => True
  | .step c k => allowed c ∧ ∀ r, (k r).Uses allowed

/-- Every value the program can return satisfies `post`. -/
def Returns (post : α → Prop) : Program Cmd α → Prop
  | .pure a => post a
  | .step _ k => ∀ r, (k r).Returns post

variable {allowed : {β : Type} → Cmd β → Prop}

theorem Uses.bind {p : Program Cmd α} {f : α → Program Cmd β}
    (hp : p.Uses allowed) (hf : ∀ a, (f a).Uses allowed) : (p >>= f).Uses allowed := by
  induction p with
  | pure a => exact hf a
  | step c k ih => exact ⟨hp.1, fun r => ih r (hp.2 r)⟩

theorem Uses.call {c : Cmd α} (hc : allowed c) : (call c).Uses allowed :=
  ⟨hc, fun _ => trivial⟩

theorem Uses.mono {weak : {β : Type} → Cmd β → Prop} {p : Program Cmd α}
    (h : p.Uses allowed) (hw : ∀ {β} (c : Cmd β), allowed c → weak c) : p.Uses weak := by
  induction p with
  | pure a => trivial
  | step c k ih => exact ⟨hw c h.1, fun r => ih r (h.2 r)⟩

theorem Uses.any (p : Program Cmd α) : p.Uses (fun _ => True) := by
  induction p with
  | pure a => trivial
  | step c k ih => exact ⟨trivial, ih⟩

theorem Uses.forM {l : List α} {f : α → Program Cmd PUnit}
    (h : ∀ a ∈ l, (f a).Uses allowed) : (l.forM f).Uses allowed := by
  induction l with
  | nil => trivial
  | cons a l ih =>
    exact .bind (h a (by simp)) (fun _ => ih (fun b hb => h b (by simp [hb])))

theorem Uses.foldlM {l : List α} {f : β → α → Program Cmd β} {b : β}
    (h : ∀ a ∈ l, ∀ b, (f b a).Uses allowed) : (l.foldlM f b).Uses allowed := by
  induction l generalizing b with
  | nil => trivial
  | cons a l ih =>
    exact .bind (h a (by simp) b) (fun _ => ih (fun x hx => h x (by simp [hx])))

/-- The program with each command replaced by a command of another kind. -/
def translate {Other : Type → Type 1} (f : {β : Type} → Cmd β → Other β) : Program Cmd α → Program Other α
  | .pure a => .pure a
  | .step c k => .step (f c) (fun r => (k r).translate f)

theorem Uses.translate {Other : Type → Type 1} {f : {β : Type} → Cmd β → Other β} {weak : {β : Type} → Other β → Prop}
    {p : Program Cmd α} (h : p.Uses allowed) (hf : ∀ {β} (c : Cmd β), allowed c → weak (f c)) : (p.translate f).Uses weak := by
  induction p with
  | pure a => trivial
  | step c k ih => exact ⟨hf c h.1, fun r => ih r (h.2 r)⟩

theorem Returns.bind {p : Program Cmd α} {f : α → Program Cmd β} {mid : α → Prop} {post : β → Prop}
    (hp : p.Returns mid) (hf : ∀ a, mid a → (f a).Returns post) : (p >>= f).Returns post := by
  induction p with
  | pure a => exact hf a hp
  | step c k ih => exact fun r => ih r (hp r)

theorem Returns.any (p : Program Cmd α) : p.Returns (fun _ => True) := by
  induction p with
  | pure a => trivial
  | step c k ih => exact ih

end Program
end Cronova.Concurrency
