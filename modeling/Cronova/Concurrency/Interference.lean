import Cronova.Concurrency.Program

/-! Assertions about one program while other threads change the shared state.
Between any two commands the state may move along `rely`; every command the
program issues must satisfy `guar`. -/
namespace Cronova.Concurrency
variable {Cmd : Type → Type 1} {S : Type} {α β : Type}

/-- How commands act on the state, what the others may do to it, and what the
program promises about its own commands. -/
structure Rules (Cmd : Type → Type 1) (S : Type) where
  sem : {β : Type} → Cmd β → S → β → S → Prop
  rely : S → S → Prop
  guar : {β : Type} → Cmd β → S → β → S → Prop

/-- From `s`, under interference, every command of the program keeps the
guarantee and every result satisfies the postcondition. -/
def Holds (R : Rules Cmd S) : Program Cmd α → (α → S → Prop) → S → Prop
  | .pure a, post, s => post a s
  | .step c k, post, s => ∀ s₁, R.rely s s₁ → ∀ r s₂, R.sem c s₁ r s₂ →
      R.guar c s₁ r s₂ ∧ Holds R (k r) post s₂

namespace Holds
variable {R : Rules Cmd S} {post : α → S → Prop} {s : S}

theorem mono {weak : α → S → Prop} {p : Program Cmd α} (h : Holds R p post s)
    (hw : ∀ a s, post a s → weak a s) : Holds R p weak s := by
  induction p generalizing s with
  | pure a => exact hw a s h
  | step c k ih =>
    intro s₁ h₁ r s₂ h₂
    obtain ⟨hg, hk⟩ := h s₁ h₁ r s₂ h₂
    exact ⟨hg, ih r hk⟩

/-- A judgement under fewer effects and less interference promises no less. -/
theorem weaken {R' : Rules Cmd S} (hsem : ∀ {β : Type} (c : Cmd β) s r t, R'.sem c s r t → R.sem c s r t)
    (hrely : ∀ s t, R'.rely s t → R.rely s t)
    (hguar : ∀ {β : Type} (c : Cmd β) s r t, R.guar c s r t → R'.guar c s r t) {p : Program Cmd α} (h : Holds R p post s) :
    Holds R' p post s := by
  induction p generalizing s with
  | pure a => exact h
  | step c k ih =>
    intro s₁ h₁ r s₂ h₂
    obtain ⟨hg, hk⟩ := h s₁ (hrely s s₁ h₁) r s₂ (hsem c s₁ r s₂ h₂)
    exact ⟨hguar c s₁ r s₂ hg, ih r hk⟩

theorem bind {post : β → S → Prop} {p : Program Cmd α} {f : α → Program Cmd β}
    (h : Holds R p (fun a s => Holds R (f a) post s) s) : Holds R (p >>= f) post s := by
  induction p generalizing s with
  | pure a => exact h
  | step c k ih =>
    intro s₁ h₁ r s₂ h₂
    obtain ⟨hg, hk⟩ := h s₁ h₁ r s₂ h₂
    exact ⟨hg, ih r hk⟩

theorem call {c : Cmd α} (h : ∀ s₁, R.rely s s₁ → ∀ r s₂, R.sem c s₁ r s₂ →
    R.guar c s₁ r s₂ ∧ post r s₂) : Holds R (Program.call c) post s := h

/-- A judgement survives interference before the next command. -/
theorem interfere {p : Program Cmd α} (htrans : ∀ a b c, R.rely a b → R.rely b c → R.rely a c)
    (hpost : ∀ a s t, R.rely s t → post a s → post a t) {t : S} (hst : R.rely s t)
    (h : Holds R p post s) : Holds R p post t := by
  cases p with
  | pure a => exact hpost a s t hst h
  | step c k => exact fun s₁ h₁ => h s₁ (htrans _ _ _ hst h₁)

/-- A loop keeps the invariant each iteration keeps. -/
theorem forM {l : List α} {f : α → Program Cmd PUnit} {inv : S → Prop} (hs : inv s)
    (hstep : ∀ a ∈ l, ∀ s, inv s → Holds R (f a) (fun _ s => inv s) s) :
    Holds R (l.forM f) (fun _ s => inv s) s := by
  induction l generalizing s with
  | nil => exact hs
  | cons a l ih =>
    refine bind ((hstep a (by simp) s hs).mono ?_)
    intro _ t ht
    exact ih ht (fun b hb => hstep b (by simp [hb]))

theorem foldlM {l : List α} {f : β → α → Program Cmd β} {inv : β → S → Prop} {b : β} (hs : inv b s)
    (hstep : ∀ a ∈ l, ∀ b s, inv b s → Holds R (f b a) inv s) :
    Holds R (l.foldlM f b) inv s := by
  induction l generalizing b s with
  | nil => exact hs
  | cons a l ih =>
    refine bind ((hstep a (by simp) b s hs).mono ?_)
    intro b' t ht
    exact ih ht (fun x hx => hstep x (by simp [hx]))

/-- A program built from commands that each keep the guarantee and a stable
assertion keeps both, whatever the replies are. -/
theorem of_uses {p : Program Cmd α} {allowed : {β : Type} → Cmd β → Prop} {inv : S → Prop}
    (hp : p.Uses allowed) (hs : inv s) (hrely : ∀ s t, R.rely s t → inv s → inv t)
    (hcmd : ∀ {β : Type} (c : Cmd β), allowed c → ∀ s r t, inv s → R.sem c s r t → R.guar c s r t ∧ inv t) :
    Holds R p (fun _ s => inv s) s := by
  induction p generalizing s with
  | pure a => exact hs
  | step c k ih =>
    intro s₁ h₁ r s₂ h₂
    obtain ⟨hg, hi⟩ := hcmd c hp.1 s₁ r s₂ (hrely s s₁ h₁ hs) h₂
    exact ⟨hg, ih r (hp.2 r) hi⟩

/-- A judgement about a program carries over to its translation. -/
theorem translate {Other : Type → Type 1} {f : {β : Type} → Cmd β → Other β} {R' : Rules Other S}
    (hsem : ∀ {β : Type} (c : Cmd β) s r t, R'.sem (f c) s r t → R.sem c s r t) (hrely : ∀ s t, R'.rely s t → R.rely s t)
    (hguar : ∀ {β : Type} (c : Cmd β) s r t, R.guar c s r t → R'.guar (f c) s r t) {p : Program Cmd α} (h : Holds R p post s) :
    Holds R' (p.translate f) post s := by
  induction p generalizing s with
  | pure a => exact h
  | step c k ih =>
    intro s₁ h₁ r s₂ h₂
    obtain ⟨hg, hk⟩ := h s₁ (hrely s s₁ h₁) r s₂ (hsem c s₁ r s₂ h₂)
    exact ⟨hguar c s₁ r s₂ hg, ih r hk⟩

end Holds

/-- Programs that may fail: an error skips the rest of the sequence. -/
abbrev Fallible (ε : Type) (Cmd : Type → Type 1) := ExceptT ε (Program Cmd)

namespace Fallible
variable {ε : Type} {R : Rules Cmd S} {s : S}

/-- Run a fallible program and hand its outcome to the caller. -/
def outcome (x : Fallible ε Cmd α) : Fallible ε Cmd (Except ε α) := ExceptT.lift x.run

/-- A result that is already there. -/
def ofExcept (r : Except ε α) : Fallible ε Cmd α := ExceptT.mk (Program.pure r)

/-- Issue one command before the body and one after it, whatever its outcome. -/
def around (before : Cmd Unit) (after : Bool → Cmd Unit) (body : Fallible ε Cmd α) : Fallible ε Cmd α :=
  ExceptT.mk (Program.step before (fun _ => body.run >>= fun r => Program.step (after r.isOk) (fun _ => .pure r)))

@[simp] theorem outcome_run (x : Fallible ε Cmd α) : (outcome x).run = Except.ok <$> x.run := rfl

/-- What an error-propagating sequence needs after its first part. -/
def Next (R : Rules Cmd S) (f : α → Fallible ε Cmd β) (post : Except ε β → S → Prop) :
    Except ε α → S → Prop
  | .ok a, s => Holds R (f a).run post s
  | .error e, s => post (.error e) s

theorem holds_bind {x : Fallible ε Cmd α} {f : α → Fallible ε Cmd β} {post : Except ε β → S → Prop}
    (h : Holds R x.run (Next R f post) s) : Holds R (x >>= f).run post s := by
  refine Holds.bind (h.mono ?_)
  intro r t ht
  cases r with
  | ok a => exact ht
  | error e => exact ht

theorem holds_outcome {x : Fallible ε Cmd α} {post : Except ε (Except ε α) → S → Prop}
    (h : Holds R x.run (fun r s => post (.ok r) s) s) : Holds R (outcome x).run post s :=
  Holds.bind h

end Fallible
end Cronova.Concurrency
