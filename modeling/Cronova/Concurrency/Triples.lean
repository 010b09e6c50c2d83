import Cronova.Concurrency.Interference

/-! Pre- and postconditions for programs that may fail, under interference. An
assertion that holds between commands has to be stable: the steps of the other
threads keep it. -/
namespace Cronova.Concurrency.Fallible
variable {Cmd : Type → Type 1} {S ε : Type} {α β : Type} {R : Rules Cmd S}

/-- The other threads keep the assertion. -/
def Stable (R : Rules Cmd S) (A : S → Prop) : Prop := ∀ s t, R.rely s t → A s → A t

/-- From every state that satisfies `pre`, each command keeps the guarantee and
the outcome satisfies `q`. -/
def Triple (R : Rules Cmd S) (pre : S → Prop) (x : Fallible ε Cmd α) (q : Except ε α → S → Prop) : Prop :=
  ∀ s, pre s → Holds R x.run q s

/-- A postcondition by outcome. -/
def Ends (ok : α → S → Prop) (err : S → Prop) : Except ε α → S → Prop
  | .ok a => ok a
  | .error _ => err

/-- An assertion the program keeps, whatever its outcome. -/
def Keeps (R : Rules Cmd S) (A : S → Prop) (x : Fallible ε Cmd α) : Prop := Triple R A x (fun _ => A)

/-- The program keeps the assertion, and the values it returns satisfy `q`. -/
def Gives (R : Rules Cmd S) (A : S → Prop) (q : α → Prop) (x : Fallible ε Cmd α) : Prop :=
  Triple R A x (Ends (fun a s => A s ∧ q a) A)

/-- Every command on every path of a fallible program is allowed. -/
def Uses (allowed : {β : Type} → Cmd β → Prop) (x : Fallible ε Cmd α) : Prop := x.run.Uses allowed

/-- Every value a fallible program can return satisfies `q`, whatever the
replies are. -/
def Yields (q : α → Prop) (x : Fallible ε Cmd α) : Prop :=
  x.run.Returns (fun r => ∀ a, r = .ok a → q a)

/-- The program never ends with an error, whatever the replies are. -/
def Total (x : Fallible ε Cmd α) : Prop := x.run.Returns (fun r => r.isOk = true)

theorem Stable.and {A B : S → Prop} (hA : Stable R A) (hB : Stable R B) : Stable R (fun s => A s ∧ B s) :=
  fun s t hst h => ⟨hA s t hst h.1, hB s t hst h.2⟩

namespace Triple
variable {p m : S → Prop} {q : Except ε α → S → Prop}

theorem mono {o : S → Prop} {q' : Except ε α → S → Prop} {x : Fallible ε Cmd α} (h : Triple R p x q)
    (hpre : ∀ s, o s → p s) (hpost : ∀ r s, q r s → q' r s) : Triple R o x q' :=
  fun s hs => (h s (hpre s hs)).mono hpost

theorem weaken {q' : Except ε α → S → Prop} {x : Fallible ε Cmd α} (h : Triple R p x q)
    (hpost : ∀ r s, q r s → q' r s) : Triple R p x q' :=
  h.mono (fun _ hs => hs) hpost

theorem strengthen {o : S → Prop} {x : Fallible ε Cmd α} (h : Triple R p x q)
    (hpre : ∀ s, o s → p s) : Triple R o x q :=
  h.mono hpre (fun _ _ hs => hs)

theorem pure {a : α} (h : ∀ s, p s → q (.ok a) s) : Triple R p (Pure.pure a) q :=
  fun s hs => h s hs

/-- What the precondition says of values may be assumed. -/
theorem given {c : Prop} {x : Fallible ε Cmd α} (h : c → Triple R p x q) : Triple R (fun s => c ∧ p s) x q :=
  fun s hs => h hs.1 s hs.2

theorem throw {e : ε} (h : ∀ s, p s → q (.error e) s) :
    Triple R p (MonadExcept.throw e : Fallible ε Cmd α) q :=
  fun s hs => h s hs

theorem ofExcept {r : Except ε α} (h : ∀ s, p s → q r s) : Triple R p (Fallible.ofExcept r) q :=
  fun s hs => h s hs

theorem bind {m : Except ε β → S → Prop} {x : Fallible ε Cmd β} {f : β → Fallible ε Cmd α}
    (hx : Triple R p x m) (hf : ∀ b, Triple R (m (.ok b)) (f b) q)
    (he : ∀ e s, m (.error e) s → q (.error e) s) : Triple R p (x >>= f) q := by
  intro s hs
  refine holds_bind ((hx s hs).mono ?_)
  intro r t ht
  cases r with
  | ok b => exact hf b t ht
  | error e => exact he e t ht

/-- Sequencing when an error of the first part needs nothing. -/
theorem seq {m : β → S → Prop} {E : S → Prop} {x : Fallible ε Cmd β} {f : β → Fallible ε Cmd α}
    (hx : Triple R p x (Ends m E)) (hf : ∀ b, Triple R (m b) (f b) q)
    (he : ∀ e s, E s → q (.error e) s) : Triple R p (x >>= f) q :=
  bind hx hf he

/-- Sequencing after a part that cannot fail. -/
theorem next {m : β → S → Prop} {x : Fallible ε Cmd β} {f : β → Fallible ε Cmd α}
    (hx : Triple R p x (Ends m (fun _ => False))) (hf : ∀ b, Triple R (m b) (f b) q) : Triple R p (x >>= f) q :=
  seq hx hf (fun _ _ hfalse => hfalse.elim)

/-- Two postconditions of one program hold together. -/
theorem and {q' : Except ε α → S → Prop} {x : Fallible ε Cmd α} (h : Triple R p x q) (h' : Triple R p x q') :
    Triple R p x (fun r s => q r s ∧ q' r s) := by
  have hholds : ∀ (p : Program Cmd (Except ε α)) s, Holds R p q s → Holds R p q' s →
      Holds R p (fun r s => q r s ∧ q' r s) s := by
    intro p
    induction p with
    | pure r => exact fun s hs hs' => ⟨hs, hs'⟩
    | step c k ih =>
      intro s hs hs' s₁ h₁ v s₂ h₂
      obtain ⟨hg, hk⟩ := hs s₁ h₁ v s₂ h₂
      exact ⟨hg, ih v s₂ hk (hs' s₁ h₁ v s₂ h₂).2⟩
  exact fun s hs => hholds x.run s (h s hs) (h' s hs)

/-- A family of postconditions of one program holds together. -/
theorem all {ι : Sort*} {q' : ι → Except ε α → S → Prop} {x : Fallible ε Cmd α} (h : Triple R p x q)
    (h' : ∀ i, Triple R p x (q' i)) : Triple R p x (fun r s => ∀ i, q' i r s) := by
  have hholds : ∀ (p : Program Cmd (Except ε α)) s, Holds R p q s → (∀ i, Holds R p (q' i) s) →
      Holds R p (fun r s => ∀ i, q' i r s) s := by
    intro p
    induction p with
    | pure r => exact fun s _ hs' => hs'
    | step c k ih =>
      intro s hs hs' s₁ h₁ v s₂ h₂
      obtain ⟨hg, hk⟩ := hs s₁ h₁ v s₂ h₂
      exact ⟨hg, ih v s₂ hk (fun i => (hs' i s₁ h₁ v s₂ h₂).2)⟩
  exact fun s hs => hholds x.run s (h s hs) (fun i => h' i s hs)

theorem ite {c : Prop} [Decidable c] {x y : Fallible ε Cmd α} (hx : c → Triple R p x q)
    (hy : ¬ c → Triple R p y q) : Triple R p (if c then x else y) q := by
  split
  · rename_i h
    exact hx h
  · rename_i h
    exact hy h

/-- A check that refuses before the rest. -/
theorem refuse {c : Prop} [Decidable c] {e : ε} {rest : PUnit → Fallible ε Cmd α} (he : ∀ s, p s → q (.error e) s)
    (h : ¬ c → Triple R p (rest ⟨⟩) q) :
    Triple R p (if c then MonadExcept.throw e >>= rest else rest ⟨⟩) q :=
  ite (fun _ => fun s hs => he s hs) h

theorem outcome {x : Fallible ε Cmd β} {q : Except ε (Except ε β) → S → Prop}
    (h : Triple R p x (fun r s => q (.ok r) s)) : Triple R p (Fallible.outcome x) q :=
  fun s hs => holds_outcome (h s hs)

theorem call {c : Cmd (Except ε α)} (hstable : Stable R p)
    (h : ∀ s r t, p s → R.sem c s r t → R.guar c s r t ∧ q r t) :
    Triple R p (ExceptT.mk (Program.call c)) q :=
  fun s hs s₁ h₁ r t ht => h s₁ r t (hstable s s₁ h₁ hs) ht

theorem lift {c : Cmd α} (hstable : Stable R p)
    (h : ∀ s r t, p s → R.sem c s r t → R.guar c s r t ∧ q (.ok r) t) :
    Triple R p (ExceptT.lift (Program.call c) : Fallible ε Cmd α) q :=
  fun s hs s₁ h₁ r t ht => h s₁ r t (hstable s s₁ h₁ hs) ht

theorem around {before : Cmd Unit} {after : Bool → Cmd Unit} {body : Fallible ε Cmd α} {i : S → Prop}
    {d : Except ε α → S → Prop} (hpre : Stable R p)
    (hbefore : ∀ s t, p s → R.sem before s () t → R.guar before s () t ∧ i t)
    (hbody : Triple R i body d) (hdone : ∀ r, Stable R (d r))
    (hafter : ∀ r s t, d r s → R.sem (after r.isOk) s () t → R.guar (after r.isOk) s () t ∧ q r t) :
    Triple R p (Fallible.around before after body) q := by
  intro s hs s₁ h₁ _ s₂ h₂
  obtain ⟨hg, hin⟩ := hbefore s₁ s₂ (hpre s s₁ h₁ hs) h₂
  refine ⟨hg, Holds.bind ((hbody s₂ hin).mono ?_)⟩
  intro r u hu u₁ hu₁ _ u₂ hu₂
  exact hafter r u₁ u₂ (hdone r u u₁ hu₁ hu) hu₂

/-- A loop over a list whose invariant speaks about what is left of it. -/
theorem forM_rest {f : α → Fallible ε Cmd PUnit} {I : List α → S → Prop} {E : S → Prop}
    (h : ∀ a rest, Triple R (I (a :: rest)) (f a) (Ends (fun _ => I rest) E)) (l : List α) :
    Triple R (I l) (l.forM f) (Ends (fun _ => I []) E) := by
  induction l with
  | nil => exact pure (fun _ hs => hs)
  | cons a l ih =>
    refine bind (h a l) (fun _ => ih) ?_
    intro _ s hs
    exact hs

/-- A loop over a list whose invariant does not depend on the list. -/
theorem forM_mem {l : List α} {f : α → Fallible ε Cmd PUnit} {I E : S → Prop}
    (h : ∀ a ∈ l, Triple R I (f a) (Ends (fun _ => I) E)) :
    Triple R I (l.forM f) (Ends (fun _ => I) E) := by
  induction l with
  | nil => exact pure (fun _ hs => hs)
  | cons a l ih =>
    refine bind (h a (by simp)) (fun _ => ih (fun b hb => h b (by simp [hb]))) ?_
    intro _ s hs
    exact hs

theorem foldlM {l : List β} {f : α → β → Fallible ε Cmd α} {I : α → S → Prop} {E : S → Prop}
    (h : ∀ b ∈ l, ∀ a, Triple R (I a) (f a b) (Ends I E)) (a : α) :
    Triple R (I a) (l.foldlM f a) (Ends I E) := by
  induction l generalizing a with
  | nil => exact pure (fun _ hs => hs)
  | cons b l ih =>
    refine bind (h b (by simp) a) (fun a' => ih (fun x hx => h x (by simp [hx])) a') ?_
    intro _ s hs
    exact hs

/-- A program of harmless commands keeps a stable assertion. -/
theorem of_uses {allowed : {β : Type} → Cmd β → Prop} {x : Fallible ε Cmd α} (hx : x.Uses allowed)
    (hstable : Stable R p)
    (hcmd : ∀ {β : Type} (c : Cmd β), allowed c → ∀ s r t, p s → R.sem c s r t → R.guar c s r t ∧ p t) :
    Triple R p x (fun _ => p) :=
  fun _ hs => Holds.of_uses hx hs hstable hcmd

end Triple

namespace Keeps
variable {A : S → Prop}

theorem pure (a : α) : Keeps R A (Pure.pure a : Fallible ε Cmd α) := Triple.pure (fun _ hs => hs)

theorem throw (e : ε) : Keeps R A (MonadExcept.throw e : Fallible ε Cmd α) := Triple.throw (fun _ hs => hs)

theorem bind {x : Fallible ε Cmd β} {f : β → Fallible ε Cmd α} (hx : Keeps R A x) (hf : ∀ b, Keeps R A (f b)) :
    Keeps R A (x >>= f) :=
  Triple.bind hx hf (fun _ _ hs => hs)

theorem ite {c : Prop} [Decidable c] {x y : Fallible ε Cmd α} (hx : Keeps R A x) (hy : Keeps R A y) :
    Keeps R A (if c then x else y) := by
  split
  · exact hx
  · exact hy

theorem outcome {x : Fallible ε Cmd α} (h : Keeps R A x) : Keeps R A (Fallible.outcome x) := Triple.outcome h

theorem forM {l : List α} {f : α → Fallible ε Cmd PUnit} (h : ∀ a ∈ l, Keeps R A (f a)) : Keeps R A (l.forM f) := by
  induction l with
  | nil => exact pure _
  | cons a l ih => exact bind (h a (by simp)) (fun _ => ih (fun b hb => h b (by simp [hb])))

theorem foldlM {l : List β} {f : α → β → Fallible ε Cmd α} (h : ∀ b ∈ l, ∀ a, Keeps R A (f a b)) (a : α) :
    Keeps R A (l.foldlM f a) := by
  induction l generalizing a with
  | nil => exact pure _
  | cons b l ih => exact bind (h b (by simp) a) (fun a' => ih (fun x hx => h x (by simp [hx])) a')

theorem gives {x : Fallible ε Cmd α} (h : Keeps R A x) : Gives R A (fun _ => True) x := by
  refine h.weaken ?_
  intro r s hs
  cases r with
  | ok a => exact ⟨hs, trivial⟩
  | error e => exact hs

end Keeps

namespace Gives
variable {A : S → Prop} {q : α → Prop}

theorem keeps {x : Fallible ε Cmd α} (h : Gives R A q x) : Keeps R A x := by
  refine h.weaken ?_
  intro r s hs
  cases r with
  | ok a => exact hs.1
  | error e => exact hs

theorem mono {weak : α → Prop} {x : Fallible ε Cmd α} (h : Gives R A q x) (hw : ∀ a, q a → weak a) :
    Gives R A weak x := by
  refine h.weaken ?_
  intro r s hs
  cases r with
  | ok a => exact ⟨hs.1, hw a hs.2⟩
  | error e => exact hs

theorem pure {a : α} (h : q a) : Gives R A q (Pure.pure a : Fallible ε Cmd α) :=
  Triple.pure (fun _ hs => ⟨hs, h⟩)

theorem throw (e : ε) : Gives R A q (MonadExcept.throw e : Fallible ε Cmd α) := Triple.throw (fun _ hs => hs)

theorem ofExcept {r : Except ε α} (h : ∀ a, r = .ok a → q a) : Gives R A q (Fallible.ofExcept r) := by
  refine Triple.ofExcept ?_
  intro s hs
  cases r with
  | ok a => exact ⟨hs, h a rfl⟩
  | error e => exact hs

theorem bind {m : β → Prop} {x : Fallible ε Cmd β} {f : β → Fallible ε Cmd α} (hx : Gives R A m x)
    (hf : ∀ b, m b → Gives R A q (f b)) : Gives R A q (x >>= f) := by
  refine Triple.bind hx ?_ (fun _ _ hs => hs)
  intro b s hs
  exact hf b hs.2 s hs.1

/-- Sequencing when only the state matters afterwards. -/
theorem then_keeps {m : β → Prop} {x : Fallible ε Cmd β} {f : β → Fallible ε Cmd α} (hx : Gives R A m x)
    (hf : ∀ b, m b → Keeps R A (f b)) : Keeps R A (x >>= f) :=
  keeps (q := fun _ => True) (bind hx (fun b hb => (hf b hb).gives))

theorem ite {c : Prop} [Decidable c] {x y : Fallible ε Cmd α} (hx : c → Gives R A q x)
    (hy : ¬ c → Gives R A q y) : Gives R A q (if c then x else y) := by
  split
  · rename_i h
    exact hx h
  · rename_i h
    exact hy h

/-- A check that refuses before the rest. -/
theorem refuse {c : Prop} [Decidable c] {e : ε} {rest : PUnit → Fallible ε Cmd α} (h : ¬ c → Gives R A q (rest ⟨⟩)) :
    Gives R A q (if c then MonadExcept.throw e >>= rest else rest ⟨⟩) :=
  ite (fun _ => bind (throw (q := fun _ => False) e) (fun _ hfalse => hfalse.elim)) h

theorem outcome {x : Fallible ε Cmd α} (h : Gives R A q x) :
    Gives R A (fun r => ∀ a, r = .ok a → q a) (Fallible.outcome x) := by
  refine Triple.outcome (h.weaken ?_)
  intro r s hs
  cases r with
  | ok a =>
    refine ⟨hs.1, ?_⟩
    rintro b ⟨⟩
    exact hs.2
  | error e =>
    refine ⟨hs, ?_⟩
    rintro b ⟨⟩

theorem foldlM {f : α → β → Fallible ε Cmd α} (l : List β) (h : ∀ b ∈ l, ∀ a, q a → Gives R A q (f a b))
    {a : α} (ha : q a) : Gives R A q (l.foldlM f a) := by
  induction l generalizing a with
  | nil => exact pure ha
  | cons b l ih => exact bind (h b (by simp) a ha) (fun a' ha' => ih (fun x hx => h x (by simp [hx])) ha')

end Gives

namespace Uses
variable {allowed : {β : Type} → Cmd β → Prop}

theorem pure (a : α) : Uses allowed (Pure.pure a : Fallible ε Cmd α) := trivial

theorem throw (e : ε) : Uses allowed (MonadExcept.throw e : Fallible ε Cmd α) := trivial

theorem ofExcept (r : Except ε α) : Uses allowed (Fallible.ofExcept r : Fallible ε Cmd α) := trivial

theorem bind {x : Fallible ε Cmd β} {f : β → Fallible ε Cmd α} (hx : Uses allowed x)
    (hf : ∀ b, Uses allowed (f b)) : Uses allowed (x >>= f) := by
  refine Program.Uses.bind hx ?_
  intro r
  cases r with
  | ok b => exact hf b
  | error e => trivial

theorem outcome {x : Fallible ε Cmd α} (hx : Uses allowed x) : Uses allowed (Fallible.outcome x) :=
  Program.Uses.bind hx (fun _ => trivial)

theorem call {c : Cmd (Except ε α)} (hc : allowed c) :
    Uses allowed (ExceptT.mk (Program.call c) : Fallible ε Cmd α) :=
  Program.Uses.call hc

theorem lift {c : Cmd α} (hc : allowed c) : Uses allowed (ExceptT.lift (Program.call c) : Fallible ε Cmd α) :=
  ⟨hc, fun _ => trivial⟩

theorem around {before : Cmd Unit} {after : Bool → Cmd Unit} {body : Fallible ε Cmd α} (hb : allowed before)
    (ha : ∀ ok, allowed (after ok)) (hx : Uses allowed body) :
    Uses allowed (Fallible.around before after body : Fallible ε Cmd α) :=
  ⟨hb, fun _ => Program.Uses.bind hx (fun _ => ⟨ha _, fun _ => trivial⟩)⟩

theorem mono {weak : {β : Type} → Cmd β → Prop} {x : Fallible ε Cmd α} (h : Uses allowed x)
    (hw : ∀ {β : Type} (c : Cmd β), allowed c → weak c) : Uses weak x :=
  Program.Uses.mono h hw

theorem forM {l : List α} {f : α → Fallible ε Cmd PUnit} (h : ∀ a ∈ l, Uses allowed (f a)) :
    Uses allowed (l.forM f) := by
  induction l with
  | nil => trivial
  | cons a l ih => exact bind (h a (by simp)) (fun _ => ih (fun b hb => h b (by simp [hb])))

theorem foldlM {l : List β} {f : α → β → Fallible ε Cmd α} (h : ∀ b ∈ l, ∀ a, Uses allowed (f a b)) (a : α) :
    Uses allowed (l.foldlM f a) := by
  induction l generalizing a with
  | nil => trivial
  | cons b l ih => exact bind (h b (by simp) a) (fun a' => ih (fun x hx => h x (by simp [hx])) a')

end Uses

namespace Total

theorem pure (a : α) : Total (Pure.pure a : Fallible ε Cmd α) := rfl

theorem lift (c : Cmd α) : Total (ExceptT.lift (Program.call c) : Fallible ε Cmd α) := fun _ => rfl

theorem bind {x : Fallible ε Cmd β} {f : β → Fallible ε Cmd α} (hx : Total x) (hf : ∀ b, Total (f b)) :
    Total (x >>= f) := by
  refine Program.Returns.bind hx ?_
  intro r hr
  cases r with
  | ok b => exact hf b
  | error e => cases hr

theorem outcome (x : Fallible ε Cmd α) : Total (Fallible.outcome x) :=
  Program.Returns.bind (.any _) (fun _ _ => rfl)

theorem forM {l : List α} {f : α → Fallible ε Cmd PUnit} (h : ∀ a ∈ l, Total (f a)) : Total (l.forM f) := by
  induction l with
  | nil => exact pure _
  | cons a l ih => exact bind (h a (by simp)) (fun _ => ih (fun b hb => h b (by simp [hb])))

theorem foldlM {l : List β} {f : α → β → Fallible ε Cmd α} (h : ∀ b ∈ l, ∀ a, Total (f a b)) (a : α) :
    Total (l.foldlM f a) := by
  induction l generalizing a with
  | nil => exact pure _
  | cons b l ih => exact bind (h b (by simp) a) (fun a' => ih (fun x hx => h x (by simp [hx])) a')

/-- A total program needs no postcondition for errors. -/
theorem triple {pre : S → Prop} {q : Except ε α → S → Prop} {x : Fallible ε Cmd α} (hx : Total x)
    (h : Triple R pre x q) : Triple R pre x (fun r s => q r s ∧ r.isOk = true) := by
  have hholds : ∀ (p : Program Cmd (Except ε α)) s, p.Returns (fun r => r.isOk = true) → Holds R p q s →
      Holds R p (fun r s => q r s ∧ r.isOk = true) s := by
    intro p
    induction p with
    | pure r => exact fun s hr hs => ⟨hs, hr⟩
    | step c k ih =>
      intro s hr hs s₁ h₁ v s₂ h₂
      obtain ⟨hg, hk⟩ := hs s₁ h₁ v s₂ h₂
      exact ⟨hg, ih v s₂ (hr v) hk⟩
  exact fun s hs => hholds x.run s hx (h s hs)

/-- Sequencing after a total part that keeps the assertion. -/
theorem seq {A : S → Prop} {q : Except ε α → S → Prop} {x : Fallible ε Cmd β} {f : β → Fallible ε Cmd α} (hx : Total x)
    (h : Keeps R A x) (hf : ∀ b, Triple R A (f b) q) : Triple R A (x >>= f) q := by
  refine Triple.bind (hx.triple h) (fun b => (hf b).strengthen (fun _ hs => hs.1)) ?_
  intro e s hs
  cases hs.2

end Total

namespace Yields
variable {q : α → Prop}

theorem pure {a : α} (h : q a) : Yields q (Pure.pure a : Fallible ε Cmd α) := by
  intro b hb
  cases hb
  exact h

theorem bind {m : β → Prop} {x : Fallible ε Cmd β} {f : β → Fallible ε Cmd α} (hx : Yields m x)
    (hf : ∀ b, m b → Yields q (f b)) : Yields q (x >>= f) := by
  refine Program.Returns.bind hx ?_
  intro r hr
  cases r with
  | ok b => exact hf b (hr b rfl)
  | error e =>
    intro a ha
    cases ha

theorem any (x : Fallible ε Cmd α) : Yields (fun _ => True) x := by
  unfold Yields
  induction x.run with
  | pure r => exact fun _ _ => trivial
  | step c k ih => exact ih

theorem ofExcept {r : Except ε α} (h : ∀ a, r = .ok a → q a) : Yields q (Fallible.ofExcept r : Fallible ε Cmd α) := h

theorem ite {c : Prop} [Decidable c] {x y : Fallible ε Cmd α} (hx : c → Yields q x) (hy : ¬ c → Yields q y) :
    Yields q (if c then x else y) := by
  split
  · rename_i h
    exact hx h
  · rename_i h
    exact hy h

/-- What a program can return, it returns where its postcondition holds. -/
theorem triple {p : S → Prop} {post : α → S → Prop} {E : S → Prop} {x : Fallible ε Cmd α} (hx : Yields q x)
    (h : Triple R p x (Ends post E)) : Triple R p x (Ends (fun a s => post a s ∧ q a) E) := by
  have hholds : ∀ (p : Program Cmd (Except ε α)) s, p.Returns (fun r => ∀ a, r = .ok a → q a) →
      Holds R p (Ends post E) s → Holds R p (Ends (fun a s => post a s ∧ q a) E) s := by
    intro p
    induction p with
    | pure r =>
      intro s hr hs
      cases r with
      | ok a => exact ⟨hs, hr a rfl⟩
      | error e => exact hs
    | step c k ih =>
      intro s hr hs s₁ h₁ v s₂ h₂
      obtain ⟨hg, hk⟩ := hs s₁ h₁ v s₂ h₂
      exact ⟨hg, ih v s₂ (hr v) hk⟩
  exact fun s hs => hholds x.run s hx (h s hs)

/-- What a program can return, it returns in every state it keeps. -/
theorem gives {A : S → Prop} {x : Fallible ε Cmd α} (hx : Yields q x) (h : Keeps R A x) : Gives R A q x := by
  refine hx.triple (h.weaken ?_)
  intro r s hs
  cases r with
  | ok a => exact hs
  | error e => exact hs

theorem mono {weak : α → Prop} {x : Fallible ε Cmd α} (h : Yields q x) (hw : ∀ a, q a → weak a) :
    Yields weak x := by
  unfold Yields at h ⊢
  revert h
  induction x.run with
  | pure r => exact fun h a ha => hw a (h a ha)
  | step c k ih => exact fun h r => ih r (h r)

/-- A fold whose invariant speaks about what is left of the list. -/
theorem foldlM {f : α → β → Fallible ε Cmd α} {inv : List β → α → Prop}
    (h : ∀ b rest a, inv (b :: rest) a → Yields (inv rest) (f a b)) (l : List β) {a : α} (ha : inv l a) :
    Yields (inv []) (l.foldlM f a) := by
  induction l generalizing a with
  | nil => exact pure ha
  | cons b l ih => exact bind (h b l a ha) (fun a' ha' => ih ha')

end Yields
end Cronova.Concurrency.Fallible
