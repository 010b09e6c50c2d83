import Mathlib.Data.Set.Finite.Basic
import Mathlib.Logic.Relation
import Mathlib.Order.WellFounded

/-! Machines that are driven by events: what an event does to a state, and
whether it can happen there. Safety follows from what one event keeps; what
must happen at last follows from a measure that the fair events bring down. -/
namespace Cronova.Concurrency
variable {S E : Type*} {step : S → E → Option S} {ok : S → E → Prop}

/-- The states that events allowed by `ok` lead to. -/
def Reaches (step : S → E → Option S) (ok : S → E → Prop) : S → S → Prop :=
  Relation.ReflTransGen (fun s t => ∃ e, ok s e ∧ step s e = some t)

/-- No event is ruled out. -/
def anyEvent (_ : S) (_ : E) : Prop := True

namespace Reaches

theorem start (s : S) : Reaches step ok s s := Relation.ReflTransGen.refl

theorem next {s t u : S} {e : E} (h : Reaches step ok s t) (hok : ok t e) (hstep : step t e = some u) :
    Reaches step ok s u :=
  Relation.ReflTransGen.tail h ⟨e, hok, hstep⟩

theorem trans {s t u : S} (h : Reaches step ok s t) (h' : Reaches step ok t u) : Reaches step ok s u :=
  Relation.ReflTransGen.trans h h'

/-- What every allowed event keeps, a run keeps. -/
theorem keeps {Inv : S → Prop} {s t : S} (h : Reaches step ok s t) (hs : Inv s)
    (hstep : ∀ a e b, Inv a → ok a e → step a e = some b → Inv b) : Inv t := by
  induction h with
  | refl => exact hs
  | tail _ hlast ih =>
    obtain ⟨e, hok, hnext⟩ := hlast
    exact hstep _ e _ ih hok hnext

theorem mono {weak : S → E → Prop} {s t : S} (h : Reaches step ok s t) (hweak : ∀ a e, ok a e → weak a e) :
    Reaches step weak s t := by
  refine Relation.ReflTransGen.mono ?_ s t h
  rintro a b ⟨e, hok, hnext⟩
  exact ⟨e, hweak a e hok, hnext⟩

theorem any {s t : S} (h : Reaches step ok s t) : Reaches step anyEvent s t :=
  h.mono (fun _ _ _ => trivial)

end Reaches

/-- The events of a list one after the other, as long as each is allowed. -/
def play (step : S → E → Option S) (ok : S → E → Prop) [∀ s e, Decidable (ok s e)] : S → List E → Option S
  | s, [] => some s
  | s, e :: es => if ok s e then (step s e).bind (fun t => play step ok t es) else none

theorem play_reaches [∀ s e, Decidable (ok s e)] {s t : S} {es : List E} (h : play step ok s es = some t) :
    Reaches step ok s t := by
  induction es generalizing s with
  | nil =>
    cases h
    exact .start _
  | cons e es ih =>
    simp only [play] at h
    split at h
    case isFalse => cases h
    case isTrue hok =>
      obtain ⟨u, hu, hrest⟩ := Option.bind_eq_some_iff.1 h
      exact ((Reaches.start s).next hok hu).trans (ih hrest)

/-- A state that a list of events comes to, with what can be read off it. -/
theorem play_any (step : S → E → Option S) (ok : S → E → Prop) [∀ s e, Decidable (ok s e)] (s : S) (es : List E)
    (p : S → Bool) (h : (play step ok s es).any p = true) : ∃ t, Reaches step ok s t ∧ p t = true := by
  cases hplay : play step ok s es with
  | none =>
    rw [hplay] at h
    cases h
  | some t =>
    rw [hplay] at h
    exact ⟨t, play_reaches hplay, h⟩

instance (s : S) (e : E) : Decidable (anyEvent s e) := .isTrue trivial

/-- Whichever allowed events happen, `P` comes: the machine does not stop before it, and
does not go on for ever without it. -/
inductive Inevitable (step : S → E → Option S) (ok : S → E → Prop) (P : S → Prop) : S → Prop where
  | now {s : S} (h : P s) : Inevitable step ok P s
  | later {s : S} (henabled : ∃ e, (step s e).isSome) (hnext : ∀ e t, ok s e → step s e = some t → Inevitable step ok P t) :
      Inevitable step ok P s

/-- As long as `P` has not come, something can happen, and what is allowed brings a measure
down. -/
theorem inevitable_of_measure {α : Type*} {r : α → α → Prop} (hr : WellFounded r) (μ : S → α) {Inv P : S → Prop}
    (henabled : ∀ s, Inv s → ¬ P s → ∃ e, (step s e).isSome)
    (hstep : ∀ s e t, Inv s → ¬ P s → ok s e → step s e = some t → Inv t ∧ r (μ t) (μ s)) {s : S} (hs : Inv s) :
    Inevitable step ok P s := by
  induction hμ : μ s using hr.induction generalizing s with
  | _ v ih =>
    by_cases hP : P s
    · exact .now hP
    · refine .later (henabled s hs hP) (fun e t hok ht => ?_)
      obtain ⟨ht', hdown⟩ := hstep s e t hs hP hok ht
      exact ih (μ t) (hμ ▸ hdown) ht' rfl

/-- A run that does not stop. -/
structure Execution (step : S → E → Option S) where
  state : ℕ → S
  event : ℕ → E
  next : ∀ n, step (state n) (event n) = some (state (n + 1))

namespace Execution

/-- The events of one party are not put off for ever while one of them can happen. -/
def Fair (x : Execution step) (own : E → Prop) : Prop :=
  ∀ n, (∀ m, n ≤ m → ∃ e, own e ∧ (step (x.state m) e).isSome) → ∃ m, n ≤ m ∧ own (x.event m)

theorem reaches (x : Execution step) (n : ℕ) : Reaches step anyEvent (x.state 0) (x.state n) := by
  induction n with
  | zero => exact .start _
  | succ n ih => exact ih.next trivial (x.next n)

theorem keeps (x : Execution step) {Inv : S → Prop} (hs : Inv (x.state 0))
    (hstep : ∀ a e b, Inv a → step a e = some b → Inv b) (n : ℕ) : Inv (x.state n) :=
  (x.reaches n).keeps hs (fun a e b ha _ h => hstep a e b ha h)

/-- From `P` a fair run comes to `Q`: an own event can always happen under `P`,
no event raises the measure, and the own ones bring it down. -/
theorem leads_to (x : Execution step) {own : E → Prop} (hfair : x.Fair own) {P Q : S → Prop} (μ : S → ℕ)
    (henabled : ∀ n, P (x.state n) → ∃ e, own e ∧ (step (x.state n) e).isSome)
    (hstep : ∀ n, P (x.state n) → Q (x.state (n + 1)) ∨
      P (x.state (n + 1)) ∧ μ (x.state (n + 1)) ≤ μ (x.state n) ∧
        (own (x.event n) → μ (x.state (n + 1)) < μ (x.state n)))
    {n : ℕ} (hP : P (x.state n)) : ∃ m, n ≤ m ∧ Q (x.state m) := by
  by_contra hnever
  push Not at hnever
  have hstays : ∀ k, P (x.state (n + k)) := by
    intro k
    induction k with
    | zero => exact hP
    | succ k ih =>
      rcases hstep _ ih with hQ | ⟨hP', -⟩
      · exact absurd hQ (hnever _ (by omega))
      · exact hP'
  have hstays' : ∀ m, n ≤ m → P (x.state m) := by
    intro m hm
    have h := hstays (m - n)
    rwa [show n + (m - n) = m by omega] at h
  have hdown : ∀ m, n ≤ m → μ (x.state (m + 1)) ≤ μ (x.state m) ∧
      (own (x.event m) → μ (x.state (m + 1)) < μ (x.state m)) := by
    intro m hm
    rcases hstep m (hstays' m hm) with hQ | ⟨-, hdec⟩
    · exact absurd hQ (hnever _ (by omega))
    · exact hdec
  have hmono : ∀ m k, n ≤ m → μ (x.state (m + k)) ≤ μ (x.state m) := by
    intro m k hm
    induction k with
    | zero => exact le_rfl
    | succ k ih => exact le_trans (hdown (m + k) (by omega)).1 ih
  -- the measure cannot fall for ever
  have hfalls : ∀ v m, n ≤ m → μ (x.state m) = v → False := by
    intro v
    induction v using Nat.strong_induction_on with
    | _ v ih =>
      intro m hm hv
      obtain ⟨m', hm', hown⟩ := hfair m (fun k hk => henabled k (hstays' k (by omega)))
      have hlt := (hdown m' (by omega)).2 hown
      have hle := hmono m (m' - m) hm
      rw [show m + (m' - m) = m' by omega] at hle
      exact ih (μ (x.state (m' + 1))) (by omega) (m' + 1) (by omega) rfl
  exact hfalls _ n le_rfl rfl

/-- What brings a measure down that nothing raises happens finitely often. -/
theorem finite_of_measure (x : Execution step) (μ : S → ℕ) {own : S → E → Prop} {n : ℕ}
    (hstep : ∀ m, n ≤ m → μ (x.state (m + 1)) ≤ μ (x.state m) ∧
      (own (x.state m) (x.event m) → μ (x.state (m + 1)) < μ (x.state m))) :
    {m | own (x.state m) (x.event m)}.Finite := by
  induction hv : μ (x.state n) using Nat.strong_induction_on generalizing n with
  | _ v ih =>
    by_cases hmore : ∃ m, n ≤ m ∧ own (x.state m) (x.event m)
    · obtain ⟨m, hm, hown⟩ := hmore
      have hmono : ∀ k, μ (x.state (n + k)) ≤ μ (x.state n) := by
        intro k
        induction k with
        | zero => exact le_rfl
        | succ k ihk => exact le_trans (hstep (n + k) (by omega)).1 ihk
      have hle := hmono (m - n)
      rw [show n + (m - n) = m by omega] at hle
      have hlt := (hstep m hm).2 hown
      exact ih (μ (x.state (m + 1))) (by omega) (fun k hk => hstep k (by omega)) rfl
    · push Not at hmore
      refine (Set.finite_lt_nat n).subset (fun m hown => ?_)
      by_contra hm
      exact hmore m (not_lt.mp hm) hown

end Execution
end Cronova.Concurrency
