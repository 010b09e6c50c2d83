import Cronova.Concurrency.Interference

/-! The traces of a program that runs among others: each command meets a state of its
own, and notes what is to be remembered of it. -/
namespace Cronova.Concurrency
variable {Cmd : Type → Type 1} {S E : Type} {α β : Type}

/-- The replies a command can get in a state, and what is noted of the command. -/
structure Observer (Cmd : Type → Type 1) (S E : Type) where
  replies : {β : Type} → S → Cmd β → β → Prop
  note : {β : Type} → Cmd β → S → List E

/-- The program can return `r`, with the notes `notes` taken on the way. -/
def Acts (O : Observer Cmd S E) : Program Cmd α → (notes : List E) → (r : α) → Prop
  | .pure a, notes, r => notes = [] ∧ r = a
  | .step c next, notes, r => ∃ s x rest, O.replies s c x ∧ notes = O.note c s ++ rest ∧ Acts O (next x) rest r

namespace Acts
variable {O : Observer Cmd S E} {notes : List E}

theorem bind {p : Program Cmd α} {f : α → Program Cmd β} {r : β} (h : Acts O (p >>= f) notes r) :
    ∃ a front rest, notes = front ++ rest ∧ Acts O p front a ∧ Acts O (f a) rest r := by
  induction p generalizing notes with
  | pure a => exact ⟨a, [], notes, rfl, ⟨rfl, rfl⟩, h⟩
  | step c next ih =>
    obtain ⟨s, x, rest, hreply, hnotes, hrest⟩ := h
    obtain ⟨a, front, back, rfl, hfront, hback⟩ := ih x hrest
    exact ⟨a, O.note c s ++ front, back, by rw [hnotes, List.append_assoc], ⟨s, x, front, hreply, rfl, hfront⟩, hback⟩

theorem call {c : Cmd α} {r : α} (h : Acts O (Program.call c) notes r) : ∃ s, O.replies s c r ∧ notes = O.note c s := by
  obtain ⟨s, x, rest, hreply, hnotes, rfl, rfl⟩ := h
  exact ⟨s, hreply, by rw [hnotes, List.append_nil]⟩

section Fallible
variable {ε : Type}

/-- A sequence that propagates errors stops at the first one. -/
theorem fallible_bind {x : Fallible ε Cmd α} {f : α → Fallible ε Cmd β} {r : Except ε β} (h : Acts O (x >>= f).run notes r) :
    (∃ a front rest, notes = front ++ rest ∧ Acts O x.run front (.ok a) ∧ Acts O (f a).run rest r) ∨
    ∃ e, Acts O x.run notes (.error e) ∧ r = .error e := by
  obtain ⟨a, front, rest, rfl, hx, hf⟩ := bind h
  cases a with
  | ok a => exact .inl ⟨a, front, rest, rfl, hx, hf⟩
  | error e =>
    obtain ⟨rfl, rfl⟩ := hf
    exact .inr ⟨e, by rw [List.append_nil]; exact hx, rfl⟩

theorem fallible_pure {a : α} {r : Except ε α} (h : Acts O (pure a : Fallible ε Cmd α).run notes r) : notes = [] ∧ r = .ok a := h

theorem fallible_throw {e : ε} {r : Except ε α} (h : Acts O (throw e : Fallible ε Cmd α).run notes r) : notes = [] ∧ r = .error e := h

theorem fallible_throw_bind {e : ε} {f : α → Fallible ε Cmd β} {r : Except ε β}
    (h : Acts O ((throw e : Fallible ε Cmd α) >>= f).run notes r) : notes = [] ∧ r = .error e := h

theorem outcome {x : Fallible ε Cmd α} {r : Except ε (Except ε α)} (h : Acts O (Fallible.outcome x).run notes r) :
    ∃ out, r = .ok out ∧ Acts O x.run notes out := by
  obtain ⟨out, front, rest, rfl, hx, rfl, rfl⟩ := bind h
  exact ⟨out, rfl, by rw [List.append_nil]; exact hx⟩

/-- What each round of a loop notes, and what its state becomes. -/
theorem foldlM {l : List α} {f : β → α → Fallible ε Cmd β} {b b' : β} {I : β → List α → List E → β → Prop}
    (nil : ∀ b, I b [] [] b)
    (cons : ∀ b a l front rest b₁ b', Acts O (f b a).run front (.ok b₁) → I b₁ l rest b' → I b (a :: l) (front ++ rest) b')
    (h : Acts O (l.foldlM f b).run notes (.ok b')) : I b l notes b' := by
  induction l generalizing b notes with
  | nil =>
    obtain ⟨rfl, hb⟩ := h
    cases hb
    exact nil _
  | cons a l ih =>
    rcases fallible_bind h with ⟨b₁, front, rest, rfl, hfirst, hrest⟩ | ⟨e, -, he⟩
    · exact cons b a l front rest b₁ b' hfirst (ih hrest)
    · cases he

end Fallible
end Acts
end Cronova.Concurrency
