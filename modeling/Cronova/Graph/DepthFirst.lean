import Mathlib.Data.List.Perm.Subperm
import Mathlib.Data.List.Nodup
import Mathlib.Data.List.Chain
import Mathlib.Logic.Relation

/-! Depth-first cycle detection with three colours over a finite graph given by
adjacency lists. Gray nodes are the ones on the current path; the list of black
nodes, newest first, is a dependency order. -/
namespace Cronova.Graph
variable {α : Type}

/-- Why a search stops early. `cycle path m` is a path back to its gray node `m`. -/
inductive Stop (α : Type) where
  | cycle (path : List α) (m : α)
  | outOfFuel
  deriving DecidableEq, Repr

/-- Visit a white node below `path`, returning the black nodes afterwards. -/
def visit [DecidableEq α] (adj : α → List α) : (fuel : Nat) → (path black : List α) → α → Except (Stop α) (List α)
  | 0, _, _, _ => .error .outOfFuel
  | fuel + 1, path, black, n =>
    let path := path ++ [n]
    let enter (black : List α) (m : α) : Except (Stop α) (List α) :=
      if m ∈ path then .error (.cycle path m)
      else if m ∈ black then .ok black
      else visit adj fuel path black m
    match (adj n).foldlM enter black with
    | .ok black => .ok (n :: black)
    | .error e => .error e

/-- Visit every node that is still white, in list order. -/
def detect [DecidableEq α] (adj : α → List α) (nodes : List α) : Except (Stop α) (List α) :=
  nodes.foldlM (fun black n => if n ∈ black then .ok black else visit adj (nodes.length + 1) [] black n) []

/-- Every node of the list has all its successors later in the list. -/
inductive Ordered (adj : α → List α) : List α → Prop where
  | nil : Ordered adj []
  | cons {n : α} {l : List α} : (∀ m ∈ adj n, m ∈ l) → Ordered adj l → Ordered adj (n :: l)

/-- Among the nodes of an ordered list with a property, one has no successor with it. -/
theorem Ordered.exists_minimal {adj : α → List α} {l : List α} (h : Ordered adj l) {P : α → Prop}
    {n : α} (hn : n ∈ l) (hP : P n) : ∃ m ∈ l, P m ∧ ∀ k ∈ adj m, ¬ P k := by
  induction h generalizing n with
  | nil => cases hn
  | @cons a l hadj _ ih =>
    by_cases hl : ∃ b ∈ l, P b
    · obtain ⟨b, hb, hPb⟩ := hl
      obtain ⟨m, hm, hPm, hmin⟩ := ih hb hPb
      exact ⟨m, List.mem_cons_of_mem a hm, hPm, hmin⟩
    · have hna : n = a := by
        rcases List.mem_cons.mp hn with rfl | hnl
        · rfl
        · exact absurd ⟨n, hnl, hP⟩ hl
      subst hna
      exact ⟨n, List.mem_cons_self, hP, fun k hk hPk => hl ⟨k, hadj k hk, hPk⟩⟩

/-- The edges of the graph. -/
def Edge (adj : α → List α) (a b : α) : Prop := b ∈ adj a

/-- No node of an ordered list lies on a cycle. -/
theorem Ordered.acyclic {adj : α → List α} {l : List α} (h : Ordered adj l) {n : α} (hn : n ∈ l) :
    ¬ Relation.TransGen (Edge adj) n n := by
  intro hcycle
  obtain ⟨m, -, hm, hmin⟩ := h.exists_minimal (P := fun m => Relation.TransGen (Edge adj) m m) hn hcycle
  obtain ⟨k, hk, hback⟩ := Relation.TransGen.head'_iff.mp hm
  exact hmin k hk (Relation.TransGen.tail' hback hk)

section Visit
variable {adj : α → List α}

/-- What a successful step of the search does to the black list. -/
structure Grows (adj : α → List α) (black black' : List α) : Prop where
  ordered : Ordered adj black'
  subset : black ⊆ black'

private theorem foldlM_cons_ok {β ε : Type} {f : List α → β → Except ε (List α)} {b : β} {l : List β}
    {black black' : List α} (h : (b :: l).foldlM f black = .ok black') :
    ∃ mid, f black b = .ok mid ∧ l.foldlM f mid = .ok black' := by
  rw [List.foldlM_cons] at h
  cases hf : f black b with
  | error e => rw [hf] at h; cases h
  | ok mid => rw [hf] at h; exact ⟨mid, rfl, h⟩

/-- A loop whose body marks its element and keeps the order marks all of them. -/
private theorem foldlM_grows {f : List α → α → Except (Stop α) (List α)}
    (hf : ∀ black m black', Ordered adj black → f black m = .ok black' → Grows adj black black' ∧ m ∈ black')
    (l : List α) (black black' : List α) (ho : Ordered adj black) (h : l.foldlM f black = .ok black') :
    Grows adj black black' ∧ ∀ m ∈ l, m ∈ black' := by
  induction l generalizing black with
  | nil =>
    cases h
    exact ⟨⟨ho, List.Subset.refl _⟩, by simp⟩
  | cons a l ih =>
    obtain ⟨mid, hmid, hrest⟩ := foldlM_cons_ok h
    obtain ⟨hg, ha⟩ := hf black a mid ho hmid
    obtain ⟨hg', hl⟩ := ih mid hg.ordered hrest
    refine ⟨⟨hg'.ordered, List.Subset.trans hg.subset hg'.subset⟩, ?_⟩
    intro m hm
    rcases List.mem_cons.mp hm with rfl | hm
    · exact hg'.subset ha
    · exact hl m hm

theorem visit_grows [DecidableEq α] (fuel : Nat) (path black black' : List α) (n : α) (ho : Ordered adj black)
    (h : visit adj fuel path black n = .ok black') : Grows adj black black' ∧ n ∈ black' := by
  induction fuel generalizing path black black' n with
  | zero => cases h
  | succ fuel ih =>
    simp only [visit] at h
    split at h
    · rename_i mid hmid
      cases h
      have hbody := foldlM_grows ?_ (adj n) black mid ho hmid
      · obtain ⟨hg, hadj⟩ := hbody
        exact ⟨⟨.cons hadj hg.ordered, fun x hx => List.mem_cons_of_mem n (hg.subset hx)⟩, List.mem_cons_self⟩
      · intro b m b' hb hstep
        split at hstep
        · cases hstep
        · split at hstep
          · rename_i hmb
            cases hstep
            exact ⟨⟨hb, List.Subset.refl _⟩, hmb⟩
          · exact ih _ _ _ _ hb hstep
    · cases h

/-- A graph the search accepts can be listed in dependency order. -/
theorem detect_ordered [DecidableEq α] {nodes order : List α} (h : detect adj nodes = .ok order) :
    Ordered adj order ∧ nodes ⊆ order := by
  have hempty : Ordered adj [] := .nil
  have hstep := foldlM_grows ?_ nodes [] order hempty h
  · exact ⟨hstep.1.ordered, hstep.2⟩
  · intro black m black' hb hm
    split at hm
    · rename_i hmem
      cases hm
      exact ⟨⟨hb, List.Subset.refl _⟩, hmem⟩
    · exact visit_grows _ _ _ _ _ hb hm

private theorem foldlM_ne {f : List α → α → Except (Stop α) (List α)} {l : List α}
    (hf : ∀ black, ∀ m ∈ l, f black m ≠ .error .outOfFuel) (black : List α) :
    l.foldlM f black ≠ .error .outOfFuel := by
  induction l generalizing black with
  | nil => intro h; cases h
  | cons a l ih =>
    intro h
    rw [List.foldlM_cons] at h
    cases hfa : f black a with
    | error e =>
      rw [hfa] at h
      cases h
      exact hf black a (by simp) hfa
    | ok mid =>
      rw [hfa] at h
      exact ih (fun b m hm => hf b m (by simp [hm])) mid h

/-- The path holds distinct nodes, so it cannot be longer than the graph. -/
theorem visit_ne_outOfFuel [DecidableEq α] {nodes : List α} (hadj : ∀ n ∈ nodes, adj n ⊆ nodes) (fuel : Nat)
    (path black : List α) (n : α) (hnd : (path ++ [n]).Nodup) (hsub : path ++ [n] ⊆ nodes)
    (hfuel : nodes.length < path.length + fuel) : visit adj fuel path black n ≠ .error .outOfFuel := by
  induction fuel generalizing path black n with
  | zero =>
    have hlen : (path ++ [n]).length ≤ nodes.length := (hnd.subperm hsub).length_le
    simp only [List.length_append, List.length_singleton] at hlen
    omega
  | succ fuel ih =>
    have hn : n ∈ nodes := hsub (by simp)
    simp only [visit]
    split
    · exact fun h => by cases h
    · rename_i e he
      intro h
      cases h
      refine foldlM_ne ?_ black he
      intro b m hm
      split
      · exact fun h => by cases h
      · rename_i hpath
        split
        · exact fun h => by cases h
        · refine ih _ b m ?_ ?_ ?_
          · exact List.nodup_append.mpr ⟨hnd, List.nodup_singleton m, by
              intro x hx y hy
              rw [List.mem_singleton] at hy
              subst hy
              rintro rfl
              exact hpath hx⟩
          · refine List.append_subset.mpr ⟨hsub, ?_⟩
            intro x hx
            rw [List.mem_singleton] at hx
            subst hx
            exact hadj n hn hm
          · simp only [List.length_append, List.length_singleton]
            omega

theorem detect_ne_outOfFuel [DecidableEq α] {nodes : List α} (hadj : ∀ n ∈ nodes, adj n ⊆ nodes) :
    detect adj nodes ≠ .error .outOfFuel := by
  refine foldlM_ne ?_ []
  intro black n hn
  split
  · exact fun h => by cases h
  · refine visit_ne_outOfFuel hadj _ [] black n (by simp) ?_ (by simp)
    intro x hx
    simp only [List.nil_append, List.mem_singleton] at hx
    subst hx
    exact hn

/-- Every node of a path leads to its last one. -/
theorem leads_to_last {path : List α} {n x : α} (hchain : List.IsChain (Edge adj) (path ++ [n])) (hx : x ∈ path ++ [n]) :
    Relation.ReflTransGen (Edge adj) x n := by
  induction path generalizing x with
  | nil =>
    rw [List.nil_append, List.mem_singleton] at hx
    rw [hx]
  | cons a path ih =>
    rw [List.cons_append, List.isChain_cons] at hchain
    rw [List.cons_append, List.mem_cons] at hx
    obtain ⟨hedge, htail⟩ := hchain
    rcases hx with rfl | hx
    · cases hrest : (path ++ [n]).head? with
      | none => simp at hrest
      | some b => exact .head (hedge b hrest) (ih htail (List.mem_of_mem_head? hrest))
    · exact ih htail hx

private theorem foldlM_error {f : List α → α → Except (Stop α) (List α)} {l : List α} {e : Stop α} (black : List α)
    (h : l.foldlM f black = .error e) : ∃ mid, ∃ a ∈ l, f mid a = .error e := by
  induction l generalizing black with
  | nil => cases h
  | cons a l ih =>
    rw [List.foldlM_cons] at h
    cases hfa : f black a with
    | error e' =>
      rw [hfa] at h
      cases h
      exact ⟨black, a, List.mem_cons_self, hfa⟩
    | ok mid =>
      rw [hfa] at h
      obtain ⟨mid', b, hb, hf⟩ := ih mid h
      exact ⟨mid', b, List.mem_cons_of_mem a hb, hf⟩

/-- A search that finds a gray node again has found a cycle. -/
theorem visit_cycle [DecidableEq α] {nodes : List α} (hadj : ∀ n ∈ nodes, adj n ⊆ nodes) (fuel : Nat)
    {path black path' : List α} {n m : α} (hn : n ∈ nodes) (hchain : List.IsChain (Edge adj) (path ++ [n]))
    (h : visit adj fuel path black n = .error (.cycle path' m)) : m ∈ nodes ∧ Relation.TransGen (Edge adj) m m := by
  induction fuel generalizing path black n with
  | zero => cases h
  | succ fuel ih =>
    simp only [visit] at h
    split at h
    · cases h
    · rename_i e he
      cases h
      obtain ⟨mid, k, hk, hstop⟩ := foldlM_error black he
      split at hstop
      · rename_i hgray
        cases hstop
        exact ⟨hadj n hn hk, .tail' (leads_to_last hchain hgray) hk⟩
      · split at hstop
        · cases hstop
        · have hlonger : List.IsChain (Edge adj) (path ++ [n] ++ [k]) := by
            apply hchain.append (List.isChain_singleton k)
            intro x hx y hy
            rw [List.getLast?_concat, Option.mem_some_iff] at hx
            rw [List.head?_cons, Option.mem_some_iff] at hy
            rw [← hx, ← hy]
            exact hk
          exact ih (hadj n hn hk) hlonger hstop

/-- The search accepts exactly the graphs without a cycle. -/
theorem detect_iff [DecidableEq α] {nodes : List α} (hadj : ∀ n ∈ nodes, adj n ⊆ nodes) :
    (∃ order, detect adj nodes = .ok order) ↔ ∀ n ∈ nodes, ¬ Relation.TransGen (Edge adj) n n := by
  constructor
  · rintro ⟨order, horder⟩ n hn
    obtain ⟨hordered, hall⟩ := detect_ordered horder
    exact hordered.acyclic (hall hn)
  · intro hacyclic
    cases hresult : detect adj nodes with
    | ok order => exact ⟨order, rfl⟩
    | error e =>
      cases e with
      | outOfFuel => exact absurd hresult (detect_ne_outOfFuel hadj)
      | cycle path m =>
        obtain ⟨mid, n, hn, hstop⟩ := foldlM_error [] hresult
        split at hstop
        · cases hstop
        · obtain ⟨hm, hcycle⟩ := visit_cycle hadj _ hn (List.isChain_singleton n) hstop
          exact absurd hcycle (hacyclic m hm)

end Visit
end Cronova.Graph
