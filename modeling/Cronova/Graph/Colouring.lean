import Cronova.Graph.DepthFirst

/-! Depth-first search that goes on when it has found a cycle. A node is gray while its
search lasts and black afterwards. -/
namespace Cronova.Graph
variable {α : Type}

theorem Ordered.behind {adj : α → List α} {l l' : List α} {n m : α} (h : Ordered adj (l ++ n :: l')) (hm : m ∈ adj n) : m ∈ l' := by
  induction l with
  | nil =>
    cases h with
    | cons hadj _ => exact hadj m hm
  | cons a l ih =>
    cases h with
    | cons _ h => exact ih h

structure Colours (α : Type) where
  black : List α
  cyc : Bool
  deriving DecidableEq, Repr

/-- Look at a node below the gray ones. -/
def look [DecidableEq α] (adj : α → List α) : ℕ → List α → Colours α → α → Option (Colours α)
  | 0, _, _, _ => none
  | fuel + 1, gray, s, n =>
    if n ∈ gray then some { s with cyc := true }
    else if n ∈ s.black then some s
    else ((adj n).foldlM (look adj fuel (n :: gray)) s).map (fun s => { s with black := n :: s.black })

def colour [DecidableEq α] (adj : α → List α) (fuel : ℕ) (nodes : List α) : Option (Colours α) :=
  nodes.foldlM (look adj fuel []) { black := [], cyc := false }

/-- What the search of some nodes does to the colours. -/
structure Looks (adj : α → List α) (l : List α) (s s' : Colours α) : Prop where
  found : s'.cyc = true → s.cyc = true ∨ ∃ n, Relation.TransGen (Edge adj) n n
  unfound : s'.cyc = false → s.cyc = false
  subset : s.black ⊆ s'.black
  ordered : s'.cyc = false → Ordered adj s.black → Ordered adj s'.black ∧ ∀ n ∈ l, n ∈ s'.black

section Look
variable {adj : α → List α}

theorem foldlM_looks {f : Colours α → α → Option (Colours α)} {l : List α} (hf : ∀ s, ∀ n ∈ l, ∀ s', f s n = some s' → Looks adj [n] s s')
    {s s' : Colours α} (h : l.foldlM f s = some s') : Looks adj l s s' := by
  induction l generalizing s with
  | nil =>
    cases h
    exact ⟨.inl, id, List.Subset.refl _, fun _ ho => ⟨ho, by simp⟩⟩
  | cons a l ih =>
    rw [List.foldlM_cons] at h
    obtain ⟨mid, hmid, hrest⟩ := Option.bind_eq_some_iff.1 h
    have hfirst := hf s a List.mem_cons_self mid hmid
    have hothers := ih (fun s n hn => hf s n (List.mem_cons_of_mem a hn)) hrest
    refine ⟨?_, fun hs => hfirst.unfound (hothers.unfound hs), List.Subset.trans hfirst.subset hothers.subset, ?_⟩
    · intro hfound
      rcases hothers.found hfound with hmid | hcycle
      · exact hfirst.found hmid
      · exact .inr hcycle
    · intro hs ho
      obtain ⟨ho', ha⟩ := hfirst.ordered (hothers.unfound hs) ho
      obtain ⟨ho'', hl⟩ := hothers.ordered hs ho'
      refine ⟨ho'', ?_⟩
      intro n hn
      rcases List.mem_cons.1 hn with rfl | hn
      · exact hothers.subset (ha n List.mem_cons_self)
      · exact hl n hn

/-- A gray node that is found again lies on a cycle. -/
theorem look_looks [DecidableEq α] (fuel : ℕ) {gray : List α} {s s' : Colours α} {n : α}
    (hgray : ∀ g ∈ gray, Relation.TransGen (Edge adj) g n) (h : look adj fuel gray s n = some s') : Looks adj [n] s s' := by
  induction fuel generalizing gray s s' n with
  | zero => cases h
  | succ fuel ih =>
    rw [look] at h
    by_cases hn : n ∈ gray
    · rw [if_pos hn] at h
      cases h
      exact ⟨fun _ => .inr ⟨n, hgray n hn⟩, fun hs => Bool.noConfusion hs, List.Subset.refl _, fun hs => Bool.noConfusion hs⟩
    · rw [if_neg hn] at h
      by_cases hblack : n ∈ s.black
      · rw [if_pos hblack] at h
        cases h
        exact ⟨.inl, id, List.Subset.refl _, fun _ ho => ⟨ho, by simpa using hblack⟩⟩
      · rw [if_neg hblack] at h
        obtain ⟨mid, hmid, rfl⟩ := Option.map_eq_some_iff.1 h
        have hbelow : Looks adj (adj n) s mid := by
          apply foldlM_looks _ hmid
          intro s m hm s' hlook
          apply ih _ hlook
          intro g hg
          rcases List.mem_cons.1 hg with rfl | hg
          · exact .single hm
          · exact .tail (hgray g hg) hm
        refine ⟨hbelow.found, hbelow.unfound, fun x hx => List.mem_cons_of_mem n (hbelow.subset hx), ?_⟩
        intro hs ho
        obtain ⟨ho', hadj⟩ := hbelow.ordered hs ho
        exact ⟨.cons hadj ho', by simp⟩

theorem foldlM_isSome {β σ : Type} {f : σ → β → Option σ} {l : List β} (hf : ∀ s, ∀ b ∈ l, (f s b).isSome = true) (s : σ) :
    (l.foldlM f s).isSome = true := by
  induction l generalizing s with
  | nil => rfl
  | cons b l ih =>
    obtain ⟨mid, hmid⟩ := Option.isSome_iff_exists.1 (hf s b List.mem_cons_self)
    rw [List.foldlM_cons, hmid]
    exact ih (fun s c hc => hf s c (List.mem_cons_of_mem b hc)) mid

/-- The gray nodes are different ones and have successors, so the search is not deeper than
there are such nodes. -/
theorem look_isSome [DecidableEq α] {nodes : List α} (hnodes : ∀ n, adj n ≠ [] → n ∈ nodes) (fuel : ℕ) {gray : List α}
    (hnodup : gray.Nodup) (hgray : gray ⊆ nodes) (hfuel : nodes.length + 1 ≤ fuel + gray.length) (s : Colours α) (n : α) :
    (look adj fuel gray s n).isSome = true := by
  induction fuel generalizing gray s n with
  | zero =>
    have hlength := (hnodup.subperm hgray).length_le
    omega
  | succ fuel ih =>
    rw [look]
    by_cases hn : n ∈ gray
    · rw [if_pos hn]
      rfl
    · rw [if_neg hn]
      by_cases hblack : n ∈ s.black
      · rw [if_pos hblack]
        rfl
      · rw [if_neg hblack, Option.isSome_map]
        apply foldlM_isSome
        intro s m hm
        have hmem : n ∈ nodes := hnodes n (List.ne_nil_of_mem hm)
        apply ih (List.nodup_cons.2 ⟨hn, hnodup⟩) (List.cons_subset.2 ⟨hmem, hgray⟩)
        rw [List.length_cons]
        omega

/-- The search of all nodes that have successors ends and says whether there is a cycle. -/
theorem colour_exact [DecidableEq α] {nodes : List α} (hnodes : ∀ n, adj n ≠ [] → n ∈ nodes) {fuel : ℕ} (hfuel : nodes.length + 1 ≤ fuel) :
    ∃ s, colour adj fuel nodes = some s ∧ (s.cyc = true ↔ ∃ n, Relation.TransGen (Edge adj) n n) := by
  have hsome : (colour adj fuel nodes).isSome = true :=
    foldlM_isSome (fun s n _ => look_isSome hnodes fuel List.nodup_nil (List.nil_subset nodes) (by simpa using hfuel) s n) _
  obtain ⟨s, hs⟩ := Option.isSome_iff_exists.1 hsome
  have hlooks : Looks adj nodes { black := [], cyc := false } s :=
    foldlM_looks (fun s n _ s' h => look_looks fuel (by simp) h) hs
  refine ⟨s, hs, ?_, ?_⟩
  · intro hcyc
    exact (hlooks.found hcyc).resolve_left Bool.false_ne_true
  · rintro ⟨n, hcycle⟩
    by_contra hnot
    obtain ⟨ho, hall⟩ := hlooks.ordered (Bool.eq_false_iff.2 hnot) .nil
    obtain ⟨m, hm, -⟩ := Relation.TransGen.head'_iff.1 hcycle
    exact ho.acyclic (hall n (hnodes n (List.ne_nil_of_mem hm))) hcycle

end Look
end Cronova.Graph
