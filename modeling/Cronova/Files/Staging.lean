import Cronova.Files.Calls

/-! A tree that is made in a directory of another one, and what files over a tree come to. -/
namespace Cronova.Files

/-! ### Files over a tree -/

theorem prefix_dropLast {ν : Type} {q r : List ν} (hr : r ≠ []) (hq : q ≠ r) : q <+: r.dropLast ↔ q <+: r := by
  have hlast : q <+: r.dropLast ++ [r.getLast hr] ↔ _ := List.prefix_concat_iff
  rw [List.dropLast_append_getLast] at hlast
  rw [hlast]
  exact (or_iff_right hq).symm

section Overlay
variable {ν δ : Type} [DecidableEq ν] {c c' : List ν → Option (Node δ)} {u : List ν × δ} {us : List (List ν × δ)} {q : List ν}

/-- One file, in place of what there was, and directories down to it. -/
def put (c : List ν → Option (Node δ)) (u : List ν × δ) (q : List ν) : Option (Node δ) :=
  if q = u.1 then some (.file u.2) else if q <+: u.1 then some .dir else c q

theorem put_away (h : ¬ q <+: u.1) : put c u q = c q := by
  have hne : q ≠ u.1 := by
    intro heq
    rw [heq] at h
    exact h (List.prefix_refl _)
  unfold put
  rw [if_neg hne, if_neg h]

theorem put_on (h : q <+: u.1) : put c u q = put c' u q := by
  unfold put
  rw [if_pos h, if_pos h]

/-- Away from the files there is what there was. -/
theorem foldl_put_away (h : ∀ u ∈ us, ¬ q <+: u.1) : us.foldl put c q = c q := by
  induction us generalizing c with
  | nil => rfl
  | cons u us ih =>
    rw [List.foldl_cons, ih (fun v hv => h v (List.mem_cons_of_mem u hv))]
    exact put_away (h u List.mem_cons_self)

/-- Where one of the files is, or a directory above one, nothing depends on what there was. -/
theorem foldl_put_on (h : ∃ u ∈ us, q <+: u.1) : us.foldl put c q = us.foldl put c' q := by
  induction us generalizing c c' with
  | nil =>
    obtain ⟨u, hu, -⟩ := h
    exact absurd hu List.not_mem_nil
  | cons u us ih =>
    rw [List.foldl_cons, List.foldl_cons]
    by_cases hlater : ∃ v ∈ us, q <+: v.1
    · exact ih hlater
    · have haway : ∀ v ∈ us, ¬ q <+: v.1 := fun v hv hq => hlater ⟨v, hv, hq⟩
      obtain ⟨v, hv, hq⟩ := h
      rcases List.mem_cons.mp hv with rfl | hv
      · rw [foldl_put_away haway, foldl_put_away haway]
        exact put_on hq
      · exact absurd hq (haway v hv)

theorem put_root (hu : u.1 ≠ []) : put c u [] = some .dir := by
  unfold put
  rw [if_neg (Ne.symm hu), if_pos List.nil_prefix]

theorem foldl_put_root (hc : c [] = some .dir) (hus : ∀ u ∈ us, u.1 ≠ []) : us.foldl put c [] = some .dir := by
  induction us generalizing c with
  | nil => exact hc
  | cons u us ih =>
    rw [List.foldl_cons]
    exact ih (put_root (hus u List.mem_cons_self)) (fun v hv => hus v (List.mem_cons_of_mem u hv))

end Overlay

/-! ### A tree within a tree -/

namespace Sys
variable {ν δ ε β : Type} [DecidableEq ν]

/-- One tree with another in place of what is below `p`. -/
def graft (f : List ν → Option (Node δ)) (p : List ν) (c : List ν → Option (Node δ)) (q : List ν) : Option (Node δ) :=
  if p <+: q then c (q.drop p.length) else f q

/-- Outside of `p` there is what there was, and `p` is a directory. -/
def Strays (f : List ν → Option (Node δ)) (p : List ν) (t : FileTree ν δ) : Prop := Outside p f t ∧ t.node p = some .dir

variable {f c : List ν → Option (Node δ)} {p q r : List ν} {faults : Faults ε} {t : FileTree ν δ}

@[simp] theorem graft_append : graft f p c (p ++ r) = c r := by
  unfold graft
  rw [if_pos (List.prefix_append p r), List.drop_left]

theorem graft_outside (h : ¬ p <+: q) : graft f p c q = f q := if_neg h

theorem graft_self (f : List ν → Option (Node δ)) (p : List ν) : graft f p (fun r => f (p ++ r)) = f := by
  funext q
  by_cases hq : p <+: q
  · obtain ⟨r, rfl⟩ := hq
    rw [graft_append]
  · rw [graft_outside hq]

theorem graft_eq {g : List ν → Option (Node δ)} (hout : ∀ q, ¬ p <+: q → g q = f q) (hin : ∀ r, g (p ++ r) = c r) : g = graft f p c := by
  funext q
  by_cases hq : p <+: q
  · obtain ⟨r, rfl⟩ := hq
    rw [graft_append, hin]
  · rw [graft_outside hq, hout q hq]

theorem graft_root : graft f p c p = c [] := by
  have happend := graft_append (f := f) (c := c) (p := p) (r := [])
  rw [List.append_nil] at happend
  exact happend

theorem strays_graft (h : t.node = graft f p c) (hc : c [] = some .dir) : Strays f p t := by
  refine ⟨?_, ?_⟩
  · intro q hq
    rw [h, graft_outside hq]
  · rw [h, graft_root, hc]

theorem meets_remove_strays (hr : r ≠ []) : Meets (Strays f p) (remove faults (p ++ r)) (fun _ => Strays f p) (Strays f p) := by
  refine .change ?_ (fun _ h => h)
  intro t t' hpre hop
  have hnode := FileTree.remove_spec hop
  refine ⟨?_, ?_⟩
  · intro q hq
    have hne : q ≠ p ++ r := by
      intro heq
      rw [heq] at hq
      exact hq (List.prefix_append p r)
    rw [hnode, if_neg hne]
    exact hpre.1 q hq
  · have hne : p ≠ p ++ r := by
      intro heq
      exact hr (List.append_cancel_left (heq.symm.trans (List.append_nil p).symm))
    rw [hnode, if_neg hne]
    exact hpre.2

/-- A file below `p` in place of what was there. -/
theorem graft_file {n : Node δ} : (fun q => if q = p ++ r then some n else graft f p c q) = graft f p (fun q => if q = r then some n else c q) := by
  refine graft_eq ?_ ?_
  · intro q hq
    have hne : q ≠ p ++ r := by
      intro heq
      rw [heq] at hq
      exact hq (List.prefix_append p r)
    rw [if_neg hne, graft_outside hq]
  · intro s
    simp only [List.append_right_inj, graft_append]

variable [DecidableEq δ]

/-- Directories are made below `p`, and only there. -/
theorem meets_mkdirAll_graft (hup : ∀ q, q <+: p → q ≠ p → f q = some .dir) (hc : c [] = some .dir) :
    Meets (fun t => t.node = graft f p c) (mkdirAll faults (p ++ r))
      (fun _ t => t.node = graft f p (fun q => if q <+: r then some .dir else c q)) (Strays f p) := by
  have hp : graft f p c p = some .dir := by
    rw [graft_root, hc]
  have habove : ∀ q, q <+: p ++ r → ¬ p <+: q → f q = some .dir := by
    intro q hq hnot
    rcases List.prefix_or_prefix_of_prefix hq (List.prefix_append p r) with hqp | hpq
    · refine hup q hqp ?_
      intro heq
      rw [heq] at hnot
      exact hnot (List.prefix_refl p)
    · exact absurd hpq hnot
  have hroot : graft f p c [] = some .dir := by
    by_cases hnil : p = []
    · rw [hnil] at hp ⊢
      exact hp
    · have hnot : ¬ p <+: [] := fun h => hnil (List.prefix_nil.mp h)
      rw [graft_outside hnot]
      exact habove [] List.nil_prefix hnot
  refine .mono (meets_mkdirAll hroot) (fun _ h => h) ?_ ?_
  · rintro _ t ⟨-, hnode⟩
    refine graft_eq ?_ ?_
    · intro q hq
      rw [hnode]
      split
      · rename_i hbelow
        rw [habove q hbelow hq]
      · exact graft_outside hq
    · intro s
      simp only [hnode, List.prefix_append_right_inj, graft_append]
  · intro t hnode
    refine ⟨?_, ?_⟩
    · intro q hq
      rcases hnode q with heq | ⟨hbelow, hnone, -⟩
      · rw [heq, graft_outside hq]
      · rw [graft_outside hq, habove q hbelow hq] at hnone
        exact absurd hnone (Option.some_ne_none _)
    · rcases hnode p with heq | ⟨-, hnone, -⟩
      · rw [heq, hp]
      · rw [hp] at hnone
        exact absurd hnone (Option.some_ne_none _)

theorem meets_mkdirAll_self (hup : ∀ q, q <+: p → q ≠ p → f q = some .dir) (hc : c [] = some .dir) :
    Meets (fun t => t.node = graft f p c) (mkdirAll faults p) (fun _ t => t.node = graft f p c) (Strays f p) := by
  have hsame : (fun q => if q <+: [] then some .dir else c q) = c := by
    funext q
    split
    · rename_i hq
      rw [List.prefix_nil.mp hq, hc]
    · rfl
  have hmade : Meets _ (mkdirAll faults (p ++ [])) _ _ := meets_mkdirAll_graft hup hc
  rw [List.append_nil, hsame] at hmade
  exact hmade

end Sys

/-! ### A file in such a tree -/

namespace Sys
variable {ν ε β : Type} [DecidableEq ν] [DecidableEq β] {f c : List ν → Option (Node (List β))} {p r : List ν}
  {faults : Faults ε} {data : List β}

theorem meets_openFile_graft (hc : c [] = some .dir) : Meets (fun t => t.node = graft f p c) (openFile faults (p ++ r))
    (fun _ t => t.node = graft f p (fun q => if q = r then some (.file []) else c q)) (Strays f p) := by
  refine .mono meets_openFile (fun _ h => h) ?_ (fun t h => strays_graft h hc)
  intro _ t hnode
  rw [hnode, graft_file]

theorem meets_writeData_graft (hc : c [] = some .dir) (hr : r ≠ []) : Meets (fun t => t.node = graft f p c) (writeData faults (p ++ r) data)
    (fun _ t => t.node = graft f p (fun q => if q = r then some (.file data) else c q)) (Strays f p) := by
  refine .mono meets_writeData (fun _ h => h) ?_ ?_
  · intro _ t hnode
    rw [hnode, graft_file]
  · intro t hnode
    refine ⟨?_, ?_⟩
    · intro q hq
      have hne : q ≠ p ++ r := by
        intro heq
        rw [heq] at hq
        exact hq (List.prefix_append p r)
      rw [hnode q hne, graft_outside hq]
    · have hne : p ≠ p ++ r := by
        intro heq
        exact hr (List.append_cancel_left (heq.symm.trans (List.append_nil p).symm))
      rw [hnode p hne, graft_root, hc]

end Sys
end Cronova.Files
