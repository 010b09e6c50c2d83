import Cronova.Text.Rewriting
import Mathlib.Data.List.Infix

/-! Masking words in a text: one pass from left to right replaces the first word of a
list that starts at each position by four copies of a symbol that no word contains.
The text may come in parts, of which a masked head is given out and the rest is kept. -/
namespace Cronova.Text.Masking
open Cronova.Text.Rewriting
variable {α : Type} [DecidableEq α]

/-- The first word of the list that a text begins with. -/
def wordAt (words : List (List α)) (t : List α) : Option (List α) := words.find? (fun w => w ≠ [] && w.isPrefixOf t)

def stars (star : α) : List α := [star, star, star, star]

section WordAt
variable {words : List (List α)} {w t : List α}

theorem wordAt_some (h : wordAt words t = some w) : w ∈ words ∧ w ≠ [] ∧ w <+: t := by
  have hcond := List.find?_some h
  rw [Bool.and_eq_true, decide_eq_true_iff] at hcond
  exact ⟨List.mem_of_find?_eq_some h, hcond.1, List.isPrefixOf_iff_prefix.mp hcond.2⟩

theorem wordAt_none (h : wordAt words t = none) (hw : w ∈ words) (hne : w ≠ []) : ¬ w <+: t := by
  intro hpre
  have hcond := List.find?_eq_none.mp h w hw
  rw [Bool.and_eq_true, decide_eq_true_iff] at hcond
  exact hcond ⟨hne, List.isPrefixOf_iff_prefix.mpr hpre⟩

theorem wordAt_eq_none (h : ∀ w ∈ words, w ≠ [] → ¬ w <+: t) : wordAt words t = none := by
  rw [wordAt, List.find?_eq_none]
  intro w hw hcond
  rw [Bool.and_eq_true, decide_eq_true_iff] at hcond
  exact h w hw hcond.1 (List.isPrefixOf_iff_prefix.mp hcond.2)

theorem wordAt_congr {t' : List α} (h : ∀ w ∈ words, w ≠ [] → (w <+: t ↔ w <+: t')) : wordAt words t = wordAt words t' := by
  unfold wordAt
  induction words with
  | nil => rfl
  | cons w words ih =>
    have ih := ih (fun v hv => h v (List.mem_cons_of_mem _ hv))
    have hcond : (decide (w ≠ []) && w.isPrefixOf t) = (decide (w ≠ []) && w.isPrefixOf t') := by
      by_cases hne : w = []
      · simp only [hne, ne_eq, not_true_eq_false, decide_false, Bool.false_and]
      · have hiff := h w List.mem_cons_self hne
        rw [← List.isPrefixOf_iff_prefix, ← List.isPrefixOf_iff_prefix, ← Bool.eq_iff_iff] at hiff
        rw [hiff]
    rw [List.find?_cons, List.find?_cons, hcond, ih]

/-- A text that ends later begins with the same word, when it still fits. -/
theorem wordAt_shrink {z : List α} (h : wordAt words (t ++ z) = some w) (hw : w <+: t) : wordAt words t = some w := by
  obtain ⟨hcond, before, after, heq, hbefore⟩ := List.find?_eq_some_iff_append.mp h
  refine List.find?_eq_some_iff_append.mpr ⟨?_, before, after, heq, ?_⟩
  · rw [Bool.and_eq_true] at hcond ⊢
    exact ⟨hcond.1, List.isPrefixOf_iff_prefix.mpr hw⟩
  · intro v hv
    have hnot := hbefore v hv
    rw [Bool.not_eq_true', ← Bool.not_eq_true, Bool.and_eq_true] at hnot ⊢
    intro hboth
    exact hnot ⟨hboth.1, List.isPrefixOf_iff_prefix.mpr ((List.isPrefixOf_iff_prefix.mp hboth.2).trans (List.prefix_append t z))⟩

/-- With the longest words first, no longer word fits. -/
theorem wordAt_longest {v : List α} (hsorted : words.Pairwise (fun v w => w.length ≤ v.length)) (h : wordAt words t = some w)
    (hv : v ∈ words) (hne : v ≠ []) (hpre : v <+: t) : v.length ≤ w.length := by
  obtain ⟨-, before, after, hlist, hbefore⟩ := List.find?_eq_some_iff_append.mp h
  rw [hlist] at hv hsorted
  rcases List.mem_append.mp hv with hv | hv
  · have hnot := hbefore v hv
    rw [List.isPrefixOf_iff_prefix.mpr hpre, Bool.and_true, Bool.not_eq_true', decide_eq_false_iff_not] at hnot
    exact absurd hne hnot
  · rcases List.mem_cons.mp hv with rfl | hv
    · exact Nat.le_refl _
    · exact List.rel_of_pairwise_cons (List.pairwise_append.mp hsorted).2.1 hv

/-- The order of words of one length does not matter. -/
theorem wordAt_order {words' : List (List α)} (hsorted : words.Pairwise (fun v w => w.length ≤ v.length))
    (hsorted' : words'.Pairwise (fun v w => w.length ≤ v.length)) (hmem : ∀ w, w ∈ words ↔ w ∈ words') (t : List α) :
    wordAt words t = wordAt words' t := by
  cases h : wordAt words t with
  | none =>
    symm
    exact wordAt_eq_none (fun w hw hne => wordAt_none h ((hmem w).mpr hw) hne)
  | some w =>
    obtain ⟨hw, hne, hpre⟩ := wordAt_some h
    cases h' : wordAt words' t with
    | none => exact absurd hpre (wordAt_none h' ((hmem w).mp hw) hne)
    | some v =>
      obtain ⟨hv, hne', hpre'⟩ := wordAt_some h'
      have hle := wordAt_longest hsorted h ((hmem v).mpr hv) hne' hpre'
      have hle' := wordAt_longest hsorted' h' ((hmem w).mp hw) hne hpre
      have heq : v = w := (List.prefix_of_prefix_length_le hpre' hpre hle).eq_of_length (by omega)
      rw [heq]

end WordAt

/-- The words of the list, as a finder. -/
def finder (words : List (List α)) : Finder α where
  find t := (wordAt words t).map List.length
  pos := by
    intro t n h
    obtain ⟨w, hw, rfl⟩ := Option.map_eq_some_iff.mp h
    exact List.length_pos_iff.mpr (wordAt_some hw).2.1
  le := by
    intro t n h
    obtain ⟨w, hw, rfl⟩ := Option.map_eq_some_iff.mp h
    exact (wordAt_some hw).2.2.length_le

def mask (star : α) (words : List (List α)) (t : List α) : List α := rewrite (finder words) (fun _ => stars star) t

section Mask
variable {star : α} {words : List (List α)} {c : α} {t u w z : List α}

@[simp] theorem mask_nil : mask star words [] = [] := rfl

theorem mask_found (h : wordAt words (w ++ t) = some w) : mask star words (w ++ t) = stars star ++ mask star words t := by
  have hfind : (finder words).find (w ++ t) = some w.length := by
    change (wordAt words (w ++ t)).map List.length = _
    rw [h, Option.map_some]
  rw [mask, rewrite, pieces_found hfind, render_inr, List.drop_left, mask, rewrite]

theorem mask_none (h : wordAt words (c :: t) = none) : mask star words (c :: t) = c :: mask star words t := by
  have hfind : (finder words).find (c :: t) = none := by
    change (wordAt words (c :: t)).map List.length = _
    rw [h, Option.map_none]
  rw [mask, rewrite, pieces_none hfind, render_inl, mask, rewrite]

/-- Induction along the masked words of a text. -/
theorem mask_induction (words : List (List α)) {motive : List α → Prop} (nil : motive [])
    (found : ∀ w t, wordAt words (w ++ t) = some w → motive t → motive (w ++ t))
    (none : ∀ c t, wordAt words (c :: t) = Option.none → motive t → motive (c :: t)) (t : List α) : motive t := by
  induction t using scan_induction (finder words) with
  | nil => exact nil
  | found t n h ih =>
    obtain ⟨w, hw, rfl⟩ := Option.map_eq_some_iff.mp h
    obtain ⟨rest, rfl⟩ := (wordAt_some hw).2.2
    rw [List.drop_left] at ih
    exact found w rest hw ih
  | none c t h ih => exact none c t (Option.map_eq_none_iff.mp h) ih

/-- Without a word in it a text stays as it is. -/
theorem mask_free (h : ∀ w ∈ words, w ≠ [] → ¬ w <:+: t) : mask star words t = t := by
  induction t with
  | nil => rfl
  | cons c t ih =>
    have hnone : wordAt words (c :: t) = none := wordAt_eq_none (fun w hw hne hpre => h w hw hne hpre.isInfix)
    have hrest : ∀ w ∈ words, w ≠ [] → ¬ w <:+: t :=
      fun w hw hne hpart => h w hw hne (hpart.trans (List.suffix_cons c t).isInfix)
    rw [mask_none hnone, ih hrest]

/-- A symbol of no word keeps what stands before it from what follows. -/
theorem mask_barrier (star : α) {x : α} (hx : ∀ w ∈ words, x ∉ w) (t z : List α) :
    mask star words (t ++ x :: z) = mask star words t ++ x :: mask star words z := by
  have hstop : ∀ t : List α, wordAt words (t ++ x :: z) = wordAt words t := by
    intro t
    apply wordAt_congr
    intro w hw hne
    constructor
    · intro hpre
      have hhead : t ++ [x] <+: t ++ x :: z := ⟨z, by rw [List.append_assoc, List.singleton_append]⟩
      rcases List.prefix_or_prefix_of_prefix hpre hhead with h | h
      · rcases List.prefix_concat_iff.mp h with rfl | h
        · exact absurd (List.mem_append_right t List.mem_cons_self) (hx _ hw)
        · exact h
      · exact absurd (h.subset (List.mem_append_right t List.mem_cons_self)) (hx _ hw)
    · exact fun hpre => hpre.trans (List.prefix_append t _)
  induction t using mask_induction words with
  | nil =>
    have hnone : wordAt words (x :: z) = none := by
      rw [show x :: z = [] ++ x :: z from rfl, hstop]
      exact wordAt_eq_none (fun w _ hne hpre => hne (List.prefix_nil.mp hpre))
    exact mask_none hnone
  | found w t h ih =>
    have hfound := hstop (w ++ t)
    rw [h, List.append_assoc] at hfound
    rw [List.append_assoc, mask_found hfound, mask_found h, ih, List.append_assoc]
  | none c t h ih =>
    have hnone : wordAt words (c :: (t ++ x :: z)) = none := (hstop (c :: t)).trans h
    rw [List.cons_append, mask_none hnone, mask_none h, ih, List.cons_append]

end Mask

/-- The words are not empty, and none has the star. -/
def Maskable (star : α) (words : List (List α)) : Prop := ∀ w ∈ words, w ≠ [] ∧ star ∉ w

section Hidden
variable {star : α} {words : List (List α)} {t u w z : List α}

/-- What a masked text begins with before a star, the text begins with. -/
theorem prefix_of_mask (hstar : star ∉ u) (h : u <+: mask star words t ++ z) : u <+: t ++ z := by
  induction t using mask_induction words generalizing u with
  | nil => exact h
  | found w t hfound ih =>
    rw [mask_found hfound] at h
    cases u with
    | nil => exact List.nil_prefix
    | cons c u =>
      obtain ⟨hc, -⟩ := List.cons_prefix_cons.mp h
      exact absurd (hc ▸ List.mem_cons_self) hstar
  | none c t hnone ih =>
    rw [mask_none hnone] at h
    cases u with
    | nil => exact List.nil_prefix
    | cons d u =>
      obtain ⟨rfl, hrest⟩ := List.cons_prefix_cons.mp h
      exact List.cons_prefix_cons.mpr ⟨rfl, ih (fun hmem => hstar (List.mem_cons_of_mem _ hmem)) hrest⟩

omit [DecidableEq α] in
/-- A part of a text without the star lies behind a star in front of it. -/
theorem infix_behind {t : List α} (hstar : star ∉ u) (h : u <:+: star :: t) : u <:+: t := by
  rcases List.infix_cons_iff.mp h with hpre | h
  · cases u with
    | nil => exact List.nil_infix
    | cons c u =>
      obtain ⟨rfl, -⟩ := List.cons_prefix_cons.mp hpre
      exact absurd List.mem_cons_self hstar
  · exact h

/-- A masked text contains no word. -/
theorem mask_hides (hmask : Maskable star words) (hw : w ∈ words) (t : List α) : ¬ w <:+: mask star words t := by
  obtain ⟨hne, hstar⟩ := hmask w hw
  induction t using mask_induction words with
  | nil => exact fun h => hne (List.infix_nil.mp h)
  | found v t hfound ih =>
    intro h
    rw [mask_found hfound] at h
    exact ih (infix_behind hstar (infix_behind hstar (infix_behind hstar (infix_behind hstar h))))
  | none c t hnone ih =>
    intro h
    have hkeep : mask star words (c :: t) ++ [] = c :: mask star words t ++ [] := by rw [mask_none hnone]
    rw [mask_none hnone] at h
    rcases List.infix_cons_iff.mp h with hpre | h
    · have hhead : w <+: c :: t ++ [] := by
        apply prefix_of_mask hstar
        rw [hkeep, List.append_nil]
        exact hpre
      rw [List.append_nil] at hhead
      exact wordAt_none hnone hw hne hhead
    · exact ih h

end Hidden

/-- The pass over a text has given `out` and has `rest` to read. -/
inductive Scans (star : α) (words : List (List α)) : (t out rest : List α) → Prop where
  | done (t) : Scans star words t [] t
  | found {w t out rest} : wordAt words (w ++ t) = some w → Scans star words t out rest →
      Scans star words (w ++ t) (stars star ++ out) rest
  | none {c t out rest} : wordAt words (c :: t) = none → Scans star words t out rest →
      Scans star words (c :: t) (c :: out) rest

section Resume
variable {star : α} {words : List (List α)} {t u out rest z : List α}

theorem Scans.mask_eq (h : Scans star words t out rest) : mask star words t = out ++ mask star words rest := by
  induction h with
  | done t => rfl
  | found hfound _ ih => rw [mask_found hfound, ih, List.append_assoc]
  | none hnone _ ih => rw [mask_none hnone, ih, List.cons_append]

theorem Scans.front (h : Scans star words t out rest) (hstar : star ∉ u) (hpre : u <+: out ++ rest) : u <+: t := by
  induction h generalizing u with
  | done t => exact hpre
  | found hfound _ ih =>
    cases u with
    | nil => exact List.nil_prefix
    | cons c u =>
      obtain ⟨hc, -⟩ := List.cons_prefix_cons.mp hpre
      exact absurd (hc ▸ List.mem_cons_self) hstar
  | none hnone _ ih =>
    cases u with
    | nil => exact List.nil_prefix
    | cons d u =>
      obtain ⟨rfl, hrest⟩ := List.cons_prefix_cons.mp hpre
      exact List.cons_prefix_cons.mpr ⟨rfl, ih (fun hmem => hstar (List.mem_cons_of_mem _ hmem)) hrest⟩

/-- What the pass has given is not masked again by a pass that starts in it. -/
theorem Scans.again (hmask : Maskable star words) (h : Scans star words t out rest) (hu : u <:+ out) :
    mask star words (u ++ rest) = u ++ mask star words rest := by
  induction h generalizing u with
  | done t =>
    rw [List.suffix_nil.mp hu]
    rfl
  | found hfound _ ih =>
    rename_i rest _
    -- one star more in front of what is passed over
    have hstar : ∀ v, (∀ u, u <:+ v → mask star words (u ++ rest) = u ++ mask star words rest) →
        ∀ u, u <:+ star :: v → mask star words (u ++ rest) = u ++ mask star words rest := by
      intro v hv u hu
      rcases List.suffix_cons_iff.mp hu with rfl | hu
      · have hpass := mask_barrier star (fun w hw => (hmask w hw).2) [] (v ++ rest)
        rw [List.nil_append, mask_nil, List.nil_append, hv v (List.suffix_refl v)] at hpass
        exact hpass
      · exact hv u hu
    exact hstar _ (hstar _ (hstar _ (hstar _ (fun u hu => ih hu)))) u hu
  | @none c t out rest hnone hscan ih =>
    rcases List.suffix_cons_iff.mp hu with rfl | hu
    · have hpass : wordAt words (c :: (out ++ rest)) = Option.none := by
        apply wordAt_eq_none
        intro w hw hne hpre
        exact wordAt_none hnone hw hne ((Scans.none hnone hscan).front (hmask w hw).2 hpre)
      rw [List.cons_append, mask_none hpass, ih (List.suffix_refl out), List.cons_append]
    · exact ih hu

/-- `q` may be the beginning of a word that goes on. -/
def Begun (words : List (List α)) (q : List α) : Prop := ∃ w ∈ words, q <+: w ∧ q ≠ w

/-- No word that the end of a text may have begun holds a complete word already. -/
def Unsplit (words : List (List α)) (t : List α) : Prop := ∀ q, q <:+ t → Begun words q → ∀ w ∈ words, ¬ w <:+: q

omit [DecidableEq α] in
theorem Unsplit.suffix (h : Unsplit words t) (hu : u <:+ t) : Unsplit words u := fun q hq => h q (hq.trans hu)

/-- With more text to come, the pass over `t` gives what it gives over `t` alone, up to
the beginning of a word at the end. -/
theorem scan_split (star : α) (hsplit : Unsplit words t) (z : List α) :
    ∃ out q, mask star words t = out ++ q ∧ Scans star words (t ++ z) out (q ++ z) ∧ (q = [] ∨ Begun words q) := by
  induction hlen : t.length using Nat.strongRecOn generalizing t with
  | ind len ih =>
    cases t with
    | nil => exact ⟨[], [], rfl, .done z, .inl rfl⟩
    | cons c t =>
      cases hat : wordAt words (c :: (t ++ z)) with
      | none =>
        have hnone : wordAt words (c :: t) = none :=
          wordAt_eq_none (fun w hw hne hpre => wordAt_none hat hw hne (hpre.trans (List.prefix_append (c :: t) z)))
        have hlt : t.length < len := by
          rw [← hlen]
          exact Nat.lt_succ_self _
        obtain ⟨out, q, hmask, hscan, hq⟩ := ih t.length hlt (hsplit.suffix (List.suffix_cons c t)) rfl
        exact ⟨c :: out, q, by rw [mask_none hnone, hmask, List.cons_append], .none hat hscan, hq⟩
      | some w =>
        obtain ⟨hw, hne, hpre⟩ := wordAt_some hat
        rcases List.prefix_or_prefix_of_prefix hpre (List.prefix_append (c :: t) z) with hin | hover
        · have hfound := wordAt_shrink (t := c :: t) hat hin
          obtain ⟨rest, hrest⟩ := hin
          rw [← hrest] at hfound
          have hlt : rest.length < len := by
            have hpos := List.length_pos_iff.mpr hne
            rw [← hlen, ← hrest, List.length_append]
            omega
          obtain ⟨out, q, hmask, hscan, hq⟩ := ih rest.length hlt (hsplit.suffix ⟨w, hrest⟩) rfl
          refine ⟨stars star ++ out, q, ?_, ?_, hq⟩
          · rw [← hrest, mask_found hfound, hmask, List.append_assoc]
          · have htext : c :: t ++ z = w ++ (rest ++ z) := by rw [← hrest, List.append_assoc]
            rw [htext]
            exact .found (by rw [← htext]; exact hat) hscan
        · by_cases heq : c :: t = w
          · have hfound := wordAt_shrink (t := c :: t) hat (by rw [heq])
            have hlt : 0 < len := by
              rw [← hlen]
              exact Nat.succ_pos _
            subst heq
            refine ⟨stars star, [], ?_, ?_, .inl rfl⟩
            · have hmask : mask star words (c :: t ++ []) = stars star ++ mask star words [] :=
                mask_found (by rw [List.append_nil]; exact hfound)
              rw [List.append_nil] at hmask
              exact hmask
            · have hscan : Scans star words (c :: t ++ z) (stars star ++ []) z := .found hat (.done z)
              rw [List.append_nil] at hscan
              exact hscan
          · have hbegun : Begun words (c :: t) := ⟨w, hw, hover, heq⟩
            have hfree : mask star words (c :: t) = c :: t :=
              mask_free (fun v hv _ => hsplit _ (List.suffix_refl _) hbegun v hv)
            exact ⟨[], c :: t, hfree, .done _, .inr hbegun⟩

/-- The masked head may go out and the pass go on over the rest, when the rest is long
enough for any word that is begun. -/
theorem mask_resume (hmask : Maskable star words) (hsplit : Unsplit words t) {head tail : List α}
    (hcut : mask star words t = head ++ tail) (hlong : head = [] ∨ ∀ w ∈ words, w.length ≤ tail.length + 1) (z : List α) :
    mask star words (t ++ z) = head ++ mask star words (tail ++ z) := by
  obtain ⟨out, q, heq, hscan, hq⟩ := scan_split star hsplit z
  have hsuffix : q <:+ tail ∨ head = [] := by
    rcases hlong with hnil | hlong
    · exact .inr hnil
    · left
      have hlen : q.length ≤ tail.length := by
        rcases hq with rfl | ⟨w, hw, hpre, hne⟩
        · exact Nat.zero_le _
        · have hlt : q.length < w.length := by
            rcases Nat.lt_or_ge q.length w.length with h | h
            · exact h
            · exact absurd (hpre.eq_of_length_le h) hne
          have hle := hlong w hw
          omega
      have hq : q <:+ head ++ tail := ⟨out, by rw [← heq, hcut]⟩
      exact List.suffix_of_suffix_length_le hq (List.suffix_append head tail) hlen
  rw [hscan.mask_eq]
  rcases hsuffix with ⟨mid, rfl⟩ | rfl
  · have hout : out = head ++ mid := by
      rw [heq, ← List.append_assoc] at hcut
      exact List.append_cancel_right hcut
    rw [hout, List.append_assoc, List.append_assoc, hscan.again hmask ⟨head, hout.symm⟩]
  · rw [List.nil_append] at hcut ⊢
    rw [← hcut, heq, List.append_assoc, hscan.again hmask (List.suffix_refl out)]

end Resume

/-- No word starts in `out`, whatever text comes behind `rest`. -/
def Sealed (words : List (List α)) (out rest : List α) : Prop :=
  ∀ w ∈ words, ∀ c, c ≠ [] → c <:+ out → ∀ z, ¬ w <+: c ++ (rest ++ z)

section Sealing
variable {star : α} {words : List (List α)} {out rest t u w z : List α}

omit [DecidableEq α] in
theorem sealed_nil (words : List (List α)) (rest : List α) : Sealed words [] rest :=
  fun _ _ _ hne hsuffix => absurd (List.suffix_nil.mp hsuffix) hne

omit [DecidableEq α] in
theorem Sealed.more (h : Sealed words out rest) (p : List α) : Sealed words out (rest ++ p) := by
  intro w hw c hne hsuffix z
  rw [List.append_assoc]
  exact h w hw c hne hsuffix (p ++ z)

/-- A word that reaches into a masked text reaches into the text itself. -/
theorem prefix_over_mask (hstar : star ∉ w) (u : List α) (h : w <+: u ++ (mask star words t ++ z)) : w <+: u ++ (t ++ z) := by
  induction u generalizing w with
  | nil =>
    rw [List.nil_append] at h ⊢
    exact prefix_of_mask hstar h
  | cons c u ih =>
    cases w with
    | nil => exact List.nil_prefix
    | cons d w =>
      obtain ⟨rfl, hrest⟩ := List.cons_prefix_cons.mp h
      exact List.cons_prefix_cons.mpr ⟨rfl, ih (fun hmem => hstar (List.mem_cons_of_mem _ hmem)) hrest⟩

/-- Giving out the head of a masked text, when a word that starts in the head must end
before what is not masked yet. -/
theorem Sealed.emit (hmask : Maskable star words) (h : Sealed words out (t ++ rest)) {head tail : List α}
    (hcut : mask star words t = head ++ tail)
    (hfit : ∀ w ∈ words, ∀ c, c ≠ [] → c <:+ head → ∀ z, w <+: c ++ (tail ++ (rest ++ z)) → w <+: c ++ tail) :
    Sealed words (out ++ head) (tail ++ rest) := by
  intro w hw c hne hsuffix z hpre
  rw [List.append_assoc] at hpre
  obtain ⟨u, hu⟩ := hsuffix
  rcases List.append_eq_append_iff.mp hu with ⟨a, hout, hc⟩ | ⟨a, -, hhead⟩
  · rw [hc, List.append_assoc, ← List.append_assoc head, ← hcut] at hpre
    have hraw := prefix_over_mask (hmask w hw).2 a hpre
    by_cases ha : a = []
    · subst ha
      rw [List.nil_append] at hc
      have hinside := hfit w hw c hne (by rw [hc]) z (by rw [hc, ← List.append_assoc, ← hcut]; exact hpre)
      rw [hc, ← hcut] at hinside
      exact mask_hides hmask hw t hinside.isInfix
    · rw [← List.append_assoc t] at hraw
      exact h w hw a ha ⟨u, hout.symm⟩ z hraw
  · have hinside := hfit w hw c hne ⟨a, hhead.symm⟩ z hpre
    have hall : c ++ tail <:+ mask star words t := ⟨a, by rw [← List.append_assoc, ← hhead, hcut]⟩
    exact mask_hides hmask hw t (hinside.isInfix.trans hall.isInfix)

/-- A sealed text and the masked rest hold no word. -/
theorem Sealed.hides (hmask : Maskable star words) (h : Sealed words out rest) (hw : w ∈ words) :
    ¬ w <:+: out ++ mask star words rest := by
  rintro ⟨u, v, heq⟩
  rw [List.append_assoc] at heq
  rcases List.append_eq_append_iff.mp heq with ⟨a, hout, hrest⟩ | ⟨a, -, hrest⟩
  · by_cases ha : a = []
    · subst ha
      exact mask_hides hmask hw rest ⟨[], v, hrest⟩
    · have hpre : w <+: a ++ (mask star words rest ++ []) := ⟨v, by rw [List.append_nil, hrest]⟩
      exact h w hw a ha ⟨u, hout.symm⟩ [] (prefix_over_mask (hmask w hw).2 a hpre)
  · exact mask_hides hmask hw rest ⟨a, v, by rw [hrest, List.append_assoc]⟩

end Sealing
end Cronova.Text.Masking
