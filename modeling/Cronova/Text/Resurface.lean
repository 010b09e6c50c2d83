import Cronova.Text.Masking
import Mathlib.Data.Nat.Find

/-! When the mask of a word brings the word back. A word without the star is gone from a
masked text; a word that has the star may be put together from the stars of a mask and
the symbols beside it. -/
namespace Cronova.Text.Masking
variable {α : Type} [DecidableEq α] {star : α} {words : List (List α)} {t u v w : List α}

/-- The scan copies the text up to the first word. -/
theorem mask_until (u : List α) (h : ∀ k < u.length, wordAt words ((u ++ t).drop k) = none) :
    mask star words (u ++ t) = u ++ mask star words t := by
  induction u with
  | nil => rfl
  | cons c u ih =>
    have hrest : ∀ k < u.length, wordAt words ((u ++ t).drop k) = none := by
      intro k hk
      exact h (k + 1) (Nat.succ_lt_succ hk)
    have hnone : wordAt words (c :: (u ++ t)) = none := h 0 (Nat.succ_pos _)
    rw [List.cons_append, mask_none hnone, ih hrest, List.cons_append]

theorem wordAt_single (hne : w ≠ []) (t : List α) : wordAt [w] (w ++ t) = some w := by
  simp [wordAt, hne]

/-- A text shorter than the word is kept. -/
theorem mask_short (h : t.length < w.length) : mask star [w] t = t := by
  refine mask_free (fun v hv _ hpart => ?_)
  obtain rfl := List.mem_singleton.mp hv
  exact absurd hpart.length_le (Nat.not_le.mpr h)

/-- The word touches no mask: it neither begins nor ends with the star, nor holds a mask. -/
def Apart (star : α) (w : List α) : Prop := w.head? ≠ some star ∧ w.getLast? ≠ some star ∧ ¬ stars star <:+: w

instance (star : α) (w : List α) : Decidable (Apart star w) := inferInstanceAs (Decidable (_ ∧ _))

/-- What the end of such a word is the front of in a masked text, it is in the text. -/
private theorem prefix_unmasked (hlast : v.getLast? ≠ some star) (hstars : ¬ stars star <:+: v)
    (h : v <+: mask star words t) : v <+: t := by
  induction t using mask_induction words generalizing v with
  | nil => exact h
  | found w t hfound ih =>
    rw [mask_found hfound] at h
    rcases List.prefix_or_prefix_of_prefix h (List.prefix_append (stars star) _) with h | h
    · cases v using List.reverseRecOn with
      | nil => exact List.nil_prefix
      | append_singleton v c =>
        have hc : c ∈ stars star := h.subset (by simp)
        have hstar : c = star := by simpa [stars] using hc
        exact absurd (by simp [hstar]) hlast
    · exact absurd h.isInfix hstars
  | none c t hnone ih =>
    rw [mask_none hnone] at h
    cases v with
    | nil => exact List.nil_prefix
    | cons d v =>
      obtain ⟨rfl, hrest⟩ := List.cons_prefix_cons.mp h
      refine List.cons_prefix_cons.mpr ⟨rfl, ih ?_ (fun hpart => hstars (hpart.trans (List.suffix_cons _ v).isInfix)) hrest⟩
      intro hend
      apply hlast
      rw [List.getLast?_cons, hend]
      rfl

theorem mask_apart (hne : w ≠ []) (h : Apart star w) (t : List α) : ¬ w <:+: mask star [w] t := by
  obtain ⟨hhead, hlast, hstars⟩ := h
  induction t using mask_induction [w] with
  | nil => exact fun hpart => hne (List.infix_nil.mp hpart)
  | found v t hfound ih =>
    rw [mask_found hfound]
    -- the word does not begin at a star
    have hstep : ∀ t, w <:+: star :: t → w <:+: t := by
      intro t hpart
      refine (List.infix_cons_iff.mp hpart).resolve_left (fun hpre => hhead ?_)
      cases w with
      | nil => exact absurd rfl hne
      | cons c w => rw [(List.cons_prefix_cons.mp hpre).1, List.head?_cons]
    exact fun hpart => ih (hstep _ (hstep _ (hstep _ (hstep _ hpart))))
  | none c t hnone ih =>
    rw [mask_none hnone]
    intro hpart
    rcases List.infix_cons_iff.mp hpart with hpre | hpart
    · refine wordAt_none hnone (List.mem_singleton.mpr rfl) hne ?_
      have hkeep : mask star [w] (c :: t) = c :: mask star [w] t := mask_none hnone
      rw [← hkeep] at hpre
      exact prefix_unmasked hlast hstars hpre
    · exact ih hpart

/-! The texts that bring a word back -/

private theorem brought_head (h : w.head? = some star) : ∃ t, w <:+: mask star [w] t := by
  cases w with
  | nil => simp at h
  | cons c w =>
    obtain rfl : c = star := by simpa using h
    refine ⟨(c :: w) ++ w, ?_⟩
    rw [mask_found (wordAt_single (List.cons_ne_nil c w) w), mask_short (by simp)]
    exact ⟨[c, c, c], [], by simp [stars]⟩

omit [DecidableEq α] in
private theorem getElem?_of_prefix {t : List α} {k i : Nat} (h : w <+: t.drop k) (hi : i < w.length) : t[k + i]? = w[i]? := by
  have hget := List.prefix_iff_getElem?.mp h i hi
  rw [List.getElem?_drop] at hget
  rw [hget, List.getElem?_eq_getElem hi]

omit [DecidableEq α] in
/-- An occurrence of the word in a copy of its front and the word itself repeats the
symbols of the word further to the left. -/
private theorem shifted {rest : List α} {k i : Nat} (hk : k < u.length) (h : u ++ rest <+: (u ++ (u ++ rest) ++ t).drop k)
    (hi : u.length + i < (u ++ rest).length) : (u ++ rest)[k + i]? = (u ++ rest)[u.length + i]? := by
  have hsame := getElem?_of_prefix h hi
  have hplace : (u ++ (u ++ rest) ++ t)[k + (u.length + i)]? = (u ++ rest)[k + i]? := by
    rw [List.append_assoc, show k + (u.length + i) = u.length + (k + i) by omega,
      List.getElem?_append_right (Nat.le_add_right _ _), Nat.add_sub_cancel_left, List.getElem?_append_left (by omega)]
  rw [← hplace, hsame]

private theorem brought_behind {rest : List α} (hne : u ++ rest ≠ [])
    (hfirst : ∀ k < u.length, ¬ u ++ rest <+: (u ++ (u ++ rest) ++ t).drop k) (ht : t.length < (u ++ rest).length) :
    u ++ stars star ++ t <:+: mask star [u ++ rest] (u ++ (u ++ rest) ++ t) := by
  have hfree : ∀ k < u.length, wordAt [u ++ rest] ((u ++ (u ++ rest ++ t)).drop k) = none := by
    intro k hk
    refine wordAt_eq_none (fun v hv _ hpre => ?_)
    obtain rfl := List.mem_singleton.mp hv
    rw [← List.append_assoc] at hpre
    exact hfirst k hk hpre
  rw [List.append_assoc u (u ++ rest) t, mask_until u hfree, mask_found (wordAt_single hne t), mask_short ht,
    List.append_assoc]

private theorem brought_last (hhead : w.head? ≠ some star) (h : w.getLast? = some star) : ∃ t, w <:+: mask star [w] t := by
  obtain ⟨r, rfl⟩ := List.getLast?_eq_some_iff.mp h
  have hfirst : ∀ k < r.length, ¬ r ++ [star] <+: (r ++ (r ++ [star]) ++ []).drop k := by
    intro k hk hpre
    have hstar := shifted hk hpre (i := 0) (by simp)
    have hcopy := getElem?_of_prefix hpre (i := 0) (by simp)
    rw [Nat.add_zero, List.append_nil, List.getElem?_append_left hk, ← @List.getElem?_append_left _ r [star] _ hk] at hcopy
    apply hhead
    rw [List.head?_eq_getElem?, ← hcopy, ← Nat.add_zero k, hstar]
    simp
  refine ⟨_, List.IsInfix.trans ?_ (brought_behind (t := []) (by simp) hfirst (by simp))⟩
  exact ⟨[], [star, star, star], by simp [stars]⟩

private theorem brought_mask (h : stars star <:+: w) : ∃ t, w <:+: mask star [w] t := by
  have hsome : ∃ k, stars star <+: w.drop k := by
    obtain ⟨u, v, rfl⟩ := h
    exact ⟨u.length, by rw [List.append_assoc, List.drop_left]; exact List.prefix_append _ _⟩
  classical
  -- cut the word at its first mask
  obtain ⟨k, hk, hmin⟩ : ∃ k, stars star <+: w.drop k ∧ ∀ j < k, ¬ stars star <+: w.drop j :=
    ⟨Nat.find hsome, Nat.find_spec hsome, fun j hj => Nat.find_min hsome hj⟩
  obtain ⟨v, hv⟩ := hk
  have hk : k ≤ w.length := by
    by_contra hlong
    rw [List.drop_of_length_le (by omega)] at hv
    simp [stars] at hv
  obtain ⟨u, rfl, rfl⟩ : ∃ u, w = u ++ (stars star ++ v) ∧ u.length = k :=
    ⟨w.take k, by rw [hv, List.take_append_drop], List.length_take_of_le hk⟩
  have hfirst : ∀ k < u.length, ¬ u ++ (stars star ++ v) <+: (u ++ (u ++ (stars star ++ v)) ++ v).drop k := by
    intro k hk hpre
    refine hmin k hk (List.prefix_iff_getElem?.mpr (fun i hi => ?_))
    have hfour : i < 4 := hi
    have hshift := shifted hk hpre (i := i) (by simp [stars]; omega)
    rw [List.getElem?_drop, hshift, List.getElem?_append_right (Nat.le_add_right _ _), Nat.add_sub_cancel_left,
      List.getElem?_append_left hi, List.getElem?_eq_getElem hi]
  refine ⟨_, List.IsInfix.trans ?_ (brought_behind (by simp [stars]) hfirst (by simp [stars]; omega))⟩
  rw [List.append_assoc]

/-- A mask can bring a word back exactly when the word touches a mask. -/
theorem brought_back_iff (hne : w ≠ []) : (∃ t, w <:+: mask star [w] t) ↔ ¬ Apart star w := by
  constructor
  · rintro ⟨t, hpart⟩ hapart
    exact mask_apart hne hapart t hpart
  · intro h
    by_cases hhead : w.head? = some star
    · exact brought_head hhead
    · by_cases hlast : w.getLast? = some star
      · exact brought_last hhead hlast
      · refine brought_mask ?_
        by_contra hstars
        exact h ⟨hhead, hlast, hstars⟩

end Cronova.Text.Masking
