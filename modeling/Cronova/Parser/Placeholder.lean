import Cronova.Parser.Definition
import Cronova.Text.Rewriting

/-! The placeholders of a fanned out task: how they are spelled, where one can start,
and what their replacement makes of a text. -/
namespace Cronova.Parser
open Cronova.Text.Rewriting

/-- A placeholder as it is written. -/
def Placeholder (name : String) (w : List Char) : Prop :=
  ∃ front back, (∀ c ∈ front, isPatternSpace c = true) ∧ (∀ c ∈ back, isPatternSpace c = true) ∧
    w = '\x7b' :: '\x7b' :: (front ++ (name.toList ++ (back ++ ['\x7d', '\x7d'])))

/-- A name without spaces and braces. -/
def PlainName (name : String) : Prop :=
  name.toList ≠ [] ∧ ∀ c ∈ name.toList, isPatternSpace c = false ∧ c ≠ '\x7b' ∧ c ≠ '\x7d'

section Matching
variable {name : String} {t w a : List Char}

theorem brace_not_space : isPatternSpace '\x7b' = false ∧ isPatternSpace '\x7d' = false := by decide

theorem dropWhile_spaces {s : List Char} {c : Char} (hs : ∀ c ∈ s, isPatternSpace c = true) (hc : isPatternSpace c = false)
    (rest : List Char) : (s ++ c :: rest).dropWhile isPatternSpace = c :: rest := by
  rw [List.dropWhile_append_of_pos hs, List.dropWhile_cons_of_neg (by rw [hc]; exact nofun)]

/-- A match is a placeholder at the head of the text. -/
theorem matchPlaceholder_sound (h : matchPlaceholder name t = some (w, a)) : t = w ++ a ∧ Placeholder name w := by
  unfold matchPlaceholder at h
  split at h
  case h_2 => cases h
  case h_1 rest =>
    dsimp only at h
    split at h
    case isFalse => cases h
    case isTrue hpre =>
      split at h
      case h_2 => cases h
      case h_1 after hafter =>
        cases h
        obtain ⟨tail, htail⟩ := List.isPrefixOf_iff_prefix.mp hpre
        rw [← htail, List.drop_left] at hafter
        have htext : '\x7b' :: '\x7b' :: rest =
            '\x7b' :: '\x7b' :: (rest.takeWhile isPatternSpace ++ (name.toList ++ (tail.takeWhile isPatternSpace ++ ['\x7d', '\x7d']))) ++ a := by
          have htail' : tail = tail.takeWhile isPatternSpace ++ '\x7d' :: '\x7d' :: a := by
            rw [← hafter, List.takeWhile_append_dropWhile]
          have hrest : rest = rest.takeWhile isPatternSpace ++ (name.toList ++ tail) := by
            rw [htail, List.takeWhile_append_dropWhile]
          have hjoin : rest = rest.takeWhile isPatternSpace ++
              (name.toList ++ (tail.takeWhile isPatternSpace ++ ['\x7d', '\x7d'])) ++ a := by
            conv_lhs => rw [hrest, htail']
            simp only [List.append_assoc, List.cons_append, List.nil_append]
          conv_lhs => rw [hjoin]
          simp only [List.cons_append]
        have hspaces : ∀ l : List Char, ∀ c ∈ l.takeWhile isPatternSpace, isPatternSpace c = true :=
          fun l c hc => List.mem_takeWhile_imp hc
        have hwhole : ('\x7b' :: '\x7b' :: rest).take (('\x7b' :: '\x7b' :: rest).length - a.length) =
            '\x7b' :: '\x7b' :: (rest.takeWhile isPatternSpace ++ (name.toList ++ (tail.takeWhile isPatternSpace ++ ['\x7d', '\x7d']))) := by
          rw [htext, List.length_append, Nat.add_sub_cancel, List.take_left]
        rw [hwhole]
        exact ⟨htext, _, _, hspaces rest, hspaces tail, rfl⟩

theorem matchPlaceholder_complete (hn : PlainName name) (hw : Placeholder name w) (a : List Char) :
    matchPlaceholder name (w ++ a) = some (w, a) := by
  obtain ⟨front, back, hfront, hback, rfl⟩ := hw
  obtain ⟨c, cs, hname⟩ := List.exists_cons_of_ne_nil hn.1
  have hc : isPatternSpace c = false := (hn.2 c (hname ▸ List.mem_cons_self)).1
  have hopen : (front ++ (name.toList ++ (back ++ ['\x7d', '\x7d'])) ++ a).dropWhile isPatternSpace =
      name.toList ++ (back ++ '\x7d' :: '\x7d' :: a) := by
    rw [List.append_assoc, hname, List.cons_append, List.cons_append, dropWhile_spaces hfront hc]
    simp only [List.append_assoc, List.cons_append, List.nil_append]
  have hclose : ((name.toList ++ (back ++ '\x7d' :: '\x7d' :: a)).drop name.toList.length).dropWhile isPatternSpace =
      '\x7d' :: '\x7d' :: a := by
    rw [List.drop_left, dropWhile_spaces hback brace_not_space.2]
  have hpre : name.toList.isPrefixOf (name.toList ++ (back ++ '\x7d' :: '\x7d' :: a)) = true :=
    List.isPrefixOf_iff_prefix.mpr (List.prefix_append _ _)
  simp only [matchPlaceholder, List.cons_append, hopen, hpre, if_true, hclose, Option.some.injEq, Prod.mk.injEq, and_true]
  rw [← List.cons_append, ← List.cons_append, List.length_append, Nat.add_sub_cancel, List.take_left]

end Matching

/-- The placeholders for a name, as a finder. -/
def placeholders (name : String) : Finder Char where
  find t := (matchPlaceholder name t).map (·.1.length)
  pos := by
    intro t n h
    obtain ⟨⟨w, a⟩, hmatch, rfl⟩ := Option.map_eq_some_iff.mp h
    obtain ⟨-, front, back, -, -, rfl⟩ := matchPlaceholder_sound hmatch
    exact Nat.succ_pos _
  le := by
    intro t n h
    obtain ⟨⟨w, a⟩, hmatch, rfl⟩ := Option.map_eq_some_iff.mp h
    rw [(matchPlaceholder_sound hmatch).1, List.length_append]
    exact Nat.le_add_right _ _

section Spelling
variable {name other : String} {t w v : List Char}

theorem placeholders_find : (placeholders name).find t = (matchPlaceholder name t).map (·.1.length) := rfl

theorem placeholders_match (h : matchPlaceholder name t = none) : (placeholders name).find t = none := by
  rw [placeholders_find, h, Option.map_none]

/-- Nothing after the first brace of a placeholder begins with two braces. -/
theorem placeholder_inner (hn : PlainName name) {u : List Char} (hw : Placeholder name (u ++ v)) (hu : u ≠ []) (hv : v ≠ [])
    (a : List Char) : matchPlaceholder other (v ++ a) = none := by
  obtain ⟨front, back, hfront, hback, heq⟩ := hw
  let body := front ++ (name.toList ++ (back ++ ['\x7d', '\x7d']))
  have hbody : ∀ c ∈ body, c ≠ '\x7b' := by
    intro c hc hbrace
    subst hbrace
    have hspace := brace_not_space.1
    simp only [body, List.mem_append, List.mem_cons, List.not_mem_nil, or_false] at hc
    rcases hc with h | h | h | h | h
    · exact absurd (hfront _ h) (by rw [hspace]; exact nofun)
    · exact (hn.2 _ h).2.1 rfl
    · exact absurd (hback _ h) (by rw [hspace]; exact nofun)
    · exact absurd h (by decide)
    · exact absurd h (by decide)
  have hne : body ≠ [] := by
    intro hnil
    have hlen := congrArg List.length hnil
    simp only [body, List.length_append, List.length_cons, List.length_nil] at hlen
    omega
  -- a proper part is the second brace with the body, or an end of the body
  have hpart : v = '\x7b' :: body ∨ ∃ c cs, v = c :: cs ∧ c ≠ '\x7b' := by
    obtain ⟨b, u, rfl⟩ := List.exists_cons_of_ne_nil hu
    obtain ⟨-, heq⟩ := List.cons.inj heq
    cases u with
    | nil => exact .inl heq
    | cons b u =>
      obtain ⟨c, cs, rfl⟩ := List.exists_cons_of_ne_nil hv
      obtain ⟨-, heq⟩ := List.cons.inj heq
      have hmem : c ∈ body := by
        rw [show body = u ++ c :: cs from heq.symm]
        exact List.mem_append_right u List.mem_cons_self
      exact .inr ⟨c, cs, rfl, hbody c hmem⟩
  cases hmatch : matchPlaceholder other (v ++ a) with
  | none => rfl
  | some p =>
    exfalso
    obtain ⟨htext, _, _, -, -, hword⟩ := matchPlaceholder_sound hmatch
    rw [hword] at htext
    rcases hpart with rfl | ⟨c, cs, rfl, hc⟩
    · obtain ⟨d, ds, hcons⟩ := List.exists_cons_of_ne_nil hne
      rw [hcons] at htext hbody
      have hd : d = '\x7b' := (List.cons.inj (List.cons.inj htext).2).1
      exact hbody d List.mem_cons_self hd
    · exact hc (List.cons.inj htext).1

/-- The placeholders for a plain name never overlap. -/
theorem placeholders_spells (hn : PlainName name) : Spells (placeholders name) (Placeholder name) where
  found := by
    intro w hw a
    rw [placeholders_find, matchPlaceholder_complete hn hw, Option.map_some]
  word := by
    intro t n h
    obtain ⟨⟨w, a⟩, hmatch, rfl⟩ := Option.map_eq_some_iff.mp h
    obtain ⟨rfl, hw⟩ := matchPlaceholder_sound hmatch
    rwa [List.take_left]
  solid := by
    intro u v hw hu hv a
    exact placeholders_match (placeholder_inner hn hw hu hv a)

/-- A placeholder names one name. -/
theorem placeholder_unique (hn : PlainName name) (ho : PlainName other) (hw : Placeholder name w) (a : List Char) (hne : name ≠ other) :
    matchPlaceholder other (w ++ a) = none := by
  cases hmatch : matchPlaceholder other (w ++ a) with
  | none => rfl
  | some p =>
    exfalso
    obtain ⟨htext, hother⟩ := matchPlaceholder_sound hmatch
    -- read the name up to the first space or brace
    let inName := fun c : Char => !(isPatternSpace c || c = '\x7d')
    have hread : ∀ {n : String} {v b : List Char}, PlainName n → Placeholder n v →
        (((v ++ b).drop 2).dropWhile isPatternSpace).takeWhile inName = n.toList := by
      rintro n v b hplain ⟨front, back, hfront, hback, rfl⟩
      obtain ⟨c, cs, hname⟩ := List.exists_cons_of_ne_nil hplain.1
      have hc : isPatternSpace c = false := (hplain.2 c (hname ▸ List.mem_cons_self)).1
      have hin : ∀ c ∈ n.toList, inName c = true := by
        intro c hc
        have hplain := hplain.2 c hc
        simp only [inName, hplain.1, hplain.2.2, decide_false, Bool.or_false, Bool.not_false]
      have hopen : (front ++ (n.toList ++ (back ++ ['\x7d', '\x7d'])) ++ b).dropWhile isPatternSpace =
          n.toList ++ (back ++ '\x7d' :: '\x7d' :: b) := by
        rw [List.append_assoc, hname, List.cons_append, List.cons_append, dropWhile_spaces hfront hc]
        simp only [List.append_assoc, List.cons_append, List.nil_append]
      have hend : (back ++ '\x7d' :: '\x7d' :: b).takeWhile inName = [] := by
        cases back with
        | nil => rfl
        | cons d back => rw [List.cons_append, List.takeWhile_cons_of_neg (by simp [inName, hback d List.mem_cons_self])]
      rw [List.cons_append, List.cons_append, List.drop_succ_cons, List.drop_succ_cons, List.drop_zero, hopen,
        List.takeWhile_append_of_pos hin, hend, List.append_nil]
    have hleft := hread (b := a) hn hw
    have hright := hread (b := p.2) ho hother
    rw [← htext, hleft] at hright
    exact hne (String.toList_inj.mp hright)

end Spelling

/-- The symbols of a placeholder that are neither space nor part of its name. -/
theorem placeholder_count {name : String} {w : List Char} (hw : Placeholder name w) {x : Char} (hspace : isPatternSpace x = false)
    (hname : name.toList.count x = 0) : w.count x = ['\x7b', '\x7b', '\x7d', '\x7d'].count x := by
  obtain ⟨front, back, hfront, hback, rfl⟩ := hw
  have hzero : ∀ s : List Char, (∀ c ∈ s, isPatternSpace c = true) → s.count x = 0 := by
    intro s hs
    rw [List.count_eq_zero]
    intro hx
    rw [hs x hx] at hspace
    cases hspace
  rw [List.count_cons, List.count_cons, List.count_append, List.count_append, List.count_append, hzero front hfront,
    hzero back hback, hname, Nat.zero_add, Nat.zero_add, Nat.zero_add, ← List.count_cons, ← List.count_cons]

theorem item_plain : PlainName "item" := by
  have hletters : "item".toList = ['i', 't', 'e', 'm'] := rfl
  unfold PlainName
  rw [hletters]
  refine ⟨nofun, ?_⟩
  simp [isPatternSpace]

theorem item_index_plain : PlainName "item_index" := by
  have hletters : "item_index".toList = ['i', 't', 'e', 'm', '_', 'i', 'n', 'd', 'e', 'x'] := rfl
  unfold PlainName
  rw [hletters]
  refine ⟨nofun, ?_⟩
  simp [isPatternSpace]

/-- Replacing is writing the expanded replacement in the place of each placeholder. -/
theorem replacePlaceholder_eq (isWord : Char → Bool) (name replacement : String) (t : List Char) : ∀ skip,
    replacePlaceholder isWord name replacement t skip =
      render (fun whole => expandTemplate isWord whole replacement.toList 0) (pieces (placeholders name) t skip) := by
  induction t with
  | nil => intro skip; cases skip <;> rfl
  | cons c t ih =>
    intro skip
    cases skip with
    | succ skip => exact ih skip
    | zero =>
      rw [replacePlaceholder, pieces, placeholders_find]
      cases hmatch : matchPlaceholder name (c :: t) with
      | none => exact congrArg _ (ih 0)
      | some p =>
        have hwhole : (c :: t).take p.1.length = p.1 := by
          rw [(matchPlaceholder_sound hmatch).1, List.take_left]
        rw [Option.map_some, render_inr, hwhole, ← ih]

/-! Replacement templates -/

/-- The name after a dollar sign, and how many symbols it takes. -/
def referenceName (isWord : Char → Bool) (t : List Char) : List Char × Nat :=
  match t with
  | '\x7b' :: body =>
    let name := body.takeWhile isWord
    if (body.drop name.length).head? == some '\x7d' then (name, name.length + 2) else ([], 0)
  | t => (t.takeWhile isWord, (t.takeWhile isWord).length)

/-- A dollar sign at the head of a template that does not stand for itself: it is
doubled, or a name follows. -/
def isReference (isWord : Char → Bool) : List Char → Bool
  | '$' :: t => t.head? = some '$' || (referenceName isWord t).1 ≠ []
  | _ => false

def hasReference (isWord : Char → Bool) (t : List Char) : Bool := t.tails.any (isReference isWord)

section Expansion
variable {isWord : Char → Bool} {whole : List Char}

theorem expandTemplate_skip (t : List Char) : ∀ k, expandTemplate isWord whole t k = expandTemplate isWord whole (t.drop k) 0 := by
  induction t with
  | nil => intro k; cases k <;> rfl
  | cons c t ih =>
    intro k
    cases k with
    | zero => rfl
    | succ k => exact ih k

theorem expandTemplate_symbol {c : Char} (hc : c ≠ '$') (t : List Char) :
    expandTemplate isWord whole (c :: t) 0 = c :: expandTemplate isWord whole t 0 := by
  rw [expandTemplate.eq_def]
  exact if_pos hc

theorem expandTemplate_dollars (t : List Char) :
    expandTemplate isWord whole ('$' :: '$' :: t) 0 = '$' :: expandTemplate isWord whole t 0 := rfl

/-- A name after a dollar sign is replaced with it. -/
theorem expandTemplate_dollar {t : List Char} (ht : t.head? ≠ some '$') :
    expandTemplate isWord whole ('$' :: t) 0 =
      if (referenceName isWord t).1 = [] then '$' :: expandTemplate isWord whole t 0
      else (if (referenceName isWord t).1 = ['0'] then whole else []) ++
        expandTemplate isWord whole (t.drop (referenceName isWord t).2) 0 := by
  cases t with
  | nil => rfl
  | cons d t =>
    have hd : d ≠ '$' := fun h => ht (congrArg some h)
    rw [← expandTemplate_skip, expandTemplate.eq_def]
    dsimp only
    rw [if_neg (not_not_intro rfl), if_neg hd]
    by_cases hbrace : d = '\x7b'
    · subst hbrace
      cases hclosed : (t.drop (t.takeWhile isWord).length).head? == some '\x7d' with
      | false => simp only [referenceName, hclosed, decide_true, if_true, Bool.not_true, Bool.or_false, Bool.not_false, Bool.or_true,
          Bool.false_eq_true, if_false]
      | true => simp only [referenceName, hclosed, decide_true, if_true, Bool.not_true, Bool.or_true, Bool.or_false,
          decide_eq_true_eq]
    · have hname : referenceName isWord (d :: t) = ((d :: t).takeWhile isWord, ((d :: t).takeWhile isWord).length) := by
        unfold referenceName
        split
        · rename_i heq
          exact absurd (List.cons.inj heq).1 hbrace
        · rfl
      rw [hname]
      simp only [hbrace, decide_false, if_false, Bool.not_false, Bool.true_or, Bool.not_true, Bool.or_false,
        decide_eq_true_eq, Nat.add_zero]

/-- A symbol that begins no reference stands for itself. -/
theorem expandTemplate_plain {c : Char} {t : List Char} (h : isReference isWord (c :: t) = false) :
    expandTemplate isWord whole (c :: t) 0 = c :: expandTemplate isWord whole t 0 := by
  by_cases hc : c = '$'
  · subst hc
    rw [isReference, Bool.or_eq_false_iff, decide_eq_false_iff_not, decide_eq_false_iff_not, not_not] at h
    rw [expandTemplate_dollar h.1, if_pos h.2]
  · exact expandTemplate_symbol hc t

theorem hasReference_cons (c : Char) (t : List Char) :
    hasReference isWord (c :: t) = (isReference isWord (c :: t) || hasReference isWord t) := by
  rw [hasReference, List.tails_cons, List.any_cons, hasReference]

/-- A template without references is what it says. -/
theorem expandTemplate_verbatim {t : List Char} (h : hasReference isWord t = false) : expandTemplate isWord whole t 0 = t := by
  induction t with
  | nil => rfl
  | cons c t ih =>
    rw [hasReference_cons, Bool.or_eq_false_iff] at h
    rw [expandTemplate_plain h.1, ih h.2]

/-- Expanding adds no dollar sign. -/
theorem expandTemplate_count_le (isWord : Char → Bool) (hwhole : whole.count '$' = 0) (t : List Char) :
    (expandTemplate isWord whole t 0).count '$' ≤ t.count '$' := by
  induction hlen : t.length using Nat.strongRecOn generalizing t with
  | ind len ih =>
    cases t with
    | nil => exact Nat.le_refl _
    | cons c t =>
      have hrest : ∀ k, (expandTemplate isWord whole (t.drop k) 0).count '$' ≤ (t.drop k).count '$' := by
        intro k
        have hlt : (t.drop k).length < len := by
          rw [← hlen, List.length_drop, List.length_cons]
          omega
        exact ih _ hlt _ rfl
      by_cases hc : c = '$'
      · subst hc
        rw [List.count_cons_self]
        by_cases ht : t.head? = some '$'
        · obtain ⟨t', rfl⟩ : ∃ t', t = '$' :: t' := by
            cases t with
            | nil => cases ht
            | cons d t' => exact ⟨t', by rw [Option.some.inj ht]⟩
          have hle := hrest 1
          rw [List.drop_succ_cons, List.drop_zero] at hle
          rw [expandTemplate_dollars, List.count_cons_self, List.count_cons_self]
          omega
        · have hle := hrest 0
          have hdrop := hrest (referenceName isWord t).2
          have hsub : (t.drop (referenceName isWord t).2).count '$' ≤ t.count '$' := (List.drop_sublist _ t).count_le '$'
          rw [expandTemplate_dollar ht]
          split
          · rw [List.count_cons_self]
            exact Nat.succ_le_succ hle
          · rw [List.count_append]
            have hzero : (if (referenceName isWord t).1 = ['0'] then whole else []).count '$' = 0 := by
              split
              · exact hwhole
              · rfl
            omega
      · have hle := hrest 0
        rw [List.drop_zero] at hle
        rw [expandTemplate_symbol hc, List.count_cons_of_ne hc, List.count_cons_of_ne hc]
        exact hle

/-- A reference loses its dollar sign. -/
theorem expandTemplate_count_lt (hwhole : whole.count '$' = 0) {t : List Char} (h : hasReference isWord t = true) :
    (expandTemplate isWord whole t 0).count '$' < t.count '$' := by
  induction t with
  | nil => cases h
  | cons c t ih =>
    by_cases href : isReference isWord (c :: t) = true
    · have hc : c = '$' := by
        by_contra hc
        unfold isReference at href
        split at href
        · rename_i heq
          exact hc (List.cons.inj heq).1
        · cases href
      subst hc
      rw [isReference, Bool.or_eq_true, decide_eq_true_iff, decide_eq_true_iff] at href
      rw [List.count_cons_self]
      by_cases ht : t.head? = some '$'
      · obtain ⟨t', rfl⟩ : ∃ t', t = '$' :: t' := by
          cases t with
          | nil => cases ht
          | cons d t' => exact ⟨t', by rw [Option.some.inj ht]⟩
        have hle := expandTemplate_count_le isWord hwhole t'
        rw [expandTemplate_dollars, List.count_cons_self, List.count_cons_self]
        omega
      · have hname : (referenceName isWord t).1 ≠ [] := href.resolve_left ht
        have hdrop := expandTemplate_count_le isWord hwhole (t.drop (referenceName isWord t).2)
        have hsub : (t.drop (referenceName isWord t).2).count '$' ≤ t.count '$' := (List.drop_sublist _ t).count_le '$'
        have hzero : (if (referenceName isWord t).1 = ['0'] then whole else []).count '$' = 0 := by
          split
          · exact hwhole
          · rfl
        rw [expandTemplate_dollar ht, if_neg hname, List.count_append]
        omega
    · rw [Bool.not_eq_true] at href
      rw [hasReference_cons, href, Bool.false_or] at h
      have hlt := ih h
      rw [expandTemplate_plain href, List.count_cons, List.count_cons]
      omega

end Expansion
end Cronova.Parser
