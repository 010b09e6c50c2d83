import Cronova.Parser.Placeholder
import Cronova.Parser.Foreach

/-! What a shard makes of the placeholders in its texts. The item is written by one
replacement and the index by a second one over its result, and the item is read as a
replacement template: the outcome is the literal text exactly when the item holds no
reference and its text makes no index placeholder of its own. -/
namespace Cronova.Properties.Substitution
open Cronova.Model Cronova.Parser Cronova.Text Cronova.Text.Rewriting

/-- The text with each item placeholder replaced by the item and each index placeholder
by the index, both read off the text as it is written. -/
def literally (item index : List Char) : (text : List Char) → (skip : Nat) → List Char
  | [], _ => []
  | _ :: cs, skip + 1 => literally item index cs skip
  | c :: cs, 0 =>
    match matchPlaceholder "item" (c :: cs) with
    | some (whole, _) => item ++ literally item index cs (whole.length - 1)
    | none =>
      match matchPlaceholder "item_index" (c :: cs) with
      | some (whole, _) => index ++ literally item index cs (whole.length - 1)
      | none => c :: literally item index cs 0

/-- The text of shard `i` as its item and its index say it. -/
def literalText (text item : String) (i : Nat) : String :=
  String.ofList (literally item.toList (toString i).toList text.toList 0)

/-- The text with the characters of the item in its item placeholders. -/
def written (item text : List Char) : List Char := rewrite (placeholders "item") (fun _ => item) text

/-- The item has no reference, and writing it makes no index placeholder; or it is not
written at all. -/
def Verbatim (env : Env) (text item : String) : Prop :=
  occurrences (placeholders "item") text.toList = 0 ∨
  hasReference (fun c => env.isWord c || c = '_') item.toList = false ∧
    occurrences (placeholders "item_index") (written item.toList text.toList) = occurrences (placeholders "item_index") text.toList

instance (env : Env) (text item : String) : Decidable (Verbatim env text item) := inferInstanceAs (Decidable (_ ∨ _ ∧ _))

section Literal
variable {item index w : List Char}

theorem literally_skip (t : List Char) : ∀ k, literally item index t k = literally item index (t.drop k) 0 := by
  induction t with
  | nil => intro k; cases k <;> rfl
  | cons c t ih =>
    intro k
    cases k with
    | zero => rfl
    | succ k => exact ih k

theorem placeholder_cons {name : String} (hw : Placeholder name w) : ∃ c cs, w = c :: cs := by
  obtain ⟨front, back, -, -, rfl⟩ := hw
  exact ⟨_, _, rfl⟩

theorem literally_item (hw : Placeholder "item" w) (t : List Char) :
    literally item index (w ++ t) 0 = item ++ literally item index t 0 := by
  obtain ⟨c, cs, rfl⟩ := placeholder_cons hw
  have hmatch := matchPlaceholder_complete item_plain hw t
  rw [List.cons_append] at hmatch ⊢
  rw [literally, hmatch]
  dsimp only
  rw [literally_skip, List.length_cons, Nat.add_sub_cancel, List.drop_left]

theorem literally_index (hw : Placeholder "item_index" w) (t : List Char) :
    literally item index (w ++ t) 0 = index ++ literally item index t 0 := by
  obtain ⟨c, cs, rfl⟩ := placeholder_cons hw
  have hitem := placeholder_unique item_index_plain item_plain hw t (by decide)
  have hmatch := matchPlaceholder_complete item_index_plain hw t
  rw [List.cons_append] at hmatch hitem ⊢
  rw [literally, hitem, hmatch]
  dsimp only
  rw [literally_skip, List.length_cons, Nat.add_sub_cancel, List.drop_left]

theorem literally_symbol {c : Char} {t : List Char} (hitem : matchPlaceholder "item" (c :: t) = none)
    (hindex : matchPlaceholder "item_index" (c :: t) = none) :
    literally item index (c :: t) 0 = c :: literally item index t 0 := by
  rw [literally, hitem, hindex]

/-- Induction along the placeholders of a text. -/
theorem literal_induction {motive : List Char → Prop} (nil : motive [])
    (item : ∀ w t, Placeholder "item" w → motive t → motive (w ++ t))
    (index : ∀ w t, Placeholder "item_index" w → motive t → motive (w ++ t))
    (symbol : ∀ c t, matchPlaceholder "item" (c :: t) = none → matchPlaceholder "item_index" (c :: t) = none → motive t →
      motive (c :: t)) (t : List Char) : motive t := by
  induction hlen : t.length using Nat.strongRecOn generalizing t with
  | ind len ih =>
    have hrest : ∀ {name : String} {w a : List Char}, Placeholder name w → t = w ++ a → motive a := by
      intro name w a hw heq
      obtain ⟨c, cs, rfl⟩ := placeholder_cons hw
      have hlt : a.length < len := by
        rw [← hlen, heq, List.length_append, List.length_cons]
        omega
      exact ih _ hlt a rfl
    cases t with
    | nil => exact nil
    | cons c t =>
      cases hitem : matchPlaceholder "item" (c :: t) with
      | some p =>
        obtain ⟨htext, hw⟩ := matchPlaceholder_sound hitem
        rw [htext]
        exact item p.1 p.2 hw (hrest hw htext)
      | none =>
        cases hindex : matchPlaceholder "item_index" (c :: t) with
        | some p =>
          obtain ⟨htext, hw⟩ := matchPlaceholder_sound hindex
          rw [htext]
          exact index p.1 p.2 hw (hrest hw htext)
        | none => exact symbol c t hitem hindex (ih t.length (by rw [← hlen]; exact Nat.lt_succ_self _) t rfl)

end Literal

section Compare
variable {item index w : List Char}

/-- Placeholders of one name are no place for those of another. -/
theorem find_other {name other : String} (hn : PlainName name) (ho : PlainName other) (hne : name ≠ other)
    (hw : Placeholder name w) : ∀ v, v ≠ [] → v <:+ w → ∀ a, (placeholders other).find (v ++ a) = none := by
  rintro v hv ⟨u, rfl⟩ a
  apply placeholders_match
  by_cases hu : u = []
  · subst hu
    exact placeholder_unique hn ho hw a hne
  · exact placeholder_inner hn hw hu hv a

theorem written_item (hw : Placeholder "item" w) (t : List Char) : written item (w ++ t) = item ++ written item t := by
  rw [written, rewrite, pieces_word (placeholders_spells item_plain) hw, render_inr, written, rewrite]

theorem written_index (hw : Placeholder "item_index" w) (t : List Char) : written item (w ++ t) = w ++ written item t :=
  rewrite_pass (find_other item_index_plain item_plain (by decide) hw) t

theorem written_symbol {c : Char} {t : List Char} (h : matchPlaceholder "item" (c :: t) = none) :
    written item (c :: t) = c :: written item t := by
  rw [written, rewrite, pieces_none (placeholders_match h), render_inl, written, rewrite]

theorem index_occurrences_item (hw : Placeholder "item" w) (t : List Char) :
    occurrences (placeholders "item_index") (w ++ t) = occurrences (placeholders "item_index") t :=
  occurrences_pass (find_other item_plain item_index_plain (by decide) hw) t

theorem index_occurrences_index (hw : Placeholder "item_index" w) (t : List Char) :
    occurrences (placeholders "item_index") (w ++ t) = occurrences (placeholders "item_index") t + 1 := by
  rw [occurrences, pieces_word (placeholders_spells item_index_plain) hw, List.countP_cons_of_pos rfl, occurrences]

theorem index_occurrences_symbol {c : Char} {t : List Char} (h : matchPlaceholder "item_index" (c :: t) = none) :
    occurrences (placeholders "item_index") (c :: t) = occurrences (placeholders "item_index") t := by
  rw [occurrences, pieces_none (placeholders_match h)]
  exact List.countP_cons_of_neg (by simp)

/-- Writing the item keeps every index placeholder, behind any text `p`; when it makes no
new one, the second replacement finds exactly those of the text. -/
theorem index_of_written (item index t : List Char) : ∀ p,
    occurrences (placeholders "item_index") t ≤ occurrences (placeholders "item_index") (p ++ written item t) ∧
    (occurrences (placeholders "item_index") (p ++ written item t) = occurrences (placeholders "item_index") t →
      rewrite (placeholders "item_index") (fun _ => index) (p ++ written item t) = p ++ literally item index t 0) := by
  induction t using literal_induction with
  | nil =>
    intro p
    refine ⟨Nat.zero_le _, fun h => ?_⟩
    rw [show written item [] = [] from rfl, List.append_nil] at h ⊢
    rw [rewrite_free h]
    exact (List.append_nil p).symm
  | item w t hw ih =>
    intro p
    rw [written_item hw, index_occurrences_item hw, literally_item hw, ← List.append_assoc, ← List.append_assoc]
    exact ih (p ++ item)
  | index w t hw ih =>
    intro p
    obtain ⟨hle, heq⟩ := ih []
    rw [List.nil_append] at hle heq
    rw [written_index hw, index_occurrences_index hw, literally_index hw,
      occurrences_cut (placeholders_spells item_index_plain) hw]
    refine ⟨by omega, fun h => ?_⟩
    have hfree : occurrences (placeholders "item_index") p = 0 := by omega
    rw [rewrite_cut (placeholders_spells item_index_plain) hw, rewrite_free hfree, heq (by omega), List.nil_append]
  | symbol c t hitem hindex ih =>
    intro p
    have ih := ih (p ++ [c])
    rw [List.append_assoc, List.append_assoc, List.singleton_append, List.singleton_append] at ih
    rw [written_symbol hitem, index_occurrences_symbol hindex, literally_symbol hitem hindex]
    exact ih

/-- The literal text differs from the text with the item in it by its index placeholders. -/
theorem count_literally {x : Char} {k : Nat} (hindex : index.count x = 0) (hk : ∀ w, Placeholder "item_index" w → w.count x = k)
    (item t : List Char) :
    (literally item index t 0).count x + k * occurrences (placeholders "item_index") t = (written item t).count x := by
  induction t using literal_induction with
  | nil => rfl
  | item w t hw ih =>
    rw [written_item hw, index_occurrences_item hw, literally_item hw, List.count_append, List.count_append]
    omega
  | index w t hw ih =>
    rw [written_index hw, index_occurrences_index hw, literally_index hw, List.count_append, List.count_append, hindex, hk w hw,
      Nat.mul_succ]
    omega
  | symbol c t hitem hmatch ih =>
    rw [written_symbol hitem, index_occurrences_symbol hmatch, literally_symbol hitem hmatch, List.count_cons, List.count_cons]
    omega

theorem count_rewrite_index {x : Char} {k : Nat} (hindex : index.count x = 0)
    (hk : ∀ w, Placeholder "item_index" w → w.count x = k) (t : List Char) :
    (rewrite (placeholders "item_index") (fun _ => index) t).count x + k * occurrences (placeholders "item_index") t = t.count x := by
  have hvalue : ∀ w, .inr w ∈ pieces (placeholders "item_index") t 0 → ((fun _ => index) w).count x = 0 ∧ w.count x = k :=
    fun w hw => ⟨hindex, hk w (word_of_mem (placeholders_spells item_index_plain) hw)⟩
  have hcount := count_render hvalue
  rw [render_self, Nat.zero_mul, Nat.add_zero] at hcount
  exact hcount

end Compare

section Substituted
variable {env : Env} {text item : String} {i : Nat}

theorem digits_count {x : Char} (hx : x.isDigit = false) (n : Nat) : (toString n).toList.count x = 0 := by
  rw [List.count_eq_zero]
  intro hmem
  rw [digits_nat n x hmem] at hx
  cases hx

theorem no_reference {isWord : Char → Bool} {t : List Char} (h : t.count '$' = 0) : hasReference isWord t = false := by
  induction t with
  | nil => rfl
  | cons c t ih =>
    have hc : c ≠ '$' := by
      intro hc
      subst hc
      rw [List.count_cons_self] at h
      cases h
    rw [List.count_cons_of_ne hc] at h
    have href : isReference isWord (c :: t) = false := by
      unfold isReference
      split
      · rename_i heq
        exact absurd (List.cons.inj heq).1 hc
      · rfl
    rw [hasReference_cons, href, ih h]
    rfl

/-- The two replacements as rewritings. -/
theorem substituteItem_eq : substituteItem env text item (toString i) =
    String.ofList (rewrite (placeholders "item_index") (fun _ => (toString i).toList)
      (rewrite (placeholders "item") (fun w => expandTemplate (fun c => env.isWord c || c = '_') w item.toList 0) text.toList)) := by
  have hdigits : ∀ w, expandTemplate (fun c => env.isWord c || c = '_') w (toString i).toList 0 = (toString i).toList :=
    fun w => expandTemplate_verbatim (no_reference (digits_count (by decide) i))
  rw [substituteItem, replacePlaceholder_eq, replacePlaceholder_eq]
  simp only [hdigits]
  rfl

theorem substituteItem_iff : substituteItem env text item (toString i) = literalText text item i ↔ Verbatim env text item := by
  have hdollar : (toString i).toList.count '$' = 0 := digits_count (by decide) i
  have hbrace : (toString i).toList.count '\x7b' = 0 := digits_count (by decide) i
  have hdollars : ∀ w, Placeholder "item_index" w → w.count '$' = 0 :=
    fun w hw => placeholder_count hw (by decide) (by decide)
  have hbraces : ∀ w, Placeholder "item_index" w → w.count '\x7b' = 2 :=
    fun w hw => placeholder_count hw (by decide) (by decide)
  have hplain : hasReference (fun c => env.isWord c || c = '_') item.toList = false →
      rewrite (placeholders "item") (fun w => expandTemplate (fun c => env.isWord c || c = '_') w item.toList 0) text.toList =
        written item.toList text.toList := by
    intro href
    exact render_congr (fun w _ => expandTemplate_verbatim href)
  rw [substituteItem_eq, literalText, String.ofList_inj]
  constructor
  · intro heq
    by_cases hnone : occurrences (placeholders "item") text.toList = 0
    · exact .inl hnone
    · right
      -- a reference loses a dollar sign, which no index puts back
      have href : hasReference (fun c => env.isWord c || c = '_') item.toList = false := by
        rw [← Bool.not_eq_true]
        intro href
        have hless : ∀ w, .inr w ∈ pieces (placeholders "item") text.toList 0 →
            ((fun w => expandTemplate (fun c => env.isWord c || c = '_') w item.toList 0) w).count '$' <
              ((fun _ => item.toList) w).count '$' :=
          fun w hw => expandTemplate_count_lt
            (placeholder_count (word_of_mem (placeholders_spells item_plain) hw) (by decide) (by decide)) href
        have hlt := count_render_lt hless
        have hleft := count_rewrite_index hdollar hdollars (rewrite (placeholders "item")
          (fun w => expandTemplate (fun c => env.isWord c || c = '_') w item.toList 0) text.toList)
        have hright := count_literally hdollar hdollars item.toList text.toList
        rw [heq] at hleft
        unfold rewrite at hleft
        unfold written rewrite at hright
        unfold occurrences at hnone
        omega
      rw [hplain href] at heq
      refine ⟨href, ?_⟩
      have hleft := count_rewrite_index hbrace hbraces (written item.toList text.toList)
      have hright := count_literally hbrace hbraces item.toList text.toList
      rw [heq] at hleft
      omega
  · rintro (hnone | ⟨href, hcount⟩)
    · have hwritten : written item.toList text.toList = text.toList := rewrite_free hnone
      have hlit := (index_of_written item.toList (toString i).toList text.toList []).2
      rw [List.nil_append, hwritten] at hlit
      rw [rewrite_free hnone]
      exact hlit rfl
    · have hlit := (index_of_written item.toList (toString i).toList text.toList []).2
      rw [hplain href]
      exact hlit hcount

end Substituted

/-! The shards -/

/-- Shard `i` of a task has the literal command exactly when item `i` is written
verbatim in the command, and the literal condition when it is in the condition. -/
theorem shard_texts_iff (env : Env) (t : TaskYAML) (i : Nat) :
    ((shardsOf env t)[i]?.map (·.command) = t.foreach[i]?.map (literalText t.command · i) ↔
      ∀ item ∈ t.foreach[i]?, Verbatim env t.command item) ∧
    ((shardsOf env t)[i]?.map (·.when_) = t.foreach[i]?.map (literalText t.when_ · i) ↔
      ∀ item ∈ t.foreach[i]?, Verbatim env t.when_ item) := by
  cases hitem : t.foreach[i]? with
  | none => simp [shardsOf, List.getElem?_mapIdx, hitem]
  | some item =>
    rw [shardsOf, List.getElem?_mapIdx, hitem]
    simp only [Option.map_some, Option.some.injEq, Option.mem_def, forall_eq']
    exact ⟨substituteItem_iff, substituteItem_iff⟩

/-- A command that writes its item in quotes. -/
def copyTask : TaskYAML := { id := "copy", command := "Copy-Item '\x7b\x7b item \x7d\x7d'", foreach := ["$env:TEMP\\a.txt"] }

/-- A variable reference in an item is taken for a group of the pattern. -/
theorem shard_texts_drop :
    ¬ ∀ (env : Env) (t : TaskYAML) (i : Nat),
      (shardsOf env t)[i]?.map (·.command) = t.foreach[i]?.map (literalText t.command · i) ∧
      (shardsOf env t)[i]?.map (·.when_) = t.foreach[i]?.map (literalText t.when_ · i) := by
  intro h
  have hcopy := (h (Env.ofDocuments []) copyTask 0).1
  revert hcopy
  decide +kernel

end Cronova.Properties.Substitution
