import Cronova.Aiwiki.Query

/-! The translation of queries and the order of its table. The map is enumerated in any order,
and words that meet in a query are then translated one way or the other. -/
namespace Cronova.Properties.Translation
open Cronova.Text Cronova.Text.Replacing Cronova.Aiwiki

/-- Lower case, as far as the letters are English. -/
def asciiLower (s : String) : String := String.ofList (s.toList.map Char.toLower)

/-- The map, enumerated with `pole` first. -/
def poleFirst : List (String × String) := ("pole", "field") :: replacements.erase ("pole", "field")

/-- What is known of the table as it is written, checked in one pass. -/
private theorem table_facts :
    (replacements.take 20).all (fun e => e.1.toList.contains ' ') = true ∧
    (replacements.drop 20).all (fun e => !e.1.toList.contains ' ') = true ∧
    (∀ e ∈ replacements, replaceEntry "graph".toList e = "graph".toList ∧
      (replaceEntry "graf".toList e = "graf".toList ∨ replaceEntry "graf".toList e = "graph".toList)) ∧
    translateQueryPLToEN asciiLower replacements "polecenie" = "command" ∧
    translateQueryPLToEN asciiLower poleFirst "polecenie" = "fieldcenie" := by
  decide +kernel

/-- The enumerations of the map. -/
def Enumerates (order : List (String × String)) : Prop := order.Perm replacements

/-- Whatever has been translated of the lower-cased query, in any order, two entries that are
left can change places: no occurrence of one overlaps, makes or destroys an occurrence of
the other. -/
def Apart (text : List Char) : Prop := Settled replaceEntry replacements text

/-- Every phrase is replaced before every word. -/
def PhrasesFirst (order : List (String × String)) : Prop :=
  ∃ phrases words, order = phrases ++ words ∧ (∀ e ∈ phrases, ' ' ∈ e.1.toList) ∧ ∀ e ∈ words, ' ' ∉ e.1.toList

/-- The table as it is written. -/
theorem replacements_phrasesFirst : PhrasesFirst replacements := by
  obtain ⟨hphrases, hwords, -⟩ := table_facts
  refine ⟨replacements.take 20, replacements.drop 20, (List.take_append_drop 20 replacements).symm, ?_, ?_⟩
  · intro e he
    simpa using List.all_eq_true.mp hphrases e he
  · intro e he
    simpa using List.all_eq_true.mp hwords e he

/-- The query is translated as by the table as it is written, whatever the order. -/
def Determined (toLower : String → String) (query : String) : Prop :=
  ∀ order, Enumerates order → translateQueryPLToEN toLower order query = translateQueryPLToEN toLower replacements query

theorem determined_iff {toLower : String → String} {query : String} :
    Determined toLower query ↔ Confluent replaceEntry replacements (toLower query).toList := by
  unfold Determined Confluent translateQueryPLToEN Enumerates
  simp only [String.ofList_inj]

theorem poleFirst_enumerates : Enumerates poleFirst := by
  have hmem : ("pole", "field") ∈ replacements := by decide +kernel
  exact (List.perm_cons_erase hmem).symm

/-- Only `graf` itself does anything to `graf`, and nothing to `graph`. -/
theorem graf_steps : ∀ e ∈ replacements, replaceEntry "graph".toList e = "graph".toList ∧
    (replaceEntry "graf".toList e = "graf".toList ∨ replaceEntry "graf".toList e = "graph".toList) := table_facts.2.2.1

theorem graf_apart : Apart "graf".toList := by
  intro ks a b rest horder
  have hmem : ∀ e ∈ ks ++ a :: b :: rest, e ∈ replacements := fun e he => horder.subset he
  have hreached : ∀ ks' : List (String × String), (∀ e ∈ ks', e ∈ replacements) →
      ∀ t, (t = "graf".toList ∨ t = "graph".toList) → ks'.foldl replaceEntry t = "graf".toList ∨ ks'.foldl replaceEntry t = "graph".toList := by
    intro ks' hks'
    induction ks' with
    | nil => exact fun _ ht => ht
    | cons e ks' ih =>
      have hrest := ih (fun e he => hks' e (List.mem_cons_of_mem _ he))
      obtain ⟨hgraph, hgraf⟩ := graf_steps e (hks' e List.mem_cons_self)
      rintro t (rfl | rfl)
      · exact hrest _ hgraf
      · exact hrest _ (.inr hgraph)
  obtain ⟨hgraphA, hgrafA⟩ := graf_steps a (hmem a (by simp))
  obtain ⟨hgraphB, hgrafB⟩ := graf_steps b (hmem b (by simp))
  rcases hreached ks (fun e he => hmem e (List.mem_append_left _ he)) _ (.inl rfl) with h | h
  · rw [h]
    rcases hgrafA with ha | ha <;> rcases hgrafB with hb | hb <;> simp only [ha, hb, hgraphA, hgraphB]
  · rw [h]
    simp only [hgraphA, hgraphB]

end Cronova.Properties.Translation
