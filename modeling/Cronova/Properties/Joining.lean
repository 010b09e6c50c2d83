import Cronova.Concurrency.Machine
import Cronova.Store.JoinTokens

/-! Join tokens let one worker in each, and none much after their time. -/
namespace Cronova.Properties.Joining
open Cronova.Model Cronova.Concurrency Cronova.Relational Cronova.Store Cronova.Store.Joining

/-- A text that comes first belongs to an instant that is not a whole second later. -/
theorem lt_of_fmtTime_lt {t u : Time} (ht : InRange t) (hu : InRange u) (h : fmtTime t < fmtTime u) : t < u + second := by
  by_contra hlate
  have hlate' : u + second ≤ t := Int.not_lt.1 hlate
  have hsecond : u < u + second := Int.lt_add_of_pos_right u (by decide)
  have hlt : u < t := lt_of_lt_of_le hsecond hlate'
  have hapart : ¬ Swapped u t := by
    rintro ⟨hsame, -⟩
    have hle : seconds (u + second) ≤ seconds t := Int.ediv_le_ediv (by decide) hlate'
    have hnext : seconds (u + second) = seconds u + 1 := Int.add_ediv_of_dvd_right (dvd_refl second) |>.trans (by rfl)
    omega
  exact absurd ((fmtTime_lt_iff hu ht hlt).2 hapart) (lt_asymm h)

/-- Who has come in came by a token of that digest, used up since, in its time. -/
structure Inv (s : Joining) : Prop where
  once : (s.joined.map Prod.fst).Nodup
  used : ∀ j ∈ s.joined, ∃ row ∈ s.tokens.rows, row.tokenHash = j.1 ∧ row.usedAt = some j.2 ∧ fmtTime j.2 < fmtTime row.expiresAt

section Steps
variable {s t : Joining} {e : JoinEvent}

theorem inv_create {tokenHash createdBy : String} {expiresAt : Time} (hs : Inv s)
    (h : step s (.createJoinToken tokenHash createdBy expiresAt) = some t) : Inv t := by
  obtain ⟨tokens, hins, rfl⟩ := Option.map_eq_some_iff.1 h
  refine ⟨hs.once, ?_⟩
  intro j hj
  obtain ⟨row, hrow, hused⟩ := hs.used j hj
  have hmem : row ∈ tokens.rows := by
    rw [Table.rows_insert? hins]
    exact List.mem_append_left _ hrow
  exact ⟨row, hmem, hused⟩

theorem consume_spec {tokenHash : String} {now : Time} {tokens' : JoinTokens} (h : s.tokens.ConsumeJoinToken tokenHash now = some tokens') :
    (∃ row ∈ s.tokens.rows, JoinTokens.usable tokenHash now row = true) ∧
      tokens' = s.tokens.modify (JoinTokens.usable tokenHash now) (fun row => { row with usedAt := some now }) (JoinTokens.tokenHash_use now) := by
  rw [JoinTokens.ConsumeJoinToken] at h
  split at h
  case isTrue hany =>
    cases h
    exact ⟨List.any_eq_true.1 hany, rfl⟩
  case isFalse => cases h

theorem usable_iff {tokenHash : String} {now : Time} {row : JoinToken} :
    JoinTokens.usable tokenHash now row = true ↔ row.tokenHash = tokenHash ∧ row.usedAt = none ∧ fmtTime now < fmtTime row.expiresAt := by
  rw [JoinTokens.usable, decide_eq_true_eq]

theorem inv_consume {tokenHash : String} {now : Time} (hs : Inv s) (h : step s (.consumeJoinToken tokenHash now) = some t) : Inv t := by
  obtain ⟨tokens', hconsume, rfl⟩ := Option.map_eq_some_iff.1 h
  obtain ⟨⟨row, hrow, husable⟩, rfl⟩ := consume_spec hconsume
  obtain ⟨hhash, hunused, hearly⟩ := usable_iff.1 husable
  constructor
  · -- a digest that has come in is on a used row, and this row is the only one with its digest
    have hnew : tokenHash ∉ s.joined.map Prod.fst := by
      intro hmem
      obtain ⟨j, hj, hj'⟩ := List.mem_map.1 hmem
      obtain ⟨row', hrow', hhash', hused, -⟩ := hs.used j hj
      have hsame : row' = row := by
        refine Table.eq_of_clash (fun _ _ hab => Eq.symm hab) s.tokens hrow' hrow ?_
        exact (hhash'.trans hj').trans hhash.symm
      rw [hsame, hunused] at hused
      cases hused
    rw [List.map_append, List.map_cons, List.map_nil]
    exact List.nodup_append.2 ⟨hs.once, List.nodup_singleton _, by
      intro a ha b hb hab
      rw [List.mem_singleton] at hb
      subst hb
      subst hab
      exact hnew ha⟩
  · intro j hj
    rw [List.mem_append, List.mem_singleton] at hj
    rcases hj with hj | rfl
    · obtain ⟨row', hrow', hhash', hused, hearly'⟩ := hs.used j hj
      refine ⟨row', (Table.mem_modify (JoinTokens.tokenHash_use now)).2 ⟨row', hrow', if_neg ?_⟩, hhash', hused, hearly'⟩
      intro husable'
      rw [(usable_iff.1 husable').2.1] at hused
      cases hused
    · exact ⟨_, (Table.mem_modify (JoinTokens.tokenHash_use now)).2 ⟨row, hrow, if_pos husable⟩, hhash, rfl, hearly⟩

theorem inv_step (hs : Inv s) (h : step s e = some t) : Inv t := by
  cases e with
  | createJoinToken => exact inv_create hs h
  | consumeJoinToken => exact inv_consume hs h

end Steps

end Cronova.Properties.Joining
