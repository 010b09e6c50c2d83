import Cronova.Scheduler.Catalogue

/-! The pause flag in the cache and in the store. `setPaused` writes the store and
then, under the mutex of the caches, the cache; a registration reads the flag back
under the mutex. Two calls may store in one order and update the cache in the other. -/
namespace Cronova.Properties.Paused
open Cronova.Model Cronova.Store Cronova.Concurrency Cronova.Concurrency.Fallible Cronova.Scheduler

/-- The DAG whose flag a thread has stored without having updated the cache. -/
abbrev Owing := Nat → Option String

variable {cfg : Cfg}

def noted (_ : CatalogueKind cfg) (t : Nat) : {β : Type} → CatalogueCmd β → β → Owing → Owing
  | _, .setDAGPaused dagID _, r, owing =>
    match r with
    | .ok _ => Function.update owing t (some dagID)
    | .error _ => owing
  | _, .updateCache _, _, owing => Function.update owing t none
  | _, _, _, owing => owing

/-- The flags in the cache are the stored ones. -/
def Agrees (w : Console) : Prop := ∀ d ∈ w.process.dags, ∃ row, w.process.db.dag? d.dagID = some row ∧ d.paused = row.paused

/-- The flag is the stored one, or another call has yet to update the cache. -/
def Stands (t : Nat) (dagID : String) (v : Bool) (s : Console × Owing) : Prop :=
  ∀ row, s.1.process.db.dag? dagID = some row → v = row.paused ∨ ∃ t', t' ≠ t ∧ s.2 t' = some dagID

/-- `setPaused` updates the cache with a flag that stands, and a flag that cannot be
read back is unset or will be updated. -/
def Timely (k : CatalogueKind cfg) (t : Nat) : {β : Type} → CatalogueCmd β → Console × Owing → β → Prop
  | _, .updateCache _, s, _ => ∀ dagID v, k = .setPaused dagID v → Stands t dagID v s
  | _, .getDAG dagID, s, r => r.isOk = false → s.1.mu = some t → Stands t dagID false s
  | _, _, _, _ => True

/-- The console with a record of the updates that are due. -/
def pausing (cfg : Cfg) : System (CatalogueKind cfg) CatalogueCmd (Except Err Unit) (Console × Owing) :=
  (console cfg).record noted (fun _ => none)

/-! ### What one command does -/

/-- A cached flag is the stored one, or an update of it is due. -/
def Inv (s : Console × Owing) : Prop :=
  ∀ d ∈ s.1.process.dags, ∃ row, s.1.process.db.dag? d.dagID = some row ∧ (d.paused = row.paused ∨ ∃ t, s.2 t = some d.dagID)

/-- What a thread knows while the others run. -/
structure Rely (t : Nat) (s s' : Console × Owing) : Prop where
  owing : s'.2 t = s.2 t
  mu : s'.1.mu = some t ↔ s.1.mu = some t
  stored : ∀ dagID row, s.1.process.db.dag? dagID = some row → ∃ row', s'.1.process.db.dag? dagID = some row'
  /-- Nobody updates the cache while the thread holds the mutex. -/
  stands : s.1.mu = some t → ∀ dagID v row, s.1.process.db.dag? dagID = some row → Stands t dagID v s → Stands t dagID v s'

theorem Rely.refl (t : Nat) (s : Console × Owing) : Rely t s s :=
  ⟨rfl, Iff.rfl, fun _ row h => ⟨row, h⟩, fun _ _ _ _ _ h => h⟩

theorem Rely.trans {t : Nat} {s s' s'' : Console × Owing} (h : Rely t s s') (h' : Rely t s' s'') : Rely t s s'' where
  owing := h'.owing.trans h.owing
  mu := h'.mu.trans h.mu
  stored dagID row hrow := by
    obtain ⟨row', hrow'⟩ := h.stored dagID row hrow
    exact h'.stored dagID row' hrow'
  stands hmu dagID v row hrow hstands := by
    obtain ⟨row', hrow'⟩ := h.stored dagID row hrow
    exact h'.stands (h.mu.mpr hmu) dagID v row' hrow' (h.stands hmu dagID v row hrow hstands)

/-- What a step of thread `t` guarantees. -/
def Guar (t : Nat) (s s' : Console × Owing) : Prop := (Inv s → Inv s') ∧ ∀ t', t' ≠ t → Rely t' s s'

section Step
variable {s s' : Console × Owing} {k : CatalogueKind cfg} {t : Nat} {a : Answer} {dagID : String}

/-- The rows keep their flags; the cache, the mutex and the record stay. -/
structure Kept (s s' : Console × Owing) : Prop where
  rows : ∀ dagID row, s.1.process.db.dag? dagID = some row →
    ∃ row', s'.1.process.db.dag? dagID = some row' ∧ row'.paused = row.paused
  dags : s'.1.process.dags = s.1.process.dags
  mu : s'.1.mu = s.1.mu
  owing : s'.2 = s.2

theorem Kept.rely (h : Kept s s') (t : Nat) : Rely t s s' where
  owing := by rw [h.owing]
  mu := by rw [h.mu]
  stored dagID row hrow := by
    obtain ⟨row', hrow', -⟩ := h.rows dagID row hrow
    exact ⟨row', hrow'⟩
  stands _ dagID v row hrow hstands row' hrow' := by
    obtain ⟨_, hsame, hflag⟩ := h.rows dagID row hrow
    rw [hrow'] at hsame
    cases hsame
    rw [hflag, h.owing]
    exact hstands row hrow

theorem Kept.guar (h : Kept s s') : Guar t s s' := by
  refine ⟨fun hi d hd => ?_, fun t' _ => h.rely t'⟩
  rw [h.dags] at hd
  obtain ⟨row, hrow, hflag⟩ := hi d hd
  obtain ⟨row', hrow', hsame⟩ := h.rows d.dagID row hrow
  refine ⟨row', hrow', ?_⟩
  rw [hsame, h.owing]
  exact hflag

theorem Kept.of_same (hrows : ∀ dagID, s'.1.process.db.dag? dagID = s.1.process.db.dag? dagID)
    (hdags : s'.1.process.dags = s.1.process.dags) (hmu : s'.1.mu = s.1.mu) (howing : s'.2 = s.2) : Kept s s' :=
  ⟨fun dagID row h => ⟨row, (hrows dagID).trans h, rfl⟩, hdags, hmu, howing⟩

/-- What a thread has to know before it issues a command. -/
def Owns (t : Nat) : {β : Type} → CatalogueCmd β → Console × Owing → Prop
  | _, .setDAGPaused _ _, s => s.2 t = none
  | _, .unlockMu, s => s.1.mu = some t
  | _, .updateCache f, s => s.1.mu = some t ∧ ∀ d ∈ f s.1.process.dags,
    (d ∈ s.1.process.dags ∧ s.2 t ≠ some d.dagID) ∨
      (∃ row, s.1.process.db.dag? d.dagID = some row) ∧ Stands t d.dagID d.paused s
  | _, _, _ => True

private theorem guar_setDAGPaused {v : Bool} {row : DagRow} (hrow : s.1.process.db.dag? dagID = some row)
    (hfree : s.2 t = none) (hworld : s'.1 = s.1.withDb (s.1.process.db.setDAGPaused dagID v).2)
    (hnote : s'.2 = Function.update s.2 t (some dagID)) : Guar t s s' := by
  have hself : s'.1.process.db.dag? dagID = some { row with paused := v } := by
    rw [hworld]
    exact Db.setDAGPaused_self hrow
  have hother : ∀ id, id ≠ dagID → s'.1.process.db.dag? id = s.1.process.db.dag? id := by
    intro id hne
    rw [hworld]
    exact Db.setDAGPaused_ne hne
  have howes : s'.2 t = some dagID := by
    rw [hnote]
    exact Function.update_self _ _ _
  have hkeeps : ∀ t' id, s.2 t' = some id → s'.2 t' = some id := by
    intro t' id h
    have hne : t' ≠ t := by
      rintro rfl
      rw [hfree] at h
      cases h
    rw [hnote, Function.update_of_ne hne]
    exact h
  refine ⟨fun hi d hd => ?_, fun t' hne => ⟨?_, ?_, ?_, ?_⟩⟩
  · have hd' : d ∈ s.1.process.dags := by
      rw [hworld] at hd
      exact hd
    obtain ⟨old, hold, hflag⟩ := hi d hd'
    by_cases hid : d.dagID = dagID
    · refine ⟨_, by rw [hid]; exact hself, .inr ⟨t, by rw [hid]; exact howes⟩⟩
    · refine ⟨old, (hother _ hid).trans hold, hflag.imp id ?_⟩
      rintro ⟨t', ht'⟩
      exact ⟨t', hkeeps t' _ ht'⟩
  · rw [hnote, Function.update_of_ne hne]
  · rw [hworld]
    exact Iff.rfl
  · intro id old hold
    by_cases hid : id = dagID
    · exact ⟨_, by rw [hid]; exact hself⟩
    · exact ⟨old, (hother id hid).trans hold⟩
  · intro _ id w old hold hstands new hnew
    by_cases hid : id = dagID
    · exact .inr ⟨t, Ne.symm hne, by rw [hid]; exact howes⟩
    · rw [hother id hid] at hnew
      refine (hstands new hnew).imp (fun h => h) ?_
      rintro ⟨t'', hne', ht''⟩
      exact ⟨t'', hne', hkeeps t'' id ht''⟩

private theorem guar_updateCache {f : List DAG → List DAG} (howns : Owns t (.updateCache f) s)
    (hworld : s'.1 = { s.1 with process := { s.1.process with dags := f s.1.process.dags } })
    (hnote : s'.2 = Function.update s.2 t none) : Guar t s s' := by
  obtain ⟨hmu, hdags⟩ := howns
  refine ⟨fun hi d hd => ?_, fun t' hne => ⟨?_, ?_, ?_, ?_⟩⟩
  · have hstill : ∀ t' id, t' ≠ t → s.2 t' = some id → s'.2 t' = some id := by
      intro t' id hne h
      rw [hnote, Function.update_of_ne hne]
      exact h
    rw [hworld] at hd ⊢
    rcases hdags d hd with ⟨hold, hnot⟩ | ⟨⟨row, hrow⟩, hstands⟩
    · obtain ⟨row, hrow, hflag⟩ := hi d hold
      refine ⟨row, hrow, hflag.imp id ?_⟩
      rintro ⟨t', ht'⟩
      have hne : t' ≠ t := by
        rintro rfl
        exact hnot ht'
      exact ⟨t', hstill t' _ hne ht'⟩
    · refine ⟨row, hrow, (hstands row hrow).imp id ?_⟩
      rintro ⟨t', hne, ht'⟩
      exact ⟨t', hstill t' _ hne ht'⟩
  · rw [hnote, Function.update_of_ne hne]
  · rw [hworld]
  · intro id row hrow
    rw [hworld]
    exact ⟨row, hrow⟩
  · intro hmine
    rw [hmu] at hmine
    exact absurd (Option.some.inj hmine).symm hne

/-- Taking or freeing the mutex concerns no other thread. -/
private theorem guar_mu (hmine : s.1.mu = none ∨ s.1.mu = some t) (hmine' : s'.1.mu = none ∨ s'.1.mu = some t)
    (hprocess : s'.1.process = s.1.process) (howing : s'.2 = s.2) : Guar t s s' := by
  have hother : ∀ (m : Option Nat) t', t' ≠ t → m = none ∨ m = some t → m ≠ some t' := by
    rintro m t' hne (rfl | rfl)
    · nofun
    · exact fun h => hne (Option.some.inj h).symm
  refine ⟨fun hi d hd => ?_, fun t' hne => ⟨by rw [howing], ?_, ?_, ?_⟩⟩
  · rw [hprocess] at hd ⊢
    rw [howing]
    exact hi d hd
  · exact iff_of_false (hother _ t' hne hmine') (hother _ t' hne hmine)
  · intro id row hrow
    rw [hprocess]
    exact ⟨row, hrow⟩
  · exact fun h => absurd h (hother _ t' hne hmine)

/-- Commands that touch neither a flag nor the cache nor the mutex. -/
def plain : {β : Type} → CatalogueCmd β → Prop
  | _, .setDAGPaused _ _ | _, .updateCache _ | _, .lockMu | _, .unlockMu => False
  | _, _ => True

theorem kept_step {β : Type} {c : CatalogueCmd β} {r : β} (hc : plain c) (hexec : s.1.exec k t a c = some (r, s'.1))
    (hnote : s'.2 = noted k t c r s.2) : Kept s s' := by
  have hflag : ∀ row, (c.onRow row).paused = row.paused := by
    intro row
    cases c with
    | setDAGPaused => exact hc.elim
    | upsertDAG d =>
      simp only [CatalogueCmd.onRow]
      split <;> rfl
    | softDeleteDAG id =>
      simp only [CatalogueCmd.onRow]
      split <;> rfl
    | _ => rfl
  have hrows : ∀ dagID row, s.1.process.db.dag? dagID = some row →
      ∃ row', s'.1.process.db.dag? dagID = some row' ∧ row'.paused = row.paused := by
    intro dagID row hrow
    rcases Console.exec_dag? hexec hrow with h | h
    · exact ⟨row, h, rfl⟩
    · exact ⟨_, h, hflag row⟩
  have hstatement : ∀ {γ : Type} {x : Except Err γ × Db} {r : Except Err γ}, some (s.1.statement a x) = some (r, s'.1) →
      s'.2 = s.2 → Kept s s' := by
    intro γ x r hx hpast
    rcases Console.statement_cases hx with ⟨-, hw⟩ | ⟨-, hw⟩
    · exact ⟨hrows, by rw [hw], by rw [hw], hpast⟩
    · exact ⟨hrows, by rw [hw]; rfl, by rw [hw]; rfl, hpast⟩
  cases c with
  | setDAGPaused | lockMu | unlockMu | updateCache => exact hc.elim
  | scheduler c =>
    obtain ⟨⟨x, process⟩, hprocess, heq⟩ := Option.map_eq_some_iff.mp hexec
    simp only [Prod.mk.injEq] at heq
    obtain ⟨-, hworld⟩ := heq
    exact ⟨hrows, by rw [← hworld]; exact (World.exec_effect hprocess).dags, by rw [← hworld], hnote⟩
  | _ => exact hstatement hexec hnote

theorem guar_step {β : Type} {c : CatalogueCmd β} {r : β} (hexec : s.1.exec k t a c = some (r, s'.1))
    (hnote : s'.2 = noted k t c r s.2) (howns : Owns t c s) : Guar t s s' := by
  cases c with
  | setDAGPaused dagID v =>
    rcases Console.statement_cases hexec with ⟨hr, hw⟩ | ⟨hr, hw⟩
    · rw [hr] at hnote
      exact (Kept.of_same (by simp [hw]) (by rw [hw]) (by rw [hw]) hnote).guar
    · cases hrow : s.1.process.db.dag? dagID with
      | none =>
        simp only [Db.setDAGPaused, hrow] at hr hw
        rw [hr] at hnote
        exact (Kept.of_same (by simp [hw, Console.withDb]) (by rw [hw]; rfl) (by rw [hw]; rfl) hnote).guar
      | some row =>
        have hok : r = .ok () := by
          rw [hr]
          simp only [Db.setDAGPaused, hrow]
        rw [hok] at hnote
        exact guar_setDAGPaused hrow howns hw hnote
  | lockMu =>
    simp only [Console.exec] at hexec
    split at hexec
    · rename_i hfree
      have hw := congrArg Prod.snd (Option.some.inj hexec)
      dsimp only at hw
      exact guar_mu (.inl hfree) (.inr (by rw [← hw])) (by rw [← hw]) hnote
    · cases hexec
  | unlockMu =>
    have hw : _ = s'.1 := congrArg Prod.snd (Option.some.inj hexec)
    exact guar_mu (.inr howns) (.inl (by rw [← hw])) (by rw [← hw]) hnote
  | updateCache f =>
    have hw : _ = s'.1 := congrArg Prod.snd (Option.some.inj hexec)
    exact guar_updateCache howns hw.symm hnote
  | _ => exact (kept_step (by trivial) hexec hnote).guar

end Step

/-! ### The calls -/

section Rules
variable {k : CatalogueKind cfg} {t : Nat} {α : Type} {dagID : String}

private def rules (k : CatalogueKind cfg) (t : Nat) : Rules CatalogueCmd (Console × Owing) where
  sem := ((pausing cfg).answering Timely).sem k t
  rely := Rely t
  guar _ s _ s' := Guar t s s'

private theorem sem_guar {β : Type} {c : CatalogueCmd β} {s s' : Console × Owing} {r : β} (hsem : (rules k t).sem c s r s')
    (howns : Owns t c s) : (rules k t).guar c s r s' := by
  obtain ⟨-, ⟨a, hexec⟩, hnote⟩ := hsem
  exact guar_step hexec hnote howns

/-- No update is due, and the thread does not hold the mutex. -/
private def Free (t : Nat) (s : Console × Owing) : Prop := s.2 t = none ∧ s.1.mu ≠ some t

private def Stored (dagID : String) (s : Console × Owing) : Prop := ∃ row, s.1.process.db.dag? dagID = some row

private theorem Rely.free {s s' : Console × Owing} (h : Rely t s s') (hf : Free t s) : Free t s' :=
  ⟨h.owing.trans hf.1, fun hmu => hf.2 (h.mu.mp hmu)⟩

private theorem stable_free : Stable (rules k t) (Free t) := fun _ _ h => h.free

private theorem stable_stored : Stable (rules k t) (Stored dagID) := fun _ _ h ⟨row, hrow⟩ => h.stored dagID row hrow

/-- A plain command is no more than interference. -/
private theorem plain_keeps {A : Console × Owing → Prop} (hA : Stable (rules k t) A) {p : Program CatalogueCmd α}
    (hp : p.Uses plain) {s : Console × Owing} (hs : A s) : Holds (rules k t) p (fun _ s => A s) s := by
  refine Holds.of_uses hp hs hA ?_
  intro β c hc s r s' hs hsem
  obtain ⟨-, ⟨a, hexec⟩, hnote⟩ := hsem
  have hkept := kept_step hc hexec hnote
  exact ⟨hkept.guar, hA s s' (hkept.rely t) hs⟩

private theorem statement_keeps {c : CatalogueCmd (Except Err α)} (hc : plain c) :
    Triple (rules k t) (Free t) (storeOp c) (Ends (fun _ => Free t) (Free t)) := by
  intro s hs
  refine (plain_keeps stable_free (.call hc) hs).mono ?_
  intro r s hs
  cases r <;> exact hs

/-- A critical section that ends with no update due. -/
private theorem underMu_keeps {A : Console × Owing → Prop} {body : CatalogueM Unit} (hA : Stable (rules k t) A)
    (hprocess : ∀ s m, A s → A ({ s.1 with mu := m }, s.2))
    (hbody : Triple (rules k t) (fun s => s.1.mu = some t ∧ A s) body (fun _ s => s.1.mu = some t ∧ s.2 t = none)) :
    Triple (rules k t) A (underMu body) (fun _ => Free t) := by
  refine .around (i := fun s => s.1.mu = some t ∧ A s) hA ?_ hbody ?_ ?_
  · intro s s' hs hsem
    refine ⟨sem_guar hsem trivial, ?_⟩
    obtain ⟨-, ⟨a, hexec⟩, hnote⟩ := hsem
    simp only [Console.exec] at hexec
    split at hexec
    · have hw : _ = s'.1 := congrArg Prod.snd (Option.some.inj hexec)
      have hs' : s' = ({ s.1 with mu := some t }, s.2) := Prod.ext hw.symm hnote
      rw [hs']
      exact ⟨rfl, hprocess s _ hs⟩
    · cases hexec
  · exact fun _ _ _ h hs => ⟨h.mu.mpr hs.1, h.owing.trans hs.2⟩
  · intro r s s' hs hsem
    refine ⟨sem_guar hsem hs.1, ?_⟩
    obtain ⟨-, ⟨a, hexec⟩, hnote⟩ := hsem
    have hw : _ = s'.1 := congrArg Prod.snd (Option.some.inj hexec)
    refine ⟨?_, ?_⟩
    · rw [hnote]
      exact hs.2
    · rw [← hw]
      intro h
      cases h

/-- An update of the cache whose flags stand. -/
private theorem updateCache_keeps {A : Console × Owing → Prop} {f : List DAG → List DAG} (hA : Stable (rules k t) A)
    (hmu : ∀ s, A s → s.1.mu = some t)
    (howns : ∀ s, A s → (∀ dagID v, k = .setPaused dagID v → Stands t dagID v s) → Owns t (.updateCache f) s) :
    Triple (rules k t) A (updateCache f) (fun _ s => s.1.mu = some t ∧ s.2 t = none) := by
  refine .lift hA ?_
  intro s r s' hs hsem
  refine ⟨sem_guar hsem (howns s hs hsem.1), ?_⟩
  obtain ⟨-, ⟨a, hexec⟩, hnote⟩ := hsem
  have hw : _ = s'.1 := congrArg Prod.snd (Option.some.inj hexec)
  refine ⟨?_, ?_⟩
  · rw [← hw]
    exact hmu s hs
  · rw [hnote]
    exact Function.update_self _ _ _

private theorem exec_mu {s s' : Console × Owing} {a : Answer} {β : Type} {x : Except Err β × Db} {r : Except Err β}
    (h : some (s.1.statement a x) = some (r, s'.1)) : s'.1.mu = s.1.mu := by
  rcases Console.statement_cases h with ⟨-, hw⟩ | ⟨-, hw⟩ <;> rw [hw]
  rfl

private theorem setPaused_keeps {v : Bool} : Triple (rules (.setPaused dagID v : CatalogueKind cfg) t) (Free t) (setPaused dagID v)
    (fun _ => Free t) := by
  have hstore : Triple (rules (.setPaused dagID v : CatalogueKind cfg) t) (Free t) (storeOp (.setDAGPaused dagID v))
      (Ends (fun _ s => s.2 t = some dagID ∧ Stored dagID s) (Free t)) := by
    refine .call stable_free ?_
    intro s r s' hs hsem
    refine ⟨sem_guar hsem hs.1, ?_⟩
    obtain ⟨-, ⟨a, hexec⟩, hnote⟩ := hsem
    cases r with
    | error e => exact ⟨by rw [hnote]; exact hs.1, by rw [exec_mu hexec]; exact hs.2⟩
    | ok u =>
      refine ⟨by rw [hnote]; exact Function.update_self _ _ _, ?_⟩
      rcases Console.statement_cases hexec with ⟨hr, -⟩ | ⟨hr, hw⟩
      · cases hr
      · cases hrow : s.1.process.db.dag? dagID with
        | none =>
          simp only [Db.setDAGPaused, hrow] at hr
          cases hr
        | some row =>
          refine ⟨{ row with paused := v }, ?_⟩
          rw [hw]
          exact Db.setDAGPaused_self hrow
  have hA : Stable (rules (.setPaused dagID v : CatalogueKind cfg) t) (fun s => s.2 t = some dagID ∧ Stored dagID s) :=
    fun s s' h hs => ⟨h.owing.trans hs.1, stable_stored s s' h hs.2⟩
  refine .seq hstore (fun _ => underMu_keeps hA (fun _ _ hs => hs) (updateCache_keeps ?_ (fun _ hs => hs.1) ?_)) (fun _ _ h => h)
  · exact fun s s' h hs => ⟨h.mu.mpr hs.1, hA s s' h hs.2⟩
  · intro s hs htimely
    refine ⟨hs.1, fun d hd => ?_⟩
    obtain ⟨old, hold, heq⟩ := List.mem_map.mp hd
    split at heq
    · rename_i hid
      subst heq
      right
      dsimp only
      rw [hid]
      exact ⟨hs.2.2, htimely dagID v rfl⟩
    · rename_i hid
      subst heq
      refine .inl ⟨hold, ?_⟩
      rw [hs.2.1]
      exact fun h => hid (Option.some.inj h).symm

private theorem deleteDAG_keeps : Triple (rules k t) (Free t) (deleteDAG dagID) (fun _ => Free t) := by
  have hA : Stable (rules k t) (fun s => s.2 t = none) := fun _ _ h hs => h.owing.trans hs
  have hcache : Triple (rules k t) (fun s => s.2 t = none)
      (underMu (updateCache (fun dags => dags.filter (fun d => d.dagID ≠ dagID)))) (fun _ => Free t) := by
    refine underMu_keeps hA (fun _ _ hs => hs) (updateCache_keeps ?_ (fun _ hs => hs.1) ?_)
    · exact fun s s' h hs => ⟨h.mu.mpr hs.1, hA s s' h hs.2⟩
    · intro s hs _
      refine ⟨hs.1, fun d hd => .inl ⟨(List.mem_filter.mp hd).1, ?_⟩⟩
      rw [hs.2]
      nofun
  refine .seq (statement_keeps trivial) (fun active => .refuse (fun _ h => h) (fun _ => ?_)) (fun _ _ h => h)
  exact .seq (statement_keeps trivial) (fun _ => hcache.strengthen (fun _ h => h.1)) (fun _ _ h => h)

/-- A definition whose flag stands. -/
private theorem publish_owns {d : DAG} {s : Console × Owing} (hmu : s.1.mu = some t) (hfree : s.2 t = none)
    (hstored : Stored d.dagID s) (hstands : Stands t d.dagID d.paused s) : Owns t (.updateCache (publish d)) s := by
  refine ⟨hmu, fun x hx => ?_⟩
  rcases List.mem_cons.mp hx with rfl | hold
  · exact .inr ⟨hstored, hstands⟩
  · refine .inl ⟨(List.mem_filter.mp hold).1, ?_⟩
    rw [hfree]
    nofun

/-- The flag a registration publishes. -/
private def readBack : Except Err DagRow → Bool
  | .ok row => row.paused
  | .error _ => false

/-- The flag that is read back under the mutex stands until it is published. -/
private theorem publish_keeps {d : DAG} (hd : d.paused = false) :
    Triple (rules k t) (fun s => s.2 t = none ∧ Stored d.dagID s) (underMu (do
      match ← Fallible.outcome (storeOp (.getDAG d.dagID)) with
      | .ok row => updateCache (publish { d with paused := row.paused })
      | .error _ => updateCache (publish d))) (fun _ => Free t) := by
  have hready : Stable (rules k t) (fun s => s.2 t = none ∧ Stored d.dagID s) :=
    fun s s' h hs => ⟨h.owing.trans hs.1, stable_stored s s' h hs.2⟩
  have hlocked : Stable (rules k t) (fun s => s.1.mu = some t ∧ s.2 t = none ∧ Stored d.dagID s) :=
    fun s s' h hs => ⟨h.mu.mpr hs.1, hready s s' h hs.2⟩
  have hknown : ∀ v, Stable (rules k t) (fun s => (s.1.mu = some t ∧ s.2 t = none ∧ Stored d.dagID s) ∧ Stands t d.dagID v s) := by
    intro v s s' h hs
    obtain ⟨row, hrow⟩ := hs.1.2.2
    exact ⟨hlocked s s' h hs.1, h.stands hs.1.1 d.dagID v row hrow hs.2⟩
  have hread : Triple (rules k t) (fun s => s.1.mu = some t ∧ s.2 t = none ∧ Stored d.dagID s)
      (Fallible.outcome (storeOp (.getDAG d.dagID)))
      (Ends (fun r s => (s.1.mu = some t ∧ s.2 t = none ∧ Stored d.dagID s) ∧ Stands t d.dagID (readBack r) s)
        (fun _ => False)) := by
    refine .outcome (.call hlocked ?_)
    intro s r s' hs hsem
    obtain ⟨htimely, ⟨a, hexec⟩, hnote⟩ := hsem
    have hkept := kept_step (by trivial) hexec hnote
    have hrely : Rely t s s' := hkept.rely t
    obtain ⟨row, hrow⟩ := hs.2.2
    refine ⟨hkept.guar, hlocked s s' hrely hs, hrely.stands hs.1 d.dagID _ row hrow ?_⟩
    cases r with
    | error e => exact htimely rfl hs.1
    | ok read =>
      rcases Console.statement_cases hexec with ⟨hr, -⟩ | ⟨hr, -⟩
      · cases hr
      · intro row' hrow'
        left
        rw [Db.getDAG_of_dag? hrow'] at hr
        cases hr
        rfl
  have hupdate : ∀ v, Triple (rules k t) (fun s => (s.1.mu = some t ∧ s.2 t = none ∧ Stored d.dagID s) ∧ Stands t d.dagID v s)
      (updateCache (publish { d with paused := v })) (fun _ s => s.1.mu = some t ∧ s.2 t = none) :=
    fun v => updateCache_keeps (hknown v) (fun _ hs => hs.1.1) (fun _ hs _ => publish_owns hs.1.1 hs.1.2.1 hs.1.2.2 hs.2)
  refine underMu_keeps hready (fun _ _ hs => hs) (.next hread (fun result => ?_))
  cases result with
  | ok row => exact hupdate row.paused
  | error e =>
    have hsame : { d with paused := false } = d := by rw [← hd]
    have hunset := hupdate false
    rw [hsame] at hunset
    exact hunset

private theorem registerDAG_keeps {d : DAG} (hd : d.paused = false) :
    Triple (rules k t) (Free t) (registerDAG cfg d) (fun _ => Free t) := by
  have hupsert : Triple (rules k t) (Free t) (storeOp (.upsertDAG d))
      (Ends (fun _ s => Free t s ∧ Stored d.dagID s) (Free t)) := by
    refine .call stable_free ?_
    intro s r s' hs hsem
    obtain ⟨-, ⟨a, hexec⟩, hnote⟩ := hsem
    have hkept := kept_step (by trivial) hexec hnote
    have hfree := stable_free (k := k) s s' (hkept.rely t) hs
    refine ⟨hkept.guar, ?_⟩
    cases r with
    | error e => exact hfree
    | ok u =>
      refine ⟨hfree, ?_⟩
      rcases Console.statement_cases hexec with ⟨hr, -⟩ | ⟨-, hw⟩
      · cases hr
      · obtain ⟨row, hrow, -⟩ := s.1.process.db.upsertDAG_self d
        exact ⟨row, by rw [hw]; exact hrow⟩
  have hready : Stable (rules k t) (fun s => Free t s ∧ Stored d.dagID s) := stable_free.and stable_stored
  have hplain : ∀ {β : Type} {x : CatalogueM β}, x.Uses plain → Triple (rules k t) (fun s => Free t s ∧ Stored d.dagID s) x
      (Ends (fun _ s => Free t s ∧ Stored d.dagID s) (Free t)) := by
    intro β x hx s hs
    refine (plain_keeps hready hx hs).mono ?_
    intro r s hs
    cases r with
    | ok _ => exact hs
    | error _ => exact hs.1
  have hpublish : Triple (rules k t) (fun s => Free t s ∧ Stored d.dagID s) (underMu (do
      match ← Fallible.outcome (storeOp (.getDAG d.dagID)) with
      | .ok row => updateCache (publish { d with paused := row.paused })
      | .error _ => updateCache (publish d))) (fun _ => Free t) :=
    (publish_keeps hd).strengthen (fun _ hs => ⟨hs.1.1, hs.2⟩)
  refine .seq hupsert (fun _ => .seq (hplain (ensurePools_uses (fun _ => trivial) (fun _ => trivial) _ _)) (fun _ =>
    .seq (hplain (.call trivial)) (fun _ => .ite (fun _ => ?_) (fun _ => hpublish)) (fun _ _ h => h)) (fun _ _ h => h))
    (fun _ _ h => h)
  exact .seq (hplain (.ofExcept _)) (fun _ => hpublish) (fun _ _ h => h)

private theorem createDAG_keeps (definitionYAML : String) :
    Triple (rules k t) (Free t) (createDAG cfg definitionYAML) (fun _ => Free t) := by
  have hparsed : Triple (rules k t) (Free t) (Fallible.ofExcept (parseDefinition cfg definitionYAML))
      (Ends (fun d s => d.paused = false ∧ Free t s) (Free t)) := by
    refine .ofExcept ?_
    intro s hs
    cases hparse : parseDefinition cfg definitionYAML with
    | error e => exact hs
    | ok d => exact ⟨(parseDefinition_source hparse).2, hs⟩
  exact .seq hparsed (fun d => .given (fun hflag => .seq (statement_keeps trivial) (fun _ => registerDAG_keeps hflag) (fun _ _ h => h)))
    (fun _ _ h => h)

private theorem buildDAG_keeps (save : Save cfg) : Triple (rules k t) (Free t) (buildDAG cfg save) (fun _ => Free t) := by
  have hread : Triple (rules k t) (Free t) (Fallible.outcome (storeOp (.getDAG save.dagID)))
      (Ends (fun _ => Free t) (Free t)) := by
    have hcall : Triple (rules k t) (Free t) (storeOp (.getDAG save.dagID)) (Ends (fun _ => Free t) (Free t)) :=
      statement_keeps (by trivial)
    refine .outcome (hcall.weaken ?_)
    intro r s hs
    cases r <;> exact hs
  refine .seq hread (fun result => ?_) (fun _ _ hs => hs)
  cases result with
  | ok row => exact .ite (fun _ => .throw (fun _ hs => hs)) (fun _ => createDAG_keeps _)
  | error e =>
    cases e with
    | notFound => exact createDAG_keeps _
    | _ => exact .throw (fun _ hs => hs)

/-- A program begins without touching a flag. -/
private theorem kept_start {s s' : Console × Owing} {p : Program CatalogueCmd (Except Err Unit)}
    (h : ((pausing cfg).answering Timely).start t k p s s') : Kept s s' := by
  obtain ⟨w', owing'⟩ := s'
  obtain ⟨hbegin, rfl⟩ := h
  obtain ⟨hdb, hdags, hmu⟩ := CatalogueStarts.same (show CatalogueStarts cfg t k p s.1 w' from hbegin)
  exact .of_same (by simp [hdb]) hdags hmu rfl

private def discipline (cfg : Cfg) : Discipline ((pausing cfg).answering Timely) where
  inv := Inv
  free := Free
  rely := Rely
  guar k t _ c s r s' := (rules k t).guar c s r s'
  rely_refl := Rely.refl
  rely_trans _ _ _ _ h h' := h.trans h'
  free_rely _ _ _ h := h.free
  guar_inv _ _ _ _ _ _ _ hi h := h.1 hi
  guar_rely _ _ t' _ _ _ _ _ hne _ h := h.2 t' (Ne.symm hne)
  start_inv t k p s s' hi _ hstart := ((kept_start hstart).guar (t := t)).1 hi
  start_rely t k p s s' _ _ hstart t' _ := (kept_start hstart).rely t'
  start_holds t k p s s' _ hfree hstart := by
    have hfree' : Free t s' := ((kept_start hstart).rely t).free hfree
    obtain ⟨w', owing'⟩ := s'
    obtain ⟨hbegin, -⟩ := hstart
    change CatalogueStarts cfg t k p s.1 w' at hbegin
    cases hbegin with
    | scheduler h => exact plain_keeps stable_free (Program.Uses.translate (Program.Uses.any _) (fun _ _ => by trivial)) hfree'
    | deleteDAG dagID => exact deleteDAG_keeps _ hfree'
    | setPaused dagID paused => exact setPaused_keeps _ hfree'
    | registerDAG d _ _ hflag => exact registerDAG_keeps hflag _ hfree'
    | buildDAG save => exact buildDAG_keeps save _ hfree'
  drift_inv _ _ _ h := h.1.elim
  drift_rely _ _ _ h := h.1.elim
  reset_inv s s' hi h := by
    obtain ⟨w', owing'⟩ := s'
    obtain ⟨hcrash, -⟩ := h
    obtain rfl : w' = _ := hcrash
    exact fun d hd => by cases hd
  reset_free s s' _ h t := by
    obtain ⟨w', owing'⟩ := s'
    obtain ⟨hcrash, hblank⟩ := h
    obtain rfl : owing' = _ := hblank
    obtain rfl : w' = _ := hcrash
    exact ⟨rfl, by nofun⟩

/-- While every update of the cache is timely, the flags in the cache are the stored
ones as soon as every call has returned. -/
theorem paused_flags_agree (cfg : Cfg) {c : Config (CatalogueKind cfg) CatalogueCmd (Except Err Unit) (Console × Owing)}
    (hreach : ((pausing cfg).answering Timely).Reachable (fun s => Agrees s.1 ∧ s.1.mu = none ∧ s.2 = fun _ => none) c)
    (hreturned : ∀ t k p, c.threads t = some (k, p) → p = .pure (.ok ())) : Agrees c.world.1 := by
  have hsound : (discipline cfg).Sound c := by
    refine (discipline cfg).reachable_sound ?_ hreach
    rintro ⟨w, owing⟩ ⟨hagrees, hmu, rfl⟩
    have hinv : Inv (w, fun _ => none) := by
      intro d hd
      obtain ⟨row, hrow, hflag⟩ := hagrees d hd
      exact ⟨row, hrow, .inl hflag⟩
    have hfree : ∀ t, Free t (w, fun _ => none) := by
      refine fun t => ⟨rfl, ?_⟩
      rw [hmu]
      nofun
    exact ⟨hinv, hfree⟩
  have hinv : Inv c.world := hsound.1
  intro d hd
  obtain ⟨row, hrow, hflag⟩ := hinv d hd
  refine ⟨row, hrow, hflag.resolve_right ?_⟩
  rintro ⟨t, ht⟩
  have hfree : Free t c.world := by
    have hfits := hsound.2 t
    cases hthread : c.threads t with
    | none =>
      rw [hthread] at hfits
      exact hfits
    | some entry =>
      obtain ⟨k, p⟩ := entry
      rw [hthread, hreturned t k p hthread] at hfits
      exact hfits
  rw [hfree.1] at ht
  cases ht

end Rules

/-! ### Two calls that pass each other -/

/-- Every call was one of `setPaused` or `registerDAG`, and returned without an error. -/
def Settled (c : Recorded cfg Owing) : Prop :=
  ∀ t k p, c.threads t = some (k, p) → p = .pure (.ok ()) ∧ ((∃ dagID v, k = .setPaused dagID v) ∨ ∃ d, k = .registerDAG d)

/-- Whatever ran on the thread was such a call. -/
private def settled (c : Recorded cfg Owing) (t : Nat) : Bool :=
  match c.threads t with
  | none => true
  | some (.setPaused _ _, .pure r) => r.isOk
  | _ => false

private theorem settled_spec {c : Recorded cfg Owing} {t : Nat} (h : settled c t = true) {k : CatalogueKind cfg}
    {p : Program CatalogueCmd (Except Err Unit)} (hthread : c.threads t = some (k, p)) :
    p = .pure (.ok ()) ∧ ((∃ dagID v, k = .setPaused dagID v) ∨ ∃ d, k = .registerDAG d) := by
  unfold settled at h
  rw [hthread] at h
  split at h
  · rename_i heq
    cases heq
  · rename_i dagID v r heq
    cases heq
    cases r with
    | error e => cases h
    | ok u => exact ⟨rfl, .inl ⟨dagID, v, rfl⟩⟩
  · cases h

def pauseCfg : Cfg := .ofDocuments []

def pauseConsole : Console :=
  { process :=
    { db := { dags := .single { dagID := "job" } }
      dags := [{ dagID := "job" }] } }

private theorem pauseConsole_agrees : Agrees pauseConsole := by
  intro d hd
  obtain rfl := List.mem_singleton.mp hd
  exact ⟨{ dagID := "job" }, rfl, rfl⟩

/-- The first call stores its flag first and updates the cache last. -/
def crossingMoves : List (CatalogueMove pauseCfg) :=
  [.setPaused 1 "job" true, .setPaused 2 "job" false, .act 1 .fine, .act 2 .fine] ++
    List.replicate 3 (.act 2 .fine) ++ List.replicate 3 (.act 1 .fine)

theorem paused_flags_disagree :
    ¬ ∀ (cfg : Cfg) (c : Recorded cfg Owing),
      (pausing cfg).Reachable (fun s => Agrees s.1 ∧ s.1.mu = none ∧ s.2 = fun _ => none) c → Settled c → Agrees c.world.1 := by
  have hplay : (Recorded.turns noted (fun _ _ _ _ _ _ => true) (⟨(pauseConsole, fun _ => none), fun _ => none⟩ :
      Recorded pauseCfg Owing) crossingMoves).map (fun c => (settled c 1, settled c 2,
        c.world.1.process.dags.map (fun d => (d.dagID, d.paused)), (c.world.1.process.db.dag? "job").map (·.paused))) =
      some (true, true, [("job", true)], some false) := by
    decide +kernel
  obtain ⟨c, hc, heq⟩ := Option.map_eq_some_iff.mp hplay
  simp only [Prod.mk.injEq] at heq
  obtain ⟨hfirst, hsecond, hcache, hstored⟩ := heq
  have hreach : (pausing pauseCfg).Reachable (fun s => Agrees s.1 ∧ s.1.mu = none ∧ s.2 = fun _ => none) c := by
    have hruns : ((pausing pauseCfg).answering (fun _ _ _ _ _ _ => True)).Runs _ c :=
      Recorded.turns_runs (fun _ _ _ _ _ _ _ => trivial) hc
    exact ⟨_, ⟨pauseConsole_agrees, rfl, rfl⟩, hruns.of_answering⟩
  have hsettled : Settled c := by
    intro t k p hthread
    by_cases h1 : t = 1
    · subst h1
      exact settled_spec hfirst hthread
    · by_cases h2 : t = 2
      · subst h2
        exact settled_spec hsecond hthread
      · have hnone := Recorded.turns_other hc (t := t) (by simp [crossingMoves, CatalogueMove.thread, h1, h2])
        rw [hthread] at hnone
        cases hnone
  intro h
  obtain ⟨d, hd, hflag⟩ := List.mem_map.mp (hcache ▸ List.mem_singleton.mpr rfl)
  obtain ⟨row, hrow, hsame⟩ := h pauseCfg c hreach hsettled d hd
  simp only [Prod.mk.injEq] at hflag
  rw [hflag.1] at hrow
  rw [hrow, Option.map_some, Option.some.injEq] at hstored
  rw [hflag.2, hstored] at hsame
  cases hsame

/-- Updates with the stored flag, and flags that can be read. -/
private def prompt : CatalogueKind pauseCfg → Nat → {β : Type} → CatalogueCmd β → Console × Owing → β → Bool
  | .setPaused dagID v, _, _, .updateCache _, s, _ => (s.1.process.db.dag? dagID).any (fun row => row.paused = v)
  | _, _, _, .getDAG _, _, r => r.isOk
  | _, _, _, _, _, _ => true

private theorem prompt_timely (k : CatalogueKind pauseCfg) (t : Nat) {β : Type} (c : CatalogueCmd β) (s : Console × Owing) (r : β)
    (h : prompt k t c s r = true) : Timely k t c s r := by
  cases c with
  | updateCache f =>
    rintro dagID v rfl row hrow
    simp only [prompt, hrow, Option.any_some, decide_eq_true_eq] at h
    exact .inl h.symm
  | getDAG dagID =>
    intro hfailed
    have hok : r.isOk = true := by
      cases k <;> exact h
    rw [hok] at hfailed
    cases hfailed
  | _ => trivial

theorem paused_flags_agree_single :
    ∃ c, ((pausing pauseCfg).answering Timely).Reachable (fun s => Agrees s.1 ∧ s.1.mu = none ∧ s.2 = fun _ => none) c ∧
      c.world.1.process.dags.map (·.paused) = [true] ∧ Agrees c.world.1 := by
  have hplay : (Recorded.turns noted prompt (⟨(pauseConsole, fun _ => none), fun _ => none⟩ : Recorded pauseCfg Owing)
      (.setPaused 1 "job" true :: List.replicate 4 (.act 1 .fine))).map
        (fun c => (settled c 1, c.world.1.process.dags.map (·.paused))) = some (true, [true]) := by
    decide +kernel
  obtain ⟨c, hc, heq⟩ := Option.map_eq_some_iff.mp hplay
  simp only [Prod.mk.injEq] at heq
  obtain ⟨hsettled, hcache⟩ := heq
  have hreach : ((pausing pauseCfg).answering Timely).Reachable
      (fun s => Agrees s.1 ∧ s.1.mu = none ∧ s.2 = fun _ => none) c :=
    ⟨_, ⟨pauseConsole_agrees, rfl, rfl⟩, Recorded.turns_runs prompt_timely hc⟩
  have hreturned : ∀ t k p, c.threads t = some (k, p) → p = .pure (.ok ()) := by
    intro t k p hthread
    by_cases h1 : t = 1
    · subst h1
      exact (settled_spec hsettled hthread).1
    · have hnone := Recorded.turns_other hc (t := t) (by simp [CatalogueMove.thread, h1])
      rw [hthread] at hnone
      cases hnone
  exact ⟨c, hreach, hcache, paused_flags_agree pauseCfg hreach hreturned⟩

end Cronova.Properties.Paused
