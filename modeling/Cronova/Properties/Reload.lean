import Cronova.Scheduler.Reload

/-! Archived DAGs and the definition files. The loader skips a file whose DAG it
finds archived, and registers every other one some statements later, when the DAG
may have been archived; a registration makes the row active again. -/
namespace Cronova.Properties.Reload
open Cronova.Model Cronova.Store Cronova.Concurrency Cronova.Concurrency.Fallible Cronova.Scheduler

/-- What the calls have done. -/
structure Past where
  /-- The DAGs that a `deleteDAG` has archived and removed from the cache, and that no
  request has created since it archived them. -/
  gone : List String := []
  /-- The DAG that a thread has archived and not yet removed from the cache. -/
  leaving : Nat → Option String := fun _ => none
  /-- The DAG of the file a loader is at, while what it has read of it stands. -/
  sighted : Nat → Option String := fun _ => none

namespace Past

def archive (past : Past) (t : Nat) (dagID : String) : Past :=
  { past with
    leaving := Function.update past.leaving t (some dagID)
    sighted := fun t' => if past.sighted t' = some dagID then none else past.sighted t' }

def evict (past : Past) (t : Nat) (dagID : String) : Past :=
  if past.leaving t = some dagID then { past with gone := dagID :: past.gone } else past

def create (past : Past) (dagID : String) : Past :=
  { past with
    gone := past.gone.filter (fun id => id ≠ dagID)
    leaving := fun t => if past.leaving t = some dagID then none else past.leaving t }

def sight (past : Past) (t : Nat) (dagID : Option String) : Past :=
  { past with sighted := Function.update past.sighted t dagID }

@[simp] theorem archive_gone (past : Past) (t : Nat) (dagID : String) : (past.archive t dagID).gone = past.gone := rfl
@[simp] theorem create_sighted (past : Past) (dagID : String) : (past.create dagID).sighted = past.sighted := rfl
@[simp] theorem sight_gone (past : Past) (t : Nat) (dagID : Option String) : (past.sight t dagID).gone = past.gone := rfl
@[simp] theorem sight_leaving (past : Past) (t : Nat) (dagID : Option String) : (past.sight t dagID).leaving = past.leaving := rfl

@[simp] theorem evict_sighted (past : Past) (t : Nat) (dagID : String) : (past.evict t dagID).sighted = past.sighted := by
  unfold evict
  split <;> rfl

@[simp] theorem evict_leaving (past : Past) (t : Nat) (dagID : String) : (past.evict t dagID).leaving = past.leaving := by
  unfold evict
  split <;> rfl

theorem evict_gone {past : Past} {t : Nat} {dagID id : String} (h : id ∈ (past.evict t dagID).gone) :
    id ∈ past.gone ∨ id = dagID ∧ past.leaving t = some dagID := by
  unfold evict at h
  split at h
  · rename_i hleaving
    rcases List.mem_cons.mp h with rfl | hold
    · exact .inr ⟨rfl, hleaving⟩
    · exact .inl hold
  · exact .inl h

theorem create_gone {past : Past} {dagID id : String} (h : id ∈ (past.create dagID).gone) : id ∈ past.gone ∧ id ≠ dagID := by
  simpa [create] using h

theorem create_leaving {past : Past} {dagID id : String} {t : Nat} (h : (past.create dagID).leaving t = some id) :
    past.leaving t = some id ∧ id ≠ dagID := by
  simp only [create] at h
  split at h
  · cases h
  · rename_i hne
    refine ⟨h, fun heq => hne ?_⟩
    rw [h, heq]

theorem archive_sighted {past : Past} {dagID id : String} {t t' : Nat} (h : (past.archive t dagID).sighted t' = some id) :
    past.sighted t' = some id ∧ id ≠ dagID := by
  simp only [archive] at h
  split at h
  · cases h
  · rename_i hne
    refine ⟨h, fun heq => hne ?_⟩
    rw [h, heq]

end Past

variable {cfg : Cfg}

/-- The loader works for the thread. -/
def loads : ReloadKind cfg → Bool
  | .loadDAGFiles _ _ => true
  | _ => false

/-- The DAG that the thread archives. -/
def deletes : ReloadKind cfg → Option String
  | .catalogue (.deleteDAG dagID) => some dagID
  | _ => none

theorem loads_creates {k : ReloadKind cfg} (h : loads k = true) : k.creates = none := by
  cases k with
  | loadDAGFiles => rfl
  | _ => cases h

theorem deletes_creates {k : ReloadKind cfg} {dagID : String} (h : deletes k = some dagID) : k.creates = none := by
  unfold deletes at h
  split at h
  · rfl
  · cases h

/-- A read that fails leaves it open whether the DAG is archived. -/
def misled (dagID : String) (r : Except Err DagRow) (w : Console) : Bool := !r.isOk && w.process.db.isArchived dagID

/-- The read of a loader outside the mutex is the one that decides on the file. -/
def noted (k : ReloadKind cfg) (t : Nat) : {β : Type} → CatalogueCmd β → β → Console → Past → Past
  | _, .softDeleteDAG dagID, r, _, past => if r.isOk then past.archive t dagID else past
  | _, .upsertDAG _, r, _, past =>
    match k.creates with
    | some dagID => if r.isOk then past.create dagID else past
    | none => past
  | _, .updateCache _, _, _, past =>
    match deletes k, k.creates with
    | some dagID, _ => past.evict t dagID
    | none, some dagID => past.create dagID
    | none, none => past
  | _, .getDAG dagID, r, w, past =>
    if loads k ∧ w.mu ≠ some t then past.sight t (if misled dagID r w then none else some dagID) else past
  | _, _, _, _, past => past

/-- A loader stores and publishes a definition only while what it has read stands: the
read did not fail on an archived row, and nobody has archived the DAG since. -/
def Informed (k : ReloadKind cfg) (t : Nat) : {β : Type} → CatalogueCmd β → Console × Past → β → Prop
  | _, .upsertDAG _, s, r => loads k = true → r.isOk = true → (s.2.sighted t).isSome
  | _, .updateCache _, s, _ => loads k = true → (s.2.sighted t).isSome
  | _, _, _, _ => True

/-- The processes with a record of the calls. It outlives a crash, except for what
was in progress. -/
def recorded (cfg : Cfg) : System (ReloadKind cfg) CatalogueCmd (Except Err Unit) (Console × Past) where
  sem k t _ c s r s' := (reloading cfg).sem k t c s.1 r s'.1 ∧ s'.2 = noted k t c r s'.1 s.2
  start t k p s s' := (reloading cfg).start t k p s.1 s'.1 ∧ s'.2 = s.2
  drift _ _ := False
  reset s s' := (reloading cfg).reset s.1 s'.1 ∧ s'.2 = { gone := s.2.gone }

def Absent (dagID : String) (w : Console) : Prop := ∀ d ∈ w.process.dags, d.dagID ≠ dagID

/-- The DAGs that are gone are archived, and absent from the cache. -/
def Stays (s : Console × Past) : Prop :=
  ∀ dagID ∈ s.2.gone, s.1.process.db.isArchived dagID = true ∧ Absent dagID s.1

/-! ### What one command does -/

structure Inv (s : Console × Past) : Prop where
  stays : Stays s
  leaving : ∀ t dagID, s.2.leaving t = some dagID → s.1.process.db.isArchived dagID = true

/-- What a thread knows while the others run. -/
structure Rely (t : Nat) (s s' : Console × Past) : Prop where
  mu : s'.1.mu = some t ↔ s.1.mu = some t
  sighted : ∀ dagID, s'.2.sighted t = some dagID → s.2.sighted t = some dagID ∧
    (s'.1.process.db.isArchived dagID = true → s.1.process.db.isArchived dagID = true)

theorem Rely.refl (t : Nat) (s : Console × Past) : Rely t s s := ⟨Iff.rfl, fun _ h => ⟨h, id⟩⟩

theorem Rely.trans {t : Nat} {s s' s'' : Console × Past} (h : Rely t s s') (h' : Rely t s' s'') : Rely t s s'' where
  mu := h'.mu.trans h.mu
  sighted dagID hlast := by
    obtain ⟨hmid, hdb'⟩ := h'.sighted dagID hlast
    obtain ⟨hfirst, hdb⟩ := h.sighted dagID hmid
    exact ⟨hfirst, hdb ∘ hdb'⟩

/-- What a step of thread `t` guarantees. -/
def Guar (t : Nat) (s s' : Console × Past) : Prop := (Inv s → Inv s') ∧ ∀ t', t' ≠ t → Rely t' s s'

/-- What the loader has read of the DAG stands, and it is not archived; or it does not
stand any more. -/
def Clear (t : Nat) (dagID : String) (s : Console × Past) : Prop :=
  ∀ id, s.2.sighted t = some id → id = dagID ∧ s.1.process.db.isArchived dagID = false

/-- The thread may register the DAG: it was asked to, or it has found no archived one. -/
def Entitled (k : ReloadKind cfg) (t : Nat) (dagID : String) (s : Console × Past) : Prop :=
  k.creates = some dagID ∨ loads k = true ∧ Clear t dagID s

/-- What a thread has to know before it issues a command. -/
def Owns (k : ReloadKind cfg) (t : Nat) : {β : Type} → CatalogueCmd β → Console × Past → Prop
  | _, .unlockMu, s => s.1.mu = some t
  | _, .upsertDAG d, s => Entitled k t d.dagID s
  | _, .updateCache f, s =>
    (∀ d ∈ f s.1.process.dags, (∃ old ∈ s.1.process.dags, old.dagID = d.dagID) ∨ Entitled k t d.dagID s) ∧
    ∀ dagID, deletes k = some dagID → ∀ d ∈ f s.1.process.dags, d.dagID ≠ dagID
  | _, _, _ => True

section Step
variable {s s' : Console × Past} {k : ReloadKind cfg} {t : Nat} {a : Answer} {dagID : String}

theorem Rely.clear (h : Rely t s s') (hclear : Clear t dagID s) : Clear t dagID s' := by
  intro id hsighted
  obtain ⟨hbefore, hdb⟩ := h.sighted id hsighted
  obtain ⟨rfl, hlive⟩ := hclear id hbefore
  refine ⟨rfl, ?_⟩
  by_contra hne
  have harchived := hdb (by simpa using hne)
  rw [hlive] at harchived
  cases harchived

theorem Rely.entitled (h : Rely t s s') (hentitled : Entitled k t dagID s) : Entitled k t dagID s' :=
  hentitled.imp id (fun ⟨hloads, hclear⟩ => ⟨hloads, h.clear hclear⟩)

/-- An informed thread registers an archived DAG only when it was asked to. -/
theorem Entitled.live (h : Entitled k t dagID s) (hinformed : loads k = true → (s.2.sighted t).isSome = true)
    (harchived : s.1.process.db.isArchived dagID = true) : k.creates = some dagID := by
  rcases h with h | ⟨hloads, hclear⟩
  · exact h
  · obtain ⟨id, hid⟩ := Option.isSome_iff_exists.mp (hinformed hloads)
    rw [(hclear id hid).2] at harchived
    cases harchived

/-- Neither a row is archived or revived nor the cache, the mutex or the record changed. -/
structure Kept (s s' : Console × Past) : Prop where
  archived : ∀ dagID, s'.1.process.db.isArchived dagID = s.1.process.db.isArchived dagID
  dags : s'.1.process.dags = s.1.process.dags
  mu : s'.1.mu = s.1.mu
  past : s'.2 = s.2

theorem Kept.rely (h : Kept s s') (t : Nat) : Rely t s s' := by
  refine ⟨by rw [h.mu], fun dagID hsighted => ?_⟩
  rw [h.past] at hsighted
  rw [h.archived]
  exact ⟨hsighted, id⟩

/-- The DAGs that are gone or leave did so before. -/
theorem Inv.keep (hi : Inv s) (harchived : ∀ dagID, s'.1.process.db.isArchived dagID = s.1.process.db.isArchived dagID)
    (hdags : s'.1.process.dags = s.1.process.dags) (hgone : ∀ dagID ∈ s'.2.gone, dagID ∈ s.2.gone)
    (hleaving : ∀ t dagID, s'.2.leaving t = some dagID → s.2.leaving t = some dagID) : Inv s' := by
  refine ⟨fun dagID h => ?_, fun t dagID h => ?_⟩
  · unfold Absent
    rw [harchived, hdags]
    exact hi.stays dagID (hgone dagID h)
  · rw [harchived]
    exact hi.leaving t dagID (hleaving t dagID h)

theorem Kept.guar (h : Kept s s') : Guar t s s' := by
  refine ⟨fun hi => hi.keep h.archived h.dags ?_ ?_, fun t' _ => h.rely t'⟩
  · rw [h.past]
    exact fun _ hgone => hgone
  · rw [h.past]
    exact fun _ _ hleaving => hleaving

/-- Commands that neither archive nor register nor decide on a file. -/
def plain : {β : Type} → CatalogueCmd β → Prop
  | _, .softDeleteDAG _ | _, .upsertDAG _ | _, .updateCache _ | _, .getDAG _ | _, .lockMu | _, .unlockMu => False
  | _, _ => True

private theorem kept_statement {β : Type} {x : Except Err β × Db} {r : Except Err β}
    (h : some (s.1.statement a x) = some (r, s'.1)) (hpast : s'.2 = s.2)
    (harchived : ∀ dagID, x.2.isArchived dagID = s.1.process.db.isArchived dagID) : Kept s s' := by
  rcases Console.statement_cases h with ⟨-, hw⟩ | ⟨-, hw⟩
  · exact ⟨fun dagID => by rw [hw], by rw [hw], by rw [hw], hpast⟩
  · exact ⟨fun dagID => by rw [hw]; exact harchived dagID, by rw [hw]; rfl, by rw [hw]; rfl, hpast⟩

theorem setDAGPaused_isArchived (db : Db) (dagID id : String) (paused : Bool) :
    (db.setDAGPaused id paused).2.isArchived dagID = db.isArchived dagID := by
  by_cases hid : dagID = id
  · subst hid
    cases hrow : db.dag? dagID with
    | none => simp only [Db.setDAGPaused, hrow]
    | some row => simp only [Db.isArchived, Db.setDAGPaused_self hrow, hrow, Option.any_some]
  · exact Db.isArchived_congr (Db.setDAGPaused_ne hid)

theorem kept_step {β : Type} {c : CatalogueCmd β} {r : β} (hc : plain c) (hexec : s.1.exec k.base t a c = some (r, s'.1))
    (hnote : s'.2 = noted k t c r s'.1 s.2) : Kept s s' := by
  cases c with
  | softDeleteDAG | upsertDAG | updateCache | getDAG | lockMu | unlockMu => exact hc.elim
  | scheduler c =>
    obtain ⟨⟨x, process⟩, hprocess, heq⟩ := Option.map_eq_some_iff.mp hexec
    simp only [Prod.mk.injEq] at heq
    obtain ⟨-, hworld⟩ := heq
    have heffect := World.exec_effect hprocess
    refine ⟨fun dagID => ?_, by rw [← hworld]; exact heffect.dags, by rw [← hworld], hnote⟩
    rw [← hworld]
    cases c with
    | write st =>
      rcases heffect with ⟨hw, -⟩ | ⟨hw, -⟩ <;> rw [hw]
      exact Db.isArchived_congr (Db.apply_dag? st dagID)
    | _ => rw [heffect.db rfl]
  | setDAGPaused id paused => exact kept_statement hexec hnote (fun dagID => setDAGPaused_isArchived _ dagID id paused)
  | upsertPool p => exact kept_statement hexec hnote (fun dagID => Db.isArchived_congr (Db.upsertPool_dag? p dagID))
  | countActiveRuns | getPool | replaceDagDependencies | writeFile => exact kept_statement hexec hnote (fun _ => rfl)

private theorem guar_softDeleteDAG (hdb : s'.1 = s.1.withDb (s.1.process.db.softDeleteDAG dagID).2)
    (hpast : s'.2 = s.2.archive t dagID) (hok : (s.1.process.db.softDeleteDAG dagID).1.isOk = true) : Guar t s s' := by
  have hself : s'.1.process.db.isArchived dagID = true := by
    rw [hdb]
    cases hrow : s.1.process.db.dag? dagID with
    | none =>
      simp only [Db.softDeleteDAG, hrow] at hok
      cases hok
    | some row =>
      change (Db.dag? _ dagID).any _ = true
      rw [Console.withDb, Db.softDeleteDAG_self hrow]
      rfl
  have hother : ∀ id, id ≠ dagID → s'.1.process.db.isArchived id = s.1.process.db.isArchived id := by
    intro id hne
    rw [hdb]
    exact Db.isArchived_congr (Db.softDeleteDAG_ne hne)
  have hkeeps : ∀ id, s.1.process.db.isArchived id = true → s'.1.process.db.isArchived id = true := by
    intro id harchived
    by_cases hid : id = dagID
    · rw [hid]
      exact hself
    · rw [hother id hid]
      exact harchived
  refine ⟨fun hi => ⟨fun id hgone => ?_, fun t' id hleaving => ?_⟩, fun t' hne => ⟨by rw [hdb]; rfl, fun id hsighted => ?_⟩⟩
  · rw [hpast] at hgone
    obtain ⟨harchived, habsent⟩ := hi.stays id hgone
    refine ⟨hkeeps id harchived, ?_⟩
    rw [hdb]
    exact habsent
  · rw [hpast] at hleaving
    by_cases ht : t' = t
    · rw [ht] at hleaving
      simp only [Past.archive, Function.update_self, Option.some.injEq] at hleaving
      rw [← hleaving]
      exact hself
    · simp only [Past.archive, Function.update_of_ne ht] at hleaving
      exact hkeeps id (hi.leaving t' id hleaving)
  · rw [hpast] at hsighted
    obtain ⟨hbefore, hid⟩ := Past.archive_sighted hsighted
    rw [hother id hid]
    exact ⟨hbefore, fun h => h⟩

private theorem guar_upsertDAG {d : DAG} (howns : Owns k t (.upsertDAG d) s)
    (hinformed : loads k = true → (s.2.sighted t).isSome = true) (hdb : s'.1 = s.1.withDb (s.1.process.db.upsertDAG d).2)
    (hpast : s'.2 = k.creates.elim s.2 s.2.create) : Guar t s s' := by
  have hother : ∀ id, id ≠ d.dagID → s'.1.process.db.isArchived id = s.1.process.db.isArchived id := by
    intro id hne
    rw [hdb]
    exact Db.isArchived_congr (Db.upsertDAG_ne hne)
  have hrevives : ∀ id, s'.1.process.db.isArchived id = true → s.1.process.db.isArchived id = true := by
    intro id harchived
    by_cases hid : id = d.dagID
    · obtain ⟨row, hrow, -, hactive, -⟩ := s.1.process.db.upsertDAG_self d
      rw [hdb, hid] at harchived
      simp only [Console.withDb, Db.isArchived, hrow, Option.any_some, hactive] at harchived
      cases harchived
    · rw [← hother id hid]
      exact harchived
  have hne : ∀ id, s.1.process.db.isArchived id = true → (k.creates = some d.dagID → id ≠ d.dagID) → id ≠ d.dagID := by
    rintro id harchived hcreated rfl
    exact hcreated (Entitled.live howns hinformed harchived) rfl
  have hgone : ∀ id ∈ s'.2.gone, id ∈ s.2.gone ∧ (k.creates = some d.dagID → id ≠ d.dagID) := by
    intro id hid
    rw [hpast] at hid
    cases hcreates : k.creates with
    | none =>
      rw [hcreates] at hid
      exact ⟨hid, by nofun⟩
    | some id' =>
      rw [hcreates] at hid
      obtain ⟨hold, hother⟩ := Past.create_gone hid
      refine ⟨hold, fun h => ?_⟩
      cases h
      exact hother
  have hleaves : ∀ t' id, s'.2.leaving t' = some id → s.2.leaving t' = some id ∧ (k.creates = some d.dagID → id ≠ d.dagID) := by
    intro t' id hid
    rw [hpast] at hid
    cases hcreates : k.creates with
    | none =>
      rw [hcreates] at hid
      exact ⟨hid, by nofun⟩
    | some id' =>
      rw [hcreates] at hid
      obtain ⟨hold, hother⟩ := Past.create_leaving hid
      refine ⟨hold, fun h => ?_⟩
      cases h
      exact hother
  refine ⟨fun hi => ⟨fun id hid => ?_, fun t' id hid => ?_⟩, fun t' _ => ⟨by rw [hdb]; rfl, fun id hsighted => ?_⟩⟩
  · obtain ⟨hold, hcreated⟩ := hgone id hid
    obtain ⟨harchived, habsent⟩ := hi.stays id hold
    refine ⟨(hother id (hne id harchived hcreated)).trans harchived, ?_⟩
    rw [hdb]
    exact habsent
  · obtain ⟨hold, hcreated⟩ := hleaves t' id hid
    have harchived := hi.leaving t' id hold
    exact (hother id (hne id harchived hcreated)).trans harchived
  · have hsame : s'.2.sighted = s.2.sighted := by
      rw [hpast]
      cases k.creates <;> rfl
    rw [hsame] at hsighted
    exact ⟨hsighted, hrevives id⟩

private theorem guar_updateCache {f : List DAG → List DAG} (howns : Owns k t (.updateCache f) s)
    (hinformed : loads k = true → (s.2.sighted t).isSome = true)
    (hworld : s'.1 = { s.1 with process := { s.1.process with dags := f s.1.process.dags } })
    (hpast : s'.2 = noted k t (.updateCache f) () s'.1 s.2) : Guar t s s' := by
  obtain ⟨hdags, hdeletes⟩ := howns
  have hdb : ∀ id, s'.1.process.db.isArchived id = s.1.process.db.isArchived id := by
    intro id
    rw [hworld]
  -- an entry of a DAG that stays gone was in the cache before
  have habsent : ∀ id, s.1.process.db.isArchived id = true → Absent id s.1 → k.creates ≠ some id → Absent id s'.1 := by
    intro id harchived hbefore hcreates d hd heq
    rw [hworld] at hd
    rcases hdags d hd with ⟨old, hold, hsame⟩ | hentitled
    · exact hbefore old hold (hsame.trans heq)
    · rw [heq] at hentitled
      exact hcreates (hentitled.live hinformed harchived)
  refine ⟨fun hi => ⟨fun id hid => ?_, fun t' id hid => ?_⟩, fun t' _ => ⟨by rw [hworld], fun id hsighted => ?_⟩⟩
  · rw [hdb]
    rw [hpast] at hid
    cases hdel : deletes k with
    | some dagID =>
      have hcreates : k.creates ≠ some id := by
        rw [deletes_creates hdel]
        nofun
      simp only [noted, hdel] at hid
      rcases Past.evict_gone hid with hold | ⟨rfl, hleaving⟩
      · obtain ⟨harchived, hbefore⟩ := hi.stays id hold
        exact ⟨harchived, habsent id harchived hbefore hcreates⟩
      · refine ⟨hi.leaving t id hleaving, fun d hd => ?_⟩
        rw [hworld] at hd
        exact hdeletes id hdel d hd
    | none =>
      cases hcreates : k.creates with
      | some dagID =>
        simp only [noted, hdel, hcreates] at hid
        obtain ⟨hold, hne⟩ := Past.create_gone hid
        obtain ⟨harchived, hbefore⟩ := hi.stays id hold
        refine ⟨harchived, habsent id harchived hbefore ?_⟩
        rw [hcreates]
        exact fun h => hne (Option.some.inj h).symm
      | none =>
        simp only [noted, hdel, hcreates] at hid
        obtain ⟨harchived, hbefore⟩ := hi.stays id hid
        refine ⟨harchived, habsent id harchived hbefore ?_⟩
        rw [hcreates]
        nofun
  · rw [hdb]
    rw [hpast] at hid
    cases hdel : deletes k with
    | some dagID =>
      simp only [noted, hdel, Past.evict_leaving] at hid
      exact hi.leaving t' id hid
    | none =>
      cases hcreates : k.creates with
      | some dagID =>
        simp only [noted, hdel, hcreates] at hid
        exact hi.leaving t' id (Past.create_leaving hid).1
      | none =>
        simp only [noted, hdel, hcreates] at hid
        exact hi.leaving t' id hid
  · have hsame : s'.2.sighted = s.2.sighted := by
      rw [hpast]
      simp only [noted]
      split <;> simp
    rw [hsame] at hsighted
    rw [hdb]
    exact ⟨hsighted, fun h => h⟩

private theorem guar_getDAG (hworld : s'.1 = s.1)
    (hpast : s'.2 = s.2 ∨ ∃ id, s'.2 = s.2.sight t id) : Guar t s s' := by
  have hgone : s'.2.gone = s.2.gone := by
    rcases hpast with h | ⟨id, h⟩ <;> rw [h]
    rfl
  have hleaving : s'.2.leaving = s.2.leaving := by
    rcases hpast with h | ⟨id, h⟩ <;> rw [h]
    rfl
  refine ⟨fun hi => hi.keep (by rw [hworld]; exact fun _ => rfl) (by rw [hworld]) (by rw [hgone]; exact fun _ h => h)
    (by rw [hleaving]; exact fun _ _ h => h), fun t' hne => ⟨by rw [hworld], fun id hsighted => ?_⟩⟩
  have hsame : s'.2.sighted t' = s.2.sighted t' := by
    rcases hpast with h | ⟨id', h⟩ <;> rw [h]
    exact Function.update_of_ne hne _ _
  rw [hsame] at hsighted
  rw [hworld]
  exact ⟨hsighted, fun h => h⟩

/-- Taking or freeing the mutex concerns no other thread. -/
private theorem guar_mu (hmine : s.1.mu = none ∨ s.1.mu = some t) (hmine' : s'.1.mu = none ∨ s'.1.mu = some t)
    (hprocess : s'.1.process = s.1.process) (hpast : s'.2 = s.2) : Guar t s s' := by
  have hother : ∀ (m : Option Nat) t', t' ≠ t → m = none ∨ m = some t → m ≠ some t' := by
    rintro m t' hne (rfl | rfl)
    · nofun
    · exact fun h => hne (Option.some.inj h).symm
  refine ⟨fun hi => hi.keep (by rw [hprocess]; exact fun _ => rfl) (by rw [hprocess]) (by rw [hpast]; exact fun _ h => h)
    (by rw [hpast]; exact fun _ _ h => h), fun t' hne => ⟨?_, fun id hsighted => ?_⟩⟩
  · exact iff_of_false (hother _ t' hne hmine') (hother _ t' hne hmine)
  · rw [hpast] at hsighted
    rw [hprocess]
    exact ⟨hsighted, fun h => h⟩

theorem guar_step {β : Type} {c : CatalogueCmd β} {r : β} (hexec : s.1.exec k.base t a c = some (r, s'.1))
    (hnote : s'.2 = noted k t c r s'.1 s.2) (hinformed : Informed k t c s r) (howns : Owns k t c s) : Guar t s s' := by
  cases c with
  | softDeleteDAG dagID =>
    rcases Console.statement_cases hexec with ⟨hr, hw⟩ | ⟨hr, hw⟩
    · rw [hr] at hnote
      exact (Kept.mk (by simp [hw]) (by rw [hw]) (by rw [hw]) hnote).guar
    · by_cases hok : r.isOk = true
      · simp only [noted, hok, if_true] at hnote
        exact guar_softDeleteDAG hw hnote (hr ▸ hok)
      · have hsame : (s.1.process.db.softDeleteDAG dagID).2 = s.1.process.db := by
          rw [hr] at hok
          unfold Db.softDeleteDAG at hok ⊢
          split at hok <;> rename_i hrow
          · rfl
          · split at hok <;> rename_i hdeleted
            · rw [if_pos hdeleted]
            · exact absurd rfl hok
        simp only [noted, hok] at hnote
        rw [hsame] at hw
        exact (Kept.mk (by simp [hw, Console.withDb]) (by rw [hw]; rfl) (by rw [hw]; rfl) hnote).guar
  | upsertDAG d =>
    rcases Console.statement_cases hexec with ⟨hr, hw⟩ | ⟨hr, hw⟩
    · have hsame : s'.2 = s.2 := by
        rw [hnote, hr]
        simp only [noted]
        split <;> rfl
      exact (Kept.mk (by simp [hw]) (by rw [hw]) (by rw [hw]) hsame).guar
    · have hok : r.isOk = true := by
        rw [hr]
        unfold Db.upsertDAG
        split <;> rfl
      refine guar_upsertDAG howns (fun hloads => hinformed hloads hok) hw ?_
      rw [hnote]
      simp only [noted, hok, if_true]
      cases k.creates <;> rfl
  | updateCache f =>
    have hw : _ = s'.1 := congrArg Prod.snd (Option.some.inj hexec)
    exact guar_updateCache howns hinformed hw.symm hnote
  | getDAG dagID =>
    have hw : s'.1 = s.1 := by
      rcases Console.statement_cases hexec with ⟨-, hw⟩ | ⟨-, hw⟩ <;> rw [hw]
      rfl
    refine guar_getDAG hw ?_
    rw [hnote]
    simp only [noted]
    split
    · exact .inr ⟨_, rfl⟩
    · exact .inl rfl
  | lockMu =>
    simp only [Console.exec] at hexec
    split at hexec
    · rename_i hfree
      have hw := congrArg Prod.snd (Option.some.inj hexec)
      dsimp only at hw
      exact guar_mu (.inl hfree) (.inr (by rw [← hw])) (by rw [← hw]) hnote
    · cases hexec
  | unlockMu =>
    have hw : _ = s'.1 := congrArg Prod.snd (Option.some.inj hexec)
    exact guar_mu (.inr howns) (.inl (by rw [← hw])) (by rw [← hw]) hnote
  | _ => exact (kept_step (by trivial) hexec hnote).guar

end Step

/-! ### The programs -/

section Rules
variable {k : ReloadKind cfg} {t : Nat} {α : Type} {dagID : String}

private def rules (k : ReloadKind cfg) (t : Nat) : Rules CatalogueCmd (Console × Past) where
  sem := ((recorded cfg).answering Informed).sem k t
  rely := Rely t
  guar _ s _ s' := Guar t s s'

private theorem sem_guar {β : Type} {c : CatalogueCmd β} {s s' : Console × Past} {r : β} (hsem : (rules k t).sem c s r s')
    (howns : Owns k t c s) : (rules k t).guar c s r s' := by
  obtain ⟨hinformed, ⟨a, hexec⟩, hnote⟩ := hsem
  exact guar_step hexec hnote hinformed howns

/-- The thread does not hold the mutex. -/
private def Free (t : Nat) (s : Console × Past) : Prop := s.1.mu ≠ some t

private theorem stable_free : Stable (rules k t) (Free t) := fun _ _ h hs hmu => hs (h.mu.mp hmu)

private theorem stable_held : Stable (rules k t) (fun s => s.1.mu = some t) := fun _ _ h hs => h.mu.mpr hs

private theorem stable_entitled : Stable (rules k t) (Entitled k t dagID) := fun _ _ h hs => h.entitled hs

/-- A plain command is no more than interference. -/
private theorem plain_keeps {A : Console × Past → Prop} (hA : Stable (rules k t) A) {p : Program CatalogueCmd α}
    (hp : p.Uses plain) {s : Console × Past} (hs : A s) : Holds (rules k t) p (fun _ s => A s) s := by
  refine Holds.of_uses hp hs hA ?_
  intro β c hc s r s' hs hsem
  obtain ⟨-, ⟨a, hexec⟩, hnote⟩ := hsem
  have hkept := kept_step hc hexec hnote
  exact ⟨hkept.guar, hA s s' (hkept.rely t) hs⟩

private theorem plain_ends {A : Console × Past → Prop} (hA : Stable (rules k t) A) {x : CatalogueM α} (hx : x.Uses plain) :
    Triple (rules k t) A x (Ends (fun _ => A) A) := by
  intro s hs
  refine (plain_keeps hA hx hs).mono ?_
  intro r s hs
  cases r <;> exact hs

/-- A critical section that keeps an assertion about the rows and the record. -/
private theorem underMu_keeps {A : Console × Past → Prop} {body : CatalogueM α} {q : Except Err α → Console × Past → Prop}
    (hA : Stable (rules k t) A) (hq : ∀ r, Stable (rules k t) (q r)) (hprocess : ∀ s m, A s → A ({ s.1 with mu := m }, s.2))
    (hdone : ∀ r s m, q r s → q r ({ s.1 with mu := m }, s.2))
    (hbody : Triple (rules k t) (fun s => s.1.mu = some t ∧ A s) body (fun r s => s.1.mu = some t ∧ q r s)) :
    Triple (rules k t) A (underMu body) (fun r s => Free t s ∧ q r s) := by
  refine .around (i := fun s => s.1.mu = some t ∧ A s) hA ?_ hbody ?_ ?_
  · intro s s' hs hsem
    refine ⟨sem_guar hsem trivial, ?_⟩
    obtain ⟨-, ⟨a, hexec⟩, hnote⟩ := hsem
    simp only [Console.exec] at hexec
    split at hexec
    · have hw : _ = s'.1 := congrArg Prod.snd (Option.some.inj hexec)
      have hs' : s' = ({ s.1 with mu := some t }, s.2) := Prod.ext hw.symm hnote
      rw [hs']
      exact ⟨rfl, hprocess s _ hs⟩
    · cases hexec
  · exact fun r s s' h hs => ⟨h.mu.mpr hs.1, hq r s s' h hs.2⟩
  · intro r s s' hs hsem
    refine ⟨sem_guar hsem hs.1, ?_⟩
    obtain ⟨-, ⟨a, hexec⟩, hnote⟩ := hsem
    have hw : _ = s'.1 := congrArg Prod.snd (Option.some.inj hexec)
    have hs' : s' = ({ s.1 with mu := none }, s.2) := Prod.ext hw.symm hnote
    rw [hs']
    exact ⟨(fun h => by cases h), hdone r s _ hs.2⟩

/-- An update of the cache the thread may make. -/
private theorem updateCache_keeps {A : Console × Past → Prop} {f : List DAG → List DAG} (hA : Stable (rules k t) A)
    (hmu : ∀ s, A s → s.1.mu = some t) (howns : ∀ s, A s → Owns k t (.updateCache f) s) :
    Triple (rules k t) A (updateCache f) (fun _ s => s.1.mu = some t ∧ True) := by
  refine .lift hA ?_
  intro s r s' hs hsem
  refine ⟨sem_guar hsem (howns s hs), ?_, trivial⟩
  obtain ⟨-, ⟨a, hexec⟩, hnote⟩ := hsem
  have hw : _ = s'.1 := congrArg Prod.snd (Option.some.inj hexec)
  rw [← hw]
  exact hmu s hs

/-- The cache is updated in a section of its own. -/
private theorem section_keeps {A : Console × Past → Prop} {f : List DAG → List DAG} (hA : Stable (rules k t) A)
    (hprocess : ∀ s m, A s → A ({ s.1 with mu := m }, s.2)) (howns : ∀ s, A s → Owns k t (.updateCache f) s) :
    Triple (rules k t) A (underMu (updateCache f)) (fun _ => Free t) := by
  have hbody := updateCache_keeps (f := f) (stable_held.and hA) (fun _ hs => hs.1) (fun s hs => howns s hs.2)
  exact (underMu_keeps hA (fun _ _ _ _ hs => hs) hprocess (fun _ _ _ hs => hs) hbody).weaken (fun _ _ hs => hs.1)

private theorem setPaused_keeps {v : Bool} (hk : deletes k = none) :
    Triple (rules k t) (Free t) (setPaused dagID v) (fun _ => Free t) := by
  have hcache : Triple (rules k t) (fun _ => True)
      (underMu (updateCache (fun dags => dags.map (fun d => if d.dagID = dagID then { d with paused := v } else d))))
      (fun _ => Free t) := by
    refine section_keeps (fun _ _ _ _ => trivial) (fun _ _ _ => trivial) (fun s _ => ⟨fun d hd => .inl ?_, fun id hid => ?_⟩)
    · obtain ⟨old, hold, heq⟩ := List.mem_map.mp hd
      refine ⟨old, hold, ?_⟩
      rw [← heq]
      split <;> rfl
    · rw [hk] at hid
      cases hid
  exact .seq (plain_ends stable_free (.call trivial)) (fun _ => hcache.strengthen (fun _ _ => trivial)) (fun _ _ hs => hs)

private theorem deleteDAG_keeps :
    Triple (rules (.catalogue (.deleteDAG dagID) : ReloadKind cfg) t) (Free t) (deleteDAG dagID) (fun _ => Free t) := by
  have hcache : Triple (rules (.catalogue (.deleteDAG dagID) : ReloadKind cfg) t) (fun _ => True)
      (underMu (updateCache (fun dags => dags.filter (fun d => d.dagID ≠ dagID)))) (fun _ => Free t) := by
    refine section_keeps (fun _ _ _ _ => trivial) (fun _ _ _ => trivial) (fun s _ => ⟨fun d hd => .inl ?_, fun id hid d hd => ?_⟩)
    · exact ⟨d, (List.mem_filter.mp hd).1, rfl⟩
    · cases hid
      simpa using (List.mem_filter.mp hd).2
  have harchive : Triple (rules (.catalogue (.deleteDAG dagID) : ReloadKind cfg) t) (Free t) (storeOp (.softDeleteDAG dagID))
      (Ends (fun _ => Free t) (Free t)) := by
    refine .call stable_free ?_
    intro s r s' hs hsem
    refine ⟨sem_guar hsem trivial, ?_⟩
    obtain ⟨-, ⟨a, hexec⟩, -⟩ := hsem
    have hfree : Free t s' := by
      unfold Free
      rcases Console.statement_cases hexec with ⟨-, hw⟩ | ⟨-, hw⟩ <;> rw [hw]
      · exact hs
      · exact hs
    cases r <;> exact hfree
  refine .seq (plain_ends stable_free (.call trivial)) (fun active => .refuse (fun _ hs => hs) (fun _ => ?_)) (fun _ _ hs => hs)
  exact .seq harchive (fun _ => hcache.strengthen (fun _ _ => trivial)) (fun _ _ hs => hs)

/-- A read under the mutex decides nothing, and neither does one of a request. -/
private theorem readBack_keeps {A : Console × Past → Prop} (hA : Stable (rules k t) A)
    (hmu : ∀ s, A s → loads k = true → s.1.mu = some t) :
    Triple (rules k t) A (Fallible.outcome (storeOp (.getDAG dagID))) (Ends (fun _ => A) (fun _ => False)) := by
  refine .outcome (.call hA ?_)
  intro s r s' hs hsem
  refine ⟨sem_guar hsem trivial, ?_⟩
  obtain ⟨-, ⟨a, hexec⟩, hnote⟩ := hsem
  have hw : s'.1 = s.1 := by
    rcases Console.statement_cases hexec with ⟨-, hw⟩ | ⟨-, hw⟩ <;> rw [hw]
    rfl
  have hpast : s'.2 = s.2 := by
    rw [hnote]
    refine if_neg (fun hfirst => hfirst.2 ?_)
    rw [hw]
    exact hmu s hs hfirst.1
  rw [show s' = s from Prod.ext hw hpast]
  exact hs

private theorem publish_owns {d : DAG} {s : Console × Past} (hentitled : Entitled k t d.dagID s) (hk : deletes k = none) :
    Owns k t (.updateCache (publish d)) s := by
  refine ⟨fun x hx => ?_, fun id hid => ?_⟩
  · rcases List.mem_cons.mp hx with rfl | hold
    · exact .inr hentitled
    · exact .inl ⟨x, (List.mem_filter.mp hold).1, rfl⟩
  · rw [hk] at hid
    cases hid

/-- What `registerDAG` publishes, under the mutex. -/
private def publishRow (d : DAG) : CatalogueM Unit := do
  match ← Fallible.outcome (storeOp (.getDAG d.dagID)) with
  | .ok row => updateCache (publish { d with paused := row.paused })
  | .error _ => updateCache (publish d)

/-- A thread that may register a DAG does so. -/
private theorem registerDAG_keeps {d : DAG} (hk : deletes k = none) :
    Triple (rules k t) (fun s => Free t s ∧ Entitled k t d.dagID s) (registerDAG cfg d) (fun _ => Free t) := by
  have hready : Stable (rules k t) (fun s => Free t s ∧ Entitled k t d.dagID s) := stable_free.and stable_entitled
  have hlocked : Stable (rules k t) (fun s => s.1.mu = some t ∧ Entitled k t d.dagID s) := stable_held.and stable_entitled
  have hupsert : Triple (rules k t) (fun s => Free t s ∧ Entitled k t d.dagID s) (storeOp (.upsertDAG d))
      (Ends (fun _ s => Free t s ∧ Entitled k t d.dagID s) (fun s => Free t s ∧ Entitled k t d.dagID s)) := by
    refine .call hready ?_
    intro s r s' hs hsem
    refine ⟨sem_guar hsem hs.2, ?_⟩
    obtain ⟨-, ⟨a, hexec⟩, hnote⟩ := hsem
    have hfree : Free t s' := by
      unfold Free
      rcases Console.statement_cases hexec with ⟨-, hw⟩ | ⟨-, hw⟩ <;> rw [hw]
      · exact hs.1
      · exact hs.1
    have hentitled : Entitled k t d.dagID s' := by
      refine hs.2.imp id (fun hentitled => ⟨hentitled.1, fun id hid => ?_⟩)
      obtain ⟨hloads, hclear⟩ := hentitled
      have hpast : s'.2 = s.2 := by
        rw [hnote]
        simp only [noted, loads_creates hloads]
      rw [hpast] at hid
      obtain ⟨hsame, hlive⟩ := hclear id hid
      refine ⟨hsame, ?_⟩
      rcases Console.statement_cases hexec with ⟨-, hw⟩ | ⟨-, hw⟩
      · rw [hw]
        exact hlive
      · obtain ⟨row, hrow, -, hactive, -⟩ := s.1.process.db.upsertDAG_self d
        rw [hw]
        simp only [Console.withDb, Db.isArchived, hrow, Option.any_some, hactive]
    cases r <;> exact ⟨hfree, hentitled⟩
  have hpublish : Triple (rules k t) (fun s => Free t s ∧ Entitled k t d.dagID s) (underMu (publishRow d)) (fun _ => Free t) := by
    have hbody : Triple (rules k t) (fun s => s.1.mu = some t ∧ Entitled k t d.dagID s) (publishRow d)
        (fun _ s => s.1.mu = some t ∧ True) := by
      refine .next (readBack_keeps hlocked (fun _ hs _ => hs.1)) (fun result => ?_)
      cases result with
      | ok row => exact updateCache_keeps hlocked (fun _ hs => hs.1) (fun s hs => publish_owns (d := { d with paused := row.paused }) hs.2 hk)
      | error e => exact updateCache_keeps hlocked (fun _ hs => hs.1) (fun s hs => publish_owns hs.2 hk)
    have hsection := underMu_keeps stable_entitled (fun _ _ _ _ hs => hs) (fun _ _ hs => hs) (fun _ _ _ hs => hs) hbody
    exact hsection.mono (fun _ hs => hs.2) (fun _ _ hs => hs.1)
  refine .seq hupsert (fun _ => .seq (plain_ends hready (ensurePools_uses (fun _ => trivial) (fun _ => trivial) _ _)) (fun _ =>
    .seq (plain_ends hready (.call trivial)) (fun _ => .ite (fun _ => ?_) (fun _ => hpublish)) (fun _ _ hs => hs.1))
    (fun _ _ hs => hs.1)) (fun _ _ hs => hs.1)
  exact .seq (plain_ends hready (.ofExcept _)) (fun _ => hpublish) (fun _ _ hs => hs.1)

private theorem createDAG_keeps {definitionYAML : String} (hk : deletes k = none)
    (hcreates : ∀ d, parseDefinition cfg definitionYAML = .ok d → k.creates = some d.dagID) :
    Triple (rules k t) (Free t) (createDAG cfg definitionYAML) (fun _ => Free t) := by
  have hparsed : Triple (rules k t) (Free t) (Fallible.ofExcept (parseDefinition cfg definitionYAML))
      (Ends (fun d s => k.creates = some d.dagID ∧ Free t s) (Free t)) := by
    refine .ofExcept ?_
    intro s hs
    cases hparse : parseDefinition cfg definitionYAML with
    | error e => exact hs
    | ok d => exact ⟨hcreates d hparse, hs⟩
  refine .seq hparsed (fun d => .given (fun hd => ?_)) (fun _ _ hs => hs)
  refine .seq (plain_ends stable_free (.call trivial)) (fun _ => ?_) (fun _ _ hs => hs)
  exact (registerDAG_keeps hk).strengthen (fun _ hs => ⟨hs, .inl hd⟩)

private theorem buildDAG_keeps (save : Save cfg) : Triple (rules (.catalogue (.buildDAG save) : ReloadKind cfg) t) (Free t)
    (buildDAG cfg save) (fun _ => Free t) := by
  have hcreate : Triple (rules (.catalogue (.buildDAG save) : ReloadKind cfg) t) (Free t) (createDAG cfg save.definitionYAML)
      (fun _ => Free t) := createDAG_keeps rfl (fun d hd => congrArg some (save.names d hd).symm)
  refine .next (readBack_keeps stable_free (fun _ _ h => by cases h)) (fun result => ?_)
  cases result with
  | ok row => exact .ite (fun _ => .throw (fun _ hs => hs)) (fun _ => hcreate)
  | error e =>
    cases e with
    | notFound => exact hcreate
    | _ => exact .throw (fun _ hs => hs)

/-! ### The loader -/

section Loader
variable {entries : Scan} {skipUnchanged : Bool}

/-- What the loader knows of a file whose row it has not found archived. -/
private theorem read_keeps {k : ReloadKind cfg} (hk : loads k = true) :
    Triple (rules k t) (Free t) (Fallible.outcome (storeOp (.getDAG dagID)))
      (Ends (fun existing s => Free t s ∧ (readArchived existing = false → Clear t dagID s)) (fun _ => False)) := by
  refine .outcome (.call stable_free ?_)
  intro s r s' hs hsem
  refine ⟨sem_guar hsem trivial, ?_⟩
  obtain ⟨-, ⟨a, hexec⟩, hnote⟩ := hsem
  have hw : s'.1 = s.1 := by
    rcases Console.statement_cases hexec with ⟨-, hw⟩ | ⟨-, hw⟩ <;> rw [hw]
    rfl
  have hfree : Free t s' := by
    unfold Free
    rw [hw]
    exact hs
  refine ⟨hfree, fun hlive id hid => ?_⟩
  have hpast : s'.2 = s.2.sight t (if misled dagID r s'.1 then none else some dagID) := hnote.trans (if_pos ⟨hk, hfree⟩)
  rw [hpast] at hid
  simp only [Past.sight, Function.update_self] at hid
  split at hid
  · cases hid
  · rename_i hmisled
    refine ⟨(Option.some.inj hid).symm, ?_⟩
    cases r with
    | error e => simpa [misled, Except.isOk, Except.toBool] using hmisled
    | ok row =>
      rcases Console.statement_cases hexec with ⟨hr, -⟩ | ⟨hr, -⟩
      · cases hr
      · rw [hw]
        cases hrow : s.1.process.db.dag? dagID with
        | none => rw [Db.isArchived, hrow, Option.any_none]
        | some row' =>
          rw [Db.getDAG_of_dag? hrow] at hr
          cases hr
          rw [Db.isArchived, hrow, Option.any_some]
          exact hlive

private theorem lookup_keeps {β : Type} {A : Console × Past → Prop} (hA : Stable (rules k t) A)
    (hprocess : ∀ s m, A s → A ({ s.1 with mu := m }, s.2)) (x : M β) :
    Triple (rules k t) A (lookup x) (fun _ s => Free t s ∧ A s) := by
  refine underMu_keeps hA (fun _ => hA) hprocess (fun _ s m hs => hprocess s m hs) ?_
  intro s hs
  exact plain_keeps (stable_held.and hA) (Program.Uses.translate (Program.Uses.any _) (fun _ _ => by trivial)) hs

private theorem loadDAGFile_keeps {k : ReloadKind cfg} (hk : loads k = true) (hdeletes : deletes k = none) (raw : String) :
    Triple (rules k t) (Free t) (loadDAGFile cfg skipUnchanged raw) (fun _ => Free t) := by
  unfold loadDAGFile
  cases parseDefinition cfg raw with
  | error e => exact .pure (fun _ hs => hs)
  | ok d =>
    have hclear : Stable (rules k t) (fun s => Free t s ∧ Clear t d.dagID s) :=
      stable_free.and (fun _ _ h hs => h.clear hs)
    have hcached : Triple (rules k t) (fun s => Free t s ∧ Clear t d.dagID s) (lookup (cachedDAG d.dagID))
        (Ends (fun _ s => Free t s ∧ Clear t d.dagID s) (Free t)) := by
      have hlookup := lookup_keeps (k := k) (fun _ _ h hs => Rely.clear h hs) (fun _ _ hs => hs) (A := Clear t d.dagID)
        (cachedDAG d.dagID)
      refine hlookup.mono (fun _ hs => hs.2) ?_
      intro r s hs
      cases r with
      | ok _ => exact hs
      | error _ => exact hs.1
    have hregister : Triple (rules k t) (fun s => Free t s ∧ Clear t d.dagID s)
        (do let _ ← Fallible.outcome (registerDAG cfg d); pure ()) (fun _ => Free t) := by
      have hready := (registerDAG_keeps hdeletes).strengthen
        (fun s (hs : Free t s ∧ Clear t d.dagID s) => ⟨hs.1, .inr ⟨hk, hs.2⟩⟩)
      have houtcome : Triple (rules k t) (fun s => Free t s ∧ Clear t d.dagID s) (Fallible.outcome (registerDAG cfg d))
          (Ends (fun _ => Free t) (fun _ => False)) := .outcome hready
      exact .next houtcome (fun _ => .pure (fun _ hs => hs))
    refine .next (read_keeps hk) (fun existing => .ite (fun _ => .pure (fun _ hs => hs.1)) (fun harchived => ?_))
    have hlive : readArchived existing = false := by simpa using harchived
    refine Triple.strengthen (p := fun s => Free t s ∧ Clear t d.dagID s) ?_ (fun s hs => ⟨hs.1, hs.2 hlive⟩)
    have hrest : ∀ cached : Option DAG, Triple (rules k t) (fun s => Free t s ∧ Clear t d.dagID s)
        (if cached.isSome then pure () else do let _ ← Fallible.outcome (registerDAG cfg d); pure ()) (fun _ => Free t) :=
      fun cached => .ite (fun _ => .pure (fun _ hs => hs.1)) (fun _ => hregister)
    exact .ite (fun _ => .seq hcached hrest (fun _ _ hs => hs)) (fun _ => hrest none)

/-- One file of a scan. -/
private def loadEntry (cfg : Cfg) (skipUnchanged : Bool) : Option String → CatalogueM Unit
  | none => pure ()
  | some raw => loadDAGFile cfg skipUnchanged raw

private theorem loadDAGFiles_keeps (entries : Scan) (skipUnchanged : Bool) :
    Triple (rules (.loadDAGFiles entries skipUnchanged : ReloadKind cfg) t) (Free t) (loadDAGFiles cfg entries skipUnchanged)
      (fun _ => Free t) := by
  cases entries with
  | error e =>
    cases e with
    | notFound => exact .pure (fun _ hs => hs)
    | _ => exact .throw (fun _ hs => hs)
  | ok files =>
    have hfiles := Triple.forM_mem (R := rules (.loadDAGFiles (.ok files) skipUnchanged : ReloadKind cfg) t) (l := files)
      (f := loadEntry cfg skipUnchanged) (I := Free t) (E := Free t) ?_
    · refine hfiles.weaken ?_
      intro r s hs
      cases r <;> exact hs
    · intro file _
      cases file with
      | none => exact .pure (fun _ hs => hs)
      | some raw =>
        refine (loadDAGFile_keeps rfl rfl raw).weaken ?_
        intro r s hs
        cases r <;> exact hs

end Loader

/-! ### Every run -/

private theorem kept_start {s s' : Console × Past} {p : Program CatalogueCmd (Except Err Unit)}
    (h : ((recorded cfg).answering Informed).start t k p s s') : Kept s s' := by
  obtain ⟨w', past'⟩ := s'
  obtain ⟨hbegin, rfl⟩ := h
  obtain ⟨hdb, hdags, hmu⟩ := ReloadStarts.same (show ReloadStarts cfg t k p s.1 w' from hbegin)
  exact ⟨fun dagID => by rw [hdb], hdags, hmu, rfl⟩

private def discipline (cfg : Cfg) : Discipline ((recorded cfg).answering Informed) where
  inv := Inv
  free := Free
  rely := Rely
  guar k t _ c s r s' := (rules k t).guar c s r s'
  rely_refl := Rely.refl
  rely_trans _ _ _ _ h h' := h.trans h'
  free_rely _ _ _ h hs hmu := hs (h.mu.mp hmu)
  guar_inv _ _ _ _ _ _ _ hi h := h.1 hi
  guar_rely _ _ t' _ _ _ _ _ hne _ h := h.2 t' (Ne.symm hne)
  start_inv t k p s s' hi _ hstart := ((kept_start hstart).guar (t := t)).1 hi
  start_rely t k p s s' _ _ hstart t' _ := (kept_start hstart).rely t'
  start_holds t k p s s' _ hfree hstart := by
    have hfree' : Free t s' := fun hmu => hfree (((kept_start hstart).rely t).mu.mp hmu)
    obtain ⟨w', past'⟩ := s'
    obtain ⟨hbegin, -⟩ := hstart
    change ReloadStarts cfg t k p s.1 w' at hbegin
    cases hbegin with
    | catalogue h hregister =>
      cases h with
      | scheduler h => exact plain_keeps stable_free (Program.Uses.translate (Program.Uses.any _) (fun _ _ => by trivial)) hfree'
      | deleteDAG dagID => exact deleteDAG_keeps _ hfree'
      | setPaused dagID paused => exact setPaused_keeps rfl _ hfree'
      | registerDAG d => exact absurd rfl (hregister d)
      | buildDAG save => exact buildDAG_keeps save _ hfree'
    | createDAG yaml =>
      refine createDAG_keeps rfl (fun d hd => ?_) _ hfree'
      simp only [ReloadKind.creates, hd]
    | loadDAGFiles entries skipUnchanged => exact loadDAGFiles_keeps entries skipUnchanged _ hfree'
  drift_inv _ _ _ h := h.elim
  drift_rely _ _ _ h := h.elim
  reset_inv s s' hi h := by
    obtain ⟨w', past'⟩ := s'
    obtain ⟨hcrash, hpast⟩ := h
    obtain rfl : past' = _ := hpast
    obtain rfl : w' = _ := hcrash
    refine ⟨fun dagID hgone => ⟨(hi.stays dagID hgone).1, fun d hd => by cases hd⟩, fun t dagID hleaving => by cases hleaving⟩
  reset_free s s' _ h t := by
    obtain ⟨w', past'⟩ := s'
    obtain ⟨hcrash, -⟩ := h
    obtain rfl : w' = _ := hcrash
    exact fun hmu => by cases hmu

/-- Where the loader is informed, a DAG that a `deleteDAG` has archived stays archived
and out of the cache until a request creates it. -/
theorem archived_until_created (cfg : Cfg)
    {c : Config (ReloadKind cfg) CatalogueCmd (Except Err Unit) (Console × Past)}
    (hreach : ((recorded cfg).answering Informed).Reachable (fun s => s.1.mu = none ∧ s.2 = {}) c) : Stays c.world := by
  have hsound : (discipline cfg).Sound c := by
    refine (discipline cfg).reachable_sound ?_ hreach
    rintro ⟨w, past⟩ ⟨hmu, rfl⟩
    have hinv : Inv (w, {}) := ⟨fun _ h => (by cases h), fun _ _ h => (by cases h)⟩
    refine ⟨hinv, fun t hheld => ?_⟩
    rw [hmu] at hheld
    cases hheld
  have hinv : Inv c.world := hsound.1
  exact hinv.stays

end Rules

/-! ### Concrete runs -/

inductive Move where
  | act (t : Nat) (a : Answer)
  | deleteDAG (t : Nat) (dagID : String)
  | loadDAGFiles (t : Nat) (entries : Scan) (skipUnchanged : Bool)

abbrev State (cfg : Cfg) := Config (ReloadKind cfg) CatalogueCmd (Except Err Unit) (Console × Past)

/-- One command with its record. -/
def exec (a : Answer) (k : ReloadKind cfg) (t : Nat) {β : Type} (c : CatalogueCmd β) (s : Console × Past) :
    Option (β × Console × Past) :=
  (s.1.exec k.base t a c).map (fun result => (result.1, result.2, noted k t c result.1 result.2 s.2))

/-- The state after a move; `ok` accepts the answers. -/
def turn (ok : ReloadKind cfg → Nat → {β : Type} → CatalogueCmd β → Console × Past → β → Bool) (c : State cfg) :
    Move → Option (State cfg)
  | .act t a => c.act (fun k t _ cmd s => (exec a k t cmd s).filter (fun result => ok k t cmd s result.1)) t
  | .deleteDAG t dagID => if t = 0 then none else c.launch t (.catalogue (.deleteDAG dagID)) (Scheduler.deleteDAG dagID).run c.world
  | .loadDAGFiles t entries skipUnchanged =>
    if t = 0 then none
    else c.launch t (.loadDAGFiles entries skipUnchanged) (Scheduler.loadDAGFiles cfg entries skipUnchanged).run c.world

theorem turn_step {ok : ReloadKind cfg → Nat → {β : Type} → CatalogueCmd β → Console × Past → β → Bool}
    {cond : ReloadKind cfg → Nat → {β : Type} → CatalogueCmd β → Console × Past → β → Prop}
    (hok : ∀ k t {β : Type} (cmd : CatalogueCmd β) s r, ok k t cmd s r = true → cond k t cmd s r) (c : State cfg) (m : Move)
    (c' : State cfg) (h : turn ok c m = some c') : ∃ l, ((recorded cfg).answering cond).Step c l c' := by
  cases m with
  | act t a =>
    have hact : c.act (fun k t _ cmd s => (exec a k t cmd s).filter (fun result => ok k t cmd s result.1)) t = some c' := h
    refine Config.act_step ?_ hact
    intro k β cmd r w hexec
    obtain ⟨hmapped, hallowed⟩ := Option.filter_eq_some_iff.mp hexec
    obtain ⟨⟨r', w'⟩, hresult, heq⟩ := Option.map_eq_some_iff.mp hmapped
    cases heq
    exact ⟨hok k t cmd _ _ hallowed, ⟨a, hresult⟩, rfl⟩
  | deleteDAG t dagID =>
    simp only [turn] at h
    split at h
    · cases h
    · rename_i ht
      have hother : ∀ d, CatalogueKind.deleteDAG dagID ≠ (.registerDAG d : CatalogueKind cfg) := by
        intro d hd
        cases hd
      exact Config.launch_step ⟨.catalogue (.deleteDAG t dagID _ ht) hother, rfl⟩ h
  | loadDAGFiles t entries skipUnchanged =>
    simp only [turn] at h
    split at h
    · cases h
    · rename_i ht
      exact Config.launch_step ⟨.loadDAGFiles t entries skipUnchanged _ ht, rfl⟩ h

/-- The DAG is archived, and `deleteDAG` has returned without an error. -/
def Returned (dagID : String) (c : State cfg) : Prop :=
  dagID ∈ c.world.2.gone ∧ ∃ t, c.threads t = some (.catalogue (.deleteDAG dagID), .pure (.ok ()))

/-- The thread has run `deleteDAG` to its end. -/
def returned (c : State cfg) (t : Nat) : Option String :=
  match c.threads t with
  | some (.catalogue (.deleteDAG dagID), .pure (.ok _)) => some dagID
  | _ => none

theorem returned_spec {c : State cfg} {t : Nat} {dagID : String} (h : returned c t = some dagID) :
    c.threads t = some (.catalogue (.deleteDAG dagID), .pure (.ok ())) := by
  unfold returned at h
  split at h
  · rename_i id u heq
    cases h
    exact heq
  · cases h

def reloadCfg : Cfg := .ofDocuments [("job: b", { dagID := "job", tasks := [{ id := "b", command := "true" }] })]

/-- The DAG is registered with another definition than its file has. -/
def reloadConsole : Console :=
  { process :=
    { db := { dags := .single { dagID := "job", definitionYAML := "job: a" } }
      dags := [{ dagID := "job" }] } }

def reloadStart : State reloadCfg := ⟨(reloadConsole, {}), fun _ => none⟩

/-- The DAG is archived after the loader has read its row. -/
def windowMoves : List Move :=
  .loadDAGFiles 1 (.ok [some "job: b"]) true :: .act 1 .fine :: .deleteDAG 2 "job" :: List.replicate 5 (.act 2 .fine) ++
    List.replicate 8 (.act 1 .fine)

/-- The DAG is archived before, and the row cannot be read. -/
def unreadMoves : List Move :=
  .deleteDAG 2 "job" :: List.replicate 5 (.act 2 .fine) ++
    .loadDAGFiles 1 (.ok [some "job: b"]) false :: .act 1 .fault :: List.replicate 8 (.act 1 .fine)

/-- What is seen of the end of a run. -/
def seen (c : State cfg) : Option String × List String × Bool × Bool :=
  (returned c 2, c.world.2.gone, c.world.1.process.db.isArchived "job", c.world.1.process.dags.any (fun d => d.dagID = "job"))

theorem archived_dag_revived :
    ¬ ∀ (cfg : Cfg) (c : State cfg) (dagID : String), (recorded cfg).Reachable (fun s => s.1.mu = none ∧ s.2 = {}) c →
      Returned dagID c → c.world.1.process.db.isArchived dagID = true ∧ Absent dagID c.world.1 := by
  have hplay : (reloadStart.plays (turn (fun _ _ _ _ _ _ => true)) windowMoves).map seen = some (some "job", ["job"], false, true) := by
    decide +kernel
  obtain ⟨c, hc, heq⟩ := Option.map_eq_some_iff.mp hplay
  simp only [seen, Prod.mk.injEq] at heq
  obtain ⟨hreturned, hgone, harchived, -⟩ := heq
  have hruns : ((recorded reloadCfg).answering (fun _ _ _ _ _ _ => True)).Runs reloadStart c :=
    Config.plays_runs (turn_step (fun _ _ _ _ _ _ _ => trivial)) hc
  have hreach : (recorded reloadCfg).Reachable (fun s => s.1.mu = none ∧ s.2 = {}) c := ⟨_, ⟨rfl, rfl⟩, hruns.of_answering⟩
  intro h
  have hstays := h reloadCfg c "job" hreach ⟨by simp [hgone], 2, returned_spec hreturned⟩
  rw [harchived] at hstays
  cases hstays.1

example : (reloadStart.plays (turn (fun _ _ _ _ _ _ => true)) unreadMoves).map seen = some (some "job", ["job"], false, true) := by
  decide +kernel

/-- The loader finds what it has read standing. -/
private def informed (k : ReloadKind reloadCfg) (t : Nat) : {β : Type} → CatalogueCmd β → Console × Past → β → Bool
  | _, .upsertDAG _, s, _ | _, .updateCache _, s, _ => !loads k || (s.2.sighted t).isSome
  | _, _, _, _ => true

private theorem informed_spec (k : ReloadKind reloadCfg) (t : Nat) {β : Type} (c : CatalogueCmd β) (s : Console × Past) (r : β)
    (h : informed k t c s r = true) : Informed k t c s r := by
  have hstands : (!loads k || (s.2.sighted t).isSome) = true → loads k = true → (s.2.sighted t).isSome = true := by
    intro h hloads
    rw [hloads] at h
    exact h
  cases c with
  | upsertDAG d => exact fun hloads _ => hstands h hloads
  | updateCache f => exact hstands h
  | _ => trivial

/-- The loader registers the DAG; then it is archived, and skipped by the next pass. -/
def skipMoves : List Move :=
  .loadDAGFiles 1 (.ok [some "job: b"]) true :: List.replicate 9 (.act 1 .fine) ++
    .deleteDAG 2 "job" :: List.replicate 5 (.act 2 .fine) ++ [.loadDAGFiles 1 (.ok [some "job: b"]) true, .act 1 .fine]

theorem archived_until_created_skip :
    ∃ c, ((recorded reloadCfg).answering Informed).Reachable (fun s => s.1.mu = none ∧ s.2 = {}) c ∧
      c.world.2.gone = ["job"] ∧ Stays c.world := by
  have hplay : (reloadStart.plays (turn informed) skipMoves).map seen = some (some "job", ["job"], true, false) := by
    decide +kernel
  obtain ⟨c, hc, heq⟩ := Option.map_eq_some_iff.mp hplay
  simp only [seen, Prod.mk.injEq] at heq
  have hreach : ((recorded reloadCfg).answering Informed).Reachable (fun s => s.1.mu = none ∧ s.2 = {}) c :=
    ⟨_, ⟨rfl, rfl⟩, Config.plays_runs (turn_step informed_spec) hc⟩
  exact ⟨c, hreach, heq.2.1, archived_until_created reloadCfg hreach⟩

end Cronova.Properties.Reload
