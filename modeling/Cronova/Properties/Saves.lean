import Cronova.Scheduler.Catalogue

/-! Saves from the editor as compare-and-swap on the stored definition. A request
compares the hash it carries with the row it reads, and writes the row later. -/
namespace Cronova.Properties.Saves
open Cronova.Model Cronova.Store Cronova.Concurrency Cronova.Concurrency.Fallible Cronova.Scheduler

variable {cfg : Cfg}

abbrev State (cfg : Cfg) := Config (CatalogueKind cfg) CatalogueCmd (Except Err Unit) Console

/-- The DAG is registered and not archived. -/
def Existing (dagID : String) (w : Console) : Prop := ∃ row, w.process.db.dag? dagID = some row ∧ row.deleted = false

/-- The hash of the stored definition. -/
def storedHash (cfg : Cfg) (dagID : String) (w : Console) : Option String :=
  (w.process.db.dag? dagID).map (fun row => cfg.definitionHash row.definitionYAML)

/-- A request on the DAG that carries the hash its editor has seen. -/
def Carries (dagID : String) (save : Save cfg) : Prop := save.dagID = dagID ∧ save.expectedHash ≠ ""

/-- The next command writes the file or the row of a definition. -/
def writing : Program CatalogueCmd (Except Err Unit) → Bool
  | .step (.writeFile _ _) _ | .step (.upsertDAG _) _ => true
  | _ => false

/-- The thread serves a request that has compared its hash and has not written the row yet. -/
def Between (dagID : String) (c : State cfg) (t : Nat) : Prop :=
  ∃ save p, c.threads t = some (.buildDAG save, p) ∧ Carries dagID save ∧ writing p = true

/-- The definition that a command has stored. -/
def stores : {β : Type} → CatalogueCmd β → β → Option DAG
  | _, .upsertDAG d, .ok _ => some d
  | _, _, _ => none

def archives : {β : Type} → CatalogueCmd β → Option String
  | _, .softDeleteDAG dagID => some dagID
  | _, _ => none

/-- A definition of another hash is stored only while no other request is between its
comparison and its write. Nobody archives the DAG. -/
def Serial (dagID : String) (a : State cfg) : Label (CatalogueKind cfg) CatalogueCmd → State cfg → Prop
  | .act t _ c r, _ => archives c ≠ some dagID ∧ ∀ d, stores c r = some d → d.dagID = dagID →
    storedHash cfg dagID a.world = some (cfg.definitionHash d.definitionYAML) ∨ ∀ t', t' ≠ t → ¬ Between dagID a t'
  | _, _ => True

/-- No definition of the DAG with this hash is stored. -/
def Avoids (dagID hash : String) (_ : State cfg) : Label (CatalogueKind cfg) CatalogueCmd → State cfg → Prop
  | .act _ _ c r, _ => ∀ d, stores c r = some d → d.dagID = dagID → cfg.definitionHash d.definitionYAML ≠ hash
  | _, _ => True

/-! ### What one request still has to do -/

/-- Commands that store no definition. -/
def quiet : {β : Type} → CatalogueCmd β → Prop
  | _, .upsertDAG _ => False
  | _, _ => True

/-- A request has not read the row yet; it has compared its hash with the stored one,
which still is the one it carries; or its write is behind it. -/
def Stage (cfg : Cfg) (save : Save cfg) (stored : Option String) (p : Program CatalogueCmd (Except Err Unit)) : Prop :=
  p = (buildDAG cfg save).run ∨
  (stored = some save.expectedHash ∧ ∃ d, parseDefinition cfg save.definitionYAML = .ok d ∧
    (p = (do storeOp (.writeFile d.dagID save.definitionYAML); registerDAG cfg d : CatalogueM Unit).run ∨ p = (registerDAG cfg d).run)) ∨
  p.Uses quiet

/-- The definition that the next command stores. -/
def upserts : Program CatalogueCmd (Except Err Unit) → Option DAG
  | .step (.upsertDAG d) _ => some d
  | _ => none

section Step
variable {w w' : Console} {t : Nat} {a : Answer} {dagID : String} {save : Save cfg} {β : Type} {r : β}

/-- What a request does with the row it has read. -/
theorem buildDAG_next (save : Save cfg) : ∃ next, (buildDAG cfg save).run = .step (.getDAG save.dagID) next ∧
    (∀ row : DagRow, row.deleted = false → save.expectedHash ≠ "" →
      next (.ok row) = if cfg.definitionHash row.definitionYAML = save.expectedHash then (createDAG cfg save.definitionYAML).run
        else .pure (.error .dagConflict)) ∧
    next (.error .failed) = .pure (.error .failed) := by
  refine ⟨_, rfl, fun row hactive hcarried => ?_, rfl⟩
  change (show CatalogueM Unit from
    if save.expectedHash ≠ "" ∧ row.deleted = false ∧ cfg.definitionHash row.definitionYAML ≠ save.expectedHash then do
      throw .dagConflict
      createDAG cfg save.definitionYAML
    else createDAG cfg save.definitionYAML).run = _
  by_cases hcas : cfg.definitionHash row.definitionYAML = save.expectedHash
  · rw [if_neg (fun h => h.2.2 hcas), if_pos hcas]
  · rw [if_pos ⟨hcarried, hactive, hcas⟩, if_neg hcas]
    rfl

theorem createDAG_run {definitionYAML : String} {d : DAG} (h : parseDefinition cfg definitionYAML = .ok d) :
    (createDAG cfg definitionYAML).run =
      (do storeOp (.writeFile d.dagID definitionYAML); registerDAG cfg d : CatalogueM Unit).run := by
  unfold createDAG
  rw [h]
  rfl

/-- The comparison. -/
theorem Stage.read {r : Except Err DagRow} {next : Except Err DagRow → Program CatalogueCmd (Except Err Unit)}
    (hnext : Program.step (.getDAG save.dagID) next = (buildDAG cfg save).run) (hsave : Carries dagID save)
    (hexec : w.exec (.buildDAG save) t a (.getDAG save.dagID) = some (r, w')) (hexists : Existing dagID w) :
    Stage cfg save (storedHash cfg dagID w') (next r) := by
  obtain ⟨row, hrow, hactive⟩ := hexists
  obtain ⟨next', hrun, hok, herror⟩ := buildDAG_next save
  rw [hrun] at hnext
  cases hnext
  rcases Console.statement_cases hexec with ⟨rfl, -⟩ | ⟨rfl, rfl⟩
  · rw [herror]
    exact .inr (.inr trivial)
  · have hread : w.process.db.getDAG save.dagID = .ok row := Db.getDAG_of_dag? (hsave.1 ▸ hrow)
    rw [hread, hok row hactive hsave.2]
    split
    · rename_i hcas
      have hstored : storedHash cfg dagID w = some save.expectedHash := by
        simp only [storedHash, hrow, Option.map_some, hcas]
      cases hparse : parseDefinition cfg save.definitionYAML with
      | error e =>
        unfold createDAG
        rw [hparse]
        exact .inr (.inr trivial)
      | ok d => exact .inr (.inl ⟨hstored, d, hparse, .inl (createDAG_run hparse)⟩)
    · exact .inr (.inr trivial)

/-- A DAG that nobody archives stays. -/
theorem existing_exec {k : CatalogueKind cfg} {c : CatalogueCmd β} (hexec : w.exec k t a c = some (r, w'))
    (harchives : archives c ≠ some dagID) (h : Existing dagID w) : Existing dagID w' := by
  obtain ⟨row, hrow, hactive⟩ := h
  have hid : row.dagID = dagID := (Db.dag?_spec hrow).2
  rcases Console.exec_dag? hexec hrow with h | h
  · exact ⟨row, h, hactive⟩
  · refine ⟨_, h, ?_⟩
    cases c with
    | softDeleteDAG id =>
      have hne : row.dagID ≠ id := fun heq => harchives (congrArg some (heq.symm.trans hid))
      simp only [CatalogueCmd.onRow, if_neg hne, hactive]
    | upsertDAG d =>
      simp only [CatalogueCmd.onRow]
      split
      · rfl
      · exact hactive
    | setDAGPaused id paused =>
      simp only [CatalogueCmd.onRow]
      split <;> exact hactive
    | _ => exact hactive

/-- The row has the definition that was stored last. -/
theorem stores_exec {k : CatalogueKind cfg} {c : CatalogueCmd β} (hexec : w.exec k t a c = some (r, w')) {d : DAG}
    (hstores : stores c r = some d) : ∃ row, w'.process.db.dag? d.dagID = some row ∧ row.definitionYAML = d.definitionYAML := by
  cases c with
  | upsertDAG d' =>
    cases r with
    | error e => cases hstores
    | ok u =>
      obtain rfl : d' = d := Option.some.inj hstores
      rcases Console.statement_cases hexec with ⟨hr, -⟩ | ⟨-, hw⟩
      · cases hr
      · obtain ⟨row, hrow, hyaml, -⟩ := w.process.db.upsertDAG_self d'
        exact ⟨row, by rw [hw]; exact hrow, hyaml⟩
  | _ => cases hstores

/-- Only a definition that is stored changes the hash. -/
theorem storedHash_exec {k : CatalogueKind cfg} {c : CatalogueCmd β} (hexec : w.exec k t a c = some (r, w'))
    (hexists : Existing dagID w) : storedHash cfg dagID w' = storedHash cfg dagID w ∨
      ∃ d, stores c r = some d ∧ d.dagID = dagID ∧ storedHash cfg dagID w' = some (cfg.definitionHash d.definitionYAML) := by
  obtain ⟨row, hrow, -⟩ := hexists
  have hid : row.dagID = dagID := (Db.dag?_spec hrow).2
  have hsame : (c.onRow row).definitionYAML = row.definitionYAML → storedHash cfg dagID w' = storedHash cfg dagID w := by
    intro hyaml
    rcases Console.exec_dag? hexec hrow with h | h
    · simp only [storedHash, h, hrow]
    · simp only [storedHash, h, hrow, Option.map_some, hyaml]
  cases c with
  | upsertDAG d =>
    by_cases hd : d.dagID = dagID
    · rcases Console.statement_cases hexec with ⟨-, hw⟩ | ⟨hr, -⟩
      · exact .inl (by rw [hw])
      · have hstores : stores (.upsertDAG d) r = some d := by
          rw [hr]
          unfold Db.upsertDAG
          split <;> rfl
        obtain ⟨new, hnew, hyaml⟩ := stores_exec hexec hstores
        refine .inr ⟨d, hstores, hd, ?_⟩
        rw [hd] at hnew
        simp only [storedHash, hnew, Option.map_some, hyaml]
    · have hne : row.dagID ≠ d.dagID := fun heq => hd (heq.symm.trans hid)
      exact .inl (hsame (by simp only [CatalogueCmd.onRow, if_neg hne]))
  | softDeleteDAG id =>
    refine .inl (hsame ?_)
    simp only [CatalogueCmd.onRow]
    split <;> rfl
  | setDAGPaused id paused =>
    refine .inl (hsame ?_)
    simp only [CatalogueCmd.onRow]
    split <;> rfl
  | _ => exact .inl (hsame rfl)

/-- The next command of the request. -/
theorem Stage.step {c : CatalogueCmd β} {next : β → Program CatalogueCmd (Except Err Unit)}
    (h : Stage cfg save (storedHash cfg dagID w) (.step c next)) (hsave : Carries dagID save)
    (hexec : w.exec (.buildDAG save) t a c = some (r, w')) (hexists : Existing dagID w) :
    Stage cfg save (storedHash cfg dagID w') (next r) := by
  rcases h with h | ⟨hstored, d, hparse, h | h⟩ | h
  · cases h
    exact .read rfl hsave hexec hexists
  · cases h
    cases r with
    | error e => exact .inr (.inr trivial)
    | ok u =>
      rcases storedHash_exec hexec hexists with hsame | ⟨_, hstores, -⟩
      · exact .inr (.inl ⟨hsame.trans hstored, d, hparse, .inr rfl⟩)
      · cases hstores
  · cases h
    have hrest := @registerDAG_rest cfg d _ rfl r
    refine .inr (.inr (hrest.mono ?_))
    intro γ c hc
    cases c with
    | upsertDAG => exact hc.elim
    | _ => trivial
  · exact .inr (.inr (h.2 r))

/-- The steps of the others. -/
theorem Stage.keep {stored stored' : Option String} {p : Program CatalogueCmd (Except Err Unit)} (h : Stage cfg save stored p)
    (hsame : Saves.writing p = true → stored' = stored) : Stage cfg save stored' p := by
  rcases h with h | ⟨hstored, d, hparse, rfl | rfl⟩ | h
  · exact .inl h
  · exact .inr (.inl ⟨(hsame rfl).trans hstored, d, hparse, .inl rfl⟩)
  · exact .inr (.inl ⟨(hsame rfl).trans hstored, d, hparse, .inr rfl⟩)
  · exact .inr (.inr h)

/-- A request that is about to write has compared its hash. -/
theorem Stage.write {stored : Option String} {d : DAG} {next : Except Err Unit → Program CatalogueCmd (Except Err Unit)}
    (h : Stage cfg save stored (.step (.upsertDAG d) next)) :
    stored = some save.expectedHash ∧ parseDefinition cfg save.definitionYAML = .ok d := by
  have hnext : ∀ {p q : Program CatalogueCmd (Except Err Unit)}, p = q → upserts p = upserts q := fun h => congrArg upserts h
  rcases h with h | ⟨hstored, d', hparse, h | h⟩ | h
  · cases hnext h
  · cases hnext h
  · cases hnext h
    exact ⟨hstored, hparse⟩
  · exact h.1.elim

end Step

/-! ### Every run -/

/-- The DAG exists, and every request that carries a hash is in one of its stages. -/
structure Inv (dagID : String) (c : State cfg) : Prop where
  existing : Existing dagID c.world
  stages : ∀ t save p, c.threads t = some (.buildDAG save, p) → Carries dagID save →
    Stage cfg save (storedHash cfg dagID c.world) p

section Run
variable {dagID : String} {a b c e : State cfg} {l : Label (CatalogueKind cfg) CatalogueCmd}

private theorem inv_act {t : Nat} {k : CatalogueKind cfg} {β : Type} {c : CatalogueCmd β}
    {next : β → Program CatalogueCmd (Except Err Unit)} {r : β} {w : Console} (hi : Inv dagID a)
    (hthread : a.threads t = some (k, .step c next)) {x : Answer} (hexec : a.world.exec k t x c = some (r, w))
    (hserial : Serial dagID a (.act t k c r) ⟨w, Function.update a.threads t (some (k, next r))⟩) :
    Inv dagID ⟨w, Function.update a.threads t (some (k, next r))⟩ := by
  refine ⟨existing_exec hexec hserial.1 hi.existing, fun t' save p hthread' hsave => ?_⟩
  by_cases ht : t' = t
  · subst ht
    simp only [Function.update_self, Option.some.injEq, Prod.mk.injEq] at hthread'
    obtain ⟨rfl, rfl⟩ := hthread'
    exact (hi.stages t' save _ hthread hsave).step hsave hexec hi.existing
  · simp only [Function.update_of_ne ht] at hthread'
    refine (hi.stages t' save p hthread' hsave).keep (fun hwriting => ?_)
    rcases storedHash_exec hexec hi.existing with hsame | ⟨d, hstores, hd, hnew⟩
    · exact hsame
    · rcases hserial.2 d hstores hd with hsame | hnone
      · exact hnew.trans hsame.symm
      · exact absurd ⟨save, p, hthread', hsave, hwriting⟩ (hnone t' ht)

theorem inv_step (hi : Inv dagID a) (hstep : (console cfg).Step a l b) (hserial : Serial dagID a l b) : Inv dagID b := by
  cases hstep with
  | act hthread hsem =>
    obtain ⟨x, hexec⟩ := hsem
    exact inv_act hi hthread hexec hserial
  | @start t k p w hidle hstart =>
    obtain ⟨hdb, -⟩ := CatalogueStarts.same (show CatalogueStarts cfg t k p a.world w from hstart)
    have hexisting : Existing dagID w := by
      unfold Existing
      rw [hdb]
      exact hi.existing
    have hstored : storedHash cfg dagID w = storedHash cfg dagID a.world := by
      unfold storedHash
      rw [hdb]
    refine ⟨hexisting, fun t' save p' hthread' hsave => ?_⟩
    by_cases ht : t' = t
    · subst ht
      simp only [Function.update_self, Option.some.injEq, Prod.mk.injEq] at hthread'
      obtain ⟨rfl, rfl⟩ := hthread'
      cases (show CatalogueStarts cfg t' (.buildDAG save) p a.world w from hstart) with
      | buildDAG => exact .inl rfl
    · simp only [Function.update_of_ne ht] at hthread'
      exact (hi.stages t' save p' hthread' hsave).keep (fun _ => hstored)
  | drift hdrift => exact hdrift.elim
  | @reset w hreset =>
    obtain rfl : w = _ := hreset
    exact ⟨hi.existing, fun _ _ _ hthread _ => by cases hthread⟩

/-- What the console reaches while the writes are serial. -/
def Edited (dagID : String) (c : State cfg) : Prop :=
  ∃ w, Existing dagID w ∧ (console cfg).RunsWhile (Serial dagID) ⟨w, fun _ => none⟩ c

theorem Edited.inv (h : Edited dagID c) : Inv dagID c := by
  obtain ⟨w, hexisting, hruns⟩ := h
  have hstart : Inv dagID (⟨w, fun _ => none⟩ : State cfg) := ⟨hexisting, fun _ _ _ hthread _ => by cases hthread⟩
  exact hruns.keeps (fun _ _ _ hstep hserial hi => inv_step hi hstep hserial) hstart

/-- A request that carries a hash stores its definition. -/
def Writes (dagID : String) (save : Save cfg) (a b : State cfg) : Prop :=
  Carries dagID save ∧ ∃ t d, (console cfg).Step a (.act t (.buildDAG save) (.upsertDAG d) (.ok ())) b ∧
    Serial dagID a (.act t (.buildDAG save) (.upsertDAG d) (.ok ())) b

theorem Writes.edited {save : Save cfg} (ha : Edited dagID a) (h : Writes dagID save a b) : Edited dagID b := by
  obtain ⟨w, hexisting, hruns⟩ := ha
  obtain ⟨-, t, d, hstep, hserial⟩ := h
  exact ⟨w, hexisting, hruns.tail ⟨_, hstep, hserial⟩⟩

/-- A write finds the definition that its editor has seen. -/
theorem Writes.swaps {save : Save cfg} (ha : Edited dagID a) (h : Writes dagID save a b) :
    storedHash cfg dagID a.world = some save.expectedHash ∧
      ∃ row, b.world.process.db.dag? dagID = some row ∧ row.definitionYAML = save.definitionYAML := by
  obtain ⟨hsave, t, d, hstep, -⟩ := h
  cases hstep with
  | act hthread hsem =>
    obtain ⟨x, hexec⟩ := hsem
    obtain ⟨hstored, hparse⟩ := (ha.inv.stages t save _ hthread hsave).write
    have hid : d.dagID = dagID := (save.names d hparse).trans hsave.1
    obtain ⟨row, hrow, hyaml⟩ := stores_exec hexec (show stores (.upsertDAG d) (.ok ()) = some d from rfl)
    rw [hid] at hrow
    exact ⟨hstored, row, hrow, hyaml.trans (parseDefinition_source hparse).1⟩

theorem avoids_step {hash : String} (hi : Inv dagID a) (hstep : (console cfg).Step a l b) (havoids : Avoids dagID hash a l b)
    (ha : storedHash cfg dagID a.world ≠ some hash) : storedHash cfg dagID b.world ≠ some hash := by
  have hsame : storedHash cfg dagID b.world = storedHash cfg dagID a.world → storedHash cfg dagID b.world ≠ some hash :=
    fun h => h ▸ ha
  cases hstep with
  | act hthread hsem =>
    obtain ⟨x, hexec⟩ := hsem
    rcases storedHash_exec hexec hi.existing with h | ⟨d, hstores, hd, hnew⟩
    · exact hsame h
    · rw [hnew, ne_eq, Option.some.injEq]
      exact havoids d hstores hd
  | @start t k p w hidle hstart =>
    obtain ⟨hdb, -⟩ := CatalogueStarts.same (show CatalogueStarts cfg t k p a.world w from hstart)
    refine hsame ?_
    unfold storedHash
    rw [hdb]
  | drift hdrift => exact hdrift.elim
  | @reset w hreset =>
    obtain rfl : w = _ := hreset
    exact ha

/-- While writes are serial, a write finds the definition its editor has seen, and of
the requests that carry one hash no second one writes unless a definition with that
hash comes back. -/
theorem saves_compare_and_swap (cfg : Cfg) (dagID : String) :
    (∀ (a b : State cfg) (save : Save cfg), Edited dagID a → Writes dagID save a b →
      storedHash cfg dagID a.world = some save.expectedHash ∧
        ∃ row, b.world.process.db.dag? dagID = some row ∧ row.definitionYAML = save.definitionYAML) ∧
    ∀ (a b c e : State cfg) (save save' : Save cfg), Edited dagID a → Writes dagID save a b →
      cfg.definitionHash save.definitionYAML ≠ save.expectedHash →
      (console cfg).RunsWhile (fun x l y => Serial dagID x l y ∧ Avoids dagID save.expectedHash x l y) b c →
      Writes dagID save' c e → save'.expectedHash ≠ save.expectedHash := by
  refine ⟨fun a b save ha h => h.swaps ha, ?_⟩
  intro a b c e save save' ha hwrite hchanged hruns hwrite'
  have hb := hwrite.edited ha
  have hstart : storedHash cfg dagID b.world ≠ some save.expectedHash := by
    obtain ⟨-, row, hrow, hyaml⟩ := hwrite.swaps ha
    simp only [storedHash, hrow, Option.map_some, hyaml, ne_eq, Option.some.injEq]
    exact hchanged
  have hkeeps : Inv dagID c ∧ storedHash cfg dagID c.world ≠ some save.expectedHash := by
    refine hruns.keeps (I := fun x => Inv dagID x ∧ storedHash cfg dagID x.world ≠ some save.expectedHash) ?_ ⟨hb.inv, hstart⟩
    rintro x l y hstep ⟨hserial, havoids⟩ ⟨hi, hx⟩
    exact ⟨inv_step hi hstep hserial, avoids_step hi hstep havoids hx⟩
  have hc : Edited dagID c := by
    obtain ⟨w, hexisting, hpre⟩ := hb
    have hserial : (console cfg).RunsWhile (Serial dagID) b c := by
      refine Relation.ReflTransGen.mono ?_ b c hruns
      rintro x y ⟨l, hstep, hserial, -⟩
      exact ⟨l, hstep, hserial⟩
    exact ⟨w, hexisting, hpre.trans hserial⟩
  intro hsame
  exact hkeeps.2 ((hwrite'.swaps hc).1.trans (by rw [hsame]))

end Run

/-! ### One save alone -/

section Alone
variable {dagID : String} {save : Save cfg}

private def alone (save : Save cfg) (w : Console) (p : Program CatalogueCmd (Except Err Unit)) : State cfg :=
  ⟨w, Function.update (fun _ => none) 1 (some (.buildDAG save, p))⟩

private theorem alone_step (dagID : String) {β : Type} {c : CatalogueCmd β} (next : β → Program CatalogueCmd (Except Err Unit))
    {r : β} {w w' : Console} (hexec : w.exec (.buildDAG save) 1 .fine c = some (r, w')) (harchives : archives c ≠ some dagID) :
    (console cfg).Step (alone save w (.step c next)) (.act 1 (.buildDAG save) c r) (alone save w' (next r)) ∧
      Serial dagID (alone save w (.step c next)) (.act 1 (.buildDAG save) c r) (alone save w' (next r)) := by
  have hthread : (alone save w (.step c next)).threads 1 = some (.buildDAG save, .step c next) := by
    simp only [alone, Function.update_self]
  have hstep : (console cfg).Step (alone save w (.step c next)) (.act 1 (.buildDAG save) c r) _ := .act hthread ⟨.fine, hexec⟩
  refine ⟨?_, harchives, fun d _ _ => .inr ?_⟩
  · unfold alone at hstep ⊢
    rw [Function.update_idem] at hstep
    exact hstep
  · rintro t hne ⟨save', p, hother, -⟩
    simp only [alone, Function.update_of_ne hne] at hother
    cases hother

/-- A request whose editor has seen the stored definition comes to its write. -/
theorem save_alone {w : Console} {d : DAG} (hexisting : Existing dagID w) (hsave : Carries dagID save)
    (hstored : storedHash cfg dagID w = some save.expectedHash) (hparse : parseDefinition cfg save.definitionYAML = .ok d) :
    ∃ a b : State cfg, Edited dagID a ∧ Writes dagID save a b := by
  obtain ⟨row, hrow, hactive⟩ := hexisting
  have hread : w.exec (.buildDAG save) 1 .fine (.getDAG save.dagID) = some (.ok row, w) := by
    have hget : w.process.db.getDAG save.dagID = .ok row := Db.getDAG_of_dag? (hsave.1 ▸ hrow)
    simp only [Console.exec, Console.statement, hget]
    rfl
  have hfile : w.exec (.buildDAG save) 1 .fine (.writeFile d.dagID save.definitionYAML) = some (.ok (), w) := rfl
  have hupsert : w.exec (.buildDAG save) 1 .fine (.upsertDAG d) = some (.ok (), w.withDb (w.process.db.upsertDAG d).2) := by
    have hok : (w.process.db.upsertDAG d).1 = .ok () := by
      unfold Db.upsertDAG
      split <;> rfl
    simp only [Console.exec, Console.statement, hok]
    rfl
  obtain ⟨next, hrun, hok, -⟩ := buildDAG_next save
  have hcas : cfg.definitionHash row.definitionYAML = save.expectedHash := by
    simpa only [storedHash, hrow, Option.map_some, Option.some.injEq] using hstored
  have hcreate := hok row hactive hsave.2
  rw [if_pos hcas, createDAG_run hparse] at hcreate
  obtain ⟨write, hwrite, hwritten⟩ : ∃ next, (do storeOp (.writeFile d.dagID save.definitionYAML); registerDAG cfg d :
      CatalogueM Unit).run = .step (.writeFile d.dagID save.definitionYAML) next ∧ next (.ok ()) = (registerDAG cfg d).run :=
    ⟨_, rfl, rfl⟩
  obtain ⟨rest, hrest⟩ : ∃ next, (registerDAG cfg d).run = .step (.upsertDAG d) next := ⟨_, rfl⟩
  have hstart : (console cfg).Step ⟨w, fun _ => none⟩ (.start 1 (.buildDAG save)) (alone save w (buildDAG cfg save).run) :=
    .start trivial (.buildDAG 1 save w (by decide))
  have hfirst := alone_step dagID next hread (by simp [archives])
  have hsecond := alone_step dagID write hfile (by simp [archives])
  have hthird := alone_step dagID rest hupsert (by simp [archives])
  rw [hcreate, hwrite, ← hrun] at hfirst
  rw [hwritten, hrest] at hsecond
  refine ⟨_, _, ⟨w, ⟨row, hrow, hactive⟩, ?_⟩, hsave, 1, d, hthird.1, hthird.2⟩
  exact ((Relation.ReflTransGen.single ⟨_, hstart, trivial⟩).tail ⟨_, hfirst⟩).tail ⟨_, hsecond⟩

end Alone

/-! ### Two saves over one definition -/

/-- Two documents for one DAG. -/
def editorCfg : Cfg :=
  .ofDocuments [("job: b", { dagID := "job", tasks := [{ id := "a", command := "b" }] }),
    ("job: c", { dagID := "job", tasks := [{ id := "a", command := "c" }] })]

private theorem editorCfg_names {definitionYAML : String} (h : (parseDefinition editorCfg definitionYAML).toOption.all
    (fun d => d.dagID = "job") = true) : ∀ d, parseDefinition editorCfg definitionYAML = .ok d → d.dagID = "job" := by
  intro d hparse
  rw [hparse] at h
  exact of_decide_eq_true h

/-- Both editors have loaded the definition `job: a`. -/
def firstSave : Save editorCfg := ⟨"job", "job: b", "job: a", editorCfg_names (by decide +kernel)⟩
def secondSave : Save editorCfg := ⟨"job", "job: c", "job: a", editorCfg_names (by decide +kernel)⟩

def editorConsole : Console :=
  { process := { db := { dags := ⟨[{ dagID := "job", definitionYAML := "job: a" }], List.pairwise_singleton _ _⟩ } } }

private theorem editorConsole_existing : Existing "job" editorConsole := ⟨_, rfl, rfl⟩

/-- Both requests read the row before either writes it. -/
def crossingSaves : List (CatalogueMove editorCfg) :=
  [.buildDAG 1 firstSave, .buildDAG 2 secondSave, .act 1 .fine, .act 2 .fine] ++
    List.replicate 9 (.act 1 .fine) ++ List.replicate 8 (.act 2 .fine)

/-- The request that the thread has served without an error. -/
private def served (c : Recorded editorCfg Unit) (t : Nat) : Option (String × String × String) :=
  match c.threads t with
  | some (.buildDAG save, .pure (.ok _)) => some (save.dagID, save.definitionYAML, save.expectedHash)
  | _ => none

private theorem served_spec {c : Recorded editorCfg Unit} {t : Nat} {dagID definitionYAML expectedHash : String}
    (h : served c t = some (dagID, definitionYAML, expectedHash)) :
    ∃ save : Save editorCfg, c.threads t = some (.buildDAG save, .pure (.ok ())) ∧
      save.dagID = dagID ∧ save.definitionYAML = definitionYAML ∧ save.expectedHash = expectedHash := by
  unfold served at h
  split at h
  · rename_i save u hthread
    simp only [Option.some.injEq, Prod.mk.injEq] at h
    exact ⟨save, hthread, h⟩
  · cases h

/-- Two requests that carry the hash of one definition both succeed with another. -/
theorem save_overwritten :
    ¬ ∀ (cfg : Cfg) (dagID : String) (c : State cfg) (t t' : Nat) (save save' : Save cfg),
      (∃ w, Existing dagID w ∧ (console cfg).Runs ⟨w, fun _ => none⟩ c) → t ≠ t' →
      c.threads t = some (.buildDAG save, .pure (.ok ())) → c.threads t' = some (.buildDAG save', .pure (.ok ())) →
      (∀ other, other ≠ t → other ≠ t' → c.threads other = none) → Carries dagID save → Carries dagID save' →
      cfg.definitionHash save.definitionYAML ≠ save.expectedHash → cfg.definitionHash save'.definitionYAML ≠ save'.expectedHash →
      save.expectedHash = save'.expectedHash → save.definitionYAML = save'.definitionYAML := by
  have hplay : (Recorded.turns (fun _ _ _ _ _ => id) (fun _ _ _ _ _ _ => true) (⟨(editorConsole, ()), fun _ => none⟩ :
      Recorded editorCfg Unit) crossingSaves).map (fun c => (served c 1, served c 2)) =
      some (some ("job", "job: b", "job: a"), some ("job", "job: c", "job: a")) := by
    decide +kernel
  obtain ⟨c, hc, heq⟩ := Option.map_eq_some_iff.mp hplay
  simp only [Prod.mk.injEq] at heq
  obtain ⟨save, hfirst, hid, hyaml, hhash⟩ := served_spec heq.1
  obtain ⟨save', hsecond, hid', hyaml', hhash'⟩ := served_spec heq.2
  have hruns : (console editorCfg).Runs ⟨editorConsole, fun _ => none⟩ ⟨c.world.1, c.threads⟩ := by
    have hrecorded : (((console editorCfg).record (fun _ _ _ _ _ => id) ()).answering (fun _ _ _ _ _ _ => True)).Runs _ c :=
      Recorded.turns_runs (fun _ _ _ _ _ _ _ => trivial) hc
    exact hrecorded.of_answering.of_record
  have hothers : ∀ other, other ≠ 1 → other ≠ 2 → c.threads other = none := by
    intro other h1 h2
    rw [Recorded.turns_other hc (t := other) (by simp [crossingSaves, CatalogueMove.thread, h1, h2])]
  intro h
  have hsame := h editorCfg "job" ⟨c.world.1, c.threads⟩ 1 2 save save' ⟨_, editorConsole_existing, hruns⟩ (by decide)
    hfirst hsecond hothers ⟨hid, by rw [hhash]; decide⟩ ⟨hid', by rw [hhash']; decide⟩ (by rw [hyaml, hhash]; decide)
    (by rw [hyaml', hhash']; decide) (hhash.trans hhash'.symm)
  rw [hyaml, hyaml'] at hsame
  exact absurd hsame (by decide)

theorem saves_compare_and_swap_single :
    ∃ a b : State editorCfg, Edited "job" a ∧ Writes "job" firstSave a b ∧
      storedHash editorCfg "job" a.world = some "job: a" ∧
      ∃ row, b.world.process.db.dag? "job" = some row ∧ row.definitionYAML = "job: b" := by
  have hparse : ∃ d, parseDefinition editorCfg firstSave.definitionYAML = .ok d := by
    have hok : (parseDefinition editorCfg firstSave.definitionYAML).isOk = true := by decide +kernel
    cases h : parseDefinition editorCfg firstSave.definitionYAML with
    | error e =>
      rw [h] at hok
      cases hok
    | ok d => exact ⟨d, rfl⟩
  obtain ⟨d, hd⟩ := hparse
  obtain ⟨a, b, hedited, hwrites⟩ := save_alone (w := editorConsole) editorConsole_existing ⟨rfl, by decide⟩ rfl hd
  exact ⟨a, b, hedited, hwrites, (saves_compare_and_swap editorCfg "job").1 a b firstSave hedited hwrites⟩

end Cronova.Properties.Saves
