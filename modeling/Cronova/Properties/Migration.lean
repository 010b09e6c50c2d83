import Cronova.Concurrency.Triples
import Cronova.Scheduler.System
import Cronova.Store.Migrate
import Cronova.Store.Retention

/-! A migration and the external events after it. The copied rows are the source's,
except for the AI providers, which are not copied. The copied events are numbered
again while the runs keep the names that carry the old numbers, so an event may
find a run under its name that was made for another event. -/
namespace Cronova.Properties.Migration
open Cronova.Model Cronova.Store Cronova.Concurrency Cronova.Concurrency.Fallible Cronova.Scheduler Cronova.Relational
open Cronova.Text

/-- What tells events apart. -/
abbrev EventKey := EventSource × String

def keyOf (e : Event) : EventKey := (e.source, e.eventKey)

/-- The run has the name of a run of event `n`. -/
def namesEvent (id : String) (n : Nat) : Bool := hasSuffix id ("__event_" ++ toString n)

/-- The external event a run of this name is made for. -/
def owner (db : Db) (id : String) : Option EventKey :=
  (db.events.find? (fun e => e.source = .external ∧ namesEvent id e.id = true)).map keyOf

/-- A record kept for the proofs: the last event id that was handed out, the event each
run was made for, and, for every event run that turned out to be there already, the
event that was being delivered and the event the run was made for. -/
structure Watch where
  seq : Nat
  made : String → Option EventKey
  answers : List (Option EventKey × Option EventKey) := []

def noted : {β : Type} → Cmd β → β → Db → Watch → Watch
  | _, .write (.createDagRunBounded run _), .ok _, db, watch =>
    { watch with made := Function.update watch.made run.runID (owner db run.runID) }
  | _, .write (.createDagRunBounded run _), .error .alreadyExists, db, watch =>
    if (db.run? run.runID).isSome then
      { watch with answers := (owner db run.runID, watch.made run.runID) :: watch.answers }
    else watch
  | _, _, _, _, watch => watch

/-- The names of the runs that no external event makes. -/
inductive Named : DagRun → Prop where
  | period (run : DagRun) : run.runID = runID run.dagID run.logicalDate → Named run
  | manual (run : DagRun) (now : Time) : run.runID = manualRunID run.dagID now → Named run
  | backfill (run : DagRun) (t : Time) : run.runID = backfillRunID run.dagID t → Named run
  | sub (run : DagRun) (now : Time) : run.runID = subRunID run.dagID now → Named run

/-- An external event stays, and only its delivery consumes it. -/
def SameEvent (e e' : Event) : Prop := eventKeyOf e' = eventKeyOf e ∧ (e.source = .external → e'.consumed = e.consumed)

/-- What other operations do: they create runs of other names, and publish events under
new ids. -/
structure Elsewhere (s s' : World × Watch) : Prop where
  made : s'.2.made = s.2.made
  answers : s'.2.answers = s.2.answers
  seq : s.2.seq ≤ s'.2.seq
  runs : ∀ r' ∈ s'.1.db.runs.rows, (∃ r ∈ s.1.db.runs.rows, runKey r' = runKey r) ∨ Named r'
  kept : ∀ e ∈ s.1.db.events.rows, e.source = .external → ∃ e' ∈ s'.1.db.events.rows, SameEvent e e'
  events : ∀ e' ∈ s'.1.db.events.rows, (∃ e ∈ s.1.db.events.rows, SameEvent e e') ∨ s.2.seq < e'.id ∧ e'.id ≤ s'.2.seq

variable (cfg : Cfg)

/-- The scheduler on the migrated database: passes over the pending external events on
thread 0, and everything else around them. -/
def deliveries : System Kind Cmd (Except Err Unit) (World × Watch) where
  sem k t _ c s r s' := (∃ a, s.1.exec k t a c = some (r, s'.1)) ∧ s'.2 = noted c r s.1.db s.2
  start t k p s s' := t = 0 ∧ k = .loop ∧ p = (processPendingExternalEvents cfg).run ∧ s' = s
  drift := Elsewhere
  reset s s' := s.1.Crashed s'.1 ∧ s'.2 = s.2

/-! ### The migrated database -/

def sourceText : EventSource → String
  | .dependency => "dependency"
  | .external => "external"

/-- The rows are what the store reads as `db`, as far as runs and events go. -/
structure Reads (rows : Database) (db : Db) : Prop where
  runs : (rows .dagRuns).rows.map (· "run_id") = db.runs.rows.map (fun r => .text r.runID)
  events : (rows .events).rows.map (fun row => [row "id", row "source", row "event_key", row "consumed"]) =
    db.events.rows.map (fun e => [.int e.id, .text (sourceText e.source), .text e.eventKey, .int (if e.consumed then 1 else 0)])

/-- A process that starts on the target. Each run was made for the event of the source
that its name says. -/
def Migrated (srcDb db : Db) (seq : Nat) (s : World × Watch) : Prop :=
  ∃ dags, s = ({ db := db, dags := dags }, { seq := seq, made := owner srcDb })

/-- No run of the source has the name of a run of an event that is still to be delivered
on the target, where the events are numbered from `seq + 1` on, unless it is the run of
that event. -/
def Aligned (srcDb : Db) (seq : Nat) : Prop :=
  ∀ r ∈ srcDb.runs.rows, ∀ dagID n, r.runID = eventRunID dagID n →
    n ≤ seq + srcDb.events.rows.length ∧
    ∀ i e, srcDb.events.rows[i]? = some e → e.source = .external → e.consumed = false → seq + i + 1 = n → e.id = n

theorem namesEvent_eventRunID (dagID : String) (m n : Nat) : namesEvent (eventRunID dagID m) n = true ↔ m = n := by
  constructor
  · intro h
    obtain ⟨front, hfront⟩ := List.isSuffixOf_iff_suffix.mp h
    rw [String.toList_append, ← List.append_assoc] at hfront
    have hname : eventRunID (String.ofList front) n = eventRunID dagID m := by
      apply String.toList_inj.mp
      rw [← hfront, eventRunID, String.toList_append, String.toList_append, String.toList_ofList]
    exact (eventRunID_inj hname).2.symm
  · rintro rfl
    refine List.isSuffixOf_iff_suffix.mpr ⟨dagID.toList, ?_⟩
    rw [eventRunID, String.toList_append, String.toList_append, String.toList_append, List.append_assoc]

theorem Named.not_event {run : DagRun} (h : Named run) (dagID : String) (n : Nat) : run.runID ≠ eventRunID dagID n := by
  cases h with
  | period hid => exact hid ▸ runID_ne_eventRunID _ _ _ _
  | manual now hid => exact hid ▸ stamped_ne_eventRunID "__manual_" (by simp) _ _ _ _
  | backfill t hid => exact hid ▸ stamped_ne_eventRunID "__backfill_" (by simp) _ _ _ _
  | sub now hid => exact hid ▸ stamped_ne_eventRunID "__sub_" (by simp) _ _ _ _

theorem Named.of_key {run run' : DagRun} (h : Named run) (hkey : runKey run' = runKey run) : Named run' := by
  simp only [runKey, Prod.mk.injEq] at hkey
  obtain ⟨hid, hdag, hdate⟩ := hkey
  cases h with
  | period h => exact .period run' (by rw [hid, hdag, hdate, h])
  | manual now h => exact .manual run' now (by rw [hid, hdag, h])
  | backfill t h => exact .backfill run' t (by rw [hid, hdag, h])
  | sub now h => exact .sub run' now (by rw [hid, hdag, h])

/-- The owner of an event's run is that event. -/
theorem owner_eq {db : Db} {e : Event} (he : e ∈ db.events.rows) (hexternal : e.source = .external) (dagID : String) :
    owner db (eventRunID dagID e.id) = some (keyOf e) := by
  have hfind : db.events.find? (fun e' => e'.source = .external ∧ namesEvent (eventRunID dagID e.id) e'.id = true) = some e := by
    cases hfound : db.events.find? (fun e' => e'.source = .external ∧ namesEvent (eventRunID dagID e.id) e'.id = true) with
    | none =>
      have := List.find?_eq_none.mp hfound e he
      simp [hexternal, (namesEvent_eventRunID dagID e.id e.id).mpr rfl] at this
    | some e' =>
      have hmem : e' ∈ db.events.rows := List.mem_of_find?_eq_some hfound
      have hpred := List.find?_some hfound
      simp only [decide_eq_true_eq, namesEvent_eventRunID] at hpred
      have hsame : e' = e := by
        refine db.events.eq_of_clash ?_ hmem he (.inl hpred.2.symm)
        rintro a b (h | h)
        · exact .inl h.symm
        · exact .inr h.symm
      rw [hsame]
  rw [owner, hfind]
  rfl

/-! ### The invariant -/

/-- Every run under the name of an event that is not spent was made for that event, and
so says every answer. `spent` are the events that were consumed before the migration. -/
structure Inv (spent : Nat → Prop) (s : World × Watch) : Prop where
  numbered : ∀ e ∈ s.1.db.events.rows, e.id ≤ s.2.seq
  past : ∀ n, spent n → n ≤ s.2.seq
  ended : ∀ e ∈ s.1.db.events.rows, e.source = .external → spent e.id → e.consumed = true
  runs : ∀ r ∈ s.1.db.runs.rows, ∀ dagID n, r.runID = eventRunID dagID n → n ≤ s.2.seq ∧
    ∀ e ∈ s.1.db.events.rows, e.id = n → e.source = .external → ¬ spent n → s.2.made r.runID = some (keyOf e)
  answers : ∀ p ∈ s.2.answers, ∃ key, p = (some key, some key)

/-- Events may become consumed, and answers be added that satisfy the invariant. -/
theorem Inv.congr {spent : Nat → Prop} {s s' : World × Watch} (hi : Inv spent s) (hruns : s'.1.db.runs = s.1.db.runs)
    (hevents : ∀ e' ∈ s'.1.db.events.rows, ∃ e ∈ s.1.db.events.rows,
      eventKeyOf e' = eventKeyOf e ∧ (e.consumed = true → e'.consumed = true))
    (hseq : s'.2.seq = s.2.seq) (hmade : s'.2.made = s.2.made) (hanswers : ∀ p ∈ s'.2.answers, ∃ key, p = (some key, some key)) :
    Inv spent s' where
  numbered e' he' := by
    obtain ⟨e, he, hkey, -⟩ := hevents e' he'
    have hid : e'.id = e.id := congrArg Prod.fst hkey
    rw [hid, hseq]
    exact hi.numbered e he
  past n hn := by
    rw [hseq]
    exact hi.past n hn
  ended e' he' hexternal hover := by
    obtain ⟨e, he, hkey, hconsumed⟩ := hevents e' he'
    simp only [eventKeyOf, Prod.mk.injEq] at hkey
    exact hconsumed (hi.ended e he (hkey.2.1 ▸ hexternal) (hkey.1 ▸ hover))
  runs r hr dagID n hid := by
    rw [hruns] at hr
    obtain ⟨hle, howned⟩ := hi.runs r hr dagID n hid
    refine ⟨hseq ▸ hle, ?_⟩
    intro e' he' hn hexternal hover
    obtain ⟨e, he, hkey, -⟩ := hevents e' he'
    simp only [eventKeyOf, Prod.mk.injEq] at hkey
    rw [hmade, howned e he (hkey.1 ▸ hn) (hkey.2.1 ▸ hexternal) hover, keyOf, keyOf, hkey.2.1, hkey.2.2]
  answers := hanswers

theorem SameEvent.refl (e : Event) : SameEvent e e := ⟨rfl, fun _ => rfl⟩

theorem SameEvent.fields {e e' : Event} (h : SameEvent e e') : e'.id = e.id ∧ e'.source = e.source ∧ e'.eventKey = e.eventKey := by
  have hkey := h.1
  simp only [eventKeyOf, Prod.mk.injEq] at hkey
  exact hkey

theorem SameEvent.trans {e e' e'' : Event} (h : SameEvent e e') (h' : SameEvent e' e'') : SameEvent e e'' := by
  refine ⟨h'.1.trans h.1, ?_⟩
  intro hexternal
  rw [h'.2 (h.fields.2.1 ▸ hexternal), h.2 hexternal]

namespace Elsewhere
variable {s s' s'' : World × Watch}

theorem refl (s : World × Watch) : Elsewhere s s where
  made := rfl
  answers := rfl
  seq := Nat.le_refl _
  runs r hr := .inl ⟨r, hr, rfl⟩
  kept e he _ := ⟨e, he, .refl e⟩
  events e he := .inl ⟨e, he, .refl e⟩

theorem trans (h : Elsewhere s s') (h' : Elsewhere s' s'') : Elsewhere s s'' where
  made := h'.made.trans h.made
  answers := h'.answers.trans h.answers
  seq := h.seq.trans h'.seq
  runs r'' hr'' := by
    rcases h'.runs r'' hr'' with ⟨r', hr', hkey'⟩ | hnamed
    · rcases h.runs r' hr' with ⟨r, hr, hkey⟩ | hnamed
      · exact .inl ⟨r, hr, hkey'.trans hkey⟩
      · exact .inr (hnamed.of_key hkey')
    · exact .inr hnamed
  kept e he hexternal := by
    obtain ⟨e', he', hsame⟩ := h.kept e he hexternal
    obtain ⟨e'', he'', hsame'⟩ := h'.kept e' he' (hsame.fields.2.1 ▸ hexternal)
    exact ⟨e'', he'', hsame.trans hsame'⟩
  events e'' he'' := by
    rcases h'.events e'' he'' with ⟨e', he', hsame'⟩ | ⟨hlow, hhigh⟩
    · rcases h.events e' he' with ⟨e, he, hsame⟩ | ⟨hlow, hhigh⟩
      · exact .inl ⟨e, he, hsame.trans hsame'⟩
      · rw [hsame'.fields.1]
        exact .inr ⟨hlow, hhigh.trans h'.seq⟩
    · exact .inr ⟨Nat.lt_of_le_of_lt h.seq hlow, hhigh⟩

/-- A statement of another operation: it creates runs of other names, and consumes no
external event. The next id is one that has not been handed out. -/
theorem statement {w : World} {watch : Watch} {β : Type} (st : Write β) (hcreates : ∀ run, st.creates = some run → Named run)
    (hconsumes : ∀ id, st.consumes = some id → ∀ e ∈ w.db.events.rows, e.id = id → e.source = .dependency)
    (hseq : watch.seq < w.db.nextEventID) :
    Elsewhere (w, watch) ({ w with db := (w.db.apply st).2 }, { watch with seq := w.db.nextEventID }) where
  made := rfl
  answers := rfl
  seq := hseq.le
  runs r' hr' := by
    rcases Db.apply_run_cases st hr' with ⟨r, hr, hkey, -⟩ | ⟨hnew, -⟩
    · exact .inl ⟨r, hr, hkey⟩
    · exact .inr (hcreates r' hnew)
  kept e he hexternal := by
    obtain ⟨e', he', hkey, hconsumed⟩ := Db.apply_event_kept st he
    refine ⟨e', he', hkey, fun _ => ?_⟩
    rcases hconsumed with hsame | hid | hdependency
    · exact hsame
    · rw [hconsumes _ hid e he rfl] at hexternal
      cases hexternal
    · rw [hdependency] at hexternal
      cases hexternal
  events e' he' := by
    rcases Db.apply_event_cases st he' with ⟨e, he, hkey, hconsumed⟩ | hnew
    · refine .inl ⟨e, he, hkey, fun hexternal => ?_⟩
      rcases hconsumed with hsame | hid | hdependency
      · exact hsame
      · rw [hconsumes _ hid e he rfl] at hexternal
        cases hexternal
      · rw [hdependency] at hexternal
        cases hexternal
    · exact .inr ⟨hnew ▸ hseq, hnew.le⟩

/-- Retention deletes runs and dependency events. -/
theorem pruneRuns {w : World} {watch : Watch} (cutoff : Time) :
    Elsewhere (w, watch) ({ w with db := (w.db.pruneRuns cutoff).2 }, watch) where
  made := rfl
  answers := rfl
  seq := Nat.le_refl _
  runs r hr := .inl ⟨r, (Db.mem_pruneRuns_runs.mp hr).1, rfl⟩
  kept e he hexternal := by
    refine ⟨e, Db.mem_pruneRuns_events.mpr ⟨he, ?_⟩, .refl e⟩
    rintro ⟨hdependency, -⟩
    rw [hexternal] at hdependency
    cases hdependency
  events e he := .inl ⟨e, (Db.mem_pruneRuns_events.mp he).1, .refl e⟩

/-- Edits of the catalogue. -/
theorem edited {w w' : World} {watch : Watch} (h : w.Edited w') : Elsewhere (w, watch) (w', watch) := by
  obtain ⟨dags, rows, edges, pools, rfl⟩ := h
  refine ⟨rfl, rfl, Nat.le_refl _, ?_, ?_, ?_⟩
  · exact fun r hr => .inl ⟨r, hr, rfl⟩
  · exact fun e he _ => ⟨e, he, .refl e⟩
  · exact fun e he => .inl ⟨e, he, .refl e⟩

theorem inv {spent : Nat → Prop} (h : Elsewhere s s') (hi : Inv spent s) : Inv spent s' where
  numbered e' he' := by
    rcases h.events e' he' with ⟨e, he, hsame⟩ | ⟨-, hhigh⟩
    · rw [hsame.fields.1]
      exact (hi.numbered e he).trans h.seq
    · exact hhigh
  ended e' he' hexternal hover := by
    rcases h.events e' he' with ⟨e, he, hsame⟩ | ⟨hlow, -⟩
    · obtain ⟨hid, hsource, -⟩ := hsame.fields
      have hexternal' : e.source = .external := hsource ▸ hexternal
      rw [hsame.2 hexternal']
      exact hi.ended e he hexternal' (hid ▸ hover)
    · exact absurd (hi.past _ hover) (by omega)
  past n hn := (hi.past n hn).trans h.seq
  runs r' hr' dagID n hid := by
    rcases h.runs r' hr' with ⟨r, hr, hkey⟩ | hnamed
    · have hname : r'.runID = r.runID := congrArg Prod.fst hkey
      obtain ⟨hseq, hmade⟩ := hi.runs r hr dagID n (hname ▸ hid)
      refine ⟨hseq.trans h.seq, ?_⟩
      intro e' he' hn hexternal hover
      rcases h.events e' he' with ⟨e, he, hsame⟩ | ⟨hlow, -⟩
      · obtain ⟨hid', hsource, hkey'⟩ := hsame.fields
        have hsaved := hmade e he (hid' ▸ hn) (hsource ▸ hexternal) hover
        rw [h.made, hname, hsaved, keyOf, keyOf, hsource, hkey']
      · omega
    · exact absurd hid (hnamed.not_event dagID n)
  answers := by
    rw [h.answers]
    exact hi.answers

end Elsewhere

/-! ### A pass over the pending events -/

section Pass
variable {cfg} {spent : Nat → Prop} {evs : List Event}

/-- Only thread 0 runs programs; it relies on what happens elsewhere. -/
private def rules (cfg : Cfg) (spent : Nat → Prop) : Rules Cmd (World × Watch) where
  sem := (deliveries cfg).sem .loop 0
  rely := Elsewhere
  guar _ _ _ s' := Inv spent s'

/-- The event is in the store, and was not spent before the migration. -/
private def Known (spent : Nat → Prop) (ev : Event) (s : World × Watch) : Prop :=
  ev.source = .external ∧ ¬ spent ev.id ∧ ∃ e ∈ s.1.db.events.rows, eventKeyOf e = eventKeyOf ev

/-- What holds while the listed events are delivered. -/
private def Delivering (spent : Nat → Prop) (evs : List Event) (s : World × Watch) : Prop :=
  Inv spent s ∧ ∀ ev ∈ evs, Known spent ev s

private theorem stable_delivering : Stable (rules cfg spent) (Delivering spent evs) := by
  intro s s' h hs
  refine ⟨h.inv hs.1, ?_⟩
  intro ev hev
  obtain ⟨hexternal, hover, e, he, hkey⟩ := hs.2 ev hev
  have hsource : e.source = ev.source := congrArg (fun key => key.2.1) hkey
  obtain ⟨e', he', hsame⟩ := h.kept e he (hsource.trans hexternal)
  exact ⟨hexternal, hover, e', he', hsame.1.trans hkey⟩

private theorem looks_keeps {α : Type} {x : M α} (hx : Uses (fun c => World.looks c = true) x) :
    Keeps (rules cfg spent) (Delivering spent evs) x := by
  refine .of_uses hx stable_delivering ?_
  intro β c hc s r s' hs hsem
  obtain ⟨⟨a, hexec⟩, hnoted⟩ := hsem
  have hworld : s'.1 = s.1 := (World.exec_effect hexec).looks_eq hc
  have hwatch : s'.2 = s.2 := by
    rw [hnoted]
    cases c with
    | write st => cases hc
    | _ => rfl
  have hsame : s' = s := Prod.ext hworld hwatch
  subst hsame
  exact ⟨hs.1, hs⟩

/-- The pending events are known: they have not been consumed. -/
private theorem list_gives : Triple (rules cfg spent) (Inv spent)
    (list (fun db => db.listPendingEvents .external 1000) : M (List Event))
    (Ends (fun evs => Delivering spent evs) (Inv spent)) := by
  refine .call (fun _ _ h hi => h.inv hi) ?_
  intro s r s' hs hsem
  obtain ⟨⟨a, hexec⟩, hnoted⟩ := hsem
  have heffect := World.exec_effect hexec
  have hsame : s' = s := Prod.ext heffect.1 hnoted
  subst hsame
  refine ⟨hs, ?_⟩
  rcases heffect.2 with rfl | rfl
  · refine ⟨hs, ?_⟩
    intro ev hev
    have hmem := List.mem_of_mem_take hev
    rw [List.mem_insertionSort, Table.filter, List.mem_filter] at hmem
    obtain ⟨he, hpending⟩ := hmem
    simp only [decide_eq_true_eq] at hpending
    refine ⟨hpending.1, ?_, ev, he, rfl⟩
    intro hover
    have hconsumed := hs.ended ev he hpending.1 hover
    rw [hpending.2] at hconsumed
    cases hconsumed
  · exact hs

/-- The event of an id in the store. -/
private theorem event_unique {db : Db} {e e' : Event} (he : e ∈ db.events.rows) (he' : e' ∈ db.events.rows)
    (hid : e'.id = e.id) : e' = e := by
  refine db.events.eq_of_clash ?_ he' he (.inl hid)
  rintro a b (h | h)
  · exact .inl h.symm
  · exact .inr h.symm

/-- A new run was made for the event that is being delivered. -/
private theorem inv_created {s s' : World × Watch} {run : DagRun} {runs : Table DagRun runKey runClash} {dagID : String}
    {e : Event} (hi : Inv spent s) (he : e ∈ s.1.db.events.rows) (hid : run.runID = eventRunID dagID e.id)
    (hruns : s.1.db.runs.insert? run = some runs) (hdb : s'.1.db = { s.1.db with runs := runs }) (hseq : s'.2.seq = s.2.seq)
    (hmade : s'.2.made = Function.update s.2.made run.runID (some (keyOf e))) (hanswers : s'.2.answers = s.2.answers) :
    Inv spent s' where
  numbered := by
    rw [hdb, hseq]
    exact hi.numbered
  past := by
    rw [hseq]
    exact hi.past
  ended := by
    rw [hdb]
    exact hi.ended
  answers := by
    rw [hanswers]
    exact hi.answers
  runs q hq dagID' n hqid := by
    rw [hseq, hmade]
    rw [hdb] at hq ⊢
    rw [Table.rows_insert? hruns, List.mem_append, List.mem_singleton] at hq
    rcases hq with hold | rfl
    · have hne : q.runID ≠ run.runID := by
        intro heq
        exact Table.insert?_isSome_iff.mp ⟨runs, hruns⟩ q hold (.inl heq)
      rw [Function.update_of_ne hne]
      exact hi.runs q hold dagID' n hqid
    · have hn : n = e.id := (eventRunID_inj (hqid.symm.trans hid)).2
      subst hn
      refine ⟨hi.numbered e he, ?_⟩
      intro e' he' hn' _ _
      rw [Function.update_self, event_unique he he' hn']

/-- The run that already is there was made for the event that is being delivered. -/
private theorem inv_answered {s : World × Watch} {run : DagRun} {dagID : String} {e : Event} (hi : Inv spent s)
    (he : e ∈ s.1.db.events.rows) (hexternal : e.source = .external) (hover : ¬ spent e.id)
    (hid : run.runID = eventRunID dagID e.id) {s' : World × Watch} (hdb : s'.1.db = s.1.db)
    (hwatch : s'.2 = if (s.1.db.run? run.runID).isSome then
      { s.2 with answers := (owner s.1.db run.runID, s.2.made run.runID) :: s.2.answers } else s.2) : Inv spent s' := by
  have hevents : ∀ e' ∈ s'.1.db.events.rows, ∃ e ∈ s.1.db.events.rows,
      eventKeyOf e' = eventKeyOf e ∧ (e.consumed = true → e'.consumed = true) := by
    intro e' he'
    exact ⟨e', hdb ▸ he', rfl, id⟩
  split at hwatch
  · rename_i hthere
    refine hi.congr (by rw [hdb]) hevents (by rw [hwatch]) (by rw [hwatch]) ?_
    intro p hp
    rw [hwatch, List.mem_cons] at hp
    rcases hp with rfl | hold
    · obtain ⟨q, hq⟩ := Option.isSome_iff_exists.mp hthere
      obtain ⟨hmem, hname⟩ := Db.run?_spec hq
      have hmade : s.2.made run.runID = some (keyOf e) := by
        rw [← hname]
        exact (hi.runs q hmem dagID e.id (hname.trans hid)).2 e he rfl hexternal hover
      have howner : owner s.1.db run.runID = some (keyOf e) := by
        rw [hid]
        exact owner_eq he hexternal dagID
      exact ⟨keyOf e, by rw [howner, hmade]⟩
    · exact hi.answers p hold
  · exact hi.congr (by rw [hdb]) hevents (by rw [hwatch]) (by rw [hwatch]) (by rw [hwatch]; exact hi.answers)

private theorem create_keeps {ev : Event} (hev : ev ∈ evs) {dagID : String} {run : DagRun}
    (hid : run.runID = eventRunID dagID ev.id) :
    Keeps (rules cfg spent) (Delivering spent evs) (statement (.createDagRunBounded run cfg.maxQueuedRunsGlobal)) := by
  refine .call stable_delivering ?_
  intro s r s' hs hsem
  obtain ⟨hinv, hknown⟩ := hs
  obtain ⟨hexternal, hover, e, he, hkey⟩ := hknown ev hev
  simp only [eventKeyOf, Prod.mk.injEq] at hkey
  obtain ⟨heid, hesource, -⟩ := hkey
  rw [← heid] at hid hover
  have hexternal' : e.source = .external := hesource.trans hexternal
  obtain ⟨⟨a, hexec⟩, hnoted⟩ := hsem
  have hstill : Inv spent s' → s'.1.db.events = s.1.db.events → Inv spent s' ∧ Delivering spent evs s' := by
    intro hinv' hevents
    refine ⟨hinv', hinv', ?_⟩
    intro ev' hev'
    obtain ⟨hexternal', hover', e', he', hkey'⟩ := hknown ev' hev'
    exact ⟨hexternal', hover', e', by rw [hevents]; exact he', hkey'⟩
  have hsame : s'.1.db = s.1.db → s'.2 = s.2 → Inv spent s' ∧ Delivering spent evs s' := by
    intro hdb hwatch
    refine hstill (hinv.congr (by rw [hdb]) ?_ (by rw [hwatch]) (by rw [hwatch]) (by rw [hwatch]; exact hinv.answers)) (by rw [hdb])
    intro e' he'
    exact ⟨e', hdb ▸ he', rfl, id⟩
  rcases World.exec_effect hexec with ⟨hworld, hr⟩ | ⟨hworld, hr⟩
  · subst hr
    exact hsame (by rw [hworld]) hnoted
  · rcases s.1.db.insertRun_cases run (s.1.db.isActiveDag run.dagID && (s.1.db.queuedCount : Int) < cfg.maxQueuedRunsGlobal)
      with ⟨runs, hruns, heq⟩ | ⟨err, heq⟩
    · have happly : s.1.db.apply (.createDagRunBounded run cfg.maxQueuedRunsGlobal) = (.ok (), { s.1.db with runs := runs }) :=
        heq
      rw [happly] at hr
      subst hr
      have hdb : s'.1.db = { s.1.db with runs := runs } := by
        rw [hworld]
        exact congrArg Prod.snd happly
      have howner : owner s.1.db run.runID = some (keyOf e) := by
        rw [hid]
        exact owner_eq he hexternal' dagID
      refine hstill (inv_created hinv he hid hruns hdb (by rw [hnoted]; rfl) ?_ (by rw [hnoted]; rfl)) (by rw [hdb])
      rw [hnoted, ← howner]
      rfl
    · have happly : s.1.db.apply (.createDagRunBounded run cfg.maxQueuedRunsGlobal) = (.error err, s.1.db) := heq
      rw [happly] at hr
      subst hr
      have hdb : s'.1.db = s.1.db := by
        rw [hworld]
        exact congrArg Prod.snd happly
      by_cases hexists : err = .alreadyExists
      · subst hexists
        exact hstill (inv_answered hinv he hexternal' hover hid hdb hnoted) (by rw [hdb])
      · refine hsame hdb (hnoted.trans ?_)
        cases err with
        | alreadyExists => exact absurd rfl hexists
        | _ => rfl

private theorem consume_keeps (ev : Event) :
    Keeps (rules cfg spent) (Delivering spent evs) (statement (.consumeEvent ev.id)) := by
  refine .call stable_delivering ?_
  intro s r s' hs hsem
  obtain ⟨hinv, hknown⟩ := hs
  obtain ⟨⟨a, hexec⟩, hnoted⟩ := hsem
  have hwatch : s'.2 = s.2 := hnoted
  have hrows : s'.1.db.runs = s.1.db.runs ∧ s'.1.db.events.rows.map eventKeyOf = s.1.db.events.rows.map eventKeyOf ∧
      ∀ e' ∈ s'.1.db.events.rows, ∃ e ∈ s.1.db.events.rows,
        eventKeyOf e' = eventKeyOf e ∧ (e.consumed = true → e'.consumed = true) := by
    rcases World.exec_effect hexec with ⟨hworld, -⟩ | ⟨hworld, -⟩
    · rw [hworld]
      exact ⟨rfl, rfl, fun e he => ⟨e, he, rfl, id⟩⟩
    · rw [hworld]
      refine ⟨rfl, ?_, ?_⟩
      · simp only [World.written, Db.apply, Table.modify, List.map_map]
        refine List.map_congr_left ?_
        intro e _
        simp only [Function.comp_apply]
        split <;> rfl
      · intro e' he'
        simp only [World.written, Db.apply, Table.modify, List.mem_map] at he'
        obtain ⟨e, he, heq⟩ := he'
        refine ⟨e, he, ?_⟩
        subst heq
        split
        · exact ⟨rfl, fun _ => rfl⟩
        · exact ⟨rfl, id⟩
  obtain ⟨hruns, hkeys, hevents⟩ := hrows
  have hinv' : Inv spent s' :=
    hinv.congr hruns hevents (by rw [hwatch]) (by rw [hwatch]) (by rw [hwatch]; exact hinv.answers)
  refine ⟨hinv', hinv', ?_⟩
  intro ev' hev'
  obtain ⟨hexternal, hover, e, he, hkey⟩ := hknown ev' hev'
  have hmem : eventKeyOf e ∈ s'.1.db.events.rows.map eventKeyOf := hkeys ▸ List.mem_map_of_mem he
  obtain ⟨e', he', hkey'⟩ := List.mem_map.mp hmem
  exact ⟨hexternal, hover, e', he', hkey'.trans hkey⟩

private theorem deliverExternalEvent_keeps (dags : List DAG) {ev : Event} (hev : ev ∈ evs) :
    Keeps (rules cfg spent) (Delivering spent evs) (deliverExternalEvent cfg dags ev) := by
  have htrigger : ∀ dagID, Keeps (rules cfg spent) (Delivering spent evs) (triggerSubscriber cfg ev dagID) := by
    intro dagID
    refine .bind (looks_keeps (.lift rfl)) ?_
    intro d
    split
    · exact .pure _
    · refine .ite (.pure _) (.bind (looks_keeps (.lift rfl)) (fun now => .bind (.outcome (create_keeps hev rfl)) ?_))
      intro result
      split <;> exact .pure _
  refine .bind (.foldlM (fun dagID _ deferred => .bind (htrigger dagID) (fun _ => .pure _)) _) ?_
  intro deferred
  split
  · exact .bind (.outcome (consume_keeps ev)) (fun _ => .pure _)
  · exact .pure _

private theorem processPendingExternalEvents_keeps :
    Keeps (rules cfg spent) (Inv spent) (processPendingExternalEvents cfg) := by
  refine .seq (.outcome (q := Ends (Ends (fun evs => Delivering spent evs) (Inv spent)) (fun _ => False)) list_gives) ?_
    (fun _ _ hfalse => hfalse.elim)
  intro result
  cases result with
  | error e => exact .pure (fun _ hs => hs)
  | ok evs =>
    have hpass : Keeps (rules cfg spent) (Delivering spent evs) (do
        if evs = [] then return
        let dags ← allDAGs
        evs.forM (deliverExternalEvent cfg dags) : M Unit) :=
      .ite (.pure _) (.bind (looks_keeps (.bind (.lift rfl) (fun _ => .bind (.lift rfl) (fun _ => .pure _))))
        (fun dags => .forM (fun ev hev => deliverExternalEvent_keeps dags hev)))
    exact hpass.weaken (fun _ _ hs => hs.1)

end Pass

/-! ### Every run of the target -/

variable {cfg}

private def discipline (cfg : Cfg) (spent : Nat → Prop) : Discipline (deliveries cfg) where
  inv := Inv spent
  free _ _ := True
  rely t s s' := t = 0 → Elsewhere s s'
  guar _ t _ _ _ _ s' := t = 0 ∧ Inv spent s'
  rely_refl _ s _ := .refl s
  rely_trans _ _ _ _ h h' ht := (h ht).trans (h' ht)
  free_rely _ _ _ _ h := h
  guar_inv _ _ _ _ _ _ _ _ h := h.2
  guar_rely _ _ _ _ _ _ _ _ hne _ h ht' := absurd (h.1.trans ht'.symm) hne
  start_inv _ _ _ _ _ hi _ hstart := by
    obtain ⟨-, -, -, rfl⟩ := hstart
    exact hi
  start_rely _ _ _ _ _ _ _ hstart _ hne ht' := absurd (hstart.1.trans ht'.symm) hne
  start_holds _ _ _ _ _ hi _ hstart := by
    obtain ⟨rfl, rfl, rfl, rfl⟩ := hstart
    refine Holds.weaken ?_ ?_ ?_ ((processPendingExternalEvents_keeps _ hi).mono (fun _ _ _ => trivial))
    · exact fun _ _ _ _ h => h
    · exact fun _ _ h => h rfl
    · exact fun _ _ _ _ h => ⟨rfl, h⟩
  drift_inv _ _ hi h := h.inv hi
  drift_rely _ _ _ h _ _ := h
  reset_inv s s' hi h := by
    obtain ⟨⟨dags, hworld⟩, hwatch⟩ := h
    refine hi.congr (by rw [hworld]) ?_ (by rw [hwatch]) (by rw [hwatch]) (by rw [hwatch]; exact hi.answers)
    intro e he
    rw [hworld] at he
    exact ⟨e, he, rfl, id⟩
  reset_free _ _ _ _ _ := trivial

/-! ### The start -/

section Start
variable {src : Database} {dst dst' : Target} {srcDb db : Db}

private theorem sourceText_inj {a b : EventSource} (h : sourceText a = sourceText b) : a = b := by
  cases a <;> cases b <;> first | rfl | exact absurd h (by decide)

/-- The event at a position keeps its key and gets the id of the position. -/
theorem event_renumbered (hcopied : Copied src dst dst') (hsrc : Reads src srcDb) (hdb : Reads dst'.rows db) {i : Nat}
    {e : Event} (h : db.events.rows[i]? = some e) :
    ∃ e₀, srcDb.events.rows[i]? = some e₀ ∧ e.id = dst.seq .events + i + 1 ∧ eventKeyOf e = (e.id, e₀.source, e₀.eventKey) ∧
      e.consumed = e₀.consumed := by
  have htable : (⟨.events, ["source", "event_key", "payload", "consumed", "created_at"]⟩ : CopiedTable) ∈ tables := by decide
  obtain ⟨hrows, -⟩ := hcopied.table _ htable nofun
  have hread := congrArg (fun l => l[i]?) hdb.events
  have hread₀ := congrArg (fun l => l[i]?) hsrc.events
  simp only [hrows, List.getElem?_map, List.getElem?_zipIdx, h, Option.map_map, Option.map_some] at hread
  obtain ⟨row, hrow, hvals⟩ := Option.map_eq_some_iff.mp hread
  simp only [List.getElem?_map, hrow, Option.map_some] at hread₀
  obtain ⟨e₀, he₀, hvals₀⟩ := Option.map_eq_some_iff.mp hread₀.symm
  refine ⟨e₀, he₀, ?_⟩
  simp only [Function.comp_apply, CopiedTable.stored, TableName.surrogate, List.cons.injEq, and_true] at hvals
  simp only [List.cons.injEq, and_true] at hvals₀
  obtain ⟨hid, hsource, hkey, hconsumed⟩ := hvals
  obtain ⟨-, hsource₀, hkey₀, hconsumed₀⟩ := hvals₀
  simp at hid hsource hkey hconsumed
  rw [← hsource₀] at hsource
  rw [← hkey₀] at hkey
  rw [← hconsumed₀] at hconsumed
  have hsame : e.source = e₀.source := sourceText_inj (Val.text.inj hsource.symm)
  have hname : e.eventKey = e₀.eventKey := (Val.text.inj hkey).symm
  refine ⟨by omega, by rw [eventKeyOf, hsame, hname], ?_⟩
  cases hc : e.consumed <;> cases hc₀ : e₀.consumed <;> simp [hc, hc₀] at hconsumed ⊢

/-- The copied runs keep their names. -/
theorem run_copied (hcopied : Copied src dst dst') (hsrc : Reads src srcDb) (hdb : Reads dst'.rows db) {r : DagRun}
    (h : r ∈ db.runs.rows) : ∃ r₀ ∈ srcDb.runs.rows, r₀.runID = r.runID := by
  have htable : tables[1] ∈ tables := by decide
  obtain ⟨hrows, -⟩ := hcopied.table _ htable nofun
  have hname : Val.text r.runID ∈ (dst'.rows .dagRuns).rows.map (· "run_id") := by
    rw [hdb.runs]
    exact List.mem_map.mpr ⟨r, h, rfl⟩
  have hnames : (dst'.rows .dagRuns).rows.map (· "run_id") = (src .dagRuns).rows.map (· "run_id") := by
    change (dst'.rows .dagRuns).rows = _ at hrows
    rw [hrows, List.map_map]
    have hcomp : ((· "run_id") ∘ fun p : Row × Nat => tables[1].stored p.2 p.1) = (fun row : Row => row "run_id") ∘ Prod.fst := by
      funext p
      rfl
    rw [hcomp, ← List.map_map, List.zipIdx_map_fst]
    rfl
  rw [hnames, hsrc.runs] at hname
  obtain ⟨r₀, hr₀, heq⟩ := List.mem_map.mp hname
  exact ⟨r₀, hr₀, Val.text.inj heq⟩

/-- The external events that were consumed before the migration. -/
def OverIn (db : Db) (n : Nat) : Prop := ∃ e ∈ db.events.rows, e.id = n ∧ e.source = .external ∧ e.consumed = true

theorem inv_migrated (hcopied : Copied src dst dst') (hsrc : Reads src srcDb) (hdb : Reads dst'.rows db)
    (haligned : Aligned srcDb (dst.seq .events)) (dags : List DAG) :
    Inv (OverIn db) ({ db := db, dags := dags }, { seq := dst'.seq .events, made := owner srcDb }) := by
  have hseq : dst'.seq .events = dst.seq .events + srcDb.events.rows.length := by
    have htable : tables[5] ∈ tables := by decide
    have hlength := congrArg List.length hsrc.events
    simp only [List.length_map] at hlength
    rw [← hlength]
    exact (hcopied.table _ htable nofun).2
  have hposition : ∀ e ∈ db.events.rows, ∃ i e₀, srcDb.events.rows[i]? = some e₀ ∧ e.id = dst.seq .events + i + 1 ∧
      eventKeyOf e = (e.id, e₀.source, e₀.eventKey) ∧ e.consumed = e₀.consumed := by
    intro e he
    obtain ⟨i, hi⟩ := List.mem_iff_getElem?.mp he
    obtain ⟨e₀, h⟩ := event_renumbered hcopied hsrc hdb hi
    exact ⟨i, e₀, h⟩
  have hnumbered : ∀ e ∈ db.events.rows, e.id ≤ dst'.seq .events := by
    intro e he
    obtain ⟨i, e₀, hi, hid, -⟩ := hposition e he
    obtain ⟨hlt, -⟩ := List.getElem?_eq_some_iff.mp hi
    omega
  refine ⟨hnumbered, ?_, ?_, ?_, ?_⟩
  · rintro n ⟨e, he, rfl, -⟩
    exact hnumbered e he
  · rintro e he - ⟨e', he', hid, -, hconsumed⟩
    rw [event_unique he' he hid.symm]
    exact hconsumed
  · intro r hr dagID n hid
    obtain ⟨r₀, hr₀, hname⟩ := run_copied hcopied hsrc hdb hr
    obtain ⟨hle, hown⟩ := haligned r₀ hr₀ dagID n (hname.trans hid)
    refine ⟨hseq ▸ hle, ?_⟩
    rintro e he rfl hexternal hover
    obtain ⟨i, e₀, hi, hid', hkey, hconsumed⟩ := hposition e he
    simp only [eventKeyOf, Prod.mk.injEq, true_and] at hkey
    have hopen : e₀.consumed = false := by
      rw [← hconsumed, Bool.eq_false_iff]
      exact fun h => hover ⟨e, he, rfl, hexternal, h⟩
    have hid₀ : e₀.id = e.id := hown i e₀ hi (hkey.1 ▸ hexternal) hopen hid'.symm
    change owner srcDb r.runID = some (keyOf e)
    rw [hid, ← hid₀, owner_eq (List.mem_of_getElem? hi) (hkey.1 ▸ hexternal), keyOf, keyOf, hkey.1, hkey.2]
  · exact fun _ hp => absurd hp List.not_mem_nil

end Start

/-- After a migration that reports success the target has the data of every persistent
table exactly when its AI providers are those of the source. While no run of the source
has the name of a run of an event that is still to be delivered, a run that a pass over
the external events finds under its name was made for the event it delivers. -/
theorem migration_preserves (cfg : Cfg) (faults : MigrateStep → Bool) {src : Database} {dst dst' : Target} {report : MigrateReport}
    (h : cmdMigrateStore faults src dst = (.ok report, dst')) :
    ((∀ t : TableName, t.persistent = true → (dst'.rows.data t).Perm (src.migrate.data t)) ↔
      (dst.rows.data .aiProviders).Perm (src.data .aiProviders)) ∧
    ∀ srcDb db, Reads src.migrate srcDb → Reads dst'.rows db → Aligned srcDb (dst.seq .events) →
      ∀ c, (deliveries cfg).Reachable (Migrated srcDb db (dst'.seq .events)) c →
        ∀ p ∈ c.world.2.answers, ∃ key, p = (some key, some key) := by
  have hcopied := cmdMigrateStore_ok h
  have hproviders : dst'.rows.data .aiProviders = dst.rows.data .aiProviders ∧
      src.migrate.data .aiProviders = src.data .aiProviders := by
    constructor
    · rw [Database.data, hcopied.others .aiProviders (by decide), Database.data]
    · rw [Database.data, src.migrate_frame (t := .aiProviders) (by decide), Database.data]
  constructor
  · constructor
    · intro hall
      have hsame := hall .aiProviders rfl
      rwa [hproviders.1, hproviders.2] at hsame
    · intro hsame t ht
      by_cases hai : t = .aiProviders
      · subst hai
        rwa [hproviders.1, hproviders.2]
      · exact hcopied.data ((mem_tables_iff t).mpr ⟨ht, hai⟩)
  · intro srcDb db hsrc hdb haligned c hreach
    have hsound : (discipline cfg (OverIn db)).Sound c := by
      refine (discipline cfg (OverIn db)).reachable_sound ?_ hreach
      rintro s ⟨dags, rfl⟩
      exact ⟨inv_migrated hcopied hsrc hdb haligned dags, fun _ => trivial⟩
    have hinv : Inv (OverIn db) c.world := hsound.1
    exact hinv.answers

/-! ### Two migrations -/

/-- A row by its cells. -/
def rowOf (cells : List (String × Val)) : Row := fun col => (cells.lookup col).getD .null

def eventRow (id : Int) (key : String) (consumed : Int) : Row :=
  rowOf [("id", .int id), ("source", .text "external"), ("event_key", .text key), ("consumed", .int consumed)]

/-- A configured AI provider, a run made for the consumed event 2, and the pending event 3. -/
def legacyRows : TableName → List Row
  | .dags => [rowOf [("dag_id", .text "job")]]
  | .dagRuns => [rowOf [("run_id", .text "job__event_2"), ("dag_id", .text "job"), ("logical_date", .text "2024-05-01T00:00:00Z"),
      ("state", .text "success"), ("trigger_type", .text "event")]]
  | .events => [eventRow 2 "loaded" 1, eventRow 3 "checked" 0]
  | .aiProviders => [rowOf [("id", .text "main"), ("name", .text "Main"), ("token", .text "sealed")]]
  | _ => []

def legacy : Database := fun t => ⟨legacyRows t, by cases t <;> decide⟩

/-- One pending event and no run. -/
def freshRows : TableName → List Row
  | .dags => [rowOf [("dag_id", .text "job")]]
  | .events => [eventRow 1 "checked" 0]
  | _ => []

def fresh : Database := fun t => ⟨freshRows t, by cases t <;> decide⟩

def emptyTarget : Target := ⟨fun _ => .empty, fun _ => 0⟩

def calm (_ : MigrateStep) : Bool := false

def legacyRun : DagRun :=
  { runID := "job__event_2", dagID := "job", logicalDate := 1714521600 * second, state := .success, triggerType := .event }

def jobRow : Table DagRow DagRow.dagID (· = ·) := .single { dagID := "job" }

/-- The source as its store reads it. -/
def legacyDb : Db :=
  { dags := jobRow, runs := ⟨[legacyRun], List.pairwise_singleton _ _⟩
    events := ⟨[{ id := 2, source := .external, eventKey := "loaded", consumed := true },
      { id := 3, source := .external, eventKey := "checked" }], by decide⟩ }

/-- The target as its store reads it. -/
def migratedDb : Db :=
  { legacyDb with
    events := ⟨[{ id := 1, source := .external, eventKey := "loaded", consumed := true },
      { id := 2, source := .external, eventKey := "checked" }], by decide⟩ }

def freshDb : Db :=
  { dags := jobRow, events := ⟨[{ id := 1, source := .external, eventKey := "checked" }], List.pairwise_singleton _ _⟩ }

def subscriber : DAG := { dagID := "job", triggerOnEvent := ["checked"], tasks := [{ id := "a" }] }

/-- One move of a concrete run: the reply to a command, or a new pass. -/
inductive Turn where
  | act (a : Answer)
  | pass

abbrev State := Config Kind Cmd (Except Err Unit) (World × Watch)

/-- Execute a command with a reply and note it. -/
def answered (a : Answer) (k : Kind) (t : Nat) {β : Type} (cmd : Cmd β) (s : World × Watch) : Option (β × World × Watch) :=
  (s.1.exec k t a cmd).map (fun q => (q.1, q.2, noted cmd q.1 s.1.db s.2))

def turn (cfg : Cfg) (c : State) : Turn → Option State
  | .act a => c.act (answered a) 0
  | .pass => c.launch 0 .loop (processPendingExternalEvents cfg).run c.world

private theorem turn_step {cfg : Cfg} {c c' : State} {m : Turn} (h : turn cfg c m = some c') :
    ∃ l, (deliveries cfg).Step c l c' := by
  cases m with
  | act a =>
    have hact : c.act (answered a) 0 = some c' := h
    refine Config.act_step ?_ hact
    intro k β cmd r s' hexec
    obtain ⟨q, hq, heq⟩ := Option.map_eq_some_iff.mp hexec
    cases heq
    exact ⟨⟨a, hq⟩, rfl⟩
  | pass => exact Config.launch_step ⟨rfl, rfl, rfl, rfl⟩ h

/-- The state after the moves on a target whose events were migrated up to `seq`. -/
def deliver (srcDb db : Db) (seq : Nat) (ms : List Turn) : Option State :=
  Config.plays (turn (.ofDocuments [])) ⟨({ db := db, dags := [subscriber] }, { seq := seq, made := owner srcDb }), fun _ => none⟩ ms

private theorem deliver_reaches {srcDb db : Db} {seq : Nat} {ms : List Turn} {c : State} (h : deliver srcDb db seq ms = some c) :
    (deliveries (.ofDocuments [])).Reachable (Migrated srcDb db seq) c :=
  ⟨_, ⟨_, rfl⟩, Config.plays_runs (fun _ _ _ => turn_step) h⟩

private theorem calm_ok (src : Database) (h : (cmdMigrateStore calm src emptyTarget).1.isOk = true) :
    ∃ report, cmdMigrateStore calm src emptyTarget = (.ok report, (cmdMigrateStore calm src emptyTarget).2) := by
  cases hresult : (cmdMigrateStore calm src emptyTarget).1 with
  | ok report => exact ⟨report, Prod.ext hresult rfl⟩
  | error e =>
    rw [hresult] at h
    cases h

/-- The configured provider is lost. The event that is pending in the source arrives under
the number of an earlier one, and is taken for delivered because of its run. -/
theorem migration_loses :
    (¬ ∀ (faults : MigrateStep → Bool) (src : Database) (dst dst' : Target) (report : MigrateReport),
      cmdMigrateStore faults src dst = (.ok report, dst') →
        ∀ t : TableName, t.persistent = true → (dst'.rows.data t).Perm (src.migrate.data t)) ∧
    ¬ ∀ (cfg : Cfg) (faults : MigrateStep → Bool) (src : Database) (dst dst' : Target) (report : MigrateReport),
      cmdMigrateStore faults src dst = (.ok report, dst') →
        ∀ srcDb db, Reads src.migrate srcDb → Reads dst'.rows db →
          ∀ c, (deliveries cfg).Reachable (Migrated srcDb db (dst'.seq .events)) c →
            ∀ p ∈ c.world.2.answers, ∃ key, p = (some key, some key) := by
  obtain ⟨report, hok⟩ := calm_ok legacy (by decide +kernel)
  constructor
  · intro h
    have hproviders := (h calm legacy emptyTarget _ report hok .aiProviders rfl).length_eq
    exact absurd hproviders (by decide +kernel)
  · intro h
    have hplay : (deliver legacyDb migratedDb 2 (.pass :: List.replicate 7 (.act .fine))).map (fun c => c.world.2.answers) =
        some [(some (.external, "checked"), some (.external, "loaded"))] := by
      decide +kernel
    obtain ⟨c, hc, hanswers⟩ := Option.map_eq_some_iff.mp hplay
    have hseq : (cmdMigrateStore calm legacy emptyTarget).2.seq .events = 2 := by decide +kernel
    have hsource : Reads legacy.migrate legacyDb := ⟨by decide +kernel, by decide +kernel⟩
    have htarget : Reads (cmdMigrateStore calm legacy emptyTarget).2.rows migratedDb := ⟨by decide +kernel, by decide +kernel⟩
    have hall := h (.ofDocuments []) calm legacy emptyTarget _ report hok legacyDb migratedDb hsource htarget c
    rw [hseq] at hall
    have hmember : (some (.external, "checked"), some (.external, "loaded")) ∈ c.world.2.answers := by
      rw [hanswers]
      exact List.mem_singleton.mpr rfl
    obtain ⟨key, hkey⟩ := hall (deliver_reaches hc) _ hmember
    simp only [Prod.mk.injEq, Option.some.injEq] at hkey
    have hdifferent : ((.external, "checked") : EventKey) = (.external, "loaded") := hkey.1.trans hkey.2.symm
    exact absurd hdifferent (by decide)

/-- A run that is found there at the second attempt. -/
theorem migration_preserves_fresh :
    ∃ (report : MigrateReport) (c : State), cmdMigrateStore calm fresh emptyTarget = (.ok report, (cmdMigrateStore calm fresh emptyTarget).2) ∧
      c.world.2.answers = [(some (.external, "checked"), some (.external, "checked"))] ∧
      (∀ t : TableName, t.persistent = true →
        ((cmdMigrateStore calm fresh emptyTarget).2.rows.data t).Perm (fresh.migrate.data t)) ∧
      ∀ p ∈ c.world.2.answers, ∃ key, p = (some key, some key) := by
  obtain ⟨report, hok⟩ := calm_ok fresh (by decide +kernel)
  have hplay : (deliver freshDb freshDb 1 (.pass :: List.replicate 6 (.act .fine) ++ .act .fault :: .pass ::
      List.replicate 7 (.act .fine))).map (fun c => c.world.2.answers) =
        some [(some (.external, "checked"), some (.external, "checked"))] := by
    decide +kernel
  obtain ⟨c, hc, hanswers⟩ := Option.map_eq_some_iff.mp hplay
  have hseq : (cmdMigrateStore calm fresh emptyTarget).2.seq .events = 1 := by decide +kernel
  have hsource : Reads fresh.migrate freshDb := ⟨by decide +kernel, by decide +kernel⟩
  have htarget : Reads (cmdMigrateStore calm fresh emptyTarget).2.rows freshDb := ⟨by decide +kernel, by decide +kernel⟩
  have haligned : Aligned freshDb (emptyTarget.seq .events) := fun r hr => absurd hr List.not_mem_nil
  have hproviders : (emptyTarget.rows.data .aiProviders).Perm (fresh.data .aiProviders) := by decide +kernel
  obtain ⟨hdata, hruns⟩ := migration_preserves (.ofDocuments []) calm hok
  have hall := hruns freshDb freshDb hsource htarget haligned c
  rw [hseq] at hall
  exact ⟨report, c, hok, hanswers, hdata.mpr hproviders, hall (deliver_reaches hc)⟩

end Cronova.Properties.Migration
