import Cronova.Concurrency.Triples
import Cronova.Scheduler.System
import Cronova.Store.Retention

/-! The scheduled runs of one DAG over time. The next period is counted from the
newest scheduled run in the store, which retention keeps; a lookup that fails
counts from the start date or from the boot, and may lead to a period whose run
retention has deleted. -/
namespace Cronova.Properties.History
open Cronova.Model Cronova.Store Cronova.Concurrency Cronova.Concurrency.Fallible Cronova.Scheduler

/-- The periods for which scheduled runs were created, by DAG, newest first. -/
abbrev Past := List (String × Time)

def noted : {β : Type} → Cmd β → β → Past → Past
  | _, .write s, r, past =>
    match s.creates with
    | some run => if r.isOk = true ∧ run.triggerType = .schedule then (run.dagID, run.logicalDate) :: past else past
    | none => past
  | _, _, _, past => past

/-- The periods of one DAG, newest first. -/
def Past.dates (past : Past) (dagID : String) : List Time := (past.filter (fun e => e.1 = dagID)).map (·.2)

variable (cfg : Cfg) (dag : DAG)

/-- The operations in question: a pass over the due DAGs, and a retention pass. -/
inductive Begins : Program Cmd (Except Err Unit) → World → World → Prop where
  | createDueRuns (now : Time) (w : World) : Begins (createDueRuns cfg now).run w w
  | pruneRuns (cutoff : Time) (w : World) : Begins (.pure (.ok ())) w { w with db := (w.db.pruneRuns cutoff).2 }

/-- The definition is the registered one of its DAG. -/
def Registered (w : World) : Prop := ∀ d ∈ w.dags, d.dagID = dag.dagID → d = dag

/-- What happens meanwhile: any statement of another operation, which creates no
scheduled run, and edits of the other definitions. -/
inductive Elsewhere : World → World → Prop where
  | statement {β : Type} (s : Write β) (w : World) (h : ∀ run, s.creates = some run → run.triggerType ≠ .schedule) :
      Elsewhere w { w with db := (w.db.apply s).2 }
  | edited {w w' : World} (h : w.Edited w') (hdag : Registered dag w') : Elsewhere w w'

/-- A scheduled run of the DAG. -/
def Scheduled (db : Db) (r : DagRun) : Prop := r ∈ db.runs.rows ∧ r.dagID = dag.dagID ∧ r.triggerType = .schedule

/-- What a failed lookup counts from. -/
def fallback (w : World) : Time := if dag.catchup then dag.startDate - second else w.bootTime

/-- The period is later than the scheduled runs in the store, or has a run there. -/
def Open (db : Db) (next : Time) : Prop :=
  (∀ r, Scheduled dag db r → r.logicalDate < next) ∨ ∃ r ∈ db.runs.rows, r.dagID = dag.dagID ∧ r.logicalDate = next

/-- The fallback leads to such a period. -/
def Harmless (w : World) : Prop := ∀ sched, scheduleOf cfg dag = some sched → Open dag w.db (sched.next (fallback dag w))

/-- The lookup of the newest scheduled run was answered with an error. -/
def LookupFailed (dagID : String) : {β : Type} → Cmd β → β → Prop
  | _, .read q, r => r.isOk = false ∧ q ≍ (fun db : Db => db.latestScheduledRun dagID)
  | _, _, _ => False

/-- The operations one after the other, on thread 0, with a record of the created
periods. A lookup for the DAG fails only where `safe` allows it. -/
def operations (safe : World → Prop) : System Kind Cmd (Except Err Unit) (World × Past) where
  sem k t _ c s r s' := (∃ a, s.1.exec k t a c = some (r, s'.1)) ∧ (LookupFailed dag.dagID c r → safe s.1) ∧
    s'.2 = noted c r s.2
  start t k p s s' := t = 0 ∧ k = .loop ∧ Begins cfg p s.1 s'.1 ∧ s'.2 = s.2
  drift s s' := Elsewhere dag s.1 s'.1 ∧ s'.2 = s.2
  reset s s' := (∃ now, s'.1 = { db := s.1.db, dags := s.1.dags, bootTime := now }) ∧ s'.2 = s.2

/-- Any store, and nothing created yet. -/
def Blank (s : World × Past) : Prop := Registered dag s.1 ∧ s.2 = []

/-! ### The invariant -/

section Invariant
variable {cfg dag} {s s' : World × Past} {k : Kind} {α : Type}

/-- Each period of the DAG was created later than the ones before it, and the store
still has a scheduled run that is not older. -/
structure Inv (dag : DAG) (s : World × Past) : Prop where
  registered : Registered dag s.1
  increasing : (s.2.dates dag.dagID).Pairwise (fun later earlier => earlier < later)
  reached : ∀ date ∈ s.2.dates dag.dagID, ∃ r, Scheduled dag s.1.db r ∧ date ≤ r.logicalDate

/-- The scheduled runs of the DAG have the same dates, and no run is deleted. -/
structure Quiet (dag : DAG) (s s' : World × Past) : Prop where
  past : s'.2 = s.2
  bootTime : s'.1.bootTime = s.1.bootTime
  registered : Registered dag s.1 → Registered dag s'.1
  old : ∀ r', Scheduled dag s'.1.db r' → ∃ r, Scheduled dag s.1.db r ∧ r'.logicalDate = r.logicalDate
  kept : ∀ r ∈ s.1.db.runs.rows, ∃ r' ∈ s'.1.db.runs.rows, runKey r' = runKey r ∧ r'.triggerType = r.triggerType

namespace Quiet

theorem of_runs (hruns : s'.1.db.runs = s.1.db.runs) (hdags : Registered dag s.1 → Registered dag s'.1)
    (hboot : s'.1.bootTime = s.1.bootTime) (hpast : s'.2 = s.2) : Quiet dag s s' where
  past := hpast
  bootTime := hboot
  registered := hdags
  old r' h := ⟨r', ⟨hruns ▸ h.1, h.2⟩, rfl⟩
  kept r h := ⟨r, by rw [hruns]; exact h, rfl, rfl⟩

theorem refl (s : World × Past) : Quiet dag s s := of_runs rfl id rfl rfl

theorem trans {s'' : World × Past} (h : Quiet dag s s') (h' : Quiet dag s' s'') : Quiet dag s s'' where
  past := h'.past.trans h.past
  bootTime := h'.bootTime.trans h.bootTime
  registered hr := h'.registered (h.registered hr)
  old r hr := by
    obtain ⟨r', hr', hdate'⟩ := h'.old r hr
    obtain ⟨r₀, hr₀, hdate⟩ := h.old r' hr'
    exact ⟨r₀, hr₀, hdate'.trans hdate⟩
  kept r hr := by
    obtain ⟨r', hr', hkey, htrigger⟩ := h.kept r hr
    obtain ⟨r'', hr'', hkey', htrigger'⟩ := h'.kept r' hr'
    exact ⟨r'', hr'', hkey'.trans hkey, htrigger'.trans htrigger⟩

/-- A scheduled run of the DAG stays one, at its date. -/
theorem scheduled (h : Quiet dag s s') {r : DagRun} (hr : Scheduled dag s.1.db r) :
    ∃ r', Scheduled dag s'.1.db r' ∧ r'.logicalDate = r.logicalDate := by
  obtain ⟨r', hmem, hkey, htrigger⟩ := h.kept r hr.1
  simp only [runKey, Prod.mk.injEq] at hkey
  exact ⟨r', ⟨hmem, hkey.2.1.trans hr.2.1, htrigger.trans hr.2.2⟩, hkey.2.2⟩

theorem inv (h : Quiet dag s s') (hi : Inv dag s) : Inv dag s' where
  registered := h.registered hi.registered
  increasing := by rw [h.past]; exact hi.increasing
  reached date hdate := by
    rw [h.past] at hdate
    obtain ⟨r, hr, hle⟩ := hi.reached date hdate
    obtain ⟨r', hr', heq⟩ := h.scheduled hr
    exact ⟨r', hr', heq ▸ hle⟩

theorem open_ (h : Quiet dag s s') {next : Time} (ho : Open dag s.1.db next) : Open dag s'.1.db next := by
  rcases ho with hlater | ⟨r, hr, hdag, hdate⟩
  · left
    intro r' hr'
    obtain ⟨r, hr, heq⟩ := h.old r' hr'
    rw [heq]
    exact hlater r hr
  · right
    obtain ⟨r', hr', hkey, -⟩ := h.kept r hr
    simp only [runKey, Prod.mk.injEq] at hkey
    exact ⟨r', hr', hkey.2.1.trans hdag, hkey.2.2.trans hdate⟩

/-- A statement that creates no scheduled run of the DAG. -/
theorem statement {β : Type} {st : Write β} (hdb : s'.1.db = (s.1.db.apply st).2)
    (hcreates : ∀ run, st.creates = some run → run.dagID = dag.dagID → run.triggerType ≠ .schedule)
    (hdags : Registered dag s.1 → Registered dag s'.1) (hboot : s'.1.bootTime = s.1.bootTime) (hpast : s'.2 = s.2) :
    Quiet dag s s' where
  past := hpast
  bootTime := hboot
  registered := hdags
  old r' h := by
    obtain ⟨hmem, hdag, htrigger⟩ := h
    rw [hdb] at hmem
    rcases Db.apply_run_cases st hmem with ⟨r, hr, hkey, htrigger', -⟩ | ⟨hnew, -⟩
    · simp only [runKey, Prod.mk.injEq] at hkey
      exact ⟨r, ⟨hr, hkey.2.1 ▸ hdag, htrigger' ▸ htrigger⟩, hkey.2.2⟩
    · exact absurd htrigger (hcreates r' hnew hdag)
  kept r h := by
    rw [hdb]
    obtain ⟨r', hr', hkey, htrigger⟩ := Db.apply_run?_some st (Db.run?_of_mem h)
    exact ⟨r', (Db.run?_spec hr').1, hkey, htrigger⟩

end Quiet

/-- What the others do keeps the periods. -/
theorem Elsewhere.quiet {w w' : World} {past : Past} (h : Elsewhere dag w w') : Quiet dag (w, past) (w', past) := by
  cases h with
  | statement st w hcreates => exact Quiet.statement rfl (fun run hrun _ => hcreates run hrun) id rfl rfl
  | edited hedit hdag =>
    obtain ⟨dags, rows, edges, pools, rfl⟩ := hedit
    exact Quiet.of_runs rfl (fun _ => hdag) rfl rfl

/-- Retention keeps the newest scheduled run. -/
theorem inv_pruneRuns {cutoff : Time} (hi : Inv dag s) :
    Inv dag ({ s.1 with db := (s.1.db.pruneRuns cutoff).2 }, s.2) where
  registered := hi.registered
  increasing := hi.increasing
  reached date hdate := by
    obtain ⟨r, hr, hle⟩ := hi.reached date hdate
    rcases s.1.db.latestScheduledRun_spec dag.dagID with ⟨newest, -, hnewest⟩ | ⟨-, hnone⟩
    · have hkept : Scheduled dag (s.1.db.pruneRuns cutoff).2 newest :=
        ⟨Db.mem_pruneRuns_runs.mpr ⟨hnewest.1.1, hnewest.kept cutoff⟩, hnewest.1.2⟩
      exact ⟨newest, hkept, hle.trans (hnewest.2 r hr.1 hr.2.1 hr.2.2)⟩
    · exact absurd hr.2.2 (hnone r hr.1 hr.2.1)

end Invariant

/-! ### The pass over the due DAGs -/

section Pass
variable {cfg dag} {α : Type} {next : Time}

/-- Only thread 0 runs programs; it relies on what happens elsewhere. -/
private def rules (cfg : Cfg) (dag : DAG) : Rules Cmd (World × Past) where
  sem := (operations cfg dag (Harmless cfg dag)).sem .loop 0
  rely := Quiet dag
  guar _ _ _ s' := Inv dag s'

private theorem stable_inv : Stable (rules cfg dag) (Inv dag) := fun _ _ h hi => h.inv hi

/-- The period is open for the DAG, whatever the definition of another one says. -/
private def Ready (dag d : DAG) (next : Time) (s : World × Past) : Prop :=
  Inv dag s ∧ (d.dagID = dag.dagID → Open dag s.1.db next)

private theorem stable_ready (d : DAG) : Stable (rules cfg dag) (Ready dag d next) :=
  fun _ _ h hr => ⟨h.inv hr.1, fun hid => h.open_ (hr.2 hid)⟩

private theorem looks_same {β : Type} {c : Cmd β} (hc : World.looks c = true) {s s' : World × Past} {r : β}
    (hsem : (rules cfg dag).sem c s r s') : s' = s := by
  obtain ⟨⟨a, hexec⟩, -, hpast⟩ := hsem
  have hworld : s'.1 = s.1 := (World.exec_effect hexec).looks_eq hc
  have hnoted : noted c r s.2 = s.2 := by
    cases c with
    | write st => cases hc
    | _ => rfl
  exact Prod.ext hworld (hpast.trans hnoted)

private theorem looks_keeps {A : World × Past → Prop} (hA : Stable (rules cfg dag) A) (hinv : ∀ s, A s → Inv dag s)
    {x : M α} (hx : Uses (fun c => World.looks c = true) x) : Keeps (rules cfg dag) A x := by
  refine .of_uses hx hA ?_
  intro β c hc s r s' hs hsem
  rw [looks_same hc hsem]
  exact ⟨hinv s hs, hs⟩

private theorem reads {x : M α} (hx : Uses (fun c => World.looks c = true) x) : Keeps (rules cfg dag) (Inv dag) x :=
  looks_keeps stable_inv (fun _ hs => hs) hx

/-- The registered definition of the DAG is the one in question. -/
private theorem allDAGs_gives :
    Gives (rules cfg dag) (Inv dag) (fun dags => ∀ d ∈ dags, d.dagID = dag.dagID → d = dag) allDAGs := by
  have hregistry : Gives (rules cfg dag) (Inv dag) (fun dags : List DAG => ∀ d ∈ dags, d.dagID = dag.dagID → d = dag)
      (command (.registry id)) := by
    refine .lift stable_inv ?_
    intro s r s' hs hsem
    have hsame := looks_same (by rfl) hsem
    obtain ⟨⟨a, hexec⟩, -⟩ := hsem
    obtain ⟨-, hr⟩ := World.exec_effect hexec
    subst hsame
    exact ⟨hs, hs, hr ▸ hs.registered⟩
  refine .bind hregistry (fun dags hdags => .bind (reads (.lift (by rfl))).gives (fun ids _ => .pure ?_))
  intro d hd
  obtain ⟨id, -, hfind⟩ := List.mem_filterMap.mp hd
  exact hdags d (List.mem_of_find?_eq_some hfind)

private theorem cachedDAG_gives (dagID : String) :
    Gives (rules cfg dag) (Inv dag) (fun d => ∀ cd, d = some cd → cd.dagID = dagID ∧ (cd.dagID = dag.dagID → cd = dag))
      (cachedDAG dagID) := by
  refine .lift stable_inv ?_
  intro s r s' hs hsem
  have hsame := looks_same (by rfl) hsem
  obtain ⟨⟨a, hexec⟩, -⟩ := hsem
  obtain ⟨-, hr⟩ := World.exec_effect hexec
  subst hsame
  refine ⟨hs, hs, ?_⟩
  intro cd hcd
  rw [hr] at hcd
  exact ⟨by simpa using List.find?_some hcd, hs.registered cd (List.mem_of_find?_eq_some hcd)⟩

/-- What the anchor leads to is open: the newest scheduled run is earlier, or the
lookup has failed where that is harmless. -/
private theorem scheduleAnchor_ready {sched : Schedule} (hsched : scheduleOf cfg dag = some sched)
    (hnext : ∀ t, t < sched.next t) :
    Triple (rules cfg dag) (Inv dag) (scheduleAnchor dag)
      (Ends (fun anchor s => Inv dag s ∧ Open dag s.1.db (sched.next anchor)) (Inv dag)) := by
  have hlookup : Triple (rules cfg dag) (Inv dag)
      (query (fun db => db.latestScheduledRun dag.dagID) : M DagRun)
      (Ends (fun r s => Inv dag s ∧ Open dag s.1.db (sched.next r.logicalDate))
        (fun s => Inv dag s ∧ Open dag s.1.db (sched.next (fallback dag s.1)))) := by
    refine .call stable_inv ?_
    intro s r s' hs hsem
    have hsame := looks_same (by rfl) hsem
    subst hsame
    refine ⟨hs, ?_⟩
    cases r with
    | error e => exact ⟨hs, hsem.2.1 ⟨rfl, HEq.rfl⟩ sched hsched⟩
    | ok r =>
      obtain ⟨⟨a, hexec⟩, -⟩ := hsem
      rcases (World.exec_effect hexec).2 with hr | hr
      · change Except.ok r = s'.1.db.latestScheduledRun dag.dagID at hr
        rcases s'.1.db.latestScheduledRun_spec dag.dagID with ⟨newest, heq, hnewest⟩ | ⟨heq, -⟩
        · rw [heq] at hr
          cases hr
          refine ⟨hs, .inl ?_⟩
          intro q hq
          exact lt_of_le_of_lt (hnewest.2 q hq.1 hq.2.1 hq.2.2) (hnext _)
        · rw [heq] at hr
          cases hr
      · cases hr
  have hafter : Stable (rules cfg dag) (fun s => Inv dag s ∧ Open dag s.1.db (sched.next (fallback dag s.1))) := by
    intro s s' h hs
    have hfallback : fallback dag s'.1 = fallback dag s.1 := by simp only [fallback, h.bootTime]
    rw [hfallback]
    exact ⟨h.inv hs.1, h.open_ hs.2⟩
  have houtcome := Triple.outcome (q := Ends (Ends (fun (r : DagRun) s => Inv dag s ∧ Open dag s.1.db (sched.next r.logicalDate))
      (fun s => Inv dag s ∧ Open dag s.1.db (sched.next (fallback dag s.1)))) (fun _ => False)) hlookup
  refine .next houtcome ?_
  intro result
  cases result with
  | ok r => exact .pure (fun _ hs => hs)
  | error e =>
    refine .ite (fun hcatchup => .pure ?_) (fun hcatchup => ?_)
    · intro s hs
      have heq : fallback dag s.1 = dag.startDate - second := if_pos hcatchup
      rw [← heq]
      exact hs
    · refine .lift hafter ?_
      intro s r s' hs hsem
      have hsame := looks_same (by rfl) hsem
      subst hsame
      obtain ⟨⟨a, hexec⟩, -⟩ := hsem
      obtain ⟨-, hr⟩ := World.exec_effect hexec
      have heq : fallback dag s'.1 = s'.1.bootTime := if_neg hcatchup
      refine ⟨hs.1, ?_⟩
      rw [hr, ← heq]
      exact hs

/-- A run that was created for an open period is later than the ones before it. -/
private theorem inv_created {d : DAG} {s s' : World × Past} {run : DagRun} {runs : Relational.Table DagRun runKey runClash}
    (h : Ready dag d run.logicalDate s) (hdag : run.dagID = d.dagID) (htrigger : run.triggerType = .schedule)
    (hruns : s.1.db.runs.insert? run = some runs) (hdb : s'.1.db = { s.1.db with runs := runs }) (hdags : s'.1.dags = s.1.dags)
    (hpast : s'.2 = (run.dagID, run.logicalDate) :: s.2) : Inv dag s' := by
  obtain ⟨hi, hopen⟩ := h
  have hrows : s'.1.db.runs.rows = s.1.db.runs.rows ++ [run] := by
    rw [hdb]
    exact Relational.Table.rows_insert? hruns
  have hold : ∀ r, Scheduled dag s.1.db r → Scheduled dag s'.1.db r := by
    intro r hr
    refine ⟨?_, hr.2⟩
    rw [hrows]
    exact List.mem_append_left _ hr.1
  have hregistered : Registered dag s'.1 := by
    intro d hd
    rw [hdags] at hd
    exact hi.registered d hd
  by_cases hid : run.dagID = dag.dagID
  · have hlater : ∀ r, Scheduled dag s.1.db r → r.logicalDate < run.logicalDate := by
      rcases hopen (hdag.symm.trans hid) with hlater | ⟨r, hr, hrdag, hdate⟩
      · exact hlater
      · have hfree := Relational.Table.insert?_isSome_iff.mp ⟨runs, hruns⟩ r hr
        refine absurd (.inr ?_) hfree
        simp only [runKey, hrdag, hid, hdate]
    have hdates : s'.2.dates dag.dagID = run.logicalDate :: s.2.dates dag.dagID := by
      rw [hpast]
      simp [Past.dates, hid]
    refine ⟨hregistered, ?_, ?_⟩
    · rw [hdates, List.pairwise_cons]
      refine ⟨?_, hi.increasing⟩
      intro date hdate
      obtain ⟨r, hr, hle⟩ := hi.reached date hdate
      exact lt_of_le_of_lt hle (hlater r hr)
    · intro date hdate
      rw [hdates] at hdate
      rcases List.mem_cons.mp hdate with rfl | hmem
      · refine ⟨run, ⟨?_, hid, htrigger⟩, le_refl _⟩
        rw [hrows]
        exact List.mem_append_right _ (by simp)
      · obtain ⟨r, hr, hle⟩ := hi.reached date hmem
        exact ⟨r, hold r hr, hle⟩
  · have hdates : s'.2.dates dag.dagID = s.2.dates dag.dagID := by
      rw [hpast]
      simp [Past.dates, hid]
    refine ⟨hregistered, by rw [hdates]; exact hi.increasing, ?_⟩
    intro date hdate
    rw [hdates] at hdate
    obtain ⟨r, hr, hle⟩ := hi.reached date hdate
    exact ⟨r, hold r hr, hle⟩

private theorem create_keeps {d : DAG} {run : DagRun} (hdag : run.dagID = d.dagID) (htrigger : run.triggerType = .schedule) :
    Triple (rules cfg dag) (Ready dag d run.logicalDate) (statement (.createDagRunBounded run cfg.maxQueuedRunsGlobal))
      (fun _ => Inv dag) := by
  refine .call (stable_ready d) ?_
  intro s r s' hs hsem
  obtain ⟨⟨a, hexec⟩, -, hpast⟩ := hsem
  have hinv : Inv dag s' := by
    rcases World.exec_effect hexec with ⟨hworld, hr⟩ | ⟨hworld, hr⟩
    · rw [hr] at hpast
      exact (Quiet.of_runs (by rw [hworld]) (by rw [hworld]; exact id) (by rw [hworld]) hpast).inv hs.1
    · rcases s.1.db.insertRun_cases run (s.1.db.isActiveDag run.dagID && (s.1.db.queuedCount : Int) < cfg.maxQueuedRunsGlobal)
        with ⟨runs, hruns, heq⟩ | ⟨e, heq⟩
      · have happly : s.1.db.apply (.createDagRunBounded run cfg.maxQueuedRunsGlobal) = (.ok (), { s.1.db with runs := runs }) :=
          heq
        rw [happly] at hr
        rw [hr] at hpast
        refine inv_created hs hdag htrigger hruns ?_ (by rw [hworld]; rfl) ?_
        · rw [hworld]
          exact congrArg Prod.snd happly
        · rw [hpast]
          simp [noted, Write.creates, htrigger, Except.isOk, Except.toBool]
      · have happly : s.1.db.apply (.createDagRunBounded run cfg.maxQueuedRunsGlobal) = (.error e, s.1.db) := heq
        rw [happly] at hr
        rw [hr] at hpast
        have hdb : s'.1.db = s.1.db := by
          rw [hworld]
          exact congrArg Prod.snd happly
        exact (Quiet.of_runs (by rw [hdb]) (by rw [hworld]; exact id) (by rw [hworld]; rfl) hpast).inv hs.1
  exact ⟨hinv, hinv⟩

private theorem createDueRun_keeps (hnext : ∀ sched, scheduleOf cfg dag = some sched → ∀ t, t < sched.next t) {now : Time}
    {counts : Option (String → Nat)} {d : DAG} (hd : d.dagID = dag.dagID → d = dag) :
    Keeps (rules cfg dag) (Inv dag) (createDueRun cfg now counts d) := by
  refine .ite (.pure _) ((cachedDAG_gives d.dagID).then_keeps ?_)
  intro cached hcached
  split
  · exact .pure _
  · rename_i cd
    obtain ⟨hcd, hsame⟩ := hcached cd rfl
    split
    · exact .pure _
    · rename_i sched hsched
      have hanchor : Triple (rules cfg dag) (Inv dag) (scheduleAnchor d)
          (Ends (fun anchor => Ready dag d (sched.next anchor)) (Inv dag)) := by
        by_cases hid : d.dagID = dag.dagID
        · obtain rfl := hd hid
          rw [hsame hcd] at hsched
          refine (scheduleAnchor_ready hsched (hnext sched hsched)).weaken ?_
          intro r s hr
          cases r with
          | ok anchor => exact ⟨hr.1, fun _ => hr.2⟩
          | error e => exact hr
        · have hkeep : Keeps (rules cfg dag) (Inv dag) (scheduleAnchor d) := by
            refine reads (.bind (.outcome (.call (by rfl))) ?_)
            intro r
            cases r with
            | ok r => exact .pure _
            | error e =>
              dsimp only
              split
              · exact .pure _
              · exact .lift (by rfl)
          refine hkeep.weaken ?_
          intro r s hr
          cases r with
          | ok anchor => exact ⟨hr, fun h => absurd h hid⟩
          | error e => exact hr
      refine .ite (.pure _) (.seq hanchor ?_ (fun _ _ hs => hs))
      intro anchor
      refine .ite (fun _ => .pure (fun _ hs => hs.1)) (fun _ => ?_)
      have hrest : ∀ (active : Nat) {run : DagRun}, run.dagID = d.dagID → run.logicalDate = sched.next anchor →
          run.triggerType = .schedule → Triple (rules cfg dag) (Ready dag d (sched.next anchor)) (do
            if d.maxActiveRuns ≤ active then return false
            statement (.createDagRunBounded run cfg.maxQueuedRunsGlobal)
            return true : M Bool) (fun _ => Inv dag) := by
        intro active run hdag hdate htrigger
        refine .ite (fun _ => .pure (fun _ hs => hs.1)) (fun _ => ?_)
        rw [← hdate]
        exact .bind (create_keeps hdag htrigger) (fun _ => .pure (fun _ hs => hs)) (fun _ _ hs => hs)
      split
      · exact .bind (m := fun _ => Ready dag d (sched.next anchor)) (.pure (fun _ hs => hs)) (fun _ => hrest _ rfl rfl rfl)
          (fun _ _ hs => hs.1)
      · refine .bind (m := fun _ => Ready dag d (sched.next anchor)) ?_ (fun _ => hrest _ rfl rfl rfl) (fun _ _ hs => hs.1)
        exact looks_keeps (stable_ready d) (fun _ hs => hs.1) (.call (by rfl))

private theorem createDueRuns_keeps (hnext : ∀ sched, scheduleOf cfg dag = some sched → ∀ t, t < sched.next t) (now : Time) :
    Keeps (rules cfg dag) (Inv dag) (createDueRuns cfg now) := by
  refine .bind (.outcome (reads (.call (by rfl)))) (fun counts => allDAGs_gives.then_keeps ?_)
  intro dags hdags
  refine .forM ?_
  intro d hd
  exact .bind (.outcome (createDueRun_keeps hnext (hdags d hd))) (fun _ => .pure _)

end Pass

/-! ### Every sequence of operations -/

variable {cfg dag}

private def discipline (hnext : ∀ sched, scheduleOf cfg dag = some sched → ∀ t, t < sched.next t) :
    Discipline (operations cfg dag (Harmless cfg dag)) where
  inv := Inv dag
  free _ _ := True
  rely t s s' := t = 0 → Quiet dag s s'
  guar _ t _ _ _ _ s' := t = 0 ∧ Inv dag s'
  rely_refl _ s _ := .refl s
  rely_trans _ _ _ _ h h' ht := (h ht).trans (h' ht)
  free_rely _ _ _ _ h := h
  guar_inv _ _ _ _ _ _ _ _ h := h.2
  guar_rely _ _ _ _ _ _ _ _ hne _ h ht' := absurd (h.1.trans ht'.symm) hne
  start_inv t k p s s' hi _ hstart := by
    obtain ⟨w', past'⟩ := s'
    obtain ⟨-, -, hbegins, rfl⟩ := hstart
    cases hbegins with
    | createDueRuns => exact hi
    | pruneRuns cutoff => exact inv_pruneRuns hi
  start_rely t k p s s' _ _ hstart t' hne ht' := absurd (hstart.1.trans ht'.symm) hne
  start_holds t k p s s' hi _ hstart := by
    obtain ⟨w', past'⟩ := s'
    obtain ⟨rfl, rfl, hbegins, rfl⟩ := hstart
    cases hbegins with
    | createDueRuns now =>
      refine Holds.weaken ?_ ?_ ?_ ((createDueRuns_keeps hnext now _ hi).mono (fun _ _ _ => trivial))
      · exact fun _ _ _ _ h => h
      · exact fun _ _ h => h rfl
      · exact fun _ _ _ _ h => ⟨rfl, h⟩
    | pruneRuns cutoff => trivial
  drift_inv s s' hi h := by
    obtain ⟨w', past'⟩ := s'
    obtain ⟨helse, rfl⟩ := h
    exact helse.quiet.inv hi
  drift_rely s s' _ h _ _ := by
    obtain ⟨w', past'⟩ := s'
    obtain ⟨helse, rfl⟩ := h
    exact helse.quiet
  reset_inv s s' hi h := by
    obtain ⟨w', past'⟩ := s'
    obtain ⟨⟨now, hworld⟩, rfl⟩ := h
    obtain rfl : w' = _ := hworld
    exact ⟨hi.registered, hi.increasing, hi.reached⟩
  reset_free _ _ _ _ _ := trivial

/-- While a failed lookup leads to a period that is later than the scheduled runs in
the store or still has its run there, the periods of a DAG are created in order. -/
theorem scheduled_dates_increase (cfg : Cfg) (dag : DAG)
    (hnext : ∀ sched, scheduleOf cfg dag = some sched → ∀ t, t < sched.next t) {c : Config Kind Cmd (Except Err Unit) (World × Past)}
    (hreach : (operations cfg dag (Harmless cfg dag)).Reachable (Blank dag) c) :
    (c.world.2.dates dag.dagID).Pairwise (fun later earlier => earlier < later) := by
  have hsound : (discipline hnext).Sound c := by
    refine (discipline hnext).reachable_sound ?_ hreach
    rintro ⟨w, past⟩ ⟨hregistered, rfl⟩
    exact ⟨⟨hregistered, .nil, fun _ h => absurd h (List.not_mem_nil)⟩, fun _ => trivial⟩
  have hinv : Inv dag c.world := hsound.1
  exact hinv.increasing

/-! ### A replayed period -/

/-- One move of a concrete run. -/
inductive Turn where
  | act (a : Answer)
  | tick (now : Time)
  | prune (cutoff : Time)

abbrev State := Config Kind Cmd (Except Err Unit) (World × Past)

/-- The state after a move whose reply `ok` accepts. -/
def State.turn (cfg : Cfg) (ok : {β : Type} → Cmd β → β → Bool) (c : State) : Turn → Option State
  | .act a =>
    match c.threads 0 with
    | some (k, .step cmd next) =>
      match c.world.1.exec k 0 a cmd with
      | some (r, w) =>
        if ok cmd r then some ⟨(w, noted cmd r c.world.2), Function.update c.threads 0 (some (k, next r))⟩ else none
      | none => none
    | _ => none
  | .tick now =>
    match c.threads 0 with
    | some (_, .step _ _) => none
    | _ => some ⟨c.world, Function.update c.threads 0 (some (.loop, (createDueRuns cfg now).run))⟩
  | .prune cutoff =>
    match c.threads 0 with
    | some (_, .step _ _) => none
    | _ => some ⟨({ c.world.1 with db := (c.world.1.db.pruneRuns cutoff).2 }, c.world.2),
        Function.update c.threads 0 (some (.loop, .pure (.ok ())))⟩

def State.turns (cfg : Cfg) (ok : {β : Type} → Cmd β → β → Bool) (c : State) : List Turn → Option State
  | [] => some c
  | m :: ms => (c.turn cfg ok m).bind (fun c' => State.turns cfg ok c' ms)

private theorem idle_of {x : Option (Kind × Program Cmd (Except Err Unit))}
    (h : ∀ k {β : Type} (cmd : Cmd β) next, x ≠ some (k, .step cmd next)) : Idle x := by
  cases x with
  | none => trivial
  | some entry =>
    obtain ⟨k, prog⟩ := entry
    cases prog with
    | pure a => trivial
    | step cmd next => exact absurd rfl (h k cmd next)

private theorem turn_step {ok : {β : Type} → Cmd β → β → Bool} {safe : World → Prop}
    (hok : ∀ {β : Type} (cmd : Cmd β) r w, ok cmd r = true → LookupFailed dag.dagID cmd r → safe w) {c c' : State} {m : Turn}
    (h : c.turn cfg ok m = some c') : ∃ l, (operations cfg dag safe).Step c l c' := by
  cases m with
  | act a =>
    simp only [State.turn] at h
    split at h
    · rename_i k β cmd next hthread
      split at h
      · rename_i r w hexec
        split at h
        · rename_i hallowed
          cases h
          exact ⟨_, .act hthread ⟨⟨a, hexec⟩, hok cmd r _ hallowed, rfl⟩⟩
        · cases h
      · cases h
    · cases h
  | tick now =>
    simp only [State.turn] at h
    split at h
    · cases h
    · rename_i hidle
      cases h
      exact ⟨_, .start (idle_of (fun k _ cmd next heq => hidle k _ cmd next heq)) ⟨rfl, rfl, .createDueRuns now _, rfl⟩⟩
  | prune cutoff =>
    simp only [State.turn] at h
    split at h
    · cases h
    · rename_i hidle
      cases h
      exact ⟨_, .start (idle_of (fun k _ cmd next heq => hidle k _ cmd next heq)) ⟨rfl, rfl, .pruneRuns cutoff _, rfl⟩⟩

private theorem turns_runs {ok : {β : Type} → Cmd β → β → Bool} {safe : World → Prop}
    (hok : ∀ {β : Type} (cmd : Cmd β) r w, ok cmd r = true → LookupFailed dag.dagID cmd r → safe w) {c c' : State}
    {ms : List Turn} (h : c.turns cfg ok ms = some c') : (operations cfg dag safe).Runs c c' := by
  induction ms generalizing c with
  | nil =>
    cases h
    exact .refl
  | cons m ms ih =>
    obtain ⟨mid, hmid, hrest⟩ := Option.bind_eq_some_iff.mp h
    obtain ⟨l, hl⟩ := turn_step hok hmid
    exact Relation.ReflTransGen.head ⟨l, hl, trivial⟩ (ih hrest)

def minutely : DAG :=
  { dagID := "job", schedule := "* * * * *", catchup := true, startDate := 0, maxActiveRuns := 16
    tasks := [{ id := "a" }] }

/-- The first period is over. -/
def firstRun : DagRun :=
  { runID := "job__19700101T000000Z", dagID := "job", logicalDate := 0, state := .success, triggerType := .schedule
    startedAt := some 0, finishedAt := some 1 }

def minutelyWorld : World :=
  { db := { dags := ⟨[{ dagID := "job" }], List.pairwise_singleton _ _⟩, runs := ⟨[firstRun], List.pairwise_singleton _ _⟩ }
    dags := [minutely] }

/-- The second period is created, the first one is deleted, and the next lookup fails. -/
def replayTurns : List Turn :=
  .tick (1000 * second) :: List.replicate 6 (.act .fine) ++ .prune (1000 * second) :: .tick (1000 * second) ::
    List.replicate 4 (.act .fine) ++ [.act .fault, .act .fine]

private theorem minutely_next (sched : Schedule) (h : scheduleOf (.ofDocuments []) minutely = some sched) (t : Time) :
    t < sched.next t := by
  have hsched : scheduleOf (.ofDocuments []) minutely = some ⟨fun t => (t / (60 * second) + 1) * (60 * second)⟩ := rfl
  rw [hsched] at h
  cases h
  have hlt : ∀ n : Int, n < (n / (60 * 1000000000) + 1) * (60 * 1000000000) := by
    intro n
    omega
  exact hlt t

/-- A catch-up DAG runs its first period twice. -/
theorem pruned_period_replayed :
    ¬ ∀ (cfg : Cfg) (dag : DAG), (∀ sched, scheduleOf cfg dag = some sched → ∀ t, t < sched.next t) →
      ∀ c : State, (operations cfg dag (fun _ => True)).Reachable (Blank dag) c →
        (c.world.2.dates dag.dagID).Pairwise (fun later earlier => earlier < later) := by
  have hplay : (State.turns (.ofDocuments []) (fun _ _ => true) ⟨(minutelyWorld, []), fun _ => none⟩ replayTurns).map
      (fun c => c.world.2.dates "job") = some [0, 60 * second] := by
    decide +kernel
  obtain ⟨c, hc, hdates⟩ := Option.map_eq_some_iff.mp hplay
  have hruns : (operations (.ofDocuments []) minutely (fun _ => True)).Runs ⟨(minutelyWorld, []), fun _ => none⟩ c :=
    turns_runs (fun _ _ _ _ _ => trivial) hc
  have hblank : Blank minutely (minutelyWorld, []) := by
    refine ⟨?_, rfl⟩
    intro d hd _
    exact List.mem_singleton.mp hd
  intro h
  have hpairwise : [0, 60 * second].Pairwise (fun later earlier : Time => earlier < later) :=
    hdates ▸ h _ minutely minutely_next c ⟨_, hblank, hruns⟩
  have hlt := List.rel_of_pairwise_cons hpairwise (List.mem_singleton.mpr rfl)
  exact absurd hlt (by decide)

/-- Lookups that find a run. -/
private def found : {β : Type} → Cmd β → β → Bool
  | _, .read _, r => r.isOk
  | _, _, _ => true

theorem scheduled_dates_increase_minutely :
    ∃ c : State, (operations (.ofDocuments []) minutely (Harmless (.ofDocuments []) minutely)).Reachable (Blank minutely) c ∧
      c.world.2.dates "job" = [120 * second, 60 * second] ∧
      (c.world.2.dates "job").Pairwise (fun later earlier => earlier < later) := by
  have hplay : (State.turns (.ofDocuments []) found ⟨(minutelyWorld, []), fun _ => none⟩
      (.tick (1000 * second) :: List.replicate 6 (.act .fine) ++ .prune (1000 * second) :: .tick (1000 * second) ::
        List.replicate 6 (.act .fine))).map (fun c => c.world.2.dates "job") = some [120 * second, 60 * second] := by
    decide +kernel
  obtain ⟨c, hc, hdates⟩ := Option.map_eq_some_iff.mp hplay
  have hfound : ∀ {β : Type} (cmd : Cmd β) r w, found cmd r = true → LookupFailed minutely.dagID cmd r →
      Harmless (.ofDocuments []) minutely w := by
    intro β cmd r w hok hfailed
    cases cmd with
    | read q =>
      have := hok.symm.trans hfailed.1
      cases this
    | _ => exact hfailed.elim
  have hblank : Blank minutely (minutelyWorld, []) := by
    refine ⟨?_, rfl⟩
    intro d hd _
    exact List.mem_singleton.mp hd
  have hreach : (operations (.ofDocuments []) minutely (Harmless (.ofDocuments []) minutely)).Reachable (Blank minutely) c :=
    ⟨_, hblank, turns_runs hfound hc⟩
  exact ⟨c, hreach, hdates, scheduled_dates_increase _ minutely minutely_next hreach⟩

end Cronova.Properties.History
