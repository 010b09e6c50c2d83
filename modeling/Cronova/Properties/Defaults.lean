import Cronova.Parser.Foreach

/-! Defaults written out. A task that leaves a retry field or its worker group out
takes the value of the document. Writing that value on the task changes nothing,
unless the document's retry delay is longer than a task may have. -/
namespace Cronova.Properties.Defaults
open Cronova.Model Cronova.Parser Cronova.Text

/-- A task with the defaults of its document written on it, as far as it does not
set them itself. -/
def explicitTask (y : DagYAML) (t : TaskYAML) : TaskYAML :=
  { t with
    retries := some (t.retries.getD y.defaultRetries)
    retryDelay := some (t.retryDelay.getD y.defaultRetryDelay)
    workerGroup := orDefault t.workerGroup y.workerGroup }

def explicit (y : DagYAML) : DagYAML := { y with tasks := y.tasks.map (explicitTask y) }

variable {env : Env} {y : DagYAML}

theorem explicit_group (t : TaskYAML) :
    orDefault (trimSpace (explicitTask y t).workerGroup) (trimSpace y.workerGroup) =
      orDefault (trimSpace t.workerGroup) (trimSpace y.workerGroup) := by
  have hwritten : (explicitTask y t).workerGroup = orDefault t.workerGroup y.workerGroup := rfl
  rw [hwritten]
  by_cases hempty : t.workerGroup = ""
  · have htrim : trimSpace "" = "" := by decide
    rw [hempty, htrim]
    by_cases hnone : trimSpace y.workerGroup = ""
    · simp [orDefault, hnone]
    · simp [orDefault, hnone]
  · simp [orDefault, hempty]

/-- Validation does not see the difference between a default and its value. -/
theorem parseTask_explicit {seen : List String} {n : Nat} {t : TaskYAML}
    (hdelay : t.retryDelay = none → y.defaultRetryDelay ≤ maxDelaySec) :
    parseTask env y seen n (explicitTask y t) = parseTask env y seen n t := by
  have hbound : (explicitTask y t).retryDelay.all (· ≤ maxDelaySec) = t.retryDelay.all (· ≤ maxDelaySec) := by
    cases hset : t.retryDelay with
    | none => simp [explicitTask, hset, hdelay hset]
    | some delay => simp [explicitTask, hset]
  have hretries : (explicitTask y t).retries.getD y.defaultRetries = t.retries.getD y.defaultRetries := rfl
  have hretryDelay : (explicitTask y t).retryDelay.getD y.defaultRetryDelay = t.retryDelay.getD y.defaultRetryDelay := rfl
  unfold parseTask
  rw [explicit_group, hbound, hretries, hretryDelay]
  rfl

theorem shardsOf_explicit (t : TaskYAML) : shardsOf env (explicitTask y t) = (shardsOf env t).map (explicitTask y) := by
  apply List.ext_getElem?
  intro i
  simp only [shardsOf, List.getElem?_map, List.getElem?_mapIdx, Option.map_map]
  rfl

theorem expandEntry_explicit (dagID : String) (t : TaskYAML) :
    expandEntry env dagID (explicitTask y t) = (expandEntry env dagID t).map (List.map (explicitTask y)) := by
  have hforeach : (explicitTask y t).foreach = t.foreach := rfl
  have hid : (explicitTask y t).id = t.id := rfl
  unfold expandEntry
  rw [hforeach, hid, shardsOf_explicit]
  split
  · rfl
  · split
    · rfl
    · split
      · rfl
      · rfl

theorem rewriteDep_explicit (tasks : List TaskYAML) :
    rewriteDep env (tasks.map (explicitTask y)) = rewriteDep env tasks := by
  have hids : ∀ t, (shardsOf env (explicitTask y t)).map (·.id) = (shardsOf env t).map (·.id) := by
    intro t
    rw [shardsOf_explicit, List.map_map]
    rfl
  funext dep
  unfold rewriteDep
  rw [List.filter_map, List.flatMap_map]
  simp only [hids]
  rfl

theorem mapM_explicit (dagID : String) (tasks : List TaskYAML) :
    (tasks.map (explicitTask y)).mapM (expandEntry env dagID) =
      (tasks.mapM (expandEntry env dagID)).map (List.map (List.map (explicitTask y))) := by
  induction tasks with
  | nil => rfl
  | cons t tasks ih =>
    rw [List.map_cons, List.mapM_cons, List.mapM_cons, expandEntry_explicit, ih]
    cases expandEntry env dagID t with
    | error e => rfl
    | ok part =>
      cases tasks.mapM (expandEntry env dagID) with
      | error e => rfl
      | ok parts => rfl

/-- The shards of a task inherit what was written on it. -/
theorem expandForeach_explicit (dagID : String) (tasks : List TaskYAML) :
    expandForeach env dagID (tasks.map (explicitTask y)) = (expandForeach env dagID tasks).map (List.map (explicitTask y)) := by
  have hall : (tasks.map (explicitTask y)).all (fun t => t.foreach = []) = tasks.all (fun t => t.foreach = []) := by
    rw [List.all_map]
    rfl
  unfold expandForeach
  rw [hall, mapM_explicit, rewriteDep_explicit]
  split
  · rfl
  · cases tasks.mapM (expandEntry env dagID) with
    | error e => rfl
    | ok parts =>
      have hflatten : (parts.map (List.map (explicitTask y))).flatten = parts.flatten.map (explicitTask y) :=
        List.map_flatten.symm
      simp only [Except.map, hflatten, List.length_map]
      split
      · rfl
      · change Except.ok _ = Except.ok _
        rw [List.map_map, List.map_map]
        rfl

/-- A task that sets no retry delay has a default that it may set. -/
def Delayed (y : DagYAML) (t : TaskYAML) : Prop := t.retryDelay = none → y.defaultRetryDelay ≤ maxDelaySec

private theorem foldlM_congr {α β ε : Type} {f g : β → α → Except ε β} {l : List α}
    (h : ∀ a ∈ l, ∀ b, f b a = g b a) (b : β) : l.foldlM f b = l.foldlM g b := by
  induction l generalizing b with
  | nil => rfl
  | cons a l ih =>
    rw [List.foldlM_cons, List.foldlM_cons, h a List.mem_cons_self]
    cases g b a with
    | error e => rfl
    | ok mid => exact ih (fun a' ha' => h a' (List.mem_cons_of_mem a ha')) mid

theorem parseTasks_explicit {entries : List TaskYAML} (h : ∀ e ∈ entries, Delayed y e) :
    parseTasks env y (entries.map (explicitTask y)) = parseTasks env y entries := by
  unfold parseTasks
  rw [List.foldlM_map]
  apply foldlM_congr
  intro e he tasks
  have hdeps : (explicitTask y e).deps = e.deps := rfl
  dsimp only
  rw [hdeps, parseTask_explicit (h e he)]

/-- Everything but the task list is checked as before. -/
theorem accepted_explicit {raw raw' : String} {d : DAG} (h : DagAccepted env raw y d)
    (hdelays : ∀ t ∈ y.tasks, Delayed y t) : DagAccepted env raw' (explicit y) { d with definitionYAML := raw' } := by
  obtain ⟨entries, hentries, htasks⟩ := h.tasks
  have hexpanded : expandForeach env y.dagID (explicit y).tasks = .ok (entries.map (explicitTask y)) := by
    rw [explicit, expandForeach_explicit, hentries]
    rfl
  have hsources : ∀ e ∈ entries, Delayed y.trimmed e := by
    intro e he hnone
    obtain ⟨-, rfl⟩ := expandForeach_eq_ok.mp hentries
    obtain ⟨t, ht, e', he', rfl⟩ := mem_expanded.mp he
    have hdelay : e'.retryDelay = t.retryDelay := mem_entriesOf_retryDelay he'
    exact hdelays t ht (hdelay.symm.trans hnone)
  have hparse : parseTasks env (explicit y).trimmed (entries.map (explicitTask y)) = .ok d.tasks := by
    have hsame : parseTasks env (explicit y).trimmed = parseTasks env y.trimmed := rfl
    rw [hsame]
    exact (parseTasks_explicit hsources).trans htasks
  have hlimits : checkLimits (explicit y).trimmed = .ok () := by
    rw [checkLimits_iff]
    have hlength : (explicit y).trimmed.tasks.length = y.trimmed.tasks.length := List.length_map _
    rw [hlength]
    exact checkLimits_iff.mp h.limits
  exact {
    header := h.header
    policy := h.policy
    limits := hlimits
    triggerAfter := h.triggerAfter
    triggerOnEvent := h.triggerOnEvent
    notify := h.notify
    tasks := ⟨_, hexpanded, hparse⟩
    deps := h.deps
    cycle := h.cycle
    result := congrArg (fun d => { d with definitionYAML := raw' }) h.result }

/-- A retry delay that a task inherits in an accepted explicit document is one it may set. -/
theorem delayed_of_accepted {raw' : String} {d' : DAG} (h : DagAccepted env raw' (explicit y) d') :
    ∀ t ∈ y.tasks, Delayed y t := by
  intro t ht hnone
  obtain ⟨entries, hentries, htasks⟩ := h.tasks
  obtain ⟨e, he, hdelay⟩ := expandForeach_retryDelay hentries (List.mem_map_of_mem ht)
  obtain ⟨task, -, seen, n, haccepted⟩ := parseTasks_entry htasks he
  have hmax := haccepted.retryDelay.1
  rw [hdelay, show (explicitTask y t).retryDelay = some (t.retryDelay.getD y.defaultRetryDelay) from rfl, hnone] at hmax
  simpa using hmax

/-- Writing the defaults of an accepted definition on its tasks gives a definition that
is accepted with the same tasks exactly when it still fits into the size limit and no
task inherits a retry delay of more than 30 days. -/
theorem defaults_transparent_iff {raw raw' : String} {d : DAG} (hparse : parse env raw = .ok d)
    (hdecode : env.decode raw = .ok (y, .eof)) (hdecode' : env.decode raw' = .ok (explicit y, .eof)) :
    (∃ d', parse env raw' = .ok d' ∧ d'.tasks = d.tasks) ↔
      (raw' ≠ "" ∧ raw'.utf8ByteSize ≤ maxDefinitionBytes) ∧
        ∀ t ∈ y.tasks, t.retryDelay = none → y.defaultRetryDelay ≤ maxDelaySec := by
  obtain ⟨-, -, y', hdecoded, haccepted⟩ := parse_iff.mp hparse
  rw [hdecode] at hdecoded
  cases hdecoded
  constructor
  · rintro ⟨d', hparse', -⟩
    obtain ⟨hne, hsize, y', hdecoded', haccepted'⟩ := parse_iff.mp hparse'
    rw [hdecode'] at hdecoded'
    cases hdecoded'
    exact ⟨⟨hne, hsize⟩, delayed_of_accepted haccepted'⟩
  · rintro ⟨⟨hne, hsize⟩, hdelays⟩
    exact ⟨_, parse_iff.mpr ⟨hne, hsize, _, hdecode', accepted_explicit haccepted hdelays⟩, rfl⟩

/-- One task fanned out, with the retry fields of the document. -/
def sweepDocument (delay : Int) : DagYAML :=
  { dagID := "sweep", defaultRetries := 2, defaultRetryDelay := delay, workerGroup := "pool"
    tasks := [{ id := "clean", command := "x", foreach := ["a", "b"] }] }

def sweepYAML (delay : Int) : String :=
  "dag_id: sweep\nworker_group: pool\ndefault_retries: 2\ndefault_retry_delay: " ++ toString delay ++
    "\ntasks:\n- id: clean\n  command: x\n  foreach: [a, b]\n"

def explicitYAML (delay : Int) : String :=
  sweepYAML delay ++ "  worker_group: pool\n  retries: 2\n  retry_delay: " ++ toString delay ++ "\n"

def sweepEnv (delay : Int) : Env :=
  .ofDocuments [(sweepYAML delay, sweepDocument delay), (explicitYAML delay, explicit (sweepDocument delay))]

def sweep (delay : Int) : DAG :=
  { dagID := "sweep", defaultRetries := 2, definitionYAML := sweepYAML delay
    tasks := [{ id := "clean_0", command := "x", retries := 2, retryDelay := delay, workerGroup := "pool" },
      { id := "clean_1", command := "x", retries := 2, retryDelay := delay, workerGroup := "pool" }] }

/-- A default of one minute may be written out. -/
theorem defaults_transparent_minute :
    ∃ d', parse (sweepEnv 60) (explicitYAML 60) = .ok d' ∧ d'.tasks = (sweep 60).tasks := by
  have hparse : parse (sweepEnv 60) (sweepYAML 60) = .ok (sweep 60) := by decide +kernel
  have hdecode : (sweepEnv 60).decode (sweepYAML 60) = .ok (sweepDocument 60, .eof) := by decide +kernel
  have hdecode' : (sweepEnv 60).decode (explicitYAML 60) = .ok (explicit (sweepDocument 60), .eof) := by decide +kernel
  exact (defaults_transparent_iff hparse hdecode hdecode').mpr ⟨⟨by decide, by decide +kernel⟩, fun _ _ _ => by decide⟩

/-- A default of 31 days is accepted, and refused where it is written on the task. -/
theorem long_default_refused :
    parse (sweepEnv 2678400) (sweepYAML 2678400) = .ok (sweep 2678400) ∧
      (sweepEnv 2678400).decode (sweepYAML 2678400) = .ok (sweepDocument 2678400, .eof) ∧
      (sweepEnv 2678400).decode (explicitYAML 2678400) = .ok (explicit (sweepDocument 2678400), .eof) ∧
      parse (sweepEnv 2678400) (explicitYAML 2678400) =
        .error "dag \"sweep\": task \"clean_0\" retry_delay/retry_delay_max must be <= 2592000 seconds (30 days)" := by
  refine ⟨by decide +kernel, by decide +kernel, by decide +kernel, by decide +kernel⟩

end Cronova.Properties.Defaults
