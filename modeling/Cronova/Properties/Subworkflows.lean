import Cronova.Properties.RoundTrip

/-! Sub-workflow tasks in the builder. A spec is rendered without the commands of its
subdag tasks, and the parser asks every task but an HTTP task for a command. -/
namespace Cronova.Properties.Subworkflows
open Cronova.Model Cronova.Parser Cronova.Api Cronova.Text

/-- Every subdag task of the spec is one in the definition, with the same target. -/
def Mirrors (spec : DagSpec) (d : DAG) : Prop :=
  ∀ t ∈ spec.tasks, t.type = "subdag" → ∃ task ∈ d.tasks, task.id = t.id ∧ task.type = .subdag ∧ task.subdag = trimSpace t.subdag

/-- A subdag task rendered with a command all the same. -/
def commanded (command : String) (t : TaskSpec) : TaskYAML :=
  if t.type = "subdag" then { taskOut t with command := command } else taskOut t

/-- The document of a spec, with `command` on its subdag tasks. -/
def commandedDag (command : String) (spec : DagSpec) : DagYAML :=
  { dagOut spec with tasks := spec.tasks.map (commanded command) }

variable {env : Env} {y : DagYAML} {spec : DagSpec} {d : DAG} {raw : String}

/-- A document without fan-out makes one task of each entry. -/
theorem entry_accepted (h : DagAccepted env raw y d) (hplain : ∀ e ∈ y.tasks, e.foreach = []) {e : TaskYAML}
    (he : e ∈ y.tasks) : ∃ task ∈ d.tasks, ∃ seen n, TaskAccepted env y.trimmed seen n e task := by
  obtain ⟨entries, hentries, htasks⟩ := h.tasks
  rw [expandForeach_plain hplain] at hentries
  cases hentries
  exact parseTasks_entry htasks he

theorem subdag_type {seen : List String} {n : Nat} {e : TaskYAML} {task : Task} (h : TaskAccepted env y seen n e task)
    (htype : e.type = "subdag") : task.type = .subdag := by
  have hparsed := h.type
  have hsubdag : parseTaskType y e = .ok .subdag := parseTaskType_text htype
  rw [hsubdag] at hparsed
  exact (Except.ok.inj hparsed).symm

/-- A subdag task without a command is refused. -/
theorem subdag_command {seen : List String} {n : Nat} {e : TaskYAML} {task : Task} (h : TaskAccepted env y seen n e task)
    (htype : e.type = "subdag") : e.command ≠ "" := by
  have hhttp := checkHTTP_iff.mp h.http
  rw [subdag_type h htype, if_neg (by decide)] at hhttp
  exact hhttp.2.1

theorem commanded_plain (command : String) : ∀ e ∈ (commandedDag command spec).tasks, e.foreach = [] := by
  intro e he
  obtain ⟨t, -, rfl⟩ := List.mem_map.mp he
  unfold commanded
  split
  · rfl
  · rfl

theorem dagOut_plain : ∀ e ∈ (dagOut spec).tasks, e.foreach = [] := by
  intro e he
  obtain ⟨t, -, rfl⟩ := List.mem_map.mp he
  rfl

theorem commanded_mirrors {command : String} (h : DagAccepted env raw (commandedDag command spec) d) : Mirrors spec d := by
  intro t ht htype
  have he : commanded command t ∈ (commandedDag command spec).tasks := List.mem_map_of_mem ht
  obtain ⟨task, htask, seen, n, haccepted⟩ := entry_accepted h (commanded_plain command) he
  have hentry : commanded command t = { taskOut t with command := command } := if_pos htype
  rw [hentry] at haccepted
  refine ⟨task, htask, congrArg Task.id haccepted.result, subdag_type haccepted htype, ?_⟩
  calc
    task.subdag = trimSpace (taskOut t).subdag := congrArg Task.subdag haccepted.result
    _ = trimSpace (trimSpace t.subdag) := by rw [show (taskOut t).subdag = trimSpace t.subdag from if_pos htype]
    _ = trimSpace t.subdag := trimSpace_idem _

/-- Without subdag tasks there is nothing to add a command to. -/
theorem commandedDag_plain (command : String) (h : ∀ t ∈ spec.tasks, t.type ≠ "subdag") :
    commandedDag command spec = dagOut spec := by
  have htasks : spec.tasks.map (commanded command) = spec.tasks.map taskOut :=
    List.map_congr_left (fun t ht => if_neg (h t ht))
  rw [commandedDag, htasks]
  rfl

/-- A spec whose definition would be accepted with any command on its subdag tasks is
accepted as it is rendered exactly when it has no subdag task. With the command it has
the subdag tasks of the spec, each with its target. -/
theorem builder_subdags_iff {ed : Editor} {command : String} {d' : DAG} (hrenders : RoundTrip.Renders ed (dagOut spec))
    (hrenders' : RoundTrip.Renders ed (commandedDag command spec))
    (hvalid : parse ed.env (ed.marshal (commandedDag command spec)) = .ok d') :
    Mirrors spec d' ∧
      ((∃ d, parse ed.env (specToYAML ed spec) = .ok d ∧ Mirrors spec d) ↔ ∀ t ∈ spec.tasks, t.type ≠ "subdag") := by
  obtain ⟨-, -, y, hdecode, haccepted⟩ := parse_iff.mp hvalid
  rw [hrenders'.decoded] at hdecode
  cases hdecode
  refine ⟨commanded_mirrors haccepted, ?_⟩
  constructor
  · rintro ⟨d, hparse, -⟩ t ht htype
    obtain ⟨-, -, y, hdecode, haccepted⟩ := parse_iff.mp hparse
    rw [specToYAML, hrenders.decoded] at hdecode
    cases hdecode
    have he : taskOut t ∈ (dagOut spec).tasks := List.mem_map_of_mem ht
    obtain ⟨task, -, seen, n, htask⟩ := entry_accepted haccepted dagOut_plain he
    exact subdag_command htask htype (if_pos htype)
  · intro hplain
    rw [commandedDag_plain command hplain] at hvalid
    exact ⟨d', hvalid, fun t ht htype => absurd htype (hplain t ht)⟩

/-- A nightly run of another workflow. -/
def nightlySpec : DagSpec where
  dagID := "nightly"
  schedule := ""
  startDate := ""
  catchup := false
  maxActiveRuns := 1
  executionPolicy := ""
  defaultRetries := 0
  tasks := [{
    id := "load", type := "subdag", command := "", deps := [], pool := "", priority := 0, retries := none, retryDelay := none
    retryBackoff := "", retryDelayMax := 0, timeout := 0, sla := 0, triggerRule := "", http := none, conn := "", project := ""
    workerGroup := "", subdag := "warehouse", dependsOnDag := none }]
  triggerAfter := []
  notifyURL := ""
  notifyOn := []
  notifyFormat := ""
  notifyGroup := ""
  sla := 0
  dagrunTimeout := 0
  expectedHash := ""

def nightlyYAML : String :=
  "dag_id: nightly\ncatchup: false\nmax_active_runs: 1\ntasks:\n    - id: load\n      type: subdag\n      subdag: warehouse\n"

def commandedYAML : String :=
  "dag_id: nightly\ncatchup: false\nmax_active_runs: 1\ntasks:\n    - id: load\n      type: subdag\n      command: none\n" ++
    "      subdag: warehouse\n"

def nightlyEditor : Editor where
  env := .ofDocuments [(nightlyYAML, dagOut nightlySpec), (commandedYAML, commandedDag "none" nightlySpec)]
  definitionHash := id
  rfc3339 _ := "1970-01-01T00:00:00Z"
  marshal doc :=
    if doc = dagOut nightlySpec then nightlyYAML
    else if doc = commandedDag "none" nightlySpec then commandedYAML
    else "dag_id: \"\"\n"

def nightly : DAG :=
  { dagID := "nightly", definitionYAML := commandedYAML
    tasks := [{ id := "load", type := .subdag, command := "none", subdag := "warehouse" }] }

theorem builder_subdags_iff_nightly :
    Mirrors nightlySpec nightly ∧ ((∃ d, parse nightlyEditor.env (specToYAML nightlyEditor nightlySpec) = .ok d ∧
      Mirrors nightlySpec d) ↔ ∀ t ∈ nightlySpec.tasks, t.type ≠ "subdag") := by
  have hrenders : RoundTrip.Renders nightlyEditor (dagOut nightlySpec) := ⟨by decide +kernel, by decide +kernel⟩
  have hrenders' : RoundTrip.Renders nightlyEditor (commandedDag "none" nightlySpec) := ⟨by decide +kernel, by decide +kernel⟩
  have hvalid : parse nightlyEditor.env (nightlyEditor.marshal (commandedDag "none" nightlySpec)) = .ok nightly := by
    decide +kernel
  exact builder_subdags_iff hrenders hrenders' hvalid

/-- The builder's own rendering is refused. -/
theorem nightly_refused :
    specToYAML nightlyEditor nightlySpec = nightlyYAML ∧ nightlyEditor.env.decode nightlyYAML = .ok (dagOut nightlySpec, .eof) ∧
      parse nightlyEditor.env nightlyYAML = .error "dag \"nightly\": task \"load\" has empty command" := by
  refine ⟨by decide +kernel, by decide +kernel, by decide +kernel⟩

end Cronova.Properties.Subworkflows
