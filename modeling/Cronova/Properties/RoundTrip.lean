import Cronova.Api.Editor

/-! Loading a workflow into the editor and saving it unchanged. The save keeps
what the spec has a field for. A time zone, a task budget, event triggers, task
conditions, the default retry delay and what `foreach` fans out have none, and a
subdag task is refused once its command is left out. -/
namespace Cronova.Properties.RoundTrip
open Cronova.Model Cronova.Parser Cronova.Api Cronova.Text

/-- The fields that decide when and how a workflow runs. -/
structure Agrees (d : DAG) (startDate : Time) (d' : DAG) : Prop where
  schedule : d'.schedule = d.schedule
  timezone : d'.timezone = d.timezone
  startDate : d'.startDate = startDate
  catchup : d'.catchup = d.catchup
  maxActiveRuns : d'.maxActiveRuns = d.maxActiveRuns
  maxActiveTasks : d'.maxActiveTasks = d.maxActiveTasks
  executionPolicy : d'.executionPolicy = d.executionPolicy
  triggerAfter : d'.triggerAfter = d.triggerAfter
  triggerOnEvent : d'.triggerOnEvent = d.triggerOnEvent
  notifyURL : d'.notifyURL = d.notifyURL
  notifyOn : d'.notifyOn = d.notifyOn
  notifyFormat : d'.notifyFormat = d.notifyFormat
  notifyGroup : d'.notifyGroup = d.notifyGroup
  sla : d'.sla = d.sla
  dagrunTimeout : d'.dagrunTimeout = d.dagrunTimeout
  tasks : d'.tasks = d.tasks

variable (ed : Editor)

/-- What is loaded from the row and saved unchanged is accepted and agrees with
the definition the row was made from. -/
def RoundTrips (loaded saved : Time) (row : StoredDAG) (d : DAG) : Prop :=
  ∃ d', parse (ed.env.at saved) (specToYAML ed ((getDAG ed loaded row).spec ed)) = .ok d' ∧ Agrees d row.startDate d'

/-- A definition written out with the fields a spec has. -/
def writtenOut (d : DAG) : DagYAML where
  dagID := d.dagID
  schedule := d.schedule
  startDate := ed.rfc3339 (storedTime d.startDate)
  catchup := d.catchup
  maxActiveRuns := d.maxActiveRuns
  executionPolicy := d.executionPolicy.text
  defaultRetries := d.defaultRetries
  sla := d.sla
  dagrunTimeout := d.dagrunTimeout
  tasks := d.tasks.map (fun t =>
    taskYAML t (rawByID ed.env d.definitionYAML t.id).1 (rawByID ed.env d.definitionYAML t.id).2)
  triggerAfter := d.triggerAfter
  notify := { url := d.notifyURL, on := d.notifyOn, format := d.notifyFormat, group := d.notifyGroup }

/-- A definition that uses nothing the editor has no field for. -/
structure Editable (d : DAG) : Prop where
  timezone : d.timezone = ""
  maxActiveTasks : d.maxActiveTasks = 0
  triggerOnEvent : d.triggerOnEvent = []
  notify : d.notifyURL = "" → d.notifyGroup = "" → d.notifyOn = [] ∧ d.notifyFormat = ""
  type : ∀ t ∈ d.tasks, t.type ≠ .subdag
  when_ : ∀ t ∈ d.tasks, t.when_ = ""
  retries : ∀ t ∈ d.tasks, (rawByID ed.env d.definitionYAML t.id).1.getD d.defaultRetries = t.retries
  retryDelay : ∀ t ∈ d.tasks, (rawByID ed.env d.definitionYAML t.id).2.getD 0 = t.retryDelay
  size : (ed.marshal (writtenOut ed d)).utf8ByteSize ≤ maxDefinitionBytes

/-- The document is rendered as a text that is decoded as this document. -/
structure Renders (doc : DagYAML) : Prop where
  nonempty : ed.marshal doc ≠ ""
  decoded : ed.env.decode (ed.marshal doc) = .ok (doc, .eof)

/-- The text of the instant is in the layout of RFC 3339 and in no other. -/
structure Dated (t : Time) : Prop where
  nonempty : ed.rfc3339 t ≠ ""
  date : ed.env.parseInLocation "2006-01-02" (ed.rfc3339 t) ed.env.utc = none
  dateTime : ed.env.parseInLocation "2006-01-02 15:04:05" (ed.rfc3339 t) ed.env.utc = none
  parsed : ed.env.parseInLocation "2006-01-02T15:04:05Z07:00" (ed.rfc3339 t) ed.env.utc = some t

/-- The spec that is saved. -/
private def savedSpec (d : DAG) : DagSpec where
  dagID := d.dagID
  schedule := d.schedule
  startDate := ed.rfc3339 (storedTime d.startDate)
  catchup := d.catchup
  maxActiveRuns := d.maxActiveRuns
  executionPolicy := d.executionPolicy.text
  defaultRetries := d.defaultRetries
  tasks := d.tasks.map (fun t => (editTask ed d.definitionYAML t).spec)
  triggerAfter := d.triggerAfter
  notifyURL := d.notifyURL
  notifyOn := d.notifyOn
  notifyFormat := d.notifyFormat
  notifyGroup := d.notifyGroup
  sla := d.sla
  dagrunTimeout := d.dagrunTimeout
  expectedHash := ed.definitionHash d.definitionYAML

variable {ed} {env : Env} {d : DAG} {raw : String} {y : DagYAML}

/-! ### Loading -/

/-- The clock decides nothing but a start date that is not given. -/
theorem accepted_at {now : Time} (h : DagAccepted (env.at now) raw y d) (later : Time) :
    ∃ start, DagAccepted (env.at later) raw y { d with startDate := start } := by
  obtain ⟨loc, hheader, hstart⟩ := h.header
  obtain ⟨start, hstart'⟩ : ∃ start, parseStartDate (env.at later) y.startDate loc = .ok start := by
    by_cases hempty : y.startDate = ""
    · exact ⟨_, if_pos hempty⟩
    · refine ⟨d.startDate, ?_⟩
      rw [← hstart]
      unfold parseStartDate
      rw [if_neg hempty, if_neg hempty]
      rfl
  exact ⟨start, ⟨⟨loc, hheader, hstart'⟩, h.policy, h.limits, h.triggerAfter, h.triggerOnEvent, h.notify, h.tasks, h.deps,
    h.cycle, congrArg (fun d : DAG => { d with startDate := start }) h.result⟩⟩

private theorem loaded_spec {registered : Time} (h : DagAccepted (ed.env.at registered) raw y d) (loaded : Time)
    (hnonempty : raw ≠ "") (hsize : raw.utf8ByteSize ≤ maxDefinitionBytes) (hdecode : ed.env.decode raw = .ok (y, .eof)) :
    (getDAG ed loaded (upsertDAG d)).spec ed = savedSpec ed d := by
  obtain ⟨start, hloaded⟩ := accepted_at h loaded
  have hraw : d.definitionYAML = raw := congrArg DAG.definitionYAML h.result
  have hparse : parse (ed.env.at loaded) (upsertDAG d).definitionYAML = .ok { d with startDate := start } := by
    have hagain : parse (ed.env.at loaded) raw = .ok { d with startDate := start } :=
      parse_iff.mpr ⟨hnonempty, hsize, y, hdecode, hloaded⟩
    rw [← hraw] at hagain
    exact hagain
  unfold getDAG
  rw [hparse]
  simp only [DagDetail.spec, savedSpec, List.map_map]
  rfl

/-! ### Saving -/

private theorem depOut_accepted {t : TaskYAML} {dep : DependsOnDagYAML} {wait : DependsOnDag}
    (h : parseDependsOnDag env y t dep = .ok wait) : depOut wait = some (dependsOnDagYAML wait) := by
  obtain ⟨⟨hne, -⟩, -, -, -, -, hwait⟩ := parseDependsOnDag_iff.mp h
  have hdag : trimSpace wait.dag = wait.dag := by rw [hwait, trimSpace_idem]
  have hoffset : trimSpace wait.offset = wait.offset := by
    rw [hwait]
    by_cases hsame : trimSpace dep.offset = "same"
    · rw [if_pos hsame]
      rfl
    · rw [if_neg hsame, trimSpace_idem]
  have hne' : ¬ wait.dag = "" := by
    rw [hwait]
    exact hne
  unfold depOut
  rw [hdag, hoffset, if_neg hne']
  rfl

/-- An accepted task that uses only what the editor has a field for. -/
private theorem taskOut_accepted {seen : List String} {n : Nat} {t : TaskYAML} {task : Task}
    (h : TaskAccepted env y seen n t task) (definition : String) (htype : task.type ≠ .subdag) (hwhen : task.when_ = "") :
    taskOut (editTask ed definition task).spec =
      taskYAML task (rawByID ed.env definition task.id).1 (rawByID ed.env definition task.id).2 := by
  have hnot : task.type.text ≠ "subdag" := by
    cases hcase : task.type with
    | subdag => exact absurd hcase htype
    | _ => decide
  have hsubdag : task.subdag = "" := by
    have hcheck := checkSubdag_iff.mp h.subdag
    rw [if_neg htype] at hcheck
    exact (congrArg Task.subdag h.result).trans hcheck
  have hhttp : (if task.type.text = "http" then task.http else none) = task.http := by
    have hcheck := checkHTTP_iff.mp h.http
    by_cases hcase : task.type = .http
    · rw [hcase]
      rfl
    · rw [if_neg hcase] at hcheck
      rw [hcheck.2.2, ite_self]
  have hdep : task.dependsOnDag.bind depOut = task.dependsOnDag.map dependsOnDagYAML := by
    rcases mapM_eq_ok.mp h.dependsOnDag with ⟨-, hnone⟩ | ⟨dep, wait, -, hparse, hsome⟩
    · rw [hnone]
      rfl
    · rw [hsome, Option.bind_some, Option.map_some, depOut_accepted hparse]
  simp only [taskOut, EditTask.spec, editTask, taskYAML, if_neg hnot, hhttp, hdep, hsubdag, hwhen]

/-- What is saved of a definition that uses only what the editor has fields for. -/
private theorem dagOut_saved {now : Time} (h : DagAccepted (ed.env.at now) raw y d)
    (htype : ∀ t ∈ d.tasks, t.type ≠ .subdag) (hwhen : ∀ t ∈ d.tasks, t.when_ = "")
    (hnotify : d.notifyURL = "" → d.notifyGroup = "" → d.notifyOn = [] ∧ d.notifyFormat = "") :
    dagOut (savedSpec ed d) = writtenOut ed d := by
  obtain ⟨entries, -, htasks⟩ := h.tasks
  have hout : (savedSpec ed d).tasks.map taskOut = (writtenOut ed d).tasks := by
    simp only [savedSpec, writtenOut, List.map_map]
    refine List.map_congr_left ?_
    intro task hmem
    obtain ⟨t, -, seen, n, haccepted⟩ := parseTasks_task htasks hmem
    exact taskOut_accepted haccepted d.definitionYAML (htype task hmem) (hwhen task hmem)
  have hafter : d.triggerAfter.filter (· ≠ "") = d.triggerAfter := by
    refine List.filter_eq_self.mpr ?_
    intro id hmem
    have hne := (parseTriggerAfter_again { triggerAfter := d.triggerAfter } h.triggerAfter rfl).2.1 id hmem
    simpa using hne
  have hnote : notifyOut (savedSpec ed d) = (writtenOut ed d).notify := by
    obtain ⟨-, hurl, hgroup, hevents⟩ := parseNotify_again
      { notify := ⟨d.notifyURL, d.notifyOn, d.notifyFormat, d.notifyGroup⟩ } h.notify rfl
    have hon : d.notifyOn.filter (fun ev => decide (ev = "failure" ∨ ev = "success")) = d.notifyOn :=
      List.filter_eq_self.mpr (fun ev hmem => decide_eq_true (hevents ev hmem))
    dsimp only at hurl hgroup
    simp only [notifyOut, savedSpec, writtenOut, hurl, hgroup, hon]
    split
    · rename_i hnone
      obtain ⟨hevents, hformat⟩ := hnotify hnone.1 hnone.2
      rw [hnone.1, hnone.2, hevents, hformat]
    · rfl
  unfold dagOut
  rw [hout, hnote]
  simp only [savedSpec, writtenOut, hafter]

/-! ### The round trip -/

/-- Every retry delay that is written is within the limit. -/
private theorem rawByID_delay {now : Time} (h : DagAccepted (ed.env.at now) raw y d) (hdecode : ed.env.decode raw = .ok (y, .eof))
    (id : String) : (rawByID ed.env raw id).2.all (· ≤ maxDelaySec) = true := by
  unfold rawByID
  rw [hdecode]
  dsimp only
  cases hfind : y.tasks.reverse.find? (fun rt => decide (rt.id = id)) with
  | none => rfl
  | some rt =>
    have hmem : rt ∈ y.tasks := List.mem_reverse.mp (List.mem_of_find?_eq_some hfind)
    obtain ⟨entries, hentries, htasks⟩ := h.tasks
    obtain ⟨e, he, hdelay⟩ := expandForeach_retryDelay hentries hmem
    obtain ⟨task, -, seen, n, haccepted⟩ := parseTasks_entry htasks he
    rw [Option.map_some, Option.getD_some, ← hdelay]
    exact haccepted.retryDelay.1

/-- An editable definition is accepted as it is written out, and nothing has
changed but its text. -/
private theorem writtenOut_accepted {now : Time} (h : DagAccepted (ed.env.at now) raw y d)
    (hdecode : ed.env.decode raw = .ok (y, .eof)) (hedit : Editable ed d) (hdated : Dated ed (storedTime d.startDate))
    (saved : Time) (text : String) : DagAccepted (ed.env.at saved) text (writtenOut ed d)
      { d with startDate := storedTime d.startDate, definitionYAML := text } := by
  have hid : d.dagID = y.dagID := congrArg DAG.dagID h.result
  have hraw : d.definitionYAML = raw := congrArg DAG.definitionYAML h.result
  have hzone : trimSpace y.timezone = "" := (congrArg DAG.timezone h.result).symm.trans hedit.timezone
  have hruns : d.maxActiveRuns = if y.maxActiveRuns = 0 then 1 else y.maxActiveRuns := congrArg DAG.maxActiveRuns h.result
  have hpaused : d.paused = false := congrArg DAG.paused h.result
  obtain ⟨loc, hheader, hstart⟩ := h.header
  obtain ⟨hname, -, hschedule, hrange, hbudget⟩ := parseHeader_iff.mp hheader
  obtain ⟨entries, hentries, htasks⟩ := h.tasks
  have htasks' : parseTasks (ed.env.at saved) y.trimmed entries = .ok d.tasks := htasks
  obtain ⟨hafter, -, hcount⟩ := parseTriggerAfter_again (writtenOut ed d).trimmed h.triggerAfter rfl
  obtain ⟨hnotify, -⟩ := parseNotify_again (writtenOut ed d).trimmed h.notify rfl
  obtain ⟨hretries, hdelay, hsla, hlength, hafterLength⟩ := checkLimits_iff.mp h.limits
  have hpositive : 0 < d.maxActiveRuns ∧ d.maxActiveRuns ≤ maxActiveRunsLimit := by
    change 0 ≤ y.maxActiveRuns ∧ y.maxActiveRuns ≤ maxActiveRunsLimit at hrange
    rw [hruns]
    split
    · decide
    · omega
  refine ⟨⟨ed.env.utc, ?_, ?_⟩, parseExecutionPolicy_text rfl, ?_, hafter, ⟨Nat.zero_le _, ?_⟩, hnotify, ⟨(writtenOut ed d).tasks, ?_, ?_⟩,
    ?_, ?_, ?_⟩
  · have hschedule' : d.schedule = "" ∨ ∃ schedule, parseScheduleIn (ed.env.at saved) d.schedule (trimSpace "") = .ok schedule := by
      rw [show d.schedule = y.schedule from congrArg DAG.schedule h.result, show trimSpace "" = trimSpace y.timezone from hzone.symm]
      exact hschedule
    have hutc : if (writtenOut ed d).trimmed.timezone = "" then ed.env.utc = (ed.env.at saved).utc
        else (ed.env.at saved).loadLocation (writtenOut ed d).trimmed.timezone = some ed.env.utc :=
      (if_pos (show (writtenOut ed d).trimmed.timezone = "" from rfl)).mpr rfl
    have hnone : (0 : Int) ≤ 0 ∧ (0 : Int) ≤ maxTasks := by decide
    refine parseHeader_iff.mpr ⟨?_, hutc, hschedule', ⟨Int.le_of_lt hpositive.1, hpositive.2⟩, hnone⟩
    change d.dagID ≠ "" ∧ d.dagID.utf8ByteSize ≤ maxIdentifierBytes ∧ idPattern d.dagID = true
    rw [hid]
    exact hname
  · change parseStartDate (ed.env.at saved) (ed.rfc3339 (storedTime d.startDate)) ed.env.utc = .ok (storedTime d.startDate)
    unfold parseStartDate
    dsimp only [Env.at]
    rw [if_neg hdated.nonempty, hdated.date, hdated.dateTime, hdated.parsed]
  · have hnone : (0 : Int) ≤ 0 ∧ (0 : Int) ≤ maxDurationSeconds := by decide
    refine checkLimits_iff.mpr ⟨?_, hnone, ?_, ?_, ?_⟩
    · change 0 ≤ d.defaultRetries ∧ d.defaultRetries ≤ maxRetries
      rw [show d.defaultRetries = y.defaultRetries from congrArg DAG.defaultRetries h.result]
      exact hretries
    · change ((0 ≤ d.sla ∧ d.sla ≤ maxDurationSeconds) ∧ 0 ≤ d.dagrunTimeout) ∧ d.dagrunTimeout ≤ maxDurationSeconds
      rw [show d.sla = y.sla from congrArg DAG.sla h.result, show d.dagrunTimeout = y.dagrunTimeout from congrArg DAG.dagrunTimeout h.result]
      exact hsla
    · change (d.tasks.map _).length ≤ maxTasks
      rw [List.length_map, ← (parseTasks_each entries d.tasks htasks).length_eq]
      exact expandForeach_length hentries hlength
    · exact Nat.le_trans hcount hafterLength
  · change parseTriggerOnEvent (writtenOut ed d).trimmed = .ok d.triggerOnEvent
    rw [hedit.triggerOnEvent]
    rfl
  · refine expandForeach_plain ?_
    intro t ht
    obtain ⟨task, -, rfl⟩ := List.mem_map.mp ht
    rfl
  · refine parseTasks_again entries d.tasks htasks' ?_
    intro task hmem seen n t _ haccepted
    refine haccepted.again hid rfl (hedit.retries task hmem) (hedit.retryDelay task hmem) ?_
    rw [hraw]
    exact rawByID_delay h hdecode task.id
  · rw [checkDeps_congr y.trimmed (writtenOut ed d).trimmed hid]
    exact h.deps
  · rw [detectCycle_congr y.trimmed (writtenOut ed d).trimmed hid]
    exact h.cycle
  · change DAG.mk d.dagID d.schedule d.timezone (storedTime d.startDate) d.catchup d.paused d.maxActiveRuns d.maxActiveTasks
        d.executionPolicy d.defaultRetries text d.tasks d.triggerAfter d.triggerOnEvent d.notifyURL d.notifyOn d.notifyFormat
        d.notifyGroup d.sla d.dagrunTimeout =
      DAG.mk d.dagID d.schedule (trimSpace "") (storedTime d.startDate) d.catchup false
        (if d.maxActiveRuns = 0 then 1 else d.maxActiveRuns) 0 d.executionPolicy d.defaultRetries text d.tasks d.triggerAfter
        d.triggerOnEvent d.notifyURL d.notifyOn d.notifyFormat d.notifyGroup d.sla d.dagrunTimeout
    rw [hedit.timezone, hpaused, hedit.maxActiveTasks, if_neg (by omega)]
    rfl

/-- What a saved document must have been, when the save has changed nothing. -/
private theorem editable_of_agrees {now saved : Time} {d' : DAG} {text : String} (h : DagAccepted (ed.env.at now) raw y d)
    (hsaved : DagAccepted (ed.env.at saved) text (dagOut (savedSpec ed d)) d') {startDate : Time} (hagrees : Agrees d startDate d')
    (hsize : (ed.marshal (dagOut (savedSpec ed d))).utf8ByteSize ≤ maxDefinitionBytes) : Editable ed d := by
  obtain ⟨entries, hentries, htasks⟩ := hsaved.tasks
  have hplain : expandForeach (ed.env.at saved) (dagOut (savedSpec ed d)).dagID (dagOut (savedSpec ed d)).tasks =
      .ok (dagOut (savedSpec ed d)).tasks := by
    refine expandForeach_plain ?_
    intro t ht
    obtain ⟨spec, -, rfl⟩ := List.mem_map.mp ht
    rfl
  rw [hplain] at hentries
  cases hentries
  have heach : ∀ t ∈ d.tasks, ∃ seen n, TaskAccepted (ed.env.at saved) (dagOut (savedSpec ed d)).trimmed seen n
      (taskOut (editTask ed d.definitionYAML t).spec) t := by
    have hall := parseTasks_each _ _ htasks
    have hlist : (dagOut (savedSpec ed d)).tasks = d.tasks.map (fun t => taskOut (editTask ed d.definitionYAML t).spec) :=
      List.map_map
    rw [hagrees.tasks, hlist, List.forall₂_map_left_iff] at hall
    exact List.forall₂_same.mp hall
  have htype : ∀ t ∈ d.tasks, t.type ≠ .subdag := by
    intro t ht hsubdag
    obtain ⟨seen, n, haccepted⟩ := heach t ht
    have hcheck := checkHTTP_iff.mp haccepted.http
    rw [hsubdag, if_neg (by decide)] at hcheck
    refine hcheck.2.1 ?_
    change (if t.type.text = "subdag" then "" else t.command) = ""
    rw [hsubdag]
    rfl
  have hwhen : ∀ t ∈ d.tasks, t.when_ = "" := by
    intro t ht
    obtain ⟨seen, n, haccepted⟩ := heach t ht
    exact congrArg Task.when_ haccepted.result
  have hnotify : d.notifyURL = "" → d.notifyGroup = "" → d.notifyOn = [] ∧ d.notifyFormat = "" := by
    intro hurl hgroup
    have hempty : notifyOut (savedSpec ed d) = {} := by
      refine if_pos ?_
      simp only [savedSpec, hurl, hgroup]
      decide
    have hparsed : parseNotify (dagOut (savedSpec ed d)).trimmed = .ok {} := by
      change parseNotify { dagID := d.dagID, notify := notifyOut (savedSpec ed d) } = .ok {}
      rw [hempty]
      rfl
    have hsame := hsaved.notify
    rw [hparsed] at hsame
    simp only [Except.ok.injEq, NotifyYAML.mk.injEq] at hsame
    exact ⟨hagrees.notifyOn.symm.trans hsame.2.1.symm, hagrees.notifyFormat.symm.trans hsame.2.2.1.symm⟩
  exact {
    timezone := hagrees.timezone.symm.trans (congrArg DAG.timezone hsaved.result)
    maxActiveTasks := hagrees.maxActiveTasks.symm.trans (congrArg DAG.maxActiveTasks hsaved.result)
    triggerOnEvent := by
      have hnone : parseTriggerOnEvent (dagOut (savedSpec ed d)).trimmed = .ok [] := rfl
      have hsame := hsaved.triggerOnEvent.2
      rw [hnone, Except.ok.injEq] at hsame
      exact hagrees.triggerOnEvent.symm.trans hsame.symm
    notify := hnotify
    type := htype
    when_ := hwhen
    retries := by
      intro t ht
      obtain ⟨seen, n, haccepted⟩ := heach t ht
      exact (congrArg Task.retries haccepted.result).symm
    retryDelay := by
      intro t ht
      obtain ⟨seen, n, haccepted⟩ := heach t ht
      exact (congrArg Task.retryDelay haccepted.result).symm
    size := by
      rw [← dagOut_saved h htype hwhen hnotify]
      exact hsize }

/-- An accepted definition survives the editor exactly when it is editable. -/
theorem editor_roundTrips_iff {registered loaded saved : Time} (hparse : parse (ed.env.at registered) raw = .ok d)
    (hrenders : Renders ed (dagOut ((getDAG ed loaded (upsertDAG d)).spec ed))) (hdated : Dated ed (storedTime d.startDate)) :
    RoundTrips ed loaded saved (upsertDAG d) d ↔ Editable ed d := by
  obtain ⟨hnonempty, hsize, y, hdecode, h⟩ := parse_iff.mp hparse
  have hspec := loaded_spec h loaded hnonempty hsize hdecode
  unfold RoundTrips specToYAML
  rw [hspec] at hrenders ⊢
  constructor
  · rintro ⟨d', hsaved, hagrees⟩
    obtain ⟨-, hsmall, y', hdecode', hd'⟩ := parse_iff.mp hsaved
    cases hrenders.decoded.symm.trans hdecode'
    exact editable_of_agrees h hd' hagrees hsmall
  · intro hedit
    have hout := dagOut_saved h hedit.type hedit.when_ hedit.notify
    have hsmall := hedit.size
    rw [← hout] at hsmall
    have hd' := writtenOut_accepted h hdecode hedit hdated saved (ed.marshal (dagOut (savedSpec ed d)))
    rw [← hout] at hd'
    refine ⟨_, parse_iff.mpr ⟨hrenders.nonempty, hsmall, _, hrenders.decoded, hd'⟩, ?_⟩
    exact ⟨rfl, rfl, rfl, rfl, rfl, rfl, rfl, rfl, rfl, rfl, rfl, rfl, rfl, rfl, rfl, rfl⟩

/-! Two small definitions, and a third that both of them are saved as. -/

private def plainYAML : String := "dag_id: job\ntasks:\n- id: a\n  command: run\n"

private def gatedYAML : String := "dag_id: job\nmax_active_tasks: 2\ntasks:\n- id: a\n  command: run\n  when: no\n"

private def savedYAML : String := "dag_id: job\nstart_date: \"1970-01-01T00:00:00Z\"\ncatchup: false\nmax_active_runs: 1\n" ++
  "tasks:\n    - id: a\n      type: powershell\n      command: run\n      pool: default\n      trigger_rule: all_success\n"

private def savedDoc : DagYAML :=
  { dagID := "job", startDate := "1970-01-01T00:00:00Z", maxActiveRuns := 1
    tasks := [{ id := "a", type := "powershell", command := "run", pool := "default", triggerRule := "all_success" }] }

private def documents : List (String × DagYAML) :=
  [(plainYAML, { dagID := "job", tasks := [{ id := "a", command := "run" }] }),
    (gatedYAML, { dagID := "job", maxActiveTasks := 2, tasks := [{ id := "a", command := "run", when_ := "no" }] }),
    (savedYAML, savedDoc)]

/-- An editor on the first day of the epoch. -/
def smallEditor : Editor where
  env := { Env.ofDocuments documents with
    parseInLocation := fun layout text _ =>
      if layout = "2006-01-02T15:04:05Z07:00" ∧ text = "1970-01-01T00:00:00Z" then some 0 else none }
  definitionHash := id
  rfc3339 t := if t = 0 then "1970-01-01T00:00:00Z" else "2026-01-01T00:00:00Z"
  marshal doc := if doc = savedDoc then savedYAML else "dag_id: \"\"\n"

private def plainDag : DAG :=
  { dagID := "job", definitionYAML := plainYAML, tasks := [{ id := "a", command := "run" }] }

theorem editor_roundTrips_plain : RoundTrips smallEditor 0 0 (upsertDAG plainDag) plainDag := by
  have hparse : parse (smallEditor.env.at 0) plainYAML = .ok plainDag := by rfl
  have hrenders : Renders smallEditor (dagOut ((getDAG smallEditor 0 (upsertDAG plainDag)).spec smallEditor)) :=
    ⟨by decide +kernel, by decide +kernel⟩
  have hdated : Dated smallEditor (storedTime plainDag.startDate) := ⟨by decide, by decide, by decide, by decide⟩
  refine (editor_roundTrips_iff hparse hrenders hdated).mpr ?_
  exact ⟨rfl, rfl, rfl, fun _ _ => ⟨rfl, rfl⟩, by decide, by decide, by decide, by decide, by decide +kernel⟩

private def gatedDag : DAG :=
  { dagID := "job", maxActiveTasks := 2, definitionYAML := gatedYAML, tasks := [{ id := "a", command := "run", when_ := "no" }] }

/-- The condition of the task and the task budget are gone after a save. -/
theorem editor_loses_condition : parse (smallEditor.env.at 0) gatedYAML = .ok gatedDag ∧
    Renders smallEditor (dagOut ((getDAG smallEditor 0 (upsertDAG gatedDag)).spec smallEditor)) ∧
    Dated smallEditor (storedTime gatedDag.startDate) ∧ ¬ RoundTrips smallEditor 0 0 (upsertDAG gatedDag) gatedDag := by
  refine ⟨by rfl, ⟨by decide +kernel, by decide +kernel⟩, ⟨by decide, by decide, by decide, by decide⟩, ?_⟩
  rintro ⟨d', hsaved, hagrees⟩
  have htasks : (parse (smallEditor.env.at 0) (specToYAML smallEditor
      ((getDAG smallEditor 0 (upsertDAG gatedDag)).spec smallEditor))).map (fun d => d.maxActiveTasks) = .ok 0 := by
    decide +kernel
  rw [hsaved] at htasks
  have hzero : d'.maxActiveTasks = 0 := Except.ok.inj htasks
  have hbudget := hagrees.maxActiveTasks
  rw [hzero] at hbudget
  cases hbudget

end Cronova.Properties.RoundTrip
