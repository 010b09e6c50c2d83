import Cronova.Parser.Canonical
import Cronova.Scheduler.Naming

/-! Names tell what they stand for: the id of a run its DAG, its trigger and its key, and
the ref of an attempt its run, its task and its try. -/
namespace Cronova.Properties.Naming
open Cronova.Model Cronova.Text Cronova.Parser Cronova.Scheduler

section Accepted
variable {env : Env}

/-- The id of an accepted definition. -/
def DagID (env : Env) (dagID : String) : Prop := ∃ raw d, parse env raw = .ok d ∧ d.dagID = dagID

/-- The id of a task of an accepted definition. -/
def TaskID (env : Env) (taskID : String) : Prop := ∃ raw d, parse env raw = .ok d ∧ ∃ t ∈ d.tasks, t.id = taskID

theorem DagID.pattern {dagID : String} (h : DagID env dagID) : idPattern dagID = true := by
  obtain ⟨raw, d, hparse, rfl⟩ := h
  obtain ⟨-, -, y, -, hy⟩ := parse_iff.mp hparse
  obtain ⟨loc, hheader, -⟩ := hy.header
  have hpattern := (parseHeader_iff.mp hheader).1.2.2
  rw [hy.result]
  exact hpattern

theorem TaskID.pattern {taskID : String} (h : TaskID env taskID) : idPattern taskID = true := by
  obtain ⟨raw, d, hparse, t, ht, rfl⟩ := h
  obtain ⟨-, -, y, -, hy⟩ := parse_iff.mp hparse
  obtain ⟨entries, -, htasks⟩ := hy.tasks
  obtain ⟨entry, -, seen, n, haccepted⟩ := parseTasks_task htasks ht
  have hvalid := haccepted.id.2.1
  rw [validID, Bool.and_eq_true] at hvalid
  rw [haccepted.result]
  exact hvalid.2

theorem dagID_of {raw id : String} (h : (parse env raw).map (·.dagID) = .ok id) : DagID env id := by
  cases hparse : parse env raw with
  | error e =>
    rw [hparse] at h
    cases h
  | ok d =>
    rw [hparse] at h
    exact ⟨raw, d, hparse, Except.ok.inj h⟩

theorem taskID_of {raw id : String} {ids : List String} (h : (parse env raw).map (fun d => d.tasks.map (·.id)) = .ok ids)
    (hmem : id ∈ ids) : TaskID env id := by
  cases hparse : parse env raw with
  | error e =>
    rw [hparse] at h
    cases h
  | ok d =>
    rw [hparse] at h
    obtain rfl := Except.ok.inj h
    obtain ⟨t, ht, hid⟩ := List.mem_map.mp hmem
    exact ⟨raw, d, hparse, t, ht, hid⟩

end Accepted

/-- An id begins with a letter or a digit, and has no slash of either kind. -/
theorem idPattern_chars {id : String} (h : idPattern id = true) :
    (∃ c cs, id.toList = c :: cs ∧ c.isAlphanum = true) ∧ '/' ∉ id.toList ∧ '\\' ∉ id.toList := by
  unfold idPattern matchesID at h
  cases hid : id.toList with
  | nil => simp [hid] at h
  | cons c cs =>
    rw [hid] at h
    simp only [Bool.and_eq_true, List.all_eq_true] at h
    refine ⟨⟨c, cs, rfl, h.1⟩, fun hmem => ?_, fun hmem => ?_⟩
    · rcases List.mem_cons.mp hmem with rfl | hmem
      · exact absurd h.1 (by decide)
      · exact absurd (h.2 _ hmem) (by decide)
    · rcases List.mem_cons.mp hmem with rfl | hmem
      · exact absurd h.1 (by decide)
      · exact absurd (h.2 _ hmem) (by decide)

theorem slash_not_mem_runID {dagID : String} (h : '/' ∉ dagID.toList) (key : RunKey) : '/' ∉ (key.runID dagID).toList := by
  rw [RunKey.runID_toList]
  intro hmem
  rcases List.mem_append.mp hmem with hmem | hmem
  · exact h hmem
  · simp only [List.mem_cons] at hmem
    rcases hmem with hmem | hmem | hmem
    · exact absurd hmem (by decide)
    · exact absurd hmem (by decide)
    · exact key.plain_tag.slash hmem

theorem runID_ne_empty (dagID : String) (key : RunKey) : key.runID dagID ≠ "" := by
  intro h
  have hchars := congrArg String.toList h
  rw [RunKey.runID_toList] at hchars
  simp at hchars

/-- Run ids and attempt refs are read back as what they were made from. A try is a
number of 64 bits. -/
theorem names_unambiguous (env : Env) :
    (∀ dagID dagID' (key key' : RunKey), DagID env dagID → DagID env dagID' → key.runID dagID = key'.runID dagID' →
      dagID = dagID' ∧ key = key') ∧
    (∀ dagID key taskID n, DagID env dagID → TaskID env taskID → n < 2 ^ 63 →
      Remote.splitRef (attemptRef (RunKey.runID dagID key) taskID n) = some (RunKey.runID dagID key, taskID, (n : Int))) ∧
    ∀ dagID dagID' key key' taskID taskID' n n', DagID env dagID → DagID env dagID' → TaskID env taskID → TaskID env taskID' →
      n < 2 ^ 63 → n' < 2 ^ 63 →
      attemptRef (RunKey.runID dagID key) taskID n = attemptRef (RunKey.runID dagID' key') taskID' n' →
        dagID = dagID' ∧ key = key' ∧ taskID = taskID' ∧ n = n' := by
  have hsplit : ∀ dagID key taskID n, DagID env dagID → TaskID env taskID → n < 2 ^ 63 →
      Remote.splitRef (attemptRef (RunKey.runID dagID key) taskID n) = some (RunKey.runID dagID key, taskID, (n : Int)) := by
    intro dagID key taskID n hdag _ hn
    obtain ⟨-, hslash, -⟩ := idPattern_chars hdag.pattern
    exact splitRef_attemptRef (runID_ne_empty dagID key) (slash_not_mem_runID hslash key) hn
  refine ⟨fun dagID dagID' key key' _ _ h => RunKey.runID_inj h, hsplit, ?_⟩
  intro dagID dagID' key key' taskID taskID' n n' hdag hdag' htask htask' hn hn' h
  have hread := hsplit dagID key taskID n hdag htask hn
  rw [h, hsplit dagID' key' taskID' n' hdag' htask' hn'] at hread
  obtain ⟨hrun, hrest⟩ := Prod.mk.inj (Option.some.inj hread)
  obtain ⟨htask, hcount⟩ := Prod.mk.inj hrest
  obtain ⟨hdag, hkey⟩ := RunKey.runID_inj hrun
  exact ⟨hdag.symm, hkey.symm, htask.symm, (Int.ofNat.inj hcount).symm⟩

/-- A document with an id that looks like a run's. -/
def documents : Env :=
  .ofDocuments [("d", { dagID := "d", tasks := [{ id := "t", command := "true" }] }),
    ("d__manual_1_x", { dagID := "d__manual_1_x", tasks := [{ id := "x__manual_2_y", command := "true" }] })]

theorem names_unambiguous_nested :
    (RunKey.manual 1).runID "d" ≠ (RunKey.manual 1).runID "d__manual_1_x" ∧
      Remote.splitRef (attemptRef ((RunKey.manual 2).runID "d__manual_1_x") "x__manual_2_y" 1) =
        some ((RunKey.manual 2).runID "d__manual_1_x", "x__manual_2_y", 1) ∧
      attemptRef ((RunKey.manual 1).runID "d") "x__manual_2_y" 1 ≠ attemptRef ((RunKey.manual 2).runID "d__manual_1_x") "t" 1 := by
  have hdag : DagID documents "d" := dagID_of (show (parse documents "d").map (·.dagID) = .ok "d" by decide +kernel)
  have hdag' : DagID documents "d__manual_1_x" :=
    dagID_of (show (parse documents "d__manual_1_x").map (·.dagID) = .ok "d__manual_1_x" by decide +kernel)
  have htask : TaskID documents "t" :=
    taskID_of (show (parse documents "d").map (fun d => d.tasks.map (·.id)) = .ok ["t"] by decide +kernel) (by decide)
  have htask' : TaskID documents "x__manual_2_y" :=
    taskID_of (show (parse documents "d__manual_1_x").map (fun d => d.tasks.map (·.id)) = .ok ["x__manual_2_y"] by decide +kernel)
      (by decide)
  obtain ⟨hruns, hrefs, hattempts⟩ := names_unambiguous documents
  refine ⟨fun h => ?_, hrefs _ _ _ _ hdag' htask' (by decide), fun h => ?_⟩
  · exact absurd (hruns _ _ _ _ hdag hdag' h).1 (by decide)
  · exact absurd (hattempts _ _ _ _ _ _ _ _ hdag hdag' htask' htask (by decide) (by decide) h).1 (by decide)

end Cronova.Properties.Naming
