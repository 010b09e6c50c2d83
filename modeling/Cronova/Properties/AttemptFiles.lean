import Cronova.Executor.StateDir
import Cronova.Properties.Naming

/-! Whose exit code and whose output the files of attempts tell. The name of a file is the
ref of its attempt with the slashes folded into underscores, so two attempts share their
files when the DAG of one is named like a run of the other's. -/
namespace Cronova.Properties.AttemptFiles
open Cronova.Executor Cronova.Parser Cronova.Scheduler Cronova.Text
open Cronova.Properties.Naming (DagID TaskID idPattern_chars dagID_of taskID_of)

/-! ### Attempts whose files are their own -/

/-- An exit code of an attempt: one it ended with, or the code for an end that nothing
proves. -/
def Own (ended : List (String × Int)) (ref : String) (code : Int) : Prop := code = -1 ∨ (ref, code) ∈ ended

/-- What a file of the state directory may hold. -/
def FileKept (separator : Char) (launched : List String) (ended : List (String × Int)) (f : String × FileBody) : Prop :=
  match f.2 with
  | .state st => st.ref ∈ launched ∧ (st.finished = true → Own ended st.ref st.exitCode)
  | .exitCode code => ∃ ref ∈ launched, f.1 = exitFile separator ref ∧ (ref, code) ∈ ended
  | .output _ => False

structure RunnerKept (separator : Char) (launched : List String) (ended : List (String × Int)) (r : Runner) : Prop where
  files : ∀ f ∈ r.dir, FileKept separator launched ended f
  tasks : ∀ e ∈ r.tasks, e.1 ∈ launched ∧ (e.2.finished = true → Own ended e.1 e.2.exitCode)

structure HostKept (separator : Char) (S : String → Prop) (h : Host) : Prop where
  launched : ∀ ref ∈ h.launched, S ref
  runner : RunnerKept separator h.launched h.ended h.runner
  spool : ∀ f ∈ h.spool, ∃ ref ∈ h.launched, ∃ b, f = (outFile separator ref, .output b) ∧ (ref, b) ∈ h.emitted

/-- Different attempts of a set have different names. -/
def Distinct (separator : Char) (S : String → Prop) : Prop :=
  ∀ a b, S a → S b → sanitizeRef separator a = sanitizeRef separator b → a = b

section Kept
variable {separator : Char} {launched launched' : List String} {ended ended' : List (String × Int)} {r : Runner}

theorem exitFile_inj {a b : String} (h : exitFile separator a = exitFile separator b) :
    sanitizeRef separator a = sanitizeRef separator b := by
  unfold exitFile stateFile at h
  exact String.append_left_inj _ |>.mp (String.append_left_inj _ |>.mp h)

theorem FileKept.mono {f : String × FileBody} (hlaunched : ∀ ref ∈ launched, ref ∈ launched') (hended : ∀ e ∈ ended, e ∈ ended')
    (h : FileKept separator launched ended f) : FileKept separator launched' ended' f := by
  obtain ⟨name, body⟩ := f
  cases body with
  | state st => exact ⟨hlaunched _ h.1, fun hfin => (h.2 hfin).imp_right (hended _)⟩
  | exitCode code =>
    obtain ⟨ref, hmem, hname, hcode⟩ := h
    exact ⟨ref, hlaunched _ hmem, hname, hended _ hcode⟩
  | output b => exact h

theorem RunnerKept.mono (hlaunched : ∀ ref ∈ launched, ref ∈ launched') (hended : ∀ e ∈ ended, e ∈ ended')
    (h : RunnerKept separator launched ended r) : RunnerKept separator launched' ended' r where
  files f hf := (h.files f hf).mono hlaunched hended
  tasks e he := ⟨hlaunched _ (h.tasks e he).1, fun hfin => ((h.tasks e he).2 hfin).imp_right (hended _)⟩

theorem mem_of_lookup {β : Type} {l : List (String × β)} {a : String} {b : β} (h : List.lookup a l = some b) : (a, b) ∈ l := by
  induction l with
  | nil => cases h
  | cons e l ih =>
    rw [List.lookup_cons] at h
    split at h
    · rename_i heq
      cases h
      rw [eq_of_beq heq]
      exact List.mem_cons_self
    · exact List.mem_cons_of_mem _ (ih h)

namespace RunnerKept

theorem setTask (h : RunnerKept separator launched ended r) {ref : String} {t : ProcTask} (hmem : ref ∈ launched)
    (ht : t.finished = true → Own ended ref t.exitCode) : RunnerKept separator launched ended (r.setTask ref t) where
  files := h.files
  tasks e he := by
    rcases List.mem_cons.mp he with rfl | he
    · exact ⟨hmem, ht⟩
    · exact h.tasks e (List.mem_of_mem_filter he)

theorem write (h : RunnerKept separator launched ended r) {name : String} {body : FileBody}
    (hbody : FileKept separator launched ended (name, body)) :
    RunnerKept separator launched ended { r with dir := r.dir.write name body } where
  files f hf := by
    rcases Dir.mem_write hf with rfl | hf
    · exact hbody
    · exact h.files f hf
  tasks := h.tasks

theorem saveState (h : RunnerKept separator launched ended r) {st : AttemptState} (hmem : st.ref ∈ launched)
    (hcode : st.finished = true → Own ended st.ref st.exitCode) :
    RunnerKept separator launched ended (r.saveState separator st) :=
  h.write ⟨hmem, hcode⟩

theorem removeFile (h : RunnerKept separator launched ended r) (name : String) :
    RunnerKept separator launched ended { r with dir := r.dir.remove name } where
  files f hf := h.files f (Dir.mem_remove hf)
  tasks := h.tasks

theorem task (h : RunnerKept separator launched ended r) {ref : String} {t : ProcTask} (ht : r.task? ref = some t) :
    ref ∈ launched ∧ (t.finished = true → Own ended ref t.exitCode) :=
  h.tasks (ref, t) (mem_of_lookup ht)

theorem record (h : RunnerKept separator launched ended r) {name : String} {st : AttemptState}
    (hread : r.dir.read name = some (.state st)) : st.ref ∈ launched ∧ (st.finished = true → Own ended st.ref st.exitCode) :=
  h.files _ (Dir.mem_of_read hread)

/-- The exit file of an attempt holds a code of its own, as long as no other attempt has
its name. -/
theorem exitCode {S : String → Prop} (h : RunnerKept separator launched ended r) (hlaunched : ∀ ref ∈ launched, S ref)
    (hdistinct : Distinct separator S) {ref : String} {code : Int} (hS : S ref)
    (hread : readExitFile r.dir (exitFile separator ref) = some code) : (ref, code) ∈ ended := by
  unfold readExitFile at hread
  split at hread
  · rename_i hfile
    cases hread
    obtain ⟨owner, hmem, hname, hcode⟩ := h.files _ (Dir.mem_of_read hfile)
    obtain rfl := hdistinct ref owner hS (hlaunched owner hmem) (exitFile_inj hname)
    exact hcode
  · cases hread

theorem launch (h : RunnerKept separator launched ended r) {ref : String} (hmem : ref ∈ launched) (pgid : Int) :
    RunnerKept separator launched ended (r.launch separator ref pgid) := by
  unfold Runner.launch
  split
  · exact h
  · exact (h.setTask hmem (fun hfin => by cases hfin)).saveState hmem (fun hfin => by cases hfin)

theorem wait (h : RunnerKept separator launched ended r) {ref : String} {code : Int} (hmem : ref ∈ launched)
    (hcode : (ref, code) ∈ ended) : RunnerKept separator launched ended (r.wait separator ref code) := by
  unfold Runner.wait
  split
  · exact (h.setTask hmem (fun _ => .inr hcode)).saveState hmem (fun _ => .inr hcode)
  · exact h.saveState hmem (fun _ => .inr hcode)

theorem sweep (h : RunnerKept separator launched ended r) (ref : String) :
    RunnerKept separator launched ended (r.sweep separator ref) := by
  have hdrop : RunnerKept separator launched ended { r with tasks := r.tasks.filter (fun e => e.1 ≠ ref) } :=
    ⟨h.files, fun e he => h.tasks e (List.mem_of_mem_filter he)⟩
  unfold Runner.sweep
  split
  · split
    · exact (hdrop.removeFile _).removeFile _
    · exact h
  · exact h

variable {S : String → Prop} (hlaunched : ∀ ref ∈ launched, S ref) (hdistinct : Distinct separator S)
include hlaunched hdistinct

theorem watchAdopted (h : RunnerKept separator launched ended r) {ref : String} (hmem : ref ∈ launched) (pgid : Int) :
    RunnerKept separator launched ended (r.watchAdopted separator ref pgid) := by
  have hcode : Own ended ref ((readExitFile r.dir (exitFile separator ref)).getD (-1)) := by
    cases hread : readExitFile r.dir (exitFile separator ref) with
    | none => exact .inl rfl
    | some code => exact .inr (h.exitCode hlaunched hdistinct (hlaunched ref hmem) hread)
  unfold Runner.watchAdopted
  dsimp only
  split
  · split
    · exact h.saveState hmem (fun _ => hcode)
    · exact (h.setTask hmem (fun _ => hcode)).saveState hmem (fun _ => hcode)
  · exact h.saveState hmem (fun _ => hcode)

theorem recoverEntry (h : RunnerKept separator launched ended r) (alive : Int → Bool) (name : String) :
    RunnerKept separator launched ended (r.recoverEntry separator alive name) := by
  unfold Runner.recoverEntry
  split
  · exact h
  · rename_i st hread
    obtain ⟨hmem, hcode⟩ := h.record hread
    split
    · exact h.removeFile name
    · -- the record with the code of the exit file
      extract_lets st'
      have hknown : st'.ref = st.ref ∧ (st'.finished = true → Own ended st.ref st'.exitCode) := by
        unfold st'
        split
        · exact ⟨rfl, hcode⟩
        · split
          · rename_i code hexit
            exact ⟨rfl, fun _ => .inr (h.exitCode hlaunched hdistinct (hlaunched _ hmem) hexit)⟩
          · exact ⟨rfl, hcode⟩
      clear_value st'
      obtain ⟨href, hcode'⟩ := hknown
      rw [← href] at hmem hcode'
      split
      · exact h
      · split
        · rename_i hfin
          exact (h.setTask hmem (fun _ => hcode' hfin)).saveState hmem hcode'
        · split
          · exact (h.setTask hmem (fun hfin => by cases hfin)).saveState hmem (fun hfin => by cases hfin)
          · exact (h.setTask hmem (fun _ => .inl rfl)).saveState hmem (fun _ => .inl rfl)
  · exact h.removeFile name

theorem recoverState (h : RunnerKept separator launched ended r) (alive : Int → Bool) :
    RunnerKept separator launched ended (r.recoverState separator alive) := by
  have hfold : ∀ (names : List String) (r : Runner), RunnerKept separator launched ended r →
      RunnerKept separator launched ended (names.foldl (fun r name => r.recoverEntry separator alive name) r) := by
    intro names
    induction names with
    | nil => exact fun r h => h
    | cons name names ih => exact fun r h => ih _ (h.recoverEntry hlaunched hdistinct alive name)
  exact hfold _ _ ⟨h.files, nofun⟩

end RunnerKept
end Kept

section Host
variable {separator : Char} {S : String → Prop} {h : Host}

/-- The step launches nothing but attempts of a set. -/
def HostStep.Within (S : String → Prop) : HostStep → Prop
  | .launch ref _ => S ref
  | _ => True

theorem outFile_inj {a b : String} (h : outFile separator a = outFile separator b) : sanitizeRef separator a = sanitizeRef separator b :=
  (String.append_left_inj _).mp h

theorem HostKept.step (hdistinct : Distinct separator S) (hkept : HostKept separator S h) {st : HostStep} (hst : HostStep.Within S st) :
    HostKept separator S (h.step separator st) := by
  have hrunner := hkept.runner
  have hall := hkept.launched
  cases st with
  | launch ref pgid =>
    have hmore : RunnerKept separator (ref :: h.launched) h.ended h.runner :=
      hrunner.mono (fun _ hmem => List.mem_cons_of_mem _ hmem) (fun _ hmem => hmem)
    refine ⟨fun r hr => ?_, hmore.launch List.mem_cons_self pgid, fun f hf => ?_⟩
    · rcases List.mem_cons.mp hr with rfl | hr
      · exact hst
      · exact hall r hr
    · obtain ⟨r, hr, b, hfile, hout⟩ := hkept.spool f hf
      exact ⟨r, List.mem_cons_of_mem _ hr, b, hfile, hout⟩
  | emit ref b =>
    rw [Host.step]
    split
    · rename_i hmem
      refine ⟨hall, hrunner, fun f hf => ?_⟩
      rcases Dir.mem_write hf with rfl | hf
      · exact ⟨ref, hmem, b, rfl, List.mem_cons_self⟩
      · obtain ⟨r, hr, b', hfile, hout⟩ := hkept.spool f hf
        exact ⟨r, hr, b', hfile, List.mem_cons_of_mem _ hout⟩
    · exact hkept
  | exit ref code =>
    rw [Host.step]
    split
    · rename_i hmem
      have hmore : RunnerKept separator h.launched ((ref, code) :: h.ended) h.runner :=
        hrunner.mono (fun _ hmem => hmem) (fun _ hmem => List.mem_cons_of_mem _ hmem)
      exact ⟨hall, hmore.write ⟨ref, hmem, rfl, List.mem_cons_self⟩, hkept.spool⟩
    · exact hkept
  | wait ref code =>
    rw [Host.step]
    split
    · rename_i hmem
      have hmore : RunnerKept separator h.launched ((ref, code) :: h.ended) h.runner :=
        hrunner.mono (fun _ hmem => hmem) (fun _ hmem => List.mem_cons_of_mem _ hmem)
      exact ⟨hall, hmore.wait hmem List.mem_cons_self, hkept.spool⟩
    · exact hkept
  | watch ref pgid =>
    rw [Host.step]
    split
    · rename_i hmem
      exact ⟨hall, hrunner.watchAdopted hall hdistinct hmem pgid, hkept.spool⟩
    · exact hkept
  | sweep ref => exact ⟨hall, hrunner.sweep ref, hkept.spool⟩
  | collect ref => exact ⟨hall, hrunner, fun f hf => hkept.spool f (Dir.mem_remove (Dir.mem_remove hf))⟩
  | restart alive => exact ⟨hall, hrunner.recoverState hall hdistinct alive, hkept.spool⟩

theorem HostKept.run (hdistinct : Distinct separator S) (hkept : HostKept separator S h) {steps : List HostStep}
    (hsteps : ∀ st ∈ steps, HostStep.Within S st) : HostKept separator S (h.run separator steps) := by
  induction steps generalizing h with
  | nil => exact hkept
  | cons st steps ih =>
    have hnext := hkept.step hdistinct (hsteps st List.mem_cons_self)
    exact ih hnext (fun st' hmem => hsteps st' (List.mem_cons_of_mem _ hmem))

theorem HostKept.empty : HostKept separator S {} where
  launched := nofun
  runner := ⟨nofun, nofun⟩
  spool := nofun

/-- What is told of an attempt is its own. -/
structure Honest (separator : Char) (h : Host) (ref : String) : Prop where
  probe : ∀ code, h.runner.probe ref = .exited code → Own h.ended ref code
  exitCode : ∀ code, readExitCode separator h.runner.dir ref = some code → (ref, code) ∈ h.ended
  output : ∀ b, pickup separator h.spool ref = some b → (ref, b) ∈ h.emitted

theorem HostKept.honest (hdistinct : Distinct separator S) (hkept : HostKept separator S h) {ref : String} (hS : S ref) :
    Honest separator h ref where
  probe code hcode := by
    unfold Runner.probe at hcode
    split at hcode
    · rename_i t ht
      split at hcode
      · rename_i hfin
        cases hcode
        exact (hkept.runner.task ht).2 hfin
      · cases hcode
    · cases hcode
  exitCode code hcode := by
    unfold readExitCode at hcode
    split at hcode
    · cases hcode
    · exact hkept.runner.exitCode hkept.launched hdistinct hS hcode
  output b hb := by
    unfold pickup at hb
    split at hb
    · rename_i b' hread
      split at hb
      · cases hb
        obtain ⟨owner, hmem, b'', hfile, hout⟩ := hkept.spool _ (Dir.mem_of_read hread)
        obtain ⟨hname, hbody⟩ := Prod.mk.inj hfile
        cases hbody
        obtain rfl := hdistinct ref owner hS (hkept.launched owner hmem) (outFile_inj hname)
        exact hout
      · cases hb
    · cases hb

end Host

/-! ### Attempts that share a name -/

/-- An attempt of a task in a run. -/
structure Attempt where
  dagID : String
  key : RunKey
  taskID : String
  tryNumber : Nat
  deriving DecidableEq

namespace Attempt

def run (a : Attempt) : String := a.key.runID a.dagID

def ref (a : Attempt) : String := attemptRef a.run a.taskID a.tryNumber

/-- The ids are ones that definitions are accepted with. -/
def Accepted (env : Env) (a : Attempt) : Prop := DagID env a.dagID ∧ TaskID env a.taskID

/-- The DAG of an attempt is named after a run of another's, and the task of the other
after the run of the attempt. -/
def Nested (a b : Attempt) : Prop :=
  a.tryNumber = b.tryNumber ∧ ∃ y, b.dagID.toList = a.run.toList ++ '_' :: y ∧
    a.taskID.toList = y ++ '_' :: '_' :: b.key.tag ++ '_' :: b.taskID.toList

/-- The files of two attempts are different ones. -/
structure Apart (separator : Char) (a b : Attempt) : Prop where
  state : stateFile separator a.ref ≠ stateFile separator b.ref
  exit : exitFile separator a.ref ≠ exitFile separator b.ref
  spool : spoolFile separator a.ref ≠ spoolFile separator b.ref
  out : outFile separator a.ref ≠ outFile separator b.ref

variable {env : Env} {separator : Char} {a b : Attempt}

theorem run_toList (a : Attempt) : a.run.toList = a.dagID.toList ++ '_' :: '_' :: a.key.tag := RunKey.runID_toList a.dagID a.key

theorem apart_iff : Apart separator a b ↔ sanitizeRef separator a.ref ≠ sanitizeRef separator b.ref := by
  constructor
  · intro h hname
    exact h.spool (by rw [spoolFile, spoolFile, hname])
  · intro h
    exact ⟨fun heq => h ((String.append_left_inj _).mp heq), fun heq => h (exitFile_inj heq),
      fun heq => h ((String.append_left_inj _).mp heq), fun heq => h (outFile_inj heq)⟩

/-- The name of an attempt keeps its run and its task, and folds the slashes between them. -/
theorem name_toList (hsep : separator = '/' ∨ separator = '\\') (ha : Accepted env a) :
    (sanitizeRef separator a.ref).toList =
      (a.run.toList ++ '_' :: a.taskID.toList) ++ '_' :: (toString a.tryNumber).toList := by
  have hkeep : ∀ cs : List Char, '/' ∉ cs → '\\' ∉ cs →
      cs.map (fun c => if c = '/' ∨ c = separator then '_' else c) = cs := by
    intro cs hslash hback
    have hsame : ∀ c ∈ cs, (if c = '/' ∨ c = separator then '_' else c) = c := by
      intro c hc
      refine if_neg ?_
      rintro (rfl | rfl)
      · exact hslash hc
      · rcases hsep with rfl | rfl
        · exact hslash hc
        · exact hback hc
    rw [List.map_congr_left hsame, List.map_id']
  obtain ⟨-, hdslash, hdback⟩ := idPattern_chars ha.1.pattern
  obtain ⟨-, htslash, htback⟩ := idPattern_chars ha.2.pattern
  have hrun : a.run.toList.map (fun c => if c = '/' ∨ c = separator then '_' else c) = a.run.toList := by
    have hplain := a.key.plain_tag
    refine hkeep _ (Naming.slash_not_mem_runID hdslash a.key) (fun hmem => ?_)
    rw [run_toList] at hmem
    simp only [List.mem_append, List.mem_cons] at hmem
    rcases hmem with hmem | hmem | hmem | hmem
    · exact hdback hmem
    · exact absurd hmem (by decide)
    · exact absurd hmem (by decide)
    · exact hplain.backslash hmem
  have hdigits : (toString a.tryNumber).toList.map (fun c => if c = '/' ∨ c = separator then '_' else c) =
      (toString a.tryNumber).toList := by
    refine hkeep _ (fun hmem => ?_) (fun hmem => ?_)
    · cases digits_nat a.tryNumber '/' hmem
    · cases digits_nat a.tryNumber '\\' hmem
  have hchars : a.ref.toList = (a.run.toList ++ '/' :: a.taskID.toList) ++ '/' :: (toString a.tryNumber).toList := by
    rw [ref, attemptRef, String.toList_append, String.toList_append, String.toList_append, String.toList_append]
    simp
  rw [sanitizeRef, String.toList_ofList, hchars, List.map_append, List.map_append, List.map_cons, List.map_cons, hrun,
    hkeep _ htslash htback, hdigits, if_pos (.inl rfl)]

/-- A text is split in one way at the last place of a mark. -/
theorem split_last {c : Char} {a b x y : List Char} (hx : c ∉ x) (hy : c ∉ y) (h : a ++ c :: x = b ++ c :: y) : a = b ∧ x = y := by
  have hback : x.reverse ++ c :: a.reverse = y.reverse ++ c :: b.reverse := by
    have hreverse := congrArg List.reverse h
    simpa using hreverse
  obtain ⟨hafter, hbefore⟩ := split_mark (fun hc => hx (List.mem_reverse.mp hc)) (fun hc => hy (List.mem_reverse.mp hc)) hback
  exact ⟨List.reverse_inj.mp hbefore, List.reverse_inj.mp hafter⟩

/-- A run id ends as its tag does. -/
theorem run_last (a : Attempt) : ∃ c, a.run.toList.getLast? = some c ∧ TagEnd c := by
  obtain ⟨c, hc, hends⟩ := a.key.tag_last
  refine ⟨c, ?_, hends⟩
  have hsplit : a.run.toList = (a.dagID.toList ++ ['_', '_']) ++ a.key.tag := by
    rw [run_toList, List.append_assoc]
    rfl
  rw [hsplit, List.getLast?_append, hc]
  rfl

/-- What the run of another attempt has beyond the run of this one, when the two names are
the same. -/
theorem nested_of_shorter (ha : Accepted env a) (hlen : a.run.toList.length < b.run.toList.length) (htry : a.tryNumber = b.tryNumber)
    (h : a.run.toList ++ '_' :: a.taskID.toList = b.run.toList ++ '_' :: b.taskID.toList) : Nested a b := by
  obtain ⟨⟨first, others, htask, hfirst⟩, -, -⟩ := idPattern_chars ha.2.pattern
  -- the longer run goes on with a part of the task
  have hpre : a.run.toList ++ ['_'] <+: b.run.toList := by
    have hfront : a.run.toList ++ ['_'] <+: b.run.toList ++ '_' :: b.taskID.toList := ⟨a.taskID.toList, by rw [← h, List.append_assoc]; rfl⟩
    exact List.prefix_of_prefix_length_le hfront (List.prefix_append _ _) (by rw [List.length_append]; exact hlen)
  obtain ⟨x, hx⟩ := hpre
  have htail : a.taskID.toList = x ++ '_' :: b.taskID.toList := by
    rw [← hx, List.append_assoc, List.append_assoc] at h
    exact (List.cons_eq_cons.mp (List.append_cancel_left h)).2
  rw [run_toList b] at hx
  have hrun : a.run.toList ++ '_' :: x = b.dagID.toList ++ '_' :: '_' :: b.key.tag := by
    rw [← hx, List.append_assoc]
    rfl
  obtain ⟨last, hlast, hends⟩ := run_last a
  have hnoscore : x ≠ '_' :: b.key.tag := by
    -- the task would begin with an underscore
    rintro rfl
    rw [htail] at htask
    rw [← (List.cons_eq_cons.mp htask).1] at hfirst
    cases hfirst
  rcases List.append_eq_append_iff.mp hrun with ⟨y, hdag, hrest⟩ | ⟨y, hfront, hrest⟩
  · -- the DAG of the other goes beyond the run
    cases y with
    | nil => exact absurd (List.cons_eq_cons.mp hrest).2 hnoscore
    | cons c y =>
      obtain ⟨rfl, hx'⟩ := List.cons_eq_cons.mp hrest
      exact ⟨htry, y, hdag, by rw [htail, hx']; rfl⟩
  · -- the run would end within the tag of the other
    exfalso
    cases y with
    | nil => exact hnoscore (List.cons_eq_cons.mp hrest).2.symm
    | cons c y =>
      obtain ⟨hc, hrest⟩ := List.cons_eq_cons.mp hrest
      cases y with
      | nil =>
        rw [hfront, ← hc, List.getLast?_append] at hlast
        obtain rfl : '_' = last := Option.some.inj hlast
        rcases hends with hdigit | hz
        · cases hdigit
        · exact absurd hz (by decide)
      | cons d w =>
        obtain ⟨hd, hrest⟩ := List.cons_eq_cons.mp hrest
        obtain ⟨letter, hletter, hstop⟩ := RunKey.tag_front hrest
        have hsplit : a.run.toList = (b.dagID.toList ++ ['_', '_']) ++ w := by
          rw [hfront, ← hc, ← hd, List.append_assoc]
          rfl
        rw [hsplit, List.getLast?_append, hletter] at hlast
        obtain rfl : letter = last := Option.some.inj hlast
        exact hstop hends

theorem name_eq_iff (hsep : separator = '/' ∨ separator = '\\') (ha : Accepted env a) (hb : Accepted env b) :
    sanitizeRef separator a.ref = sanitizeRef separator b.ref ↔ a = b ∨ Nested a b ∨ Nested b a := by
  have hdigits : ∀ n : Nat, '_' ∉ (toString n).toList := by
    intro n hmem
    cases digits_nat n '_' hmem
  have hmeet : ∀ {a b : Attempt}, Accepted env a → Accepted env b → Nested a b → sanitizeRef separator a.ref = sanitizeRef separator b.ref := by
    rintro a b ha hb ⟨htry, y, hdag, htask⟩
    refine String.toList_inj.mp ?_
    rw [name_toList hsep ha, name_toList hsep hb, htry, htask, run_toList b, hdag]
    simp
  constructor
  · intro h
    have hchars := congrArg String.toList h
    rw [name_toList hsep ha, name_toList hsep hb] at hchars
    obtain ⟨hname, htry⟩ := split_last (hdigits _) (hdigits _) hchars
    have htry : a.tryNumber = b.tryNumber := toString_nat_inj (String.toList_inj.mp htry)
    rcases Nat.lt_trichotomy a.run.toList.length b.run.toList.length with hlt | heq | hgt
    · exact .inr (.inl (nested_of_shorter ha hlt htry hname))
    · left
      obtain ⟨hrun, htask⟩ := List.append_inj hname heq
      obtain ⟨hdag, hkey⟩ := RunKey.runID_inj (String.toList_inj.mp hrun)
      have htask := String.toList_inj.mp (List.cons_eq_cons.mp htask).2
      cases a
      cases b
      simp_all
    · exact .inr (.inr (nested_of_shorter hb hgt htry.symm hname.symm))
  · rintro (rfl | h | h)
    · rfl
    · exact hmeet ha hb h
    · exact (hmeet hb ha h).symm

theorem Nested.ne (h : Nested a b) : a ≠ b := by
  rintro rfl
  obtain ⟨-, y, hdag, -⟩ := h
  have hlen := congrArg List.length hdag
  rw [run_toList] at hlen
  simp only [List.length_append, List.length_cons] at hlen
  omega

end Attempt

/-- A host that launches nothing but attempts of a set. -/
def LaunchesOnly (S : Attempt → Prop) (steps : List HostStep) : Prop :=
  ∀ st ∈ steps, HostStep.Within (fun ref => ∃ a, S a ∧ a.ref = ref) st

/-- Attempts of accepted ids have files of their own, and whatever is told of one of them
is its own, exactly when the DAG of none is named after a run of another. -/
theorem attempt_files_own_iff (env : Env) (separator : Char) (hsep : separator = '/' ∨ separator = '\\') (S : Attempt → Prop)
    (hS : ∀ a, S a → a.Accepted env) :
    ((∀ a b, S a → S b → a ≠ b → a.Apart separator b) ∧
      ∀ steps, LaunchesOnly S steps → ∀ a, S a → Honest separator (Host.run separator {} steps) a.ref) ↔
    ∀ a b, S a → S b → ¬ a.Nested b := by
  constructor
  · rintro ⟨hapart, -⟩ a b ha hb hnested
    have hne := Attempt.apart_iff.mp (hapart a b ha hb hnested.ne)
    exact hne ((Attempt.name_eq_iff hsep (hS a ha) (hS b hb)).mpr (.inr (.inl hnested)))
  · intro hnested
    have hname : ∀ a b, S a → S b → sanitizeRef separator a.ref = sanitizeRef separator b.ref → a = b := by
      intro a b ha hb h
      rcases (Attempt.name_eq_iff hsep (hS a ha) (hS b hb)).mp h with rfl | h | h
      · rfl
      · exact absurd h (hnested a b ha hb)
      · exact absurd h (hnested b a hb ha)
    refine ⟨fun a b ha hb hne => Attempt.apart_iff.mpr (fun h => hne (hname a b ha hb h)), ?_⟩
    intro steps hsteps a ha
    have hdistinct : Distinct separator (fun ref => ∃ a, S a ∧ a.ref = ref) := by
      rintro _ _ ⟨a, ha, rfl⟩ ⟨b, hb, rfl⟩ h
      rw [hname a b ha hb h]
    exact (HostKept.empty.run hdistinct hsteps).honest hdistinct ⟨a, ha, rfl⟩

/-- A DAG, and another one that is named after a run of it. -/
def documents : Env :=
  .ofDocuments [("d", { dagID := "d", tasks := [{ id := "x__event_2_y", command := "true" }, { id := "t", command := "true" }] }),
    ("e", { dagID := "d__event_1_x", tasks := [{ id := "y", command := "true" }] })]

def outer : Attempt := { dagID := "d", key := .event 1, taskID := "x__event_2_y", tryNumber := 1 }

def inner : Attempt := { dagID := "d__event_1_x", key := .event 2, taskID := "y", tryNumber := 1 }

theorem outer_accepted : outer.Accepted documents :=
  ⟨dagID_of (show (parse documents "d").map (·.dagID) = .ok "d" by decide +kernel),
    taskID_of (show (parse documents "d").map (fun d => d.tasks.map (·.id)) = .ok ["x__event_2_y", "t"] by decide +kernel) (by decide)⟩

theorem inner_accepted : inner.Accepted documents :=
  ⟨dagID_of (show (parse documents "e").map (·.dagID) = .ok "d__event_1_x" by decide +kernel),
    taskID_of (show (parse documents "e").map (fun d => d.tasks.map (·.id)) = .ok ["y"] by decide +kernel) (by decide)⟩

/-- Both attempts run, the task of the first ends with 7, and a restarted executor tells 7
of the second, which has not ended. -/
def sharedRun : List HostStep :=
  [.launch outer.ref 100, .launch inner.ref 200, .exit outer.ref 7, .restart (fun _ => true)]

theorem attempt_files_shared :
    outer.Accepted documents ∧ inner.Accepted documents ∧ outer.ref ≠ inner.ref ∧
      stateFile '/' outer.ref = stateFile '/' inner.ref ∧ exitFile '/' outer.ref = exitFile '/' inner.ref ∧
      outFile '/' outer.ref = outFile '/' inner.ref ∧
      LaunchesOnly (fun a => a = outer ∨ a = inner) sharedRun ∧
      (Host.run '/' {} sharedRun).runner.probe inner.ref = .exited 7 ∧
      (Host.run '/' {} sharedRun).ended = [(outer.ref, 7)] ∧
      ¬ Honest '/' (Host.run '/' {} sharedRun) inner.ref := by
  have hprobe : (Host.run '/' {} sharedRun).runner.probe inner.ref = .exited 7 := by decide +kernel
  have hended : (Host.run '/' {} sharedRun).ended = [(outer.ref, 7)] := by decide +kernel
  refine ⟨outer_accepted, inner_accepted, by decide +kernel, by decide +kernel, by decide +kernel, by decide +kernel, ?_, hprobe, hended, ?_⟩
  · intro st hst
    simp only [sharedRun, List.mem_cons, List.not_mem_nil, or_false] at hst
    rcases hst with rfl | rfl | rfl | rfl
    · exact ⟨outer, .inl rfl, rfl⟩
    · exact ⟨inner, .inr rfl, rfl⟩
    · trivial
    · trivial
  · intro hhonest
    rcases hhonest.probe 7 hprobe with hcode | hown
    · cases hcode
    · rw [hended] at hown
      exact absurd hown (by decide +kernel)

/-- Two attempts of one task in two runs keep their files. -/
theorem attempt_files_own_runs :
    let first : Attempt := { dagID := "d", key := .event 1, taskID := "t", tryNumber := 1 }
    let second : Attempt := { dagID := "d", key := .event 2, taskID := "t", tryNumber := 1 }
    first.Apart '/' second ∧ ∀ steps, LaunchesOnly (fun a => a = first ∨ a = second) steps →
      Honest '/' (Host.run '/' {} steps) first.ref := by
  intro first second
  have htask : TaskID documents "t" :=
    taskID_of (show (parse documents "d").map (fun d => d.tasks.map (·.id)) = .ok ["x__event_2_y", "t"] by decide +kernel) (by decide)
  have hall : ∀ a, a = first ∨ a = second → a.Accepted documents := by
    rintro a (rfl | rfl)
    · exact ⟨outer_accepted.1, htask⟩
    · exact ⟨outer_accepted.1, htask⟩
  have hnested : ∀ a b, a = first ∨ a = second → b = first ∨ b = second → ¬ a.Nested b := by
    -- no DAG id is longer than its own run id
    rintro a b ha hb ⟨-, y, hdag, -⟩
    have hlen := congrArg List.length hdag
    rw [Attempt.run_toList] at hlen
    simp only [List.length_append, List.length_cons] at hlen
    have hsame : b.dagID = a.dagID := by
      rcases ha with rfl | rfl <;> rcases hb with rfl | rfl <;> rfl
    rw [hsame] at hlen
    omega
  obtain ⟨hapart, hhonest⟩ :=
    (attempt_files_own_iff documents '/' (.inl rfl) (fun a => a = first ∨ a = second) hall).mpr hnested
  exact ⟨hapart first second (.inl rfl) (.inr rfl) (by decide), fun steps hsteps => hhonest steps hsteps first (.inl rfl)⟩

end Cronova.Properties.AttemptFiles
