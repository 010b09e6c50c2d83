import Cronova.Executor.Engine
import Cronova.Properties.AttemptFiles

/-! One process for an attempt. However launches, the ends of processes, timeouts, cancels
and restarts of an executor follow on each other, at most one process runs the command of an
attempt, and an attempt whose process runs is reported as running. -/
namespace Cronova.Properties.OneProcess
open Cronova.Executor.Engine Cronova.Concurrency Cronova.Text
open Cronova.Executor (Dir FileBody AttemptState Phase sanitizeRef stateFile exitFile readExitFile)
open Cronova.Properties.AttemptFiles (Distinct exitFile_inj)

/-! ### The state directory -/

section Files
variable {separator : Char} {d : Dir} {name name' : String} {body : FileBody} {a b : String}

theorem read_skip {f : String × FileBody} (h : name ≠ f.1) : Dir.read (f :: d) name = Dir.read d name := by
  unfold Dir.read
  rw [List.lookup_cons, beq_false_of_ne h]

theorem read_filter (p : String → Bool) (hp : p name = true) : Dir.read (d.filter (fun f => p f.1)) name = d.read name := by
  induction d with
  | nil => rfl
  | cons f d ih =>
    rw [List.filter_cons]
    by_cases hname : name = f.1
    · subst hname
      rw [if_pos hp]
      unfold Dir.read
      rw [List.lookup_cons_self, List.lookup_cons_self]
    · rw [read_skip hname]
      split
      · rw [read_skip hname]
        exact ih
      · exact ih

theorem read_remove_ne (h : name ≠ name') : (d.remove name').read name = d.read name := by
  have hkeep := read_filter (d := d) (fun other => decide (other ≠ name')) (decide_eq_true h)
  exact hkeep

theorem read_remove_self : (d.remove name).read name = none := by
  cases hread : (d.remove name).read name with
  | none => rfl
  | some body =>
    have hmem := List.mem_filter.1 (Dir.mem_of_read hread)
    exact absurd rfl (of_decide_eq_true hmem.2)

theorem read_remove_none (h : d.read name = none) : (d.remove name').read name = none := by
  by_cases hname : name = name'
  · rw [hname]
    exact read_remove_self
  · rw [read_remove_ne hname]
    exact h

theorem read_write_self : (d.write name body).read name = some body := List.lookup_cons_self

theorem read_write_ne (h : name ≠ name') : (d.write name' body).read name = d.read name := by
  unfold Dir.write
  rw [read_skip h]
  exact read_remove_ne h

theorem stateFile_inj (h : stateFile separator a = stateFile separator b) : sanitizeRef separator a = sanitizeRef separator b :=
  String.append_left_inj _ |>.mp h

theorem stateFile_ne_exitFile : stateFile separator a ≠ exitFile separator b := by
  intro h
  have hlast := congrArg (fun s : String => s.toList.getLast?) h
  unfold exitFile stateFile at hlast
  simp only [String.toList_append, List.getLast?_append] at hlast
  cases hlast

theorem stateFile_json : hasSuffix (stateFile separator a) ".json" = true := hasSuffix_append _ _

theorem stateFile_ne {S : String → Prop} (hdistinct : Distinct separator S) (ha : S a) (hb : S b) (hne : a ≠ b) :
    stateFile separator a ≠ stateFile separator b :=
  fun heq => hne (hdistinct a b ha hb (stateFile_inj heq))

theorem exitFile_ne {S : String → Prop} (hdistinct : Distinct separator S) (ha : S a) (hb : S b) (hne : a ≠ b) :
    exitFile separator a ≠ exitFile separator b :=
  fun heq => hne (hdistinct a b ha hb (exitFile_inj heq))

theorem readExitFile_none (h : d.read name = none) : readExitFile d name = none := by
  unfold readExitFile
  rw [h]

/-! The files of the refs that are evicted. -/

variable {refs : List String}

theorem read_removeState_ne (hstate : name ≠ stateFile separator a) (hexit : name ≠ exitFile separator a) :
    (Host.removeState separator d a).read name = d.read name :=
  (read_remove_ne hexit).trans (read_remove_ne hstate)

theorem read_removed (h : ∀ a ∈ refs, name ≠ stateFile separator a ∧ name ≠ exitFile separator a) :
    (refs.foldl (Host.removeState separator) d).read name = d.read name := by
  induction refs generalizing d with
  | nil => rfl
  | cons a refs ih =>
    obtain ⟨hstate, hexit⟩ := h a List.mem_cons_self
    rw [List.foldl_cons, ih (fun b hb => h b (List.mem_cons_of_mem a hb))]
    exact read_removeState_ne hstate hexit

theorem read_removed_none (h : d.read name = none) : (refs.foldl (Host.removeState separator) d).read name = none := by
  induction refs generalizing d with
  | nil => exact h
  | cons a refs ih => exact ih (read_remove_none (read_remove_none h))

theorem read_removed_exit (h : a ∈ refs) : (refs.foldl (Host.removeState separator) d).read (exitFile separator a) = none := by
  induction refs generalizing d with
  | nil => exact absurd h List.not_mem_nil
  | cons b refs ih =>
    rcases List.mem_cons.1 h with rfl | h
    · have hgone : (Host.removeState separator d a).read (exitFile separator a) = none := read_remove_self
      rw [List.foldl_cons]
      exact read_removed_none hgone
    · exact ih h

theorem mem_removed {f : String × FileBody} (h : f ∈ refs.foldl (Host.removeState separator) d) : f ∈ d := by
  induction refs generalizing d with
  | nil => exact h
  | cons a refs ih => exact Dir.mem_remove (Dir.mem_remove (ih h))

end Files

/-! ### What holds of a host -/

/-- The attempt whose entry a goroutine keeps open. -/
def tends : Thread → Option String
  | .reserved ref => some ref
  | .started ref _ => some ref
  | .attached ref _ => some ref
  | .failed ref => some ref
  | .listed ref _ => some ref
  | .waits ref _ => some ref
  | .overdue ref _ => some ref
  | .reaped ref _ => some ref
  | .watches ref _ => some ref
  | .gone ref _ => some ref
  | .read ref _ _ => some ref
  | .noted _ _ _ => none
  | .kills _ => none

/-- The process a goroutine is there for. -/
def holds : Thread → Option Int
  | .started _ pid => some pid
  | .attached _ pid => some pid
  | .listed _ pid => some pid
  | .waits _ pid => some pid
  | .overdue _ pid => some pid
  | .watches _ pgid => some pgid
  | _ => none

/-- A launch behind the start of its process, of which there is no record. -/
def early : Thread → Bool
  | .started _ _ => true
  | .attached _ _ => true
  | .listed _ _ => true
  | _ => false

def launching : Thread → Bool
  | .reserved _ => true
  | .failed _ => true
  | t => early t

/-- The end of this attempt is still to be saved. -/
def saves : Thread → Option String
  | .noted ref _ _ => some ref
  | _ => none

abbrev Procs := Registry Int Process

abbrev Tasks := Registry String ProcTask

abbrev Threads := Registry ℕ Thread

def Busy (procs : Procs) (pid : Int) (p : Process) : Prop := procs.lookup pid = some p ∧ p.life = .busy

def Listed (tasks : Tasks) (ref : String) (finished : Bool) : Prop := ∃ t, tasks.lookup ref = some t ∧ t.finished = finished

/-- A goroutine for a process. -/
structure Owner (threads : Threads) (pid : Int) (p : Process) (id : ℕ) (t : Thread) : Prop where
  runs : threads.lookup id = some t
  tends : tends t = some p.ref
  holds : holds t = some pid

def Owned (threads : Threads) (at_ : Thread → Bool) (pid : Int) (p : Process) : Prop :=
  ∃ id t, Owner threads pid p id t ∧ at_ t = true

/-- No attempt has two goroutines. -/
def Alone (threads : Threads) : Prop :=
  ∀ id id' t t' ref, threads.lookup id = some t → threads.lookup id' = some t' → tends t = some ref → tends t' = some ref → id = id'

section Inv
variable (separator : Char) (S : String → Prop)

def Recorded (d : Dir) (pid : Int) (p : Process) : Prop :=
  ∃ st, d.read (stateFile separator p.ref) = some (.state st) ∧ st.ref = p.ref ∧ st.finished = false ∧ st.pgid = pid

/-- The restarted executor has not come to the record of a process yet. -/
def Due (mode : Mode) (p : Process) : Prop :=
  mode = .down ∨ ∃ r, mode = .recovering r ∧ (stateFile separator p.ref ∈ r.todo ∨ ∃ st todo, r = .look st todo ∧ st.ref = p.ref)

def FileOk (f : String × FileBody) : Prop :=
  match f.2 with
  | .state st => f.1 = stateFile separator st.ref ∧ S st.ref
  | .exitCode _ => ∃ ref, f.1 = exitFile separator ref ∧ S ref
  | .output _ => False

structure ThreadOk (tasks : Tasks) (d : Dir) (mode : Mode) (t : Thread) : Prop where
  tended : ∀ ref, tends t = some ref → S ref ∧ Listed tasks ref false
  saved : ∀ ref, saves t = some ref → S ref ∧ Listed tasks ref true
  launch : launching t = true → mode = .serving
  clear : ∀ ref, t = .reserved ref → d.read (exitFile separator ref) = none

/-- A record says of the process of its attempt what there is to say. -/
def Says (procs : Procs) (st : AttemptState) : Prop :=
  ∀ pid p, Busy procs pid p → p.ref = st.ref → st.finished = false ∧ st.pgid = pid

structure RecoveryOk (procs : Procs) (tasks : Tasks) (r : Recovery) : Prop where
  nodup : r.todo.Nodup
  fresh : ∀ ref t, tasks.lookup ref = some t → stateFile separator ref ∉ r.todo
  look : ∀ st todo, r = .look st todo → S st.ref ∧ tasks.lookup st.ref = none ∧ stateFile separator st.ref ∉ todo ∧ Says procs st
  entered : ∀ st todo, r = .entered st todo →
    S st.ref ∧ (tasks.lookup st.ref).isSome ∧ ∀ pid p, Busy procs pid p → p.ref = st.ref → st.pgid = pid
  save : ∀ st todo, r = .save st todo → S st.ref ∧ (tasks.lookup st.ref).isSome ∧ Says procs st

structure Inv (h : Host) : Prop where
  procs : ∀ pid p, h.procs.lookup pid = some p → 0 < pid ∧ S p.ref
  tasks : ∀ ref t, h.tasks.lookup ref = some t → S ref
  files : ∀ f ∈ h.dir, FileOk separator S f
  threads : ∀ id t, h.threads.lookup id = some t → ThreadOk separator S h.tasks h.dir h.mode t
  alone : Alone h.threads
  owner : ∀ pid p, Busy h.procs pid p → Owned h.threads (fun _ => true) pid p ∨ Due separator h.mode p
  record : ∀ pid p, Busy h.procs pid p → Owned h.threads early pid p ∨ Recorded separator h.dir pid p
  exit : ∀ pid p, Busy h.procs pid p → h.dir.read (exitFile separator p.ref) = none
  recovery : ∀ r, h.mode = .recovering r → RecoveryOk separator S h.procs h.tasks r
  down : h.mode = .down → ∀ ref, h.tasks.lookup ref = none

end Inv

section Facts
variable {separator : Char} {S : String → Prop} {h : Host} {procs procs' : Procs} {tasks tasks' : Tasks} {threads : Threads}
  {d d' : Dir} {mode : Mode} {id id' : ℕ} {t t' : Thread} {ref : String} {pid pid' : Int} {p p' : Process}
  {at_ : Thread → Bool}

theorem early_launching (ht : early t = true) : launching t = true := by
  cases t
  case started => rfl
  case attached => rfl
  case listed => rfl
  all_goals cases ht

theorem ThreadOk.of_tasks (ht : ThreadOk separator S tasks d mode t)
    (hsame : ∀ ref, tends t = some ref ∨ saves t = some ref → tasks'.lookup ref = tasks.lookup ref) :
    ThreadOk separator S tasks' d mode t where
  tended ref href := by
    have hlisted := ht.tended ref href
    unfold Listed at hlisted ⊢
    rw [hsame ref (.inl href)]
    exact hlisted
  saved ref href := by
    have hlisted := ht.saved ref href
    unfold Listed at hlisted ⊢
    rw [hsame ref (.inr href)]
    exact hlisted
  launch := ht.launch
  clear := ht.clear

theorem ThreadOk.of_dir (ht : ThreadOk separator S tasks d mode t)
    (hsame : ∀ ref, d.read (exitFile separator ref) = none → t = .reserved ref → d'.read (exitFile separator ref) = none) :
    ThreadOk separator S tasks d' mode t where
  tended := ht.tended
  saved := ht.saved
  launch := ht.launch
  clear ref href := hsame ref (ht.clear ref href) href

theorem Owner.insert_ne (howner : Owner threads pid p id' t') (hne : id' ≠ id) : Owner (threads.insert id t) pid p id' t' where
  runs := by
    rw [AList.lookup_insert_ne hne]
    exact howner.runs
  tends := howner.tends
  holds := howner.holds

theorem Owner.erase_ne (howner : Owner threads pid p id' t') (hne : id' ≠ id) : Owner (threads.erase id) pid p id' t' where
  runs := by
    rw [AList.lookup_erase_ne hne]
    exact howner.runs
  tends := howner.tends
  holds := howner.holds

theorem owner_insert (htends : tends t = some p.ref) (hholds : holds t = some pid) : Owner (threads.insert id t) pid p id t where
  runs := AList.lookup_insert threads
  tends := htends
  holds := hholds

/-- The owner of a process is still there, unless it was the goroutine that has gone on. -/
theorem Owned.insert {u : Thread} (howned : Owned threads at_ pid p) (hid : ∀ t', threads.lookup id = some t' → t' = t) :
    Owned (threads.insert id u) at_ pid p ∨ Owner threads pid p id t ∧ at_ t = true := by
  obtain ⟨id', t'', howner, hat⟩ := howned
  by_cases hne : id' = id
  · subst hne
    have heq := hid t'' howner.runs
    subst heq
    exact .inr ⟨howner, hat⟩
  · exact .inl ⟨id', t'', howner.insert_ne hne, hat⟩

theorem Owned.erase (howned : Owned threads at_ pid p) (hid : ∀ t', threads.lookup id = some t' → t' = t) :
    Owned (threads.erase id) at_ pid p ∨ Owner threads pid p id t ∧ at_ t = true := by
  obtain ⟨id', t'', howner, hat⟩ := howned
  by_cases hne : id' = id
  · subst hne
    have heq := hid t'' howner.runs
    subst heq
    exact .inr ⟨howner, hat⟩
  · exact .inl ⟨id', t'', howner.erase_ne hne, hat⟩

theorem Alone.insert (halone : Alone threads)
    (hnew : ∀ ref id' t', tends t = some ref → threads.lookup id' = some t' → tends t' = some ref → id' = id) :
    Alone (threads.insert id t) := by
  intro a b ta tb ref ha hb hta htb
  rcases Registry.lookup_insert_cases ha with ⟨rfl, rfl⟩ | ⟨-, hold⟩
  · rcases Registry.lookup_insert_cases hb with ⟨rfl, -⟩ | ⟨-, hold'⟩
    · rfl
    · exact (hnew ref b tb hta hold' htb).symm
  · rcases Registry.lookup_insert_cases hb with ⟨rfl, rfl⟩ | ⟨-, hold'⟩
    · exact hnew ref a ta htb hold hta
    · exact halone a b ta tb ref hold hold' hta htb

theorem Alone.erase (halone : Alone threads) : Alone (threads.erase id) := by
  intro a b ta tb ref ha hb hta htb
  exact halone a b ta tb ref (Registry.lookup_erase_cases ha).2 (Registry.lookup_erase_cases hb).2 hta htb

/-- A goroutine that goes on stays the only one of its attempt. -/
theorem Alone.goes (halone : Alone threads) (hid : threads.lookup id = some t) (htends : ∀ ref, tends t' = some ref → tends t = some ref) :
    Alone (threads.insert id t') := by
  refine halone.insert ?_
  intro ref id' t'' href hid' href'
  exact halone id' id t'' t ref hid' hid href' (htends ref href)

theorem busy_insert (hlife : p'.life ≠ .busy) (hbusy : Busy (procs.insert pid' p') pid p) : Busy procs pid p := by
  obtain ⟨hlookup, hbusy⟩ := hbusy
  rcases Registry.lookup_insert_cases hlookup with ⟨-, rfl⟩ | ⟨-, hlookup⟩
  · exact absurd hbusy hlife
  · exact ⟨hlookup, hbusy⟩

theorem Busy.alive (hbusy : Busy h.procs pid p) : h.aliveAt pid = true := by
  obtain ⟨hlookup, hlife⟩ := hbusy
  simp only [Host.aliveAt, hlookup, hlife]

/-- Both say the same of one process. -/
theorem Busy.eq (hbusy : Busy procs pid p) (hbusy' : Busy procs pid p') : p = p' :=
  Option.some.inj (hbusy.1.symm.trans hbusy'.1)

namespace Inv

variable (hi : Inv separator S h)
include hi

theorem listed (howned : Owned h.threads at_ pid p) : Listed h.tasks p.ref false := by
  obtain ⟨id, t, howner, -⟩ := howned
  exact ((hi.threads id t howner.runs).tended p.ref howner.tends).2

theorem not_due (howned : Owned h.threads at_ pid p) : ¬ Due separator h.mode p := by
  obtain ⟨task, htask, -⟩ := hi.listed howned
  rintro (hdown | ⟨r, hmode, htodo | ⟨st, todo, rfl, href⟩⟩)
  · rw [hi.down hdown p.ref] at htask
    cases htask
  · exact (hi.recovery r hmode).fresh p.ref task htask htodo
  · obtain ⟨-, hnone, -⟩ := (hi.recovery _ hmode).look st todo rfl
    rw [href, htask] at hnone
    cases hnone

theorem not_early (hmode : h.mode ≠ .serving) : ¬ Owned h.threads early pid p := by
  rintro ⟨id, t, howner, hearly⟩
  exact hmode ((hi.threads id t howner.runs).launch (early_launching hearly))

/-- No attempt has two processes that are at its command. -/
theorem unique (hbusy : Busy h.procs pid p) (hbusy' : Busy h.procs pid' p') (href : p.ref = p'.ref) : pid = pid' := by
  rcases hi.owner pid p hbusy with howned | hdue
  · rcases hi.owner pid' p' hbusy' with howned' | hdue'
    · obtain ⟨id, t, howner, -⟩ := howned
      obtain ⟨id', t', howner', -⟩ := howned'
      have hid := hi.alone id id' t t' p.ref howner.runs howner'.runs howner.tends (href ▸ howner'.tends)
      subst hid
      have ht := Option.some.inj (howner.runs.symm.trans howner'.runs)
      subst ht
      exact Option.some.inj (howner.holds.symm.trans howner'.holds)
    · unfold Due at hdue'
      rw [← href] at hdue'
      exact absurd hdue' (hi.not_due howned)
  · have hmode : h.mode ≠ .serving := by
      rintro hserving
      rcases hdue with hdown | ⟨r, hmode, -⟩
      · rw [hdown] at hserving
        cases hserving
      · rw [hmode] at hserving
        cases hserving
    obtain ⟨st, hread, -, -, hpgid⟩ := (hi.record pid p hbusy).resolve_left (hi.not_early hmode)
    obtain ⟨st', hread', -, -, hpgid'⟩ := (hi.record pid' p' hbusy').resolve_left (hi.not_early hmode)
    rw [href, hread'] at hread
    cases hread
    exact hpgid.symm.trans hpgid'

/-- Other goroutines have nothing to do with the attempt of one that keeps its entry open. -/
theorem others (hid : h.threads.lookup id = some t) (htends : tends t = some ref) (hne : id' ≠ id)
    (hid' : h.threads.lookup id' = some t') : tends t' ≠ some ref ∧ saves t' ≠ some ref := by
  refine ⟨?_, ?_⟩
  · intro htends'
    exact hne (hi.alone id' id t' t ref hid' hid htends' htends)
  · intro hsaves
    obtain ⟨task, htask, hopen⟩ := ((hi.threads id t hid).tended ref htends).2
    obtain ⟨task', htask', hclosed⟩ := ((hi.threads id' t' hid').saved ref hsaves).2
    rw [htask] at htask'
    cases htask'
    rw [hopen] at hclosed
    cases hclosed

/-- No process is at the command of an attempt of which the end is entered. -/
theorem saved_over (hid : h.threads.lookup id = some t) (hsaves : saves t = some ref) (hbusy : Busy h.procs pid p) : p.ref ≠ ref := by
  intro href
  obtain ⟨task, htask, hclosed⟩ := ((hi.threads id t hid).saved ref hsaves).2
  rcases hi.owner pid p hbusy with howned | hdown | ⟨r, hmode, htodo | ⟨st, todo, rfl, hst⟩⟩
  · obtain ⟨task', htask', hopen⟩ := hi.listed howned
    rw [href, htask] at htask'
    cases htask'
    rw [hopen] at hclosed
    cases hclosed
  · rw [hi.down hdown ref] at htask
    cases htask
  · exact (hi.recovery r hmode).fresh ref task htask (href ▸ htodo)
  · obtain ⟨-, hnone, -⟩ := (hi.recovery _ hmode).look st todo rfl
    rw [hst, href, htask] at hnone
    cases hnone

end Inv

theorem Says.fewer {st : AttemptState} (hbusy : ∀ pid p, Busy procs' pid p → Busy procs pid p) (hclaim : Says procs st) : Says procs' st :=
  fun pid p hp href => hclaim pid p (hbusy pid p hp) href

theorem RecoveryOk.fewer {r : Recovery} (hbusy : ∀ pid p, Busy procs' pid p → Busy procs pid p)
    (hr : RecoveryOk separator S procs tasks r) : RecoveryOk separator S procs' tasks r where
  nodup := hr.nodup
  fresh := hr.fresh
  look st todo heq := by
    obtain ⟨hS, hnone, hout, hclaim⟩ := hr.look st todo heq
    exact ⟨hS, hnone, hout, hclaim.fewer hbusy⟩
  entered st todo heq := by
    obtain ⟨hS, hsome, hpgid⟩ := hr.entered st todo heq
    exact ⟨hS, hsome, fun pid p hp href => hpgid pid p (hbusy pid p hp) href⟩
  save st todo heq := by
    obtain ⟨hS, hsome, hclaim⟩ := hr.save st todo heq
    exact ⟨hS, hsome, hclaim.fewer hbusy⟩

/-- The entries that there are, with other values. -/
theorem RecoveryOk.of_keys {r : Recovery} (hkeys : ∀ ref, (tasks'.lookup ref).isSome = (tasks.lookup ref).isSome)
    (hr : RecoveryOk separator S procs tasks r) : RecoveryOk separator S procs tasks' r where
  nodup := hr.nodup
  fresh ref task htask := by
    have hsome : (tasks.lookup ref).isSome := by
      rw [← hkeys, htask]
      rfl
    obtain ⟨task', htask'⟩ := Option.isSome_iff_exists.1 hsome
    exact hr.fresh ref task' htask'
  look st todo heq := by
    obtain ⟨hS, hnone, hout, hclaim⟩ := hr.look st todo heq
    refine ⟨hS, ?_, hout, hclaim⟩
    rw [← Option.isNone_iff_eq_none, ← Option.not_isSome, hkeys, hnone]
    rfl
  entered st todo heq := by
    obtain ⟨hS, hsome, hpgid⟩ := hr.entered st todo heq
    exact ⟨hS, by rw [hkeys]; exact hsome, hpgid⟩
  save st todo heq := by
    obtain ⟨hS, hsome, hclaim⟩ := hr.save st todo heq
    exact ⟨hS, by rw [hkeys]; exact hsome, hclaim⟩

namespace Inv

/-! ### What one statement keeps -/

variable (hi : Inv separator S h)
include hi

/-- Processes end, or go on. -/
theorem fewer (hprocs : ∀ pid p, procs'.lookup pid = some p → 0 < pid ∧ S p.ref) (hbusy : ∀ pid p, Busy procs' pid p → Busy h.procs pid p) :
    Inv separator S { h with procs := procs' } where
  procs := hprocs
  tasks := hi.tasks
  files := hi.files
  threads := hi.threads
  alone := hi.alone
  owner pid p hp := hi.owner pid p (hbusy pid p hp)
  record pid p hp := hi.record pid p (hbusy pid p hp)
  exit pid p hp := hi.exit pid p (hbusy pid p hp)
  recovery r hr := (hi.recovery r hr).fewer hbusy
  down := hi.down

theorem procs_insert {w : Process} (hp : h.procs.lookup pid = some p) (href : w.ref = p.ref) :
    ∀ q r, (h.procs.insert pid w).lookup q = some r → 0 < q ∧ S r.ref := by
  intro q r hr
  obtain ⟨hpos, hS⟩ := hi.procs pid p hp
  rcases Registry.lookup_insert_cases hr with ⟨rfl, rfl⟩ | ⟨-, hr⟩
  · rw [href]
    exact ⟨hpos, hS⟩
  · exact hi.procs q r hr

theorem killGroup (pid : Int) : Inv separator S (h.killGroup pid) := by
  unfold Host.killGroup
  split
  · rename_i p hp
    split
    · exact hi
    · exact hi.fewer (hi.procs_insert hp rfl) (fun q r hr => busy_insert (by simp) hr)
  · exact hi

/-- A goroutine goes on, and what it changes of the entries is its own. -/
theorem goes (hid : h.threads.lookup id = some t) (htends : ∀ ref, tends t' = some ref → tends t = some ref)
    (hkeys : ∀ ref, (tasks'.lookup ref).isSome = (h.tasks.lookup ref).isSome)
    (hsame : ∀ ref, tends t ≠ some ref → tasks'.lookup ref = h.tasks.lookup ref)
    (hok : ThreadOk separator S tasks' h.dir h.mode t')
    (howner : ∀ pid p, Busy h.procs pid p → Owner h.threads pid p id t → tends t' = some p.ref ∧ holds t' = some pid)
    (hearly : ∀ pid p, Busy h.procs pid p → Owner h.threads pid p id t → early t = true → early t' = true ∨ Recorded separator h.dir pid p) :
    Inv separator S { h with tasks := tasks', threads := h.threads.insert id t' } where
  procs := hi.procs
  tasks ref task htask := by
    have hsome : (h.tasks.lookup ref).isSome := by
      rw [← hkeys, htask]
      rfl
    obtain ⟨task', htask'⟩ := Option.isSome_iff_exists.1 hsome
    exact hi.tasks ref task' htask'
  files := hi.files
  threads id' t'' hid' := by
    rcases Registry.lookup_insert_cases hid' with ⟨-, rfl⟩ | ⟨hne, hid'⟩
    · exact hok
    · refine (hi.threads id' t'' hid').of_tasks ?_
      intro ref href
      refine hsame ref ?_
      intro hown
      obtain ⟨hout, hout'⟩ := hi.others hid hown hne hid'
      rcases href with href | href
      · exact hout href
      · exact hout' href
  alone := hi.alone.goes hid htends
  owner pid p hp := by
    rcases hi.owner pid p hp with howned | hdue
    · rcases howned.insert (u := t') (fun _ h => Option.some.inj (h.symm.trans hid)) with howned | ⟨howned, -⟩
      · exact .inl howned
      · obtain ⟨hpt, hph⟩ := howner pid p hp howned
        exact .inl ⟨id, t', owner_insert hpt hph, rfl⟩
    · exact .inr hdue
  record pid p hp := by
    rcases hi.record pid p hp with howned | hrecorded
    · rcases howned.insert (u := t') (fun _ h => Option.some.inj (h.symm.trans hid)) with howned | ⟨howned, hat⟩
      · exact .inl howned
      · rcases hearly pid p hp howned hat with hat' | hrecorded
        · obtain ⟨hpt, hph⟩ := howner pid p hp howned
          exact .inl ⟨id, t', owner_insert hpt hph, hat'⟩
        · exact .inr hrecorded
    · exact .inr hrecorded
  exit := hi.exit
  recovery r hr := (hi.recovery r hr).of_keys hkeys
  down hdown ref := by
    rw [← Option.isNone_iff_eq_none, ← Option.not_isSome, hkeys, hi.down hdown ref]
    rfl

/-- A goroutine without a process goes on. -/
theorem goes_free (hid : h.threads.lookup id = some t) (htends : ∀ ref, tends t' = some ref → tends t = some ref)
    (hok : ThreadOk separator S h.tasks h.dir h.mode t')
    (hfree : ∀ pid p, Busy h.procs pid p → holds t ≠ some pid) : Inv separator S (h.goes id t') :=
  hi.goes hid htends (fun _ => rfl) (fun _ _ => rfl) hok (fun pid p hp howner => absurd howner.holds (hfree pid p hp))
    (fun pid p hp howner _ => absurd howner.holds (hfree pid p hp))

/-- A goroutine that keeps no entry open returns, or starts. -/
theorem returns (hid : h.threads.lookup id = some t) (hnone : tends t = none) : Inv separator S (h.returns id) where
  procs := hi.procs
  tasks := hi.tasks
  files := hi.files
  threads id' t' hid' := hi.threads id' t' (Registry.lookup_erase_cases hid').2
  alone := hi.alone.erase
  owner pid p hp := by
    rcases hi.owner pid p hp with howned | hdue
    · rcases howned.erase (fun _ h => Option.some.inj (h.symm.trans hid)) with howned | ⟨howned, -⟩
      · exact .inl howned
      · rw [howned.tends] at hnone
        cases hnone
    · exact .inr hdue
  record pid p hp := by
    rcases hi.record pid p hp with howned | hrecorded
    · rcases howned.erase (fun _ h => Option.some.inj (h.symm.trans hid)) with howned | ⟨howned, -⟩
      · exact .inl howned
      · rw [howned.tends] at hnone
        cases hnone
    · exact .inr hrecorded
  exit := hi.exit
  recovery := hi.recovery
  down := hi.down

theorem spawn (hid : h.threads.lookup id = none) (htends : tends t = none) (hsaves : saves t = none) (hlaunch : launching t = false) :
    Inv separator S (h.goes id t) where
  procs := hi.procs
  tasks := hi.tasks
  files := hi.files
  threads id' t' hid' := by
    rcases Registry.lookup_insert_cases hid' with ⟨-, rfl⟩ | ⟨-, hid'⟩
    · refine ⟨?_, ?_, ?_, ?_⟩
      · intro ref href
        rw [htends] at href
        cases href
      · intro ref href
        rw [hsaves] at href
        cases href
      · intro hl
        rw [hlaunch] at hl
        cases hl
      · rintro ref rfl
        cases htends
    · exact hi.threads id' t' hid'
  alone := by
    refine hi.alone.insert ?_
    intro ref id' t' href
    rw [htends] at href
    cases href
  owner pid p hp := by
    rcases hi.owner pid p hp with howned | hdue
    · rcases howned.insert (t := t) (u := t) (fun _ h => by rw [hid] at h; cases h) with howned | ⟨howned, -⟩
      · exact .inl howned
      · rw [howned.runs] at hid
        cases hid
    · exact .inr hdue
  record pid p hp := by
    rcases hi.record pid p hp with howned | hrecorded
    · rcases howned.insert (t := t) (u := t) (fun _ h => by rw [hid] at h; cases h) with howned | ⟨howned, -⟩
      · exact .inl howned
      · rw [howned.runs] at hid
        cases hid
    · exact .inr hrecorded
  exit := hi.exit
  recovery := hi.recovery
  down := hi.down

/-- A launch starts its process under a number that is free. -/
theorem start (hid : h.threads.lookup id = some (.reserved ref)) (hfree : h.free pid = true) :
    Inv separator S ({ h with procs := h.procs.insert pid ⟨ref, .busy⟩ }.goes id (.started ref pid)) := by
  obtain ⟨⟨hS, hopen⟩, hserving, hclear⟩ : (S ref ∧ Listed h.tasks ref false) ∧ h.mode = .serving ∧ h.dir.read (exitFile separator ref) = none :=
    ⟨(hi.threads id _ hid).tended ref rfl, (hi.threads id _ hid).launch rfl, (hi.threads id _ hid).clear ref rfl⟩
  have hpos : 0 < pid := by
    unfold Host.free at hfree
    rw [Bool.and_eq_true, Bool.and_eq_true] at hfree
    exact of_decide_eq_true hfree.1.1
  have hdead : h.aliveAt pid = false := by
    unfold Host.free at hfree
    rw [Bool.and_eq_true, Bool.and_eq_true] at hfree
    simpa using hfree.1.2
  have hbusy : ∀ q p, Busy (h.procs.insert pid ⟨ref, .busy⟩) q p → q = pid ∧ p = ⟨ref, .busy⟩ ∨ q ≠ pid ∧ Busy h.procs q p := by
    intro q p ⟨hp, hlife⟩
    rcases Registry.lookup_insert_cases hp with ⟨rfl, rfl⟩ | ⟨hne, hp⟩
    · exact .inl ⟨rfl, rfl⟩
    · exact .inr ⟨hne, hp, hlife⟩
  have hnew : Owner (h.threads.insert id (.started ref pid)) pid ⟨ref, .busy⟩ id (.started ref pid) := owner_insert rfl rfl
  have hkept : ∀ at_ q p, Owned h.threads at_ q p → Owned (h.threads.insert id (.started ref pid)) at_ q p := by
    intro at_ q p howned
    rcases howned.insert (t := .reserved ref) (u := .started ref pid) (fun _ h => Option.some.inj (h.symm.trans hid)) with howned | ⟨howned, -⟩
    · exact howned
    · cases howned.holds
  exact {
    procs := by
      intro q p hp
      rcases Registry.lookup_insert_cases hp with ⟨rfl, rfl⟩ | ⟨-, hp⟩
      · exact ⟨hpos, hS⟩
      · exact hi.procs q p hp
    tasks := hi.tasks
    files := hi.files
    threads := by
      intro id' t' hid'
      rcases Registry.lookup_insert_cases hid' with ⟨-, rfl⟩ | ⟨-, hid'⟩
      · refine ⟨?_, ?_, fun _ => hserving, ?_⟩
        · intro ref' href
          cases href
          exact ⟨hS, hopen⟩
        · intro ref' href
          cases href
        · intro ref' href
          cases href
      · exact hi.threads id' t' hid'
    alone := hi.alone.goes hid (fun _ h => h)
    owner := by
      intro q p hp
      rcases hbusy q p hp with ⟨rfl, rfl⟩ | ⟨-, hp⟩
      · exact .inl ⟨id, _, hnew, rfl⟩
      · exact (hi.owner q p hp).imp_left (hkept _ q p)
    record := by
      intro q p hp
      rcases hbusy q p hp with ⟨rfl, rfl⟩ | ⟨-, hp⟩
      · exact .inl ⟨id, _, hnew, rfl⟩
      · exact (hi.record q p hp).imp_left (hkept _ q p)
    exit := by
      intro q p hp
      rcases hbusy q p hp with ⟨rfl, rfl⟩ | ⟨-, hp⟩
      · exact hclear
      · exact hi.exit q p hp
    recovery := by
      intro r hr
      rw [show h.mode = .recovering r from hr] at hserving
      cases hserving
    down := hi.down }

variable (hdistinct : Distinct separator S)
include hdistinct

/-- A record is written that tells no lie about a process. -/
theorem saveState (st : AttemptState) (hS : S st.ref) (hclaim : ∀ pid p, Busy h.procs pid p → p.ref = st.ref →
    Owned h.threads early pid p ∨ st.finished = false ∧ st.pgid = pid) : Inv separator S (h.saveState separator st) where
  procs := hi.procs
  tasks := hi.tasks
  files f hf := by
    rcases Dir.mem_write hf with rfl | hf
    · exact ⟨rfl, hS⟩
    · exact hi.files f hf
  threads id t hid := by
    refine (hi.threads id t hid).of_dir ?_
    intro ref hread _
    exact (read_write_ne (Ne.symm stateFile_ne_exitFile)).trans hread
  alone := hi.alone
  owner := hi.owner
  record pid p hp := by
    rcases hi.record pid p hp with howned | ⟨st', hread, href, hopen, hpgid⟩
    · exact .inl howned
    · by_cases heq : p.ref = st.ref
      · rcases hclaim pid p hp heq with howned | ⟨hopen, hpgid⟩
        · exact .inl howned
        · refine .inr ⟨st, ?_, heq.symm, hopen, hpgid⟩
          rw [heq]
          exact read_write_self
      · refine .inr ⟨st', ?_, href, hopen, hpgid⟩
        exact (read_write_ne (stateFile_ne hdistinct (hi.procs pid p hp.1).2 hS heq)).trans hread
  exit pid p hp := (read_write_ne (Ne.symm stateFile_ne_exitFile)).trans (hi.exit pid p hp)
  recovery := hi.recovery
  down := hi.down

/-- The shell of a process leaves its exit code. -/
theorem leave (hp : h.procs.lookup pid = some ⟨ref, .busy⟩) (code : Int) :
    Inv separator S { h with procs := h.procs.insert pid ⟨ref, .leaving⟩, dir := h.dir.write (exitFile separator ref) (.exitCode code) } := by
  have hS : S ref := (hi.procs pid _ hp).2
  have hfewer := hi.fewer (hi.procs_insert hp (w := ⟨ref, .leaving⟩) rfl) (fun q r hr => busy_insert (by simp) hr)
  have hothers : ∀ q p, Busy (h.procs.insert pid ⟨ref, .leaving⟩) q p → p.ref ≠ ref := by
    intro q p hq href
    have hpid := hi.unique (busy_insert (by simp) hq) (show Busy h.procs pid ⟨ref, .busy⟩ from ⟨hp, rfl⟩) href
    subst hpid
    have hgone := hq.1
    rw [AList.lookup_insert] at hgone
    cases hgone
    cases hq.2
  refine ⟨hfewer.procs, hi.tasks, ?_, ?_, hi.alone, hfewer.owner, ?_, ?_, hfewer.recovery, hi.down⟩
  · intro f hf
    rcases Dir.mem_write hf with rfl | hf
    · exact ⟨ref, rfl, hS⟩
    · exact hi.files f hf
  · intro id t hid
    refine (hi.threads id t hid).of_dir ?_
    rintro ref' hread rfl
    have htended := (hi.threads id _ hid).tended ref' rfl
    refine (read_write_ne (exitFile_ne hdistinct htended.1 hS ?_)).trans hread
    -- the launch of the process is another goroutine
    rintro rfl
    rcases hi.owner pid _ ⟨hp, rfl⟩ with ⟨id', t', howner, -⟩ | hdue
    · have heq := hi.alone id id' _ t' ref' hid howner.runs rfl howner.tends
      subst heq
      have ht := Option.some.inj (hid.symm.trans howner.runs)
      subst ht
      cases howner.holds
    · have hserving := (hi.threads id _ hid).launch rfl
      rcases hdue with hdown | ⟨r, hr, -⟩
      · rw [hdown] at hserving
        cases hserving
      · rw [hr] at hserving
        cases hserving
  · intro q p hq
    rcases hfewer.record q p hq with howned | ⟨st, hread, hst⟩
    · exact .inl howned
    · exact .inr ⟨st, (read_write_ne stateFile_ne_exitFile).trans hread, hst⟩
  · intro q p hq
    exact (read_write_ne (exitFile_ne hdistinct (hfewer.procs q p hq.1).2 hS (hothers q p hq))).trans (hfewer.exit q p hq)

/-! ### Launches -/

omit hi hdistinct in
theorem mem_expired : ref ∈ h.expired ↔ ∃ t, h.tasks.lookup ref = some t ∧ h.stale t = true := by
  unfold Host.expired
  rw [List.mem_map]
  constructor
  · rintro ⟨⟨ref, t⟩, hmem, rfl⟩
    obtain ⟨hmem, hstale⟩ := List.mem_filter.1 hmem
    exact ⟨t, Registry.mem_entries.1 hmem, hstale⟩
  · rintro ⟨t, ht, hstale⟩
    exact ⟨⟨ref, t⟩, List.mem_filter.2 ⟨Registry.mem_entries.2 ht, hstale⟩, rfl⟩

omit hi hdistinct in
/-- What is open is not evicted. -/
theorem lookup_sweep_open (hopen : Listed h.tasks ref false) : Listed (h.sweepFinishedLocked separator).tasks ref false := by
  obtain ⟨task, htask, hopen⟩ := hopen
  refine ⟨task, Registry.lookup_keep.2 ⟨htask, ?_⟩, hopen⟩
  unfold Host.stale
  rw [hopen]
  rfl

omit hi hdistinct in
theorem not_expired_of_open (hopen : Listed h.tasks ref false) : ref ∉ h.expired := by
  obtain ⟨task, htask, hopen⟩ := hopen
  intro hmem
  obtain ⟨task', htask', hstale⟩ := mem_expired.1 hmem
  rw [htask] at htask'
  cases htask'
  unfold Host.stale at hstale
  rw [hopen] at hstale
  cases hstale

/-- Results are evicted of which nothing is to be saved. -/
theorem sweep (hserving : h.mode = .serving)
    (hsettled : ∀ id t, h.threads.lookup id = some t → ∀ ref, saves t = some ref → ref ∉ h.expired) :
    Inv separator S (h.sweepFinishedLocked separator) := by
  have hS : ∀ ref ∈ h.expired, S ref := by
    intro ref hmem
    obtain ⟨task, htask, -⟩ := mem_expired.1 hmem
    exact hi.tasks ref task htask
  have hopen : ∀ pid p, Busy h.procs pid p → Listed h.tasks p.ref false := by
    intro pid p hp
    rcases hi.owner pid p hp with howned | hdown | ⟨r, hr, -⟩
    · exact hi.listed howned
    · rw [hserving] at hdown
      cases hdown
    · rw [hserving] at hr
      cases hr
  refine ⟨hi.procs, ?_, ?_, ?_, hi.alone, hi.owner, ?_, ?_, ?_, ?_⟩
  · intro ref task htask
    exact hi.tasks ref task (Registry.lookup_keep.1 htask).1
  · intro f hf
    exact hi.files f (mem_removed hf)
  · intro id t hid
    have hok := hi.threads id t hid
    refine ⟨?_, ?_, hok.launch, ?_⟩
    · intro ref href
      exact ⟨(hok.tended ref href).1, lookup_sweep_open (hok.tended ref href).2⟩
    · intro ref href
      obtain ⟨hSref, task, htask, hclosed⟩ := hok.saved ref href
      refine ⟨hSref, task, Registry.lookup_keep.2 ⟨htask, ?_⟩, hclosed⟩
      cases hstale : h.stale task with
      | false => rfl
      | true => exact absurd (mem_expired.2 ⟨task, htask, hstale⟩) (hsettled id t hid ref href)
    · intro ref href
      exact read_removed_none (hok.clear ref href)
  · intro pid p hp
    rcases hi.record pid p hp with howned | ⟨st, hread, hst⟩
    · exact .inl howned
    · refine .inr ⟨st, (read_removed ?_).trans hread, hst⟩
      intro ref hmem
      refine ⟨stateFile_ne hdistinct (hi.procs pid p hp.1).2 (hS ref hmem) ?_, stateFile_ne_exitFile⟩
      rintro rfl
      exact not_expired_of_open (hopen pid p hp) hmem
  · intro pid p hp
    exact read_removed_none (hi.exit pid p hp)
  · intro r hr
    rw [show h.mode = .recovering r from hr] at hserving
    cases hserving
  · intro hdown
    rw [show h.mode = .down from hdown] at hserving
    cases hserving

omit hdistinct in
/-- A ref is reserved that is not known, and nobody has left an exit code for. -/
theorem enters (hserving : h.mode = .serving) (hid : h.threads.lookup id = none) (hS : S ref) (hnone : h.tasks.lookup ref = none)
    (hclear : h.dir.read (exitFile separator ref) = none) : Inv separator S ((h.enter ref {}).goes id (.reserved ref)) := by
  have hother : ∀ {ref' : String} {b : Bool}, Listed h.tasks ref' b → Listed (h.tasks.insert ref {}) ref' b := by
    rintro ref' b ⟨task, htask, hb⟩
    refine ⟨task, ?_, hb⟩
    rw [AList.lookup_insert_ne]
    · exact htask
    · rintro rfl
      rw [htask] at hnone
      cases hnone
  have hkept : ∀ at_ q p, Owned h.threads at_ q p → Owned (h.threads.insert id (.reserved ref)) at_ q p := by
    intro at_ q p howned
    rcases howned.insert (t := .reserved ref) (u := .reserved ref) (fun _ h => by rw [hid] at h; cases h) with howned | ⟨howned, -⟩
    · exact howned
    · cases howned.holds
  exact {
    procs := hi.procs
    tasks := by
      intro ref' task htask
      rcases Registry.lookup_insert_cases htask with ⟨rfl, -⟩ | ⟨-, htask⟩
      · exact hS
      · exact hi.tasks ref' task htask
    files := hi.files
    threads := by
      intro id' t hid'
      rcases Registry.lookup_insert_cases hid' with ⟨-, rfl⟩ | ⟨-, hid'⟩
      · refine ⟨?_, ?_, fun _ => hserving, ?_⟩
        · intro ref' href
          cases href
          exact ⟨hS, {}, AList.lookup_insert _, rfl⟩
        · intro ref' href
          cases href
        · intro ref' href
          cases href
          exact hclear
      · have hok := hi.threads id' t hid'
        refine ⟨?_, ?_, hok.launch, hok.clear⟩
        · intro ref' href
          exact ⟨(hok.tended ref' href).1, hother (hok.tended ref' href).2⟩
        · intro ref' href
          exact ⟨(hok.saved ref' href).1, hother (hok.saved ref' href).2⟩
    alone := by
      refine hi.alone.insert ?_
      intro ref' id' t' href hid' href'
      cases href
      obtain ⟨task, htask, -⟩ := ((hi.threads id' t' hid').tended ref href').2
      rw [htask] at hnone
      cases hnone
    owner := fun q p hp => (hi.owner q p hp).imp_left (hkept _ q p)
    record := fun q p hp => (hi.record q p hp).imp_left (hkept _ q p)
    exit := hi.exit
    recovery := by
      intro r hr
      rw [show h.mode = .recovering r from hr] at hserving
      cases hserving
    down := by
      intro hdown
      rw [show h.mode = .down from hdown] at hserving
      cases hserving }

theorem reserve (hserving : h.mode = .serving) (hid : h.threads.lookup id = none) (hS : S ref)
    (hclear : (h.tasks.lookup ref).isSome ∨ h.dir.read (exitFile separator ref) = none)
    (hsettled : ∀ id t, h.threads.lookup id = some t → ∀ ref, saves t = some ref → ref ∉ h.expired) :
    Inv separator S (h.reserve separator id ref) := by
  have hswept := hi.sweep hdistinct hserving hsettled
  unfold Host.reserve
  split
  · exact hswept
  · rename_i hnone
    refine hswept.enters hserving hid hS hnone ?_
    rcases hclear with hsome | hclear
    · obtain ⟨task, htask⟩ := Option.isSome_iff_exists.1 hsome
      cases hstale : h.stale task with
      | true => exact read_removed_exit (mem_expired.2 ⟨task, htask, hstale⟩)
      | false =>
        have hkept : (h.sweepFinishedLocked separator).tasks.lookup ref = some task := by
          refine Registry.lookup_keep.2 ⟨htask, ?_⟩
          rw [hstale]
          rfl
        rw [hkept] at hnone
        cases hnone
    · exact read_removed_none hclear

omit hdistinct in
/-- A launch that has failed forgets its entry. -/
theorem forget (hid : h.threads.lookup id = some (.failed ref)) : Inv separator S ((h.forget ref).returns id) := by
  have hserving := (hi.threads id _ hid).launch rfl
  have hother : ∀ {ref' : String} {b : Bool}, ref' ≠ ref → Listed h.tasks ref' b → Listed (h.tasks.erase ref) ref' b := by
    rintro ref' b hne ⟨task, htask, hb⟩
    exact ⟨task, (AList.lookup_erase_ne hne).trans htask, hb⟩
  have hkept : ∀ at_ q p, Owned h.threads at_ q p → Owned (h.threads.erase id) at_ q p := by
    intro at_ q p howned
    rcases howned.erase (t := .failed ref) (fun _ h => Option.some.inj (h.symm.trans hid)) with howned | ⟨howned, -⟩
    · exact howned
    · cases howned.holds
  exact {
    procs := hi.procs
    tasks := fun ref' task htask => hi.tasks ref' task (Registry.lookup_erase_cases htask).2
    files := hi.files
    threads := by
      intro id' t hid'
      obtain ⟨hne, hid'⟩ := Registry.lookup_erase_cases hid'
      obtain ⟨hout, hout'⟩ := hi.others hid rfl hne hid'
      have hok := hi.threads id' t hid'
      refine ⟨?_, ?_, hok.launch, hok.clear⟩
      · intro ref' href
        refine ⟨(hok.tended ref' href).1, hother ?_ (hok.tended ref' href).2⟩
        rintro rfl
        exact hout href
      · intro ref' href
        refine ⟨(hok.saved ref' href).1, hother ?_ (hok.saved ref' href).2⟩
        rintro rfl
        exact hout' href
    alone := hi.alone.erase
    owner := fun q p hp => (hi.owner q p hp).imp_left (hkept _ q p)
    record := fun q p hp => (hi.record q p hp).imp_left (hkept _ q p)
    exit := hi.exit
    recovery := by
      intro r hr
      rw [show h.mode = .recovering r from hr] at hserving
      cases hserving
    down := by
      intro hdown
      rw [show h.mode = .down from hdown] at hserving
      cases hserving }

/-! ### The next statement of a goroutine -/

omit hdistinct in
/-- An entry that a goroutine keeps open is changed. -/
theorem goes_enter {task task' : ProcTask} (hid : h.threads.lookup id = some t) (htends : tends t = some ref)
    (htends' : ∀ ref, tends t' = some ref → tends t = some ref) (htask : h.tasks.lookup ref = some task)
    (hok : ThreadOk separator S (h.tasks.insert ref task') h.dir h.mode t')
    (howner : ∀ pid p, Busy h.procs pid p → Owner h.threads pid p id t → tends t' = some p.ref ∧ holds t' = some pid)
    (hearly : ∀ pid p, Busy h.procs pid p → Owner h.threads pid p id t → early t = true → early t' = true ∨ Recorded separator h.dir pid p) :
    Inv separator S ((h.enter ref task').goes id t') := by
  have hkeys : ∀ ref', ((h.tasks.insert ref task').lookup ref').isSome = (h.tasks.lookup ref').isSome := by
    intro ref'
    by_cases heq : ref' = ref
    · rw [heq, AList.lookup_insert, htask]
      rfl
    · rw [AList.lookup_insert_ne heq]
  have hsame : ∀ ref', tends t ≠ some ref' → (h.tasks.insert ref task').lookup ref' = h.tasks.lookup ref' := by
    intro ref' hne
    refine AList.lookup_insert_ne ?_
    rintro rfl
    exact hne htends
  exact hi.goes hid htends' hkeys hsame hok howner hearly

omit hdistinct in
/-- The end of an attempt is entered. -/
theorem goes_finish {pgid code : Int} (hid : h.threads.lookup id = some t) (htends : tends t = some ref)
    (hfree : holds t = none) : Inv separator S ((h.finish ref code).goes id (.noted ref pgid code)) := by
  obtain ⟨hS, task, htask, -⟩ := (hi.threads id t hid).tended ref htends
  unfold Host.finish
  rw [htask]
  have hnone : ∀ pid p, ¬ Owner h.threads pid p id t := by
    intro pid p howner
    have hholds := howner.holds
    rw [hfree] at hholds
    cases hholds
  refine hi.goes_enter hid htends ?_ htask ⟨?_, ?_, ?_, ?_⟩ (fun pid p _ h => absurd h (hnone pid p)) (fun pid p _ h => absurd h (hnone pid p))
  · intro ref' href
    cases href
  · intro ref' href
    cases href
  · intro ref' href
    cases href
    exact ⟨hS, _, AList.lookup_insert _, rfl⟩
  · intro hlaunch
    cases hlaunch
  · intro ref' href
    cases href

omit hdistinct in
/-- What a goroutine that stays with its attempt keeps. -/
theorem threadOk_next (hid : h.threads.lookup id = some t) (htends : ∀ ref, tends t' = some ref → tends t = some ref)
    (hsaves : saves t' = none) (hlaunch : launching t' = true → launching t = true) (hnew : ∀ ref, t' ≠ .reserved ref) :
    ThreadOk separator S h.tasks h.dir h.mode t' where
  tended ref href := (hi.threads id t hid).tended ref (htends ref href)
  saved ref href := by
    rw [hsaves] at href
    cases href
  launch hl := (hi.threads id t hid).launch (hlaunch hl)
  clear ref href := absurd href (hnew ref)

theorem proceed {h' : Host} (hid : h.threads.lookup id = some t) (hstep : h.proceed separator id t = some h') : Inv separator S h' := by
  have hok := hi.threads id t hid
  cases t with
  | reserved ref => cases hstep
  | started ref pid =>
    cases hstep
    refine hi.goes hid (fun _ href => href) (fun _ => rfl) (fun _ _ => rfl)
      (hi.threadOk_next hid (fun _ href => href) rfl (fun _ => rfl) (fun _ => Thread.noConfusion)) ?_ (fun _ _ _ _ _ => .inl rfl)
    intro pid p _ howner
    exact ⟨howner.tends, howner.holds⟩
  | attached ref pid =>
    obtain ⟨hS, task, htask, hopen⟩ := hok.tended ref rfl
    simp only [Host.proceed, htask] at hstep
    cases hstep
    refine hi.goes_enter hid rfl (fun _ href => href) htask ⟨?_, ?_, ?_, ?_⟩ ?_ (fun _ _ _ _ _ => .inl rfl)
    · intro ref' href
      cases href
      exact ⟨hS, _, AList.lookup_insert _, hopen⟩
    · intro ref' href
      cases href
    · intro _
      exact hok.launch rfl
    · intro ref' href
      cases href
    · intro pid p _ howner
      exact ⟨howner.tends, howner.holds⟩
  | failed ref =>
    cases hstep
    exact hi.forget hid
  | listed ref pid =>
    cases hstep
    have hsaved := hi.saveState hdistinct { ref := ref, pgid := pid } (hok.tended ref rfl).1 ?_
    · refine hsaved.goes hid (fun _ href => href) (fun _ => rfl) (fun _ _ => rfl)
        (hsaved.threadOk_next hid (fun _ href => href) rfl (fun hlaunch => by cases hlaunch) (fun _ => Thread.noConfusion)) ?_ ?_
      · intro pid' p _ howner
        exact ⟨howner.tends, howner.holds⟩
      · intro pid' p _ howner _
        obtain rfl := Option.some.inj howner.holds
        obtain href := Option.some.inj howner.tends
        refine .inr ⟨{ ref := ref, pgid := pid }, ?_, href, rfl, rfl⟩
        rw [← href]
        exact read_write_self
    · intro pid' p hp href
      rcases hi.owner pid' p hp with ⟨id', t', howner, -⟩ | hdue
      · have heq := hi.alone id id' _ t' ref hid howner.runs rfl (howner.tends.trans (congrArg some href))
        subst heq
        have ht := Option.some.inj (hid.symm.trans howner.runs)
        subst ht
        exact .inl ⟨id, _, howner, rfl⟩
      · have hserving := hok.launch rfl
        rcases hdue with hdown | ⟨r, hr, -⟩
        · rw [hdown] at hserving
          cases hserving
        · rw [hr] at hserving
          cases hserving
  | waits ref pid =>
    simp only [Host.proceed] at hstep
    split at hstep
    · rename_i hp
      cases hstep
      refine hi.goes_free hid (fun _ href => href)
        (hi.threadOk_next hid (fun _ href => href) rfl (fun hlaunch => by cases hlaunch) (fun _ => Thread.noConfusion)) ?_
      intro pid' p hbusy hholds
      cases hholds
      rw [hbusy.1] at hp
      cases hp
      cases hbusy.2
    · cases hstep
  | overdue ref pid =>
    simp only [Host.proceed] at hstep
    split at hstep
    · rename_i hp
      cases hstep
      refine hi.goes_free hid (fun _ href => href)
        (hi.threadOk_next hid (fun _ href => href) rfl (fun hlaunch => by cases hlaunch) (fun _ => Thread.noConfusion)) ?_
      intro pid' p hbusy hholds
      cases hholds
      rw [hbusy.1] at hp
      cases hp
      cases hbusy.2
    · cases hstep
  | reaped ref code =>
    obtain ⟨-, task, htask, -⟩ := hok.tended ref rfl
    simp only [Host.proceed, htask] at hstep
    cases hstep
    exact hi.goes_finish hid rfl rfl
  | watches ref pgid =>
    simp only [Host.proceed] at hstep
    split at hstep
    · cases hstep
    · rename_i hgone
      cases hstep
      refine hi.goes_free hid (fun _ href => href)
        (hi.threadOk_next hid (fun _ href => href) rfl (fun hlaunch => by cases hlaunch) (fun _ => Thread.noConfusion)) ?_
      intro pid p hbusy hholds
      cases hholds
      refine hgone ?_
      unfold Host.processGroupAlive
      rw [hbusy.alive, decide_eq_true (hi.procs _ p hbusy.1).1]
      rfl
  | gone ref pgid =>
    cases hstep
    exact hi.goes_free hid (fun _ href => href)
      (hi.threadOk_next hid (fun _ href => href) rfl (fun hlaunch => by cases hlaunch) (fun _ => Thread.noConfusion))
      (fun _ _ _ hholds => by cases hholds)
  | read ref pgid code =>
    obtain ⟨-, task, htask, hopen⟩ := hok.tended ref rfl
    simp only [Host.proceed, htask] at hstep
    rw [hopen] at hstep
    cases hstep
    exact hi.goes_finish hid rfl rfl
  | noted ref pgid code =>
    cases hstep
    have hsaved := hi.saveState hdistinct { ref := ref, pgid := pgid, finished := true, exitCode := code } (hok.saved ref rfl).1
      (fun pid p hp href => absurd href (hi.saved_over hid rfl hp))
    exact hsaved.returns hid rfl
  | kills pgid => cases hstep

/-! ### A restart -/

omit hdistinct in
theorem crash (hearly : ∀ id t, h.threads.lookup id = some t → early t = false) : Inv separator S h.crash where
  procs := hi.procs
  tasks ref task htask := by cases (AList.lookup_empty ref).symm.trans htask
  files := hi.files
  threads id t hid := by cases (AList.lookup_empty id).symm.trans hid
  alone id _ t _ _ hid := by cases (AList.lookup_empty id).symm.trans hid
  owner _ _ _ := .inr (.inl rfl)
  record pid p hp := by
    refine .inr ((hi.record pid p hp).resolve_left ?_)
    rintro ⟨id, t, howner, hat⟩
    rw [hearly id t howner.runs] at hat
    cases hat
  exit := hi.exit
  recovery r hr := by cases hr
  down _ ref := AList.lookup_empty ref

omit hi hdistinct in
theorem mem_records {name : String} {body : FileBody} (hread : h.dir.read name = some body) (hname : hasSuffix name ".json" = true) :
    name ∈ h.records := by
  unfold Host.records
  rw [List.mem_insertionSort, List.mem_filter, List.mem_dedup, List.mem_map]
  exact ⟨⟨_, Dir.mem_of_read hread, rfl⟩, hname⟩

omit hi hdistinct in
theorem records_nodup : h.records.Nodup :=
  (List.perm_insertionSort _ _).nodup_iff.2 ((List.nodup_dedup _).filter _)

omit hdistinct in
theorem not_launching (hmode : h.mode ≠ .serving) (hid : h.threads.lookup id = some t) : launching t = false := by
  cases hlaunch : launching t with
  | false => rfl
  | true => exact absurd ((hi.threads id t hid).launch hlaunch) hmode

omit hdistinct in
/-- Before it serves, an executor goes on with its restart. -/
theorem recovers {r : Recovery} (hmode : h.mode ≠ .serving) (hr : RecoveryOk separator S h.procs h.tasks r)
    (hdue : ∀ pid p, Busy h.procs pid p → Due separator h.mode p → Due separator (.recovering r) p) :
    Inv separator S (h.recovery r) where
  procs := hi.procs
  tasks := hi.tasks
  files := hi.files
  threads id t hid := by
    have hok := hi.threads id t hid
    refine ⟨hok.tended, hok.saved, ?_, hok.clear⟩
    intro hlaunch
    rw [hi.not_launching hmode hid] at hlaunch
    cases hlaunch
  alone := hi.alone
  owner pid p hp := (hi.owner pid p hp).imp_right (hdue pid p hp)
  record := hi.record
  exit := hi.exit
  recovery r' hr' := by
    cases hr'
    exact hr
  down hdown := by cases hdown

omit hdistinct in
theorem restart (hdown : h.mode = .down) : Inv separator S (h.recovery (.scan h.records)) := by
  have hmode : h.mode ≠ .serving := by
    rw [hdown]
    exact Mode.noConfusion
  refine hi.recovers hmode ⟨records_nodup, ?_, ?_, ?_, ?_⟩ ?_
  · intro ref task htask
    rw [hi.down hdown ref] at htask
    cases htask
  · intro st todo heq
    cases heq
  · intro st todo heq
    cases heq
  · intro st todo heq
    cases heq
  · intro pid p hp _
    obtain ⟨st, hread, -⟩ := (hi.record pid p hp).resolve_left (hi.not_early hmode)
    exact .inr ⟨_, rfl, .inl (mem_records hread stateFile_json)⟩

omit hdistinct in
/-- A file is removed that is no record. -/
theorem removeFile {name : String} (hname : ∀ ref, name ≠ stateFile separator ref) :
    Inv separator S { h with dir := h.dir.remove name } where
  procs := hi.procs
  tasks := hi.tasks
  files f hf := hi.files f (Dir.mem_remove hf)
  threads id t hid := (hi.threads id t hid).of_dir (fun _ hread _ => read_remove_none hread)
  alone := hi.alone
  owner := hi.owner
  record pid p hp := by
    rcases hi.record pid p hp with howned | ⟨st, hread, hst⟩
    · exact .inl howned
    · exact .inr ⟨st, (read_remove_ne (Ne.symm (hname p.ref))).trans hread, hst⟩
  exit pid p hp := read_remove_none (hi.exit pid p hp)
  recovery := hi.recovery
  down := hi.down

omit hi hdistinct in
/-- The processes of which the records are to come, when one is read. -/
theorem due_scan {name : String} {todo : List String} (hmode : h.mode = .recovering (.scan (name :: todo)))
    (hdue : Due separator h.mode p) : stateFile separator p.ref = name ∨ stateFile separator p.ref ∈ todo := by
  rw [hmode] at hdue
  rcases hdue with hdown | ⟨r, hr, hdue⟩
  · cases hdown
  · cases hr
    rcases hdue with hmem | ⟨st, todo', heq, -⟩
    · exact List.mem_cons.1 hmem
    · cases heq

theorem scan {name : String} {todo : List String} {h' : Host} (hempty : ¬ S "") (hmode : h.mode = .recovering (.scan (name :: todo)))
    (hstep : h.recover separator id (.scan (name :: todo)) = some h') : Inv separator S h' := by
  have hserving : h.mode ≠ .serving := by
    rw [hmode]
    exact Mode.noConfusion
  obtain ⟨hnodup, hfresh, -, -, -⟩ := hi.recovery _ hmode
  have hnext : RecoveryOk separator S h.procs h.tasks (.scan todo) := by
    refine ⟨(List.nodup_cons.1 hnodup).2, ?_, ?_, ?_, ?_⟩
    · intro ref task htask hmem
      exact hfresh ref task htask (List.mem_cons_of_mem name hmem)
    · intro st todo' heq
      cases heq
    · intro st todo' heq
      cases heq
    · intro st todo' heq
      cases heq
  have hrecord : ∀ pid p, Busy h.procs pid p → Recorded separator h.dir pid p :=
    fun pid p hp => (hi.record pid p hp).resolve_left (hi.not_early hserving)
  simp only [Host.recover] at hstep
  split at hstep
  · rename_i hread
    cases hstep
    refine hi.recovers hserving hnext ?_
    intro pid p hp hdue
    rcases due_scan hmode hdue with rfl | hmem
    · obtain ⟨st, hread', -⟩ := hrecord pid p hp
      rw [hread] at hread'
      cases hread'
    · exact .inr ⟨_, rfl, .inl hmem⟩
  · rename_i st hread
    obtain ⟨hname, hS⟩ : name = stateFile separator st.ref ∧ S st.ref := hi.files _ (Dir.mem_of_read hread)
    have hwith : (h.withExit separator st).ref = st.ref := by
      unfold Host.withExit
      split
      · rfl
      · split
        · rfl
        · rfl
    split at hstep
    · rename_i hnil
      rw [hnil] at hS
      exact absurd hS hempty
    · cases hstep
      refine hi.recovers hserving ⟨(List.nodup_cons.1 hnodup).2, ?_, ?_, ?_, ?_⟩ ?_
      · intro ref task htask hmem
        exact hfresh ref task htask (List.mem_cons_of_mem name hmem)
      · intro st' todo' heq
        cases heq
        rw [hwith]
        refine ⟨hS, ?_, ?_, ?_⟩
        · cases htask : h.tasks.lookup st.ref with
          | none => rfl
          | some task => exact absurd (hname ▸ List.mem_cons_self) (hfresh st.ref task htask)
        · rw [← hname]
          exact (List.nodup_cons.1 hnodup).1
        · intro pid p hp href
          rw [hwith] at href
          obtain ⟨st', hread', -, hopen, hpgid⟩ := hrecord pid p hp
          rw [href, ← hname, hread] at hread'
          cases hread'
          have hsame : h.withExit separator st = st := by
            unfold Host.withExit
            rw [if_neg (by rw [hopen]; exact Bool.false_ne_true), ← href, readExitFile_none (hi.exit pid p hp)]
          rw [hsame]
          exact ⟨hopen, hpgid⟩
      · intro st' todo' heq
        cases heq
      · intro st' todo' heq
        cases heq
      · intro pid p hp hdue
        rcases due_scan hmode hdue with heq | hmem
        · refine .inr ⟨_, rfl, .inr ⟨_, _, rfl, ?_⟩⟩
          rw [hwith]
          exact (hdistinct _ _ (hi.procs pid p hp.1).2 hS (stateFile_inj (heq.trans hname))).symm
        · exact .inr ⟨_, rfl, .inl hmem⟩
  · rename_i body hnot hread
    cases hstep
    have hok := hi.files _ (Dir.mem_of_read hread)
    have hname : ∀ ref, name ≠ stateFile separator ref := by
      intro ref heq
      cases body with
      | state st => exact hnot st rfl
      | exitCode code =>
        obtain ⟨ref', hexit, -⟩ := hok
        exact stateFile_ne_exitFile (heq.symm.trans hexit)
      | output b => exact hok
    have hremoved := hi.removeFile hname
    refine hremoved.recovers hserving hnext ?_
    intro pid p hp hdue
    rcases due_scan hmode hdue with heq | hmem
    · exact absurd heq.symm (hname p.ref)
    · exact .inr ⟨_, rfl, .inl hmem⟩

omit hi hdistinct in
theorem due_look {st : AttemptState} {todo : List String} (hmode : h.mode = .recovering (.look st todo))
    (hdue : Due separator h.mode p) : stateFile separator p.ref ∈ todo ∨ p.ref = st.ref := by
  rw [hmode] at hdue
  rcases hdue with hdown | ⟨r, hr, hdue⟩
  · cases hdown
  · cases hr
    rcases hdue with hmem | ⟨st', todo', heq, href⟩
    · exact .inl hmem
    · cases heq
      exact .inr href.symm

omit hdistinct in
/-- What `RecoverState` enters for a record: an end, or a goroutine for a process. -/
theorem adopts (id : ℕ) {st st' : AttemptState} {todo : List String} {task : ProcTask} {threads' : Threads}
    (hmode : h.mode = .recovering (.look st todo)) (href : st'.ref = st.ref) (hpgid : st'.pgid = st.pgid)
    (hthreads : threads' = h.threads ∧ task.finished = true ∧ (∀ pid p, Busy h.procs pid p → p.ref ≠ st.ref) ∨
      threads' = h.threads.insert id (.watches st.ref st.pgid) ∧ task.finished = false ∧ h.threads.lookup id = none) :
    Inv separator S { h with tasks := h.tasks.insert st.ref task, threads := threads', mode := .recovering (.entered st' todo) } := by
  obtain ⟨hnodup, hfresh, hlook, -, -⟩ := hi.recovery _ hmode
  obtain ⟨hS, hnone, hout, hclaim⟩ := hlook st todo rfl
  have hserving : h.mode ≠ .serving := by
    rw [hmode]
    exact Mode.noConfusion
  have hother : ∀ {ref' : String} {b : Bool}, Listed h.tasks ref' b → Listed (h.tasks.insert st.ref task) ref' b := by
    rintro ref' b ⟨task', htask', hb⟩
    refine ⟨task', ?_, hb⟩
    rw [AList.lookup_insert_ne]
    · exact htask'
    · rintro rfl
      rw [htask'] at hnone
      cases hnone
  have hold : ∀ {id' : ℕ} {t : Thread}, h.threads.lookup id' = some t →
      ThreadOk separator S (h.tasks.insert st.ref task) h.dir (.recovering (.entered st' todo)) t := by
    intro id' t hid'
    have hok := hi.threads id' t hid'
    refine ⟨?_, ?_, ?_, hok.clear⟩
    · intro ref' href'
      exact ⟨(hok.tended ref' href').1, hother (hok.tended ref' href').2⟩
    · intro ref' href'
      exact ⟨(hok.saved ref' href').1, hother (hok.saved ref' href').2⟩
    · intro hlaunch
      rw [hi.not_launching hserving hid'] at hlaunch
      cases hlaunch
  have htends : ∀ id' t, h.threads.lookup id' = some t → tends t ≠ some st.ref := by
    intro id' t hid' htends
    obtain ⟨task', htask', -⟩ := ((hi.threads id' t hid').tended st.ref htends).2
    rw [hnone] at htask'
    cases htask'
  have hthread : ∀ id' t, threads'.lookup id' = some t → h.threads.lookup id' = some t ∨
      id' = id ∧ t = .watches st.ref st.pgid ∧ task.finished = false := by
    intro id' t hid'
    rcases hthreads with ⟨rfl, -, -⟩ | ⟨rfl, hopen, -⟩
    · exact .inl hid'
    · rcases Registry.lookup_insert_cases hid' with ⟨rfl, rfl⟩ | ⟨-, hid'⟩
      · exact .inr ⟨rfl, rfl, hopen⟩
      · exact .inl hid'
  have hkept : ∀ at_ q p, Owned h.threads at_ q p → Owned threads' at_ q p := by
    intro at_ q p howned
    rcases hthreads with ⟨rfl, -, -⟩ | ⟨rfl, -, hid⟩
    · exact howned
    · obtain ⟨id', t, howner, hat⟩ := howned
      refine ⟨id', t, howner.insert_ne ?_, hat⟩
      rintro rfl
      rw [howner.runs] at hid
      cases hid
  exact {
    procs := hi.procs
    tasks := by
      intro ref' task' htask'
      rcases Registry.lookup_insert_cases htask' with ⟨rfl, -⟩ | ⟨-, htask'⟩
      · exact hS
      · exact hi.tasks ref' task' htask'
    files := hi.files
    threads := by
      intro id' t hid'
      rcases hthread id' t hid' with hid' | ⟨rfl, rfl, hopen⟩
      · exact hold hid'
      · refine ⟨?_, ?_, ?_, ?_⟩
        · intro ref' href'
          cases href'
          exact ⟨hS, task, AList.lookup_insert _, hopen⟩
        · intro ref' href'
          cases href'
        · intro hlaunch
          cases hlaunch
        · intro ref' href'
          cases href'
    alone := by
      intro a b ta tb ref' ha hb hta htb
      rcases hthread a ta ha with ha | ⟨rfl, rfl, -⟩
      · rcases hthread b tb hb with hb | ⟨rfl, rfl, -⟩
        · exact hi.alone a b ta tb ref' ha hb hta htb
        · cases htb
          exact absurd hta (htends a ta ha)
      · rcases hthread b tb hb with hb | ⟨rfl, -, -⟩
        · cases hta
          exact absurd htb (htends b tb hb)
        · rfl
    owner := by
      intro pid p hp
      rcases hi.owner pid p hp with howned | hdue
      · exact .inl (hkept _ pid p howned)
      · rcases due_look hmode hdue with hmem | heq
        · exact .inr (.inr ⟨_, rfl, .inl hmem⟩)
        · rcases hthreads with ⟨-, -, hover⟩ | ⟨rfl, -, -⟩
          · exact absurd heq (hover pid p hp)
          · obtain ⟨-, rfl⟩ := hclaim pid p hp heq
            exact .inl ⟨id, _, owner_insert (congrArg some heq.symm) rfl, rfl⟩
    record := fun pid p hp => (hi.record pid p hp).imp_left (hkept _ pid p)
    exit := hi.exit
    recovery := by
      intro r hr
      cases hr
      refine ⟨hnodup, ?_, ?_, ?_, ?_⟩
      · intro ref' task' htask'
        rcases Registry.lookup_insert_cases htask' with ⟨rfl, -⟩ | ⟨-, htask'⟩
        · exact hout
        · exact hfresh ref' task' htask'
      · intro _ _ heq
        cases heq
      · intro _ _ heq
        cases heq
        rw [href, hpgid]
        refine ⟨hS, ?_, fun pid p hp heq => (hclaim pid p hp heq).2⟩
        rw [AList.lookup_insert]
        rfl
      · intro _ _ heq
        cases heq
    down := by
      intro hdown
      cases hdown }

omit hdistinct in
theorem look {st : AttemptState} {todo : List String} {h' : Host} (hmode : h.mode = .recovering (.look st todo))
    (hstep : h.recover separator id (.look st todo) = some h') : Inv separator S h' := by
  obtain ⟨-, hnone, -, hclaim⟩ := (hi.recovery _ hmode).look st todo rfl
  simp only [Host.recover, hnone] at hstep
  split at hstep
  · rename_i hsome
    cases hsome
  · split at hstep
    · rename_i hfin
      cases hstep
      refine hi.adopts id hmode rfl rfl (.inl ⟨rfl, rfl, ?_⟩)
      intro pid p hp href
      rw [(hclaim pid p hp href).1] at hfin
      cases hfin
    · split at hstep
      · split at hstep
        · cases hstep
        · rename_i hid
          cases hstep
          exact hi.adopts id hmode rfl rfl (.inr ⟨rfl, rfl, Option.not_isSome_iff_eq_none.1 hid⟩)
      · rename_i hdead
        cases hstep
        refine hi.adopts id hmode rfl rfl (.inl ⟨rfl, rfl, ?_⟩)
        intro pid p hp href
        obtain ⟨-, hpgid⟩ := hclaim pid p hp href
        refine absurd ?_ hdead
        unfold Host.processGroupAlive
        rw [hpgid, hp.alive, decide_eq_true (hi.procs pid p hp.1).1]
        rfl

theorem recover {r : Recovery} {h' : Host} (hempty : ¬ S "") (hmode : h.mode = .recovering r)
    (hstep : h.recover separator id r = some h') : Inv separator S h' := by
  have hserving : h.mode ≠ .serving := by
    rw [hmode]
    exact Mode.noConfusion
  have hrecovery := hi.recovery r hmode
  cases r with
  | scan todo =>
    cases todo with
    | nil =>
      cases hstep
      refine ⟨hi.procs, hi.tasks, hi.files, ?_, hi.alone, ?_, hi.record, hi.exit, ?_, ?_⟩
      · intro id' t hid'
        have hok := hi.threads id' t hid'
        exact ⟨hok.tended, hok.saved, fun _ => rfl, hok.clear⟩
      · intro pid p hp
        refine .inl ((hi.owner pid p hp).resolve_right ?_)
        rw [hmode]
        rintro (hdown | ⟨r, hr, hdue⟩)
        · cases hdown
        · cases hr
          rcases hdue with hmem | ⟨_, _, heq, -⟩
          · exact absurd hmem List.not_mem_nil
          · cases heq
      · intro r hr
        cases hr
      · intro hdown
        cases hdown
    | cons name todo => exact hi.scan hdistinct hempty hmode hstep
  | look st todo => exact hi.look hmode hstep
  | entered st todo =>
    obtain ⟨hS, hsome, hpgid⟩ := hrecovery.entered st todo rfl
    obtain ⟨task, htask⟩ := Option.isSome_iff_exists.1 hsome
    simp only [Host.recover, htask] at hstep
    cases hstep
    refine hi.recovers hserving ⟨hrecovery.nodup, hrecovery.fresh, ?_, ?_, ?_⟩ ?_
    · intro _ _ heq
      cases heq
    · intro _ _ heq
      cases heq
    · intro _ _ heq
      cases heq
      refine ⟨hS, hsome, ?_⟩
      intro pid p hp href
      refine ⟨?_, hpgid pid p hp href⟩
      rcases hi.owner pid p hp with howned | hdue
      · obtain ⟨task', htask', hopen⟩ := hi.listed howned
        rw [href, htask] at htask'
        cases htask'
        exact hopen
      · rw [hmode] at hdue
        rcases hdue with hdown | ⟨r, hr, hdue⟩
        · cases hdown
        · cases hr
          rcases hdue with hmem | ⟨_, _, heq, -⟩
          · rw [href] at hmem
            exact absurd hmem (hrecovery.fresh st.ref task htask)
          · cases heq
    · intro pid p hp hdue
      rw [hmode] at hdue
      rcases hdue with hdown | ⟨r, hr, hdue⟩
      · cases hdown
      · cases hr
        rcases hdue with hmem | ⟨_, _, heq, -⟩
        · exact .inr ⟨_, rfl, .inl hmem⟩
        · cases heq
  | save st todo =>
    obtain ⟨hS, -, hclaim⟩ := hrecovery.save st todo rfl
    cases hstep
    have hsaved := hi.saveState hdistinct st hS (fun pid p hp href => .inr (hclaim pid p hp href))
    refine hsaved.recovers hserving ⟨hrecovery.nodup, hrecovery.fresh, ?_, ?_, ?_⟩ ?_
    · intro _ _ heq
      cases heq
    · intro _ _ heq
      cases heq
    · intro _ _ heq
      cases heq
    · intro pid p hp hdue
      rw [show (h.saveState separator st).mode = h.mode from rfl, hmode] at hdue
      rcases hdue with hdown | ⟨r, hr, hdue⟩
      · cases hdown
      · cases hr
        rcases hdue with hmem | ⟨_, _, heq, -⟩
        · exact .inr ⟨_, rfl, .inl hmem⟩
        · cases heq

end Inv
end Facts

/-! ### Whole runs -/

/-- No result is evicted of which the end is still to be saved. -/
def settled (h : Host) : Bool :=
  h.threads.entries.all (fun e => match saves e.2 with
    | some ref => decide (ref ∉ h.expired)
    | none => true)

/-- No launch is between the start of its process and the record of it. -/
def unrecorded (h : Host) : Bool := h.threads.entries.all (fun e => !early e.2)

/-- A ref that is launched and not known has no exit code left from another time, what is
written at the end of an attempt is written within the hour that its result is kept, and an
executor dies in no launch that has started its process and not recorded it. -/
def Allowed (separator : Char) (S : String → Prop) (h : Host) : Event → Prop
  | .launch _ ref =>
    S ref ∧ ((h.tasks.lookup ref).isSome = true ∨ h.dir.read (exitFile separator ref) = none) ∧ settled h = true
  | .crash => unrecorded h = true
  | _ => True

instance (separator : Char) (S : String → Prop) [DecidablePred S] (h : Host) (e : Event) : Decidable (Allowed separator S h e) := by
  cases e <;> unfold Allowed <;> infer_instance

section Runs
variable {separator : Char} {S : String → Prop} {h h' : Host} {e : Event}

theorem settled_spec (hsettled : settled h = true) {id : ℕ} {t : Thread} (hid : h.threads.lookup id = some t) {ref : String}
    (hsaves : saves t = some ref) : ref ∉ h.expired := by
  have hthis := List.all_eq_true.1 hsettled _ (Registry.mem_entries.2 hid)
  simp only [hsaves] at hthis
  exact of_decide_eq_true hthis

theorem unrecorded_spec (hquiet : unrecorded h = true) {id : ℕ} {t : Thread} (hid : h.threads.lookup id = some t) : early t = false :=
  (Bool.not_eq_true' _).mp (List.all_eq_true.1 hquiet _ (Registry.mem_entries.2 hid))

/-- The refs of a set that can be launched. -/
def proper (S : String → Prop) (ref : String) : Prop := S ref ∧ ref ≠ ""

theorem killGroup_threads (pid : Int) : (h.killGroup pid).threads = h.threads := by
  unfold Host.killGroup
  split
  · split
    · rfl
    · rfl
  · rfl

theorem not_busy_killed {pid : Int} {p : Process} : ¬ Busy (h.killGroup pid).procs pid p := by
  intro hbusy
  unfold Host.killGroup at hbusy
  split at hbusy
  · rename_i q hq
    split at hbusy
    · rename_i code hlife
      rw [Option.some.inj (hq.symm.trans hbusy.1), hbusy.2] at hlife
      cases hlife
    · have hp := hbusy.1
      rw [AList.lookup_insert] at hp
      cases hp
      cases hbusy.2
  · rename_i hnone
    cases hnone.symm.trans hbusy.1

/-- A group is killed, or this fails. -/
def attempted (h : Host) (killed : Bool) (pid : Int) : Host := if killed then h.killGroup pid else h

theorem attempted_threads (killed : Bool) (pid : Int) : (attempted h killed pid).threads = h.threads := by
  cases killed with
  | false => rfl
  | true => exact killGroup_threads pid

theorem Inv.attempted (hi : Inv separator S h) (killed : Bool) (pid : Int) : Inv separator S (attempted h killed pid) := by
  cases killed with
  | false => exact hi
  | true => exact hi.killGroup pid

theorem Inv.next (hdistinct : Distinct separator S) (hi : Inv separator (proper S) h) (hok : Allowed separator S h e)
    (hstep : step separator h e = some h') : Inv separator (proper S) h' := by
  have hdistinct' : Distinct separator (proper S) := fun a b ha hb heq => hdistinct a b ha.1 hb.1 heq
  have hempty : ¬ proper S "" := fun h => h.2 rfl
  cases e with
  | tick d =>
    cases hstep
    exact ⟨hi.procs, hi.tasks, hi.files, hi.threads, hi.alone, hi.owner, hi.record, hi.exit, hi.recovery, hi.down⟩
  | launch id ref =>
    obtain ⟨hS, hclear, hsettled⟩ := hok
    simp only [step] at hstep
    split at hstep
    · cases hstep
    · rename_i hmay
      obtain ⟨hserving, hid⟩ := not_or.1 hmay
      split at hstep
      · cases hstep
        exact hi
      · rename_i hne
        cases hstep
        exact hi.reserve hdistinct' (not_not.1 hserving) (Option.not_isSome_iff_eq_none.1 hid) ⟨hS, hne⟩ hclear
          (fun id t hid ref hsaves => settled_spec hsettled hid hsaves)
  | start id pid =>
    simp only [step] at hstep
    split at hstep
    · rename_i ref hid
      split at hstep
      · rename_i hfree
        cases hstep
        exact hi.start hid hfree
      · cases hstep
    · cases hstep
  | fails id =>
    simp only [step] at hstep
    split at hstep
    · rename_i ref hid
      cases hstep
      exact hi.goes_free hid (fun _ href => href)
        (hi.threadOk_next hid (fun _ href => href) rfl (fun _ => rfl) (fun _ => Thread.noConfusion))
        (fun _ _ _ hholds => by cases hholds)
    · rename_i ref pid hid
      cases hstep
      have hkilled := hi.killGroup pid
      rw [← killGroup_threads pid] at hid
      refine hkilled.goes_free hid (fun _ href => href)
        (hkilled.threadOk_next hid (fun _ href => href) rfl (fun _ => rfl) (fun _ => Thread.noConfusion)) ?_
      intro pid' p hp hholds
      cases hholds
      exact not_busy_killed hp
    · cases hstep
  | proceed id =>
    obtain ⟨t, hid, hnext⟩ := Option.bind_eq_some_iff.1 hstep
    exact hi.proceed hdistinct' hid hnext
  | timeout id killed =>
    simp only [step] at hstep
    split at hstep
    · rename_i ref pid hid
      cases hstep
      have hkilled := hi.attempted killed pid
      rw [← attempted_threads killed pid] at hid
      refine hkilled.goes hid (fun _ href => href) (fun _ => rfl) (fun _ _ => rfl)
        (hkilled.threadOk_next hid (fun _ href => href) rfl (fun hlaunch => by cases hlaunch) (fun _ => Thread.noConfusion)) ?_
        (fun _ _ _ _ hearly => by cases hearly)
      intro pid' p _ howner
      exact ⟨howner.tends, howner.holds⟩
    · cases hstep
  | cancel id ref =>
    simp only [step] at hstep
    split at hstep
    · cases hstep
    · rename_i hmay
      have hid := Option.not_isSome_iff_eq_none.1 (not_or.1 hmay).2
      cases hstep
      unfold Host.cancel
      split
      · exact hi
      · split
        · exact hi.spawn hid rfl rfl rfl
        · split
          · exact hi.spawn hid rfl rfl rfl
          · exact hi
  | kill id killed =>
    simp only [step] at hstep
    split at hstep
    · rename_i pgid hid
      cases hstep
      rw [← attempted_threads killed pgid] at hid
      exact (hi.attempted killed pgid).returns hid rfl
    · cases hstep
  | leave pid code =>
    simp only [step] at hstep
    split at hstep
    · rename_i ref hp
      cases hstep
      exact hi.leave hdistinct' hp code
    · cases hstep
  | exit pid code =>
    simp only [step] at hstep
    split at hstep
    · cases hstep
    · rename_i p _ hp
      cases hstep
      exact hi.fewer (hi.procs_insert hp rfl) (fun q r hr => busy_insert (by simp) hr)
    · cases hstep
  | crash =>
    simp only [step] at hstep
    split at hstep
    · cases hstep
    · cases hstep
      exact hi.crash (fun id t hid => unrecorded_spec hok hid)
  | restart =>
    simp only [step] at hstep
    split at hstep
    · rename_i hdown
      cases hstep
      exact hi.restart hdown
    · cases hstep
  | recover id =>
    simp only [step] at hstep
    split at hstep
    · rename_i r hmode
      exact hi.recover hdistinct' hempty hmode hstep
    · cases hstep

theorem Inv.fresh : Inv separator S {} where
  procs pid _ hp := by cases (AList.lookup_empty pid).symm.trans hp
  tasks ref _ htask := by cases (AList.lookup_empty ref).symm.trans htask
  files _ hf := absurd hf List.not_mem_nil
  threads id _ hid := by cases (AList.lookup_empty id).symm.trans hid
  alone id _ _ _ _ hid := by cases (AList.lookup_empty id).symm.trans hid
  owner pid _ hp := by cases (AList.lookup_empty pid).symm.trans hp.1
  record pid _ hp := by cases (AList.lookup_empty pid).symm.trans hp.1
  exit pid _ hp := by cases (AList.lookup_empty pid).symm.trans hp.1
  recovery r hr := by cases hr
  down hdown := by cases hdown

theorem Inv.run (hdistinct : Distinct separator S) (hreach : Reaches (step separator) (Allowed separator S) {} h) :
    Inv separator (proper S) h :=
  hreach.keeps Inv.fresh (fun _ _ _ hi hok hstep => hi.next hdistinct hok hstep)

end Runs

/-- The refs of two tasks of a run. -/
def pair (ref : String) : Prop := ref = "r/t/1" ∨ ref = "r/u/1"

instance : DecidablePred pair := fun _ => inferInstanceAs (Decidable (_ ∨ _))

/-- Two launches of one attempt and one of another; the executor dies and adopts both. -/
def adoption : List Event :=
  [.launch 1 "r/t/1", .launch 2 "r/t/1", .start 1 7, .launch 3 "r/u/1", .proceed 1, .start 3 8, .proceed 1, .proceed 3, .proceed 1,
    .proceed 3, .proceed 3, .crash, .restart, .recover 1, .recover 1, .recover 0, .recover 0, .recover 2, .recover 2, .recover 0,
    .recover 0, .recover 0]

end Cronova.Properties.OneProcess
