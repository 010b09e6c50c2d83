import Cronova.Executor.Redact
import Cronova.Text.Strings

/-! Attempt state on disk. Each launched attempt leaves a record, its shell leaves the exit
code in a file beside it, and a restarted executor adopts what it finds. The task of a
remote attempt writes its output to a file of the worker's spool. -/
namespace Cronova.Executor
open Cronova.Text

/-- The record of an attempt: its process group, and the exit code once it is known. -/
structure AttemptState where
  ref : String
  pgid : Int
  finished : Bool := false
  exitCode : Int := 0
  deriving DecidableEq, Repr

/-- What a file holds. -/
inductive FileBody where
  | state (st : AttemptState)
  | exitCode (code : Int)
  | output (b : Bytes)
  deriving DecidableEq, Repr

/-- The files of a directory by name. -/
abbrev Dir := List (String × FileBody)

namespace Dir

def read (d : Dir) (name : String) : Option FileBody := List.lookup name d

def remove (d : Dir) (name : String) : Dir := d.filter (fun f => f.1 ≠ name)

def write (d : Dir) (name : String) (body : FileBody) : Dir := (name, body) :: d.remove name

theorem mem_of_read {d : Dir} {name : String} {body : FileBody} (h : d.read name = some body) : (name, body) ∈ d := by
  induction d with
  | nil => cases h
  | cons f d ih =>
    rw [read, List.lookup_cons] at h
    split at h
    · rename_i heq
      cases h
      rw [eq_of_beq heq]
      exact List.mem_cons_self
    · exact List.mem_cons_of_mem _ (ih h)

theorem mem_remove {d : Dir} {name : String} {f : String × FileBody} (h : f ∈ d.remove name) : f ∈ d :=
  List.mem_of_mem_filter h

theorem mem_write {d : Dir} {name : String} {body : FileBody} {f : String × FileBody} (h : f ∈ d.write name body) :
    f = (name, body) ∨ f ∈ d := by
  rcases List.mem_cons.mp h with rfl | h
  · exact .inl rfl
  · exact .inr (mem_remove h)

end Dir

/-! ### Names -/

section Names
variable (separator : Char)

/-- `strings.NewReplacer("/", "_", string(filepath.Separator), "_").Replace(ref)` -/
def sanitizeRef (ref : String) : String :=
  String.ofList (ref.toList.map (fun c => if c = '/' ∨ c = separator then '_' else c))

def stateFile (ref : String) : String := sanitizeRef separator ref ++ ".json"

def exitFile (ref : String) : String := stateFile separator ref ++ ".exit"

/-- The names of a worker's track in its spool: the log and the output of an attempt. -/
def spoolFile (ref : String) : String := sanitizeRef separator ref ++ ".log"

def outFile (ref : String) : String := sanitizeRef separator ref ++ ".out"

end Names

/-! ### The runner -/

/-- What the registry knows of an attempt. -/
structure ProcTask where
  pgid : Int := 0
  finished : Bool := false
  exitCode : Int := 0
  deriving DecidableEq, Repr

/-- The registry, and the state directory. -/
structure Runner where
  tasks : List (String × ProcTask) := []
  dir : Dir := []
  deriving DecidableEq, Repr

inductive Phase where
  | unknown | running | exited (code : Int)
  deriving DecidableEq, Repr

def readExitFile (d : Dir) (name : String) : Option Int :=
  match d.read name with
  | some (.exitCode code) => some code
  | _ => none

namespace Runner
variable (separator : Char) (r : Runner)

def task? (ref : String) : Option ProcTask := List.lookup ref r.tasks

def setTask (ref : String) (t : ProcTask) : Runner := { r with tasks := (ref, t) :: r.tasks.filter (fun e => e.1 ≠ ref) }

def saveState (st : AttemptState) : Runner := { r with dir := r.dir.write (stateFile separator st.ref) (.state st) }

def removeState (ref : String) : Runner :=
  { r with dir := (r.dir.remove (stateFile separator ref)).remove (exitFile separator ref) }

/-- A launched attempt is registered and recorded; a known one is not started again. -/
def launch (ref : String) (pgid : Int) : Runner :=
  if ref = "" ∨ (r.task? ref).isSome then r
  else (r.setTask ref { pgid := pgid }).saveState separator { ref := ref, pgid := pgid }

/-- The process of an attempt has ended under this executor. -/
def wait (ref : String) (code : Int) : Runner :=
  match r.task? ref with
  | some t =>
    (r.setTask ref { t with finished := true, exitCode := code }).saveState separator
      { ref := ref, pgid := t.pgid, finished := true, exitCode := code }
  | none => r.saveState separator { ref := ref, pgid := 0, finished := true, exitCode := code }

/-- The result of an attempt is dropped, and its files with it. -/
def sweep (ref : String) : Runner :=
  match r.task? ref with
  | some t =>
    if t.finished then ({ r with tasks := r.tasks.filter (fun e => e.1 ≠ ref) } : Runner).removeState separator ref else r
  | none => r

/-- One record of the directory is adopted. -/
def recoverEntry (alive : Int → Bool) (name : String) : Runner :=
  match r.dir.read name with
  | none => r
  | some (.state st) =>
    if st.ref = "" then { r with dir := r.dir.remove name }
    else
      let st :=
        if st.finished then st
        else
          match readExitFile r.dir (exitFile separator st.ref) with
          | some code => { st with finished := true, exitCode := code }
          | none => st
      if (r.task? st.ref).isSome then r
      else if st.finished then
        (r.setTask st.ref { pgid := st.pgid, finished := true, exitCode := st.exitCode }).saveState separator st
      else if alive st.pgid then
        (r.setTask st.ref { pgid := st.pgid }).saveState separator { st with finished := false, exitCode := 0 }
      else
        -- nothing can prove how it ended
        (r.setTask st.ref { pgid := st.pgid, finished := true, exitCode := -1 }).saveState separator
          { st with finished := true, exitCode := -1 }
  | some _ => { r with dir := r.dir.remove name }

/-- `RecoverState` of a restarted executor: its registry is empty, the records are read in
the order of their names. -/
def recoverState (alive : Int → Bool) : Runner :=
  (((r.dir.map (·.1)).filter (fun name => hasSuffix name ".json")).mergeSort (· ≤ ·)).foldl
    (fun r name => r.recoverEntry separator alive name) { r with tasks := [] }

/-- The process group of an adopted attempt has ended. -/
def watchAdopted (ref : String) (pgid : Int) : Runner :=
  let code := (readExitFile r.dir (exitFile separator ref)).getD (-1)
  let r :=
    match r.task? ref with
    | some t => if t.finished then r else r.setTask ref { t with finished := true, exitCode := code }
    | none => r
  r.saveState separator { ref := ref, pgid := pgid, finished := true, exitCode := code }

def probe (ref : String) : Phase :=
  match r.task? ref with
  | some t => if t.finished then .exited t.exitCode else .running
  | none => .unknown

end Runner

/-- The exit code that the files of an attempt tell. -/
def readExitCode (separator : Char) (d : Dir) (ref : String) : Option Int :=
  if ref = "" then none else readExitFile d (exitFile separator ref)

/-- The output that a worker sends with the end of an attempt. -/
def pickup (separator : Char) (spool : Dir) (ref : String) : Option Bytes :=
  match spool.read (outFile separator ref) with
  | some (.output b) => if b.length ≤ 64 * 2 ^ 10 then some b else none
  | _ => none

/-! ### A host and its attempts -/

/-- An executor with its files and a worker's spool; which attempts were launched on it, and
what each of them did: the exit codes and the outputs that are its own. -/
structure Host where
  runner : Runner := {}
  spool : Dir := []
  launched : List String := []
  ended : List (String × Int) := []
  emitted : List (String × Bytes) := []
  deriving DecidableEq, Repr

inductive HostStep where
  | launch (ref : String) (pgid : Int)
  /-- The task of an attempt writes its output. -/
  | emit (ref : String) (b : Bytes)
  /-- The shell of an attempt ends and leaves its exit code. -/
  | exit (ref : String) (code : Int)
  /-- The executor sees its process end, which may have been killed. -/
  | wait (ref : String) (code : Int)
  /-- The process group of an adopted attempt ends. -/
  | watch (ref : String) (pgid : Int)
  | sweep (ref : String)
  /-- The worker drops the files of an attempt that the hub has all of. -/
  | collect (ref : String)
  | restart (alive : Int → Bool)

/-- What happens to a host. A process does something only when it was launched. -/
def Host.step (separator : Char) (h : Host) : HostStep → Host
  | .launch ref pgid => { h with runner := h.runner.launch separator ref pgid, launched := ref :: h.launched }
  | .emit ref b =>
    if ref ∈ h.launched then
      { h with spool := h.spool.write (outFile separator ref) (.output b), emitted := (ref, b) :: h.emitted }
    else h
  | .exit ref code =>
    if ref ∈ h.launched then
      { h with
        runner := { h.runner with dir := h.runner.dir.write (exitFile separator ref) (.exitCode code) }
        ended := (ref, code) :: h.ended }
    else h
  | .wait ref code =>
    if ref ∈ h.launched then { h with runner := h.runner.wait separator ref code, ended := (ref, code) :: h.ended } else h
  | .watch ref pgid => if ref ∈ h.launched then { h with runner := h.runner.watchAdopted separator ref pgid } else h
  | .sweep ref => { h with runner := h.runner.sweep separator ref }
  | .collect ref => { h with spool := (h.spool.remove (spoolFile separator ref)).remove (outFile separator ref) }
  | .restart alive => { h with runner := h.runner.recoverState separator alive }

def Host.run (separator : Char) (h : Host) (steps : List HostStep) : Host := steps.foldl (Host.step separator) h

end Cronova.Executor
