import Cronova.Executor.StateDir
import Cronova.Concurrency.Machine
import Cronova.Concurrency.Registry
import Mathlib.Data.List.Sort

/-! The runner between its critical sections: launches, the goroutines that wait for a
process, cancels, and the restart of an executor that adopts the processes of the last
one. The state directory can be written. -/
namespace Cronova.Executor.Engine
open Cronova.Concurrency

/-- An hour. -/
def finishedTaskTTL : ℕ := 3600000000000

def TimeoutExitCode : Int := 124

/-- How far a process group is with the command of its attempt. -/
inductive Life where
  | busy
  /-- The shell has left the exit code. -/
  | leaving
  | ended (code : Int)
  deriving DecidableEq

structure Process where
  ref : String
  life : Life
  deriving DecidableEq

structure ProcTask where
  cmd : Option Int := none
  pgid : Int := 0
  finished : Bool := false
  exitCode : Int := 0
  finishedAt : ℕ := 0
  deriving DecidableEq

/-- A goroutine, by the statement it is at. -/
inductive Thread where
  /-- `Launch` has reserved the ref. -/
  | reserved (ref : String)
  /-- `Launch` has started the command. -/
  | started (ref : String) (pid : Int)
  /-- `Launch` has the command in its process group. -/
  | attached (ref : String) (pid : Int)
  /-- `Launch` has an error to return. -/
  | failed (ref : String)
  /-- `Launch` has entered the process group. -/
  | listed (ref : String) (pid : Int)
  | waits (ref : String) (pid : Int)
  /-- `wait` has killed the group after the timeout. -/
  | overdue (ref : String) (pid : Int)
  /-- `wait` knows the exit code. -/
  | reaped (ref : String) (code : Int)
  | watches (ref : String) (pgid : Int)
  /-- `watchAdopted` has seen that the group is gone. -/
  | gone (ref : String) (pgid : Int)
  /-- `watchAdopted` knows the exit code. -/
  | read (ref : String) (pgid code : Int)
  /-- The end of an attempt is entered and not saved yet. -/
  | noted (ref : String) (pgid code : Int)
  /-- `Cancel` has looked up the group. -/
  | kills (pgid : Int)
  deriving DecidableEq

/-- `RecoverState`, by the statement it is at, and the files that are to come. -/
inductive Recovery where
  | scan (todo : List String)
  /-- A record and the exit code beside it are read. -/
  | look (st : AttemptState) (todo : List String)
  | entered (st : AttemptState) (todo : List String)
  | save (st : AttemptState) (todo : List String)
  deriving DecidableEq

def Recovery.todo : Recovery → List String
  | .scan todo => todo
  | .look _ todo => todo
  | .entered _ todo => todo
  | .save _ todo => todo

inductive Mode where
  | down
  | recovering (r : Recovery)
  | serving
  deriving DecidableEq

structure Host where
  now : ℕ := 0
  procs : Registry Int Process := ∅
  dir : Dir := []
  tasks : Registry String ProcTask := ∅
  threads : Registry ℕ Thread := ∅
  mode : Mode := .serving

inductive Event where
  | tick (d : ℕ)
  | launch (id : ℕ) (ref : String)
  | start (id : ℕ) (pid : Int)
  /-- An error of a launch. -/
  | fails (id : ℕ)
  /-- The next statement of a goroutine. -/
  | proceed (id : ℕ)
  | timeout (id : ℕ) (killed : Bool)
  | cancel (id : ℕ) (ref : String)
  | kill (id : ℕ) (killed : Bool)
  /-- The shell of a process leaves its exit code. -/
  | leave (pid code : Int)
  | exit (pid code : Int)
  | crash
  | restart
  /-- The next statement of `RecoverState`, and the goroutine it starts. -/
  | recover (id : ℕ)

namespace Host
variable (separator : Char) (h : Host)

/-! ### Processes -/

def aliveAt (pid : Int) : Bool :=
  match h.procs.lookup pid with
  | some p => match p.life with
    | .ended _ => false
    | _ => true
  | none => false

def processGroupAlive (pgid : Int) : Bool := decide (0 < pgid) && h.aliveAt pgid

/-- The command that a goroutine has a handle of. -/
def handle : Thread → Option Int
  | .started _ pid => some pid
  | .attached _ pid => some pid
  | .listed _ pid => some pid
  | .waits _ pid => some pid
  | .overdue _ pid => some pid
  | _ => none

/-- The host gives a process the number of another one only when this is gone and nothing
has a handle of it. -/
def free (pid : Int) : Bool := decide (0 < pid) && !h.aliveAt pid && h.threads.entries.all (fun e => handle e.2 ≠ some pid)

def killGroup (pid : Int) : Host :=
  match h.procs.lookup pid with
  | some p => match p.life with
    | .ended _ => h
    | _ => { h with procs := h.procs.insert pid { p with life := .ended 1 } }
  | none => h

/-! ### Critical sections -/

def goes (id : ℕ) (t : Thread) : Host := { h with threads := h.threads.insert id t }

def returns (id : ℕ) : Host := { h with threads := h.threads.erase id }

def enter (ref : String) (t : ProcTask) : Host := { h with tasks := h.tasks.insert ref t }

def forget (ref : String) : Host := { h with tasks := h.tasks.erase ref }

def saveState (st : AttemptState) : Host := { h with dir := h.dir.write (stateFile separator st.ref) (.state st) }

def stale (t : ProcTask) : Bool := t.finished && decide (finishedTaskTTL < h.now - t.finishedAt)

/-- The refs of completed tasks that are to be evicted. -/
def expired : List String := (h.tasks.entries.filter (fun e => h.stale e.2)).map (·.1)

def removeState (d : Dir) (ref : String) : Dir := (d.remove (stateFile separator ref)).remove (exitFile separator ref)

def sweepFinishedLocked : Host :=
  { h with
    tasks := Registry.keep h.tasks (fun _ t => !h.stale t)
    dir := h.expired.foldl (removeState separator) h.dir }

/-- The first critical section of `Launch`. -/
def reserve (id : ℕ) (ref : String) : Host :=
  match (h.sweepFinishedLocked separator).tasks.lookup ref with
  | some _ => h.sweepFinishedLocked separator
  | none => ((h.sweepFinishedLocked separator).enter ref {}).goes id (.reserved ref)

/-- The end of an attempt, if it is known and has not ended. -/
def finish (ref : String) (code : Int) : Host :=
  match h.tasks.lookup ref with
  | some t => h.enter ref { t with finished := true, exitCode := code, finishedAt := h.now }
  | none => h

def probe (ref : String) : Phase :=
  match h.tasks.lookup ref with
  | none => .unknown
  | some t => if t.finished then .exited t.exitCode else .running

/-! ### Goroutines -/

def proceed (id : ℕ) : Thread → Option Host
  | .reserved _ => none
  | .started ref pid => some (h.goes id (.attached ref pid))
  | .attached ref pid =>
    match h.tasks.lookup ref with
    | some t => some ((h.enter ref { t with cmd := some pid, pgid := pid }).goes id (.listed ref pid))
    | none => some (h.goes id (.listed ref pid))
  | .failed ref => some ((h.forget ref).returns id)
  | .listed ref pid => some ((h.saveState separator { ref := ref, pgid := pid }).goes id (.waits ref pid))
  | .waits ref pid =>
    match h.procs.lookup pid with
    | some ⟨_, .ended code⟩ => some (h.goes id (.reaped ref code))
    | _ => none
  | .overdue ref pid =>
    match h.procs.lookup pid with
    | some ⟨_, .ended _⟩ => some (h.goes id (.reaped ref TimeoutExitCode))
    | _ => none
  | .reaped ref code =>
    match h.tasks.lookup ref with
    | some t => some ((h.finish ref code).goes id (.noted ref t.pgid code))
    | none => some (h.goes id (.noted ref 0 code))
  | .watches ref pgid => if h.processGroupAlive pgid then none else some (h.goes id (.gone ref pgid))
  | .gone ref pgid => some (h.goes id (.read ref pgid ((readExitFile h.dir (exitFile separator ref)).getD (-1))))
  | .read ref pgid code =>
    match h.tasks.lookup ref with
    | some t => if t.finished then some (h.goes id (.noted ref pgid code)) else some ((h.finish ref code).goes id (.noted ref pgid code))
    | none => some (h.goes id (.noted ref pgid code))
  | .noted ref pgid code =>
    some ((h.saveState separator { ref := ref, pgid := pgid, finished := true, exitCode := code }).returns id)
  | .kills _ => none

/-- `Cancel` takes the group of the command, or the one it has adopted. -/
def cancel (id : ℕ) (ref : String) : Host :=
  match h.tasks.lookup ref with
  | none => h
  | some t => match t.cmd with
    | some pid => h.goes id (.kills pid)
    | none => if 0 < t.pgid then h.goes id (.kills t.pgid) else h

/-! ### A restart -/

def crash : Host := { h with tasks := ∅, threads := ∅, mode := .down }

/-- The names that are read, in their order. -/
def records : List String := ((h.dir.map (·.1)).dedup.filter (fun name => Text.hasSuffix name ".json")).insertionSort (· ≤ ·)

/-- What the exit code file tells of a record. -/
def withExit (st : AttemptState) : AttemptState :=
  if st.finished then st
  else
    match readExitFile h.dir (exitFile separator st.ref) with
    | some code => { st with finished := true, exitCode := code }
    | none => st

def recovery (r : Recovery) : Host := { h with mode := .recovering r }

def recover (id : ℕ) : Recovery → Option Host
  | .scan [] => some { h with mode := .serving }
  | .scan (name :: todo) =>
    match h.dir.read name with
    | none => some (h.recovery (.scan todo))
    | some (.state st) =>
      if st.ref = "" then some { h with dir := h.dir.remove name, mode := .recovering (.scan todo) }
      else some (h.recovery (.look (h.withExit separator st) todo))
    | some _ => some { h with dir := h.dir.remove name, mode := .recovering (.scan todo) }
  | .look st todo =>
    if (h.tasks.lookup st.ref).isSome then some (h.recovery (.scan todo))
    else if st.finished then
      some ((h.enter st.ref { pgid := st.pgid, finished := true, exitCode := st.exitCode, finishedAt := h.now }).recovery (.entered st todo))
    else if h.processGroupAlive st.pgid then
      if (h.threads.lookup id).isSome then none
      else some (((h.enter st.ref { pgid := st.pgid }).goes id (.watches st.ref st.pgid)).recovery (.entered st todo))
    else
      -- nothing can prove how it ended
      some ((h.enter st.ref { pgid := st.pgid, finished := true, exitCode := -1, finishedAt := h.now }).recovery
        (.entered { st with finished := true, exitCode := -1 } todo))
  | .entered st todo =>
    match h.tasks.lookup st.ref with
    | some t => some (h.recovery (.save { st with finished := t.finished, exitCode := t.exitCode } todo))
    | none => some h.crash
  | .save st todo => some ((h.saveState separator st).recovery (.scan todo))

end Host

/-! ### The machine -/

def step (separator : Char) (h : Host) : Event → Option Host
  | .tick d => some { h with now := h.now + d }
  | .launch id ref =>
    if h.mode ≠ .serving ∨ (h.threads.lookup id).isSome then none
    else if ref = "" then some h
    else some (h.reserve separator id ref)
  | .start id pid =>
    match h.threads.lookup id with
    | some (.reserved ref) =>
      if h.free pid then some ({ h with procs := h.procs.insert pid ⟨ref, .busy⟩ }.goes id (.started ref pid)) else none
    | _ => none
  | .fails id =>
    match h.threads.lookup id with
    | some (.reserved ref) => some (h.goes id (.failed ref))
    | some (.started ref pid) => some ((h.killGroup pid).goes id (.failed ref))
    | _ => none
  | .proceed id => (h.threads.lookup id).bind (fun t => h.proceed separator id t)
  | .timeout id killed =>
    match h.threads.lookup id with
    | some (.waits ref pid) => some ((if killed then h.killGroup pid else h).goes id (.overdue ref pid))
    | _ => none
  | .cancel id ref => if h.mode ≠ .serving ∨ (h.threads.lookup id).isSome then none else some (h.cancel id ref)
  | .kill id killed =>
    match h.threads.lookup id with
    | some (.kills pgid) => some ((if killed then h.killGroup pgid else h).returns id)
    | _ => none
  | .leave pid code =>
    match h.procs.lookup pid with
    | some ⟨ref, .busy⟩ =>
      some { h with procs := h.procs.insert pid ⟨ref, .leaving⟩, dir := h.dir.write (exitFile separator ref) (.exitCode code) }
    | _ => none
  | .exit pid code =>
    match h.procs.lookup pid with
    | some ⟨_, .ended _⟩ => none
    | some p => some { h with procs := h.procs.insert pid { p with life := .ended code } }
    | none => none
  | .crash => if h.mode = .down then none else some h.crash
  | .restart => if h.mode = .down then some (h.recovery (.scan h.records)) else none
  | .recover id =>
    match h.mode with
    | .recovering r => h.recover separator id r
    | _ => none

end Cronova.Executor.Engine
