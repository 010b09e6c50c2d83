import Cronova.Concurrency.Interference
import Cronova.Store.Tables
import Cronova.Parser.Parse

/-! The atomic commands of the scheduler: single store statements, reads of the
in-memory registry, questions to the clock, the executor and the file system,
the finalize mutex, and the start of an attempt's goroutine. -/
namespace Cronova.Scheduler
open Cronova.Model Cronova.Store Cronova.Concurrency Cronova.Text

/-- Configuration and the libraries the scheduler calls. -/
structure Cfg where
  parser : Parser.Env
  definitionHash : String → String
  /-- A flat JSON object of strings. -/
  decodeStringMap : String → Option Params
  logDir : String := "logs"
  /-- Directory of persisted exit codes, empty when the executor has none. -/
  stateDir : String := ""
  hasHub : Bool := true
  maxManualQueuePerDAG : Int := 1000
  maxManualQueueGlobal : Int := 10000
  maxQueuedRunsGlobal : Int := 10000
  maxActiveRunsGlobal : Int := 1000
  maxConcurrentTasks : Int := 64
  /-- Bound on the loops whose length the surroundings decide: polls of one
  attempt, ticks of one process and levels of a cancel cascade. A program that
  reaches it stops for good, so every finite run of the source fits some bound. -/
  bound : Nat := 8

/-- What the executor knows about an attempt. -/
inductive Phase where
  | running | exited (code : Int) | unknown
  deriving DecidableEq, Repr

inductive Launched where
  | ok | noWorker | failed
  deriving DecidableEq, Repr

/-- Questions whose answers come from outside the scheduler and its store. -/
inductive Ask : Type → Type where
  | now : Ask Time
  | ctxDone : Ask Bool
  | launch (ref : String) (task : Task) : Ask Launched
  /-- No answer is a failed probe. -/
  | probe (ref : String) : Ask (Option Phase)
  | cancel (ref : String) : Ask Unit
  | groupAvailable (group : String) : Ask Bool
  /-- The rendered condition template of a task. -/
  | renderWhen (run : DagRun) (task : Task) (tryNumber : Nat) : Ask String
  | stageProject (project ref : String) : Ask Bool
  | readFile (path : String) : Ask (Option String)
  | stat (path : String) : Ask Bool
  | remove (path : String) : Ask Unit
  | readExitCode (stateDir ref : String) : Ask (Option Int)
  /-- Some order of a map's keys. -/
  | order (keys : List String) : Ask (List String)

/-- An answer, to be read by the question it is for. `fine` stands for the
uneventful one and `fault` for a store operation that fails. -/
inductive Answer where
  | fine | fault
  | time (t : Time)
  | flag (b : Bool)
  | launched (l : Launched)
  | phase (p : Option Phase)
  | text (t : Option String)
  | code (c : Option Int)
  | keys (l : List String)
  deriving DecidableEq, Repr

def Ask.reply : {β : Type} → Ask β → Answer → Option β
  | _, .now, .time t => some t
  | _, .now, .fine => some 0
  | _, .ctxDone, .flag b => some b
  | _, .ctxDone, .fine => some false
  | _, .launch _ _, .launched l => some l
  | _, .launch _ _, .fine => some .ok
  | _, .probe _, .phase p => some p
  | _, .probe _, .fine => some (some .running)
  | _, .cancel _, _ => some ()
  | _, .groupAvailable _, .flag b => some b
  | _, .groupAvailable _, .fine => some true
  | _, .renderWhen _ _ _, .text t => t
  | _, .renderWhen _ _ _, .fine => some "true"
  | _, .stageProject _ _, .flag b => some b
  | _, .stageProject _ _, .fine => some true
  | _, .readFile _, .text t => some t
  | _, .readFile _, .fine => some none
  | _, .stat _, .flag b => some b
  | _, .stat _, .fine => some false
  | _, .remove _, _ => some ()
  | _, .readExitCode _ _, .code c => some c
  | _, .readExitCode _ _, .fine => some none
  | _, .order ks, .keys l => if l.Perm ks then some l else none
  | _, .order ks, .fine => some ks
  | _, _, _ => none

/-- The goroutine of an attempt: launched by a dispatch, or attached by recovery
to a process that was already there. -/
inductive Job where
  | launch (run : DagRun) (task : Task) (ti : TaskInstance)
  | await (ti : TaskInstance)
  deriving DecidableEq, Repr

def Job.ti : Job → TaskInstance
  | launch _ _ ti | await ti => ti

/-- The operations on one run. They are marked at their beginning and end, so
that a state says which of them are in progress; the marks change nothing else. -/
inductive Op where
  | processRun (run : DagRun)
  | discardRun (runID : String)
  | cancelRun (runID : String)
  | retryTask (runID taskID : String)
  | retryRun (runID : String)
  | markTask (runID taskID : String) (target : TaskState)
  | markRun (runID : String) (target : RunState)
  deriving DecidableEq, Repr

def Op.runID : Op → String
  | processRun run => run.runID
  | discardRun id | cancelRun id | retryTask id _ | retryRun id | markTask id _ _ | markRun id _ => id

inductive Cmd : Type → Type 1 where
  | read {β : Type} (q : Db → Except Err β) : Cmd (Except Err β)
  | write {β : Type} (s : Write β) : Cmd (Except Err β)
  /-- The cached definitions. -/
  | registry {β : Type} (q : List DAG → β) : Cmd β
  | bootTime : Cmd Time
  | uniqueRunTime : Cmd Time
  | ask {β : Type} (a : Ask β) : Cmd β
  | lock : Cmd Unit
  | unlock : Cmd Unit
  | go (job : Job) : Cmd Unit
  | enter (op : Op) : Cmd Unit
  | leave (op : Op) (ok : Bool) : Cmd Unit
  /-- Recovery is over and the loop begins. -/
  | recovered : Cmd Unit
  /-- Never answered. -/
  | halt : Cmd Empty

end Cronova.Scheduler
