import Cronova.Model.States
import Mathlib.Algebra.Order.Ring.Int

/-! The records the scheduler works on: definitions, runs, task instances and
events. Instants are nanoseconds since the Unix epoch. -/
namespace Cronova.Model

abbrev Time := Int

def second : Int := 1000000000

/-- The zero value of an instant: midnight of 1 January of the year 1. -/
def zeroTime : Time := -62135596800 * second

/-- A parsed cron schedule: the next activation after an instant. -/
structure Schedule where
  next : Time → Time

/-- A 64-bit signed result, as machine arithmetic leaves it. -/
def int64 (x : Int) : Int := Int.bmod x (2 ^ 64)

inductive TaskType where
  | powershell | python | sql | jar | http | subdag
  deriving DecidableEq, Repr

inductive RetryBackoff where
  | fixed | exponential
  deriving DecidableEq, Repr

inductive OnTimeout where
  | fail | skip
  deriving DecidableEq, Repr

/-- A cross-DAG wait: the task is held until the target's run for the shifted
period has succeeded. -/
structure DependsOnDag where
  dag : String
  offset : String := ""
  timeout : Int := 0
  onTimeout : OnTimeout := .fail
  deriving DecidableEq, Repr

structure HTTPSpec where
  method : String := ""
  url : String
  headers : List (String × String) := []
  body : String := ""
  expectedStatus : List Int := []
  deriving DecidableEq, Repr

/-- A single node of a DAG. -/
structure Task where
  id : String
  type : TaskType := .powershell
  command : String := ""
  deps : List String := []
  pool : String := "default"
  priority : Int := 0
  retries : Int := 0
  retryDelay : Int := 0
  retryBackoff : RetryBackoff := .fixed
  retryDelayMax : Int := 0
  timeout : Int := 0
  sla : Int := 0
  triggerRule : TriggerRule := .allSuccess
  workerGroup : String := ""
  dependsOnDag : Option DependsOnDag := none
  subdag : String := ""
  when_ : String := ""
  http : Option HTTPSpec := none
  conn : String := ""
  project : String := ""
  deriving DecidableEq, Repr

/-- How queued runs of a DAG are admitted while another of its runs is active. -/
inductive ExecutionPolicy where
  | parallel | serialWait | serialDiscard | serialPriority
  deriving DecidableEq, Repr

/-- A workflow definition. -/
structure DAG where
  dagID : String
  schedule : String := ""
  timezone : String := ""
  startDate : Time := 0
  catchup : Bool := false
  paused : Bool := false
  maxActiveRuns : Int := 1
  maxActiveTasks : Int := 0
  executionPolicy : ExecutionPolicy := .parallel
  defaultRetries : Int := 0
  definitionYAML : String := ""
  tasks : List Task := []
  triggerAfter : List String := []
  triggerOnEvent : List String := []
  notifyURL : String := ""
  notifyOn : List String := []
  notifyFormat : String := ""
  notifyGroup : String := ""
  sla : Int := 0
  dagrunTimeout : Int := 0
  deriving DecidableEq, Repr

abbrev Params := List (String × String)

/-- The value of a parameter, empty when it is not set. -/
def Params.get (params : Params) (key : String) : String := (List.lookup key params).getD ""

/-- One execution of a DAG, keyed by its logical period. -/
structure DagRun where
  runID : String
  dagID : String
  logicalDate : Time
  state : RunState
  triggerType : TriggerType
  startedAt : Option Time := none
  finishedAt : Option Time := none
  params : Params := []
  definitionYAML : String := ""
  definitionHash : String := ""
  priority : Int := 0
  parentRunID : String := ""
  held : Bool := false
  deriving DecidableEq, Repr

/-- The execution of one task within one run. -/
structure TaskInstance where
  id : Nat := 0
  runID : String
  taskID : String
  state : TaskState
  tryNumber : Nat := 0
  maxRetries : Int := 0
  pool : String := "default"
  priority : Int := 0
  definitionHash : String := ""
  executorRef : String := ""
  logPath : String := ""
  startedAt : Option Time := none
  finishedAt : Option Time := none
  deriving DecidableEq, Repr

/-- Where a durable event comes from. -/
inductive EventSource where
  | dependency | external
  deriving DecidableEq, Repr

/-- A durable signal. The dependency source uses a run's id as its key. -/
structure Event where
  id : Nat := 0
  source : EventSource
  eventKey : String
  payload : String := ""
  consumed : Bool := false
  deriving DecidableEq, Repr

structure Pool where
  name : String
  slots : Int
  deriving DecidableEq, Repr

def maxPoolSlots : Int := 1024

end Cronova.Model
