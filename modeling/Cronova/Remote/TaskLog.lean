import Cronova.Concurrency.Machine
import Cronova.Remote.Worker
import Cronova.Scheduler.Basics

/-! The log file of a task instance, which all of its attempts share: an attempt
that does not run on a worker starts it afresh, and the hub appends to it for
the ones that do, across restarts of its process. -/
namespace Cronova.Remote
open Cronova.Model Cronova.Concurrency Cronova.Scheduler

/-- A byte in the file, with the number of the attempt that it comes from. -/
abbrev Written := Nat × UInt8

def tagged (n : Nat) (data : Bytes) : List Written := data.map (n, ·)

structure TaskLog where
  /-- The row of the task instance in the store, and the other rows of the run. -/
  row : TaskInstance
  others : List TaskInstance
  /-- `logPath` gives every task instance a file. -/
  named : row.logPath ≠ ""
  distinct : ∀ ti ∈ others, ti.taskID ≠ row.taskID
  workerID : String
  /-- The current attempt runs on the worker. -/
  remote : Bool := false
  file : List Written := []
  /-- Where the process of an attempt that is not remote writes next. -/
  offset : Nat := 0
  /-- What the current attempt has written to its spool on the worker. -/
  spool : Bytes := []
  /-- The hub's record of the current attempt. -/
  entry : Option RefState := none

inductive LogEvent where
  /-- The next attempt is dispatched, to the executor or to the worker. `head` is
  what a launch writes first. -/
  | dispatchLocal (head : Bytes)
  | dispatchRemote
  | writeLocal (data : Bytes)
  /-- The process on the worker writes to its log. -/
  | writeSpool (data : Bytes)
  | chunk (c : LogChunk) (disk : RefState.Disk)
  /-- The hub still appends for an earlier attempt. -/
  | stray (attempt : Nat) (data : Bytes)
  /-- The process of the scheduler, and so of the hub, starts again. -/
  | restart
  /-- `adoptOrphans` with the rows of the run, when they could be listed. -/
  | adopt (listing : Option (List TaskInstance))
  deriving DecidableEq

namespace TaskLog

/-- The number of the current attempt. -/
def attempt (j : TaskLog) : Nat := j.row.tryNumber

/-- The row as `dispatch` stores it. -/
def dispatched (row : TaskInstance) : TaskInstance :=
  { row with
    tryNumber := row.tryNumber + 1, state := .queued,
    executorRef := attemptRef row.runID row.taskID (row.tryNumber + 1) }

def dispatch (j : TaskLog) (remote : Bool) (file : List Written) (offset : Nat) (entry : Option RefState) : TaskLog :=
  { j with row := dispatched j.row, named := j.named, distinct := j.distinct, remote := remote, file := file,
           offset := offset, spool := [], entry := entry }

/-- Data goes into a file at an offset. -/
def writeAt (file : List Written) (offset : Nat) (data : List Written) : List Written :=
  file.take offset ++ data ++ file.drop (offset + data.length)

def receive (j : TaskLog) (rs : RefState) (c : LogChunk) (disk : RefState.Disk) : TaskLog :=
  let r := rs.onChunk c disk
  { j with entry := some r.state, file := j.file ++ tagged j.attempt r.appended }

/-- What the store may answer when it lists the run. -/
def Lists (j : TaskLog) (listing : Option (List TaskInstance)) : Prop := ∀ rows ∈ listing, rows.Perm (j.row :: j.others)

instance (j : TaskLog) (listing : Option (List TaskInstance)) : Decidable (j.Lists listing) :=
  inferInstanceAs (Decidable (∀ rows ∈ listing, _))

/-- The record that the hub rebuilds. -/
def adoptedEntry (j : TaskLog) (listing : Option (List TaskInstance)) : RefState :=
  adopted j.workerID j.row.taskID j.row.executorRef j.attempt listing
    (fun path => if path = j.row.logPath then some j.file.length else none)

def step (j : TaskLog) : LogEvent → Option TaskLog
  | .dispatchLocal head =>
    if head ≠ [] then some (j.dispatch false (tagged (j.attempt + 1) head) head.length none) else none
  | .dispatchRemote =>
    some (j.dispatch true j.file 0 (some { workerID := j.workerID, logPath := j.row.logPath }))
  | .writeLocal data =>
    if j.remote = false then
      some { j with file := writeAt j.file j.offset (tagged j.attempt data), offset := j.offset + data.length }
    else none
  | .writeSpool data => if j.remote = true then some { j with spool := j.spool ++ data } else none
  | .chunk c disk =>
    match j.entry with
    | some rs => if j.remote = true ∧ c.SliceOf j.spool then some (j.receive rs c disk) else none
    | none => none
  | .stray attempt data => if attempt < j.attempt then some { j with file := j.file ++ tagged attempt data } else none
  | .restart => some { j with entry := none }
  | .adopt listing =>
    if j.remote = true ∧ j.entry = none ∧ j.spool ≠ [] ∧ j.Lists listing then
      some { j with entry := some (j.adoptedEntry listing) }
    else none

/-- A chunk of a resend from offset 0. -/
def resendChunk (ref : String) (spool : Bytes) (i : Nat) : LogChunk :=
  { ref := ref, offset := (i * chunkSize : Nat), data := (spool.drop (i * chunkSize)).take chunkSize }

def resendChunks (ref : String) (spool : Bytes) : List LogChunk :=
  (List.range (spool.length / chunkSize + 1)).map (resendChunk ref spool)

/-- The worker sends its whole spool again. -/
def resend (j : TaskLog) : TaskLog :=
  (resendChunks j.row.executorRef j.spool).foldl
    (fun j c =>
      match j.entry with
      | some rs => j.receive rs c {}
      | none => j)
    j

/-- The bytes of the current attempt in the file. -/
def own (j : TaskLog) : Bytes := (j.file.filter (fun b => b.1 = j.attempt)).map (·.2)

/-- A task instance that has not been dispatched. -/
def fresh (row : TaskInstance) (others : List TaskInstance) (named : row.logPath ≠ "")
    (distinct : ∀ ti ∈ others, ti.taskID ≠ row.taskID) (workerID : String) : TaskLog :=
  { row := row, others := others, named := named, distinct := distinct, workerID := workerID }

end TaskLog
end Cronova.Remote
