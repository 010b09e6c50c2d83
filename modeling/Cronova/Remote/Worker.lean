import Cronova.Remote.Hub

/-! The worker's end of the protocol for one attempt: what its runner knows, the
track of the log stream, and the reports on the way to the hub. -/
namespace Cronova.Remote
open Cronova.Model

/-- What the worker's runner knows of an attempt. -/
inductive Record where
  | absent
  | running
  | finished (code : Int)
  /-- The process could not be started; the runner has forgotten it. -/
  | refused
  /-- Evicted from the registry, long after the attempt had finished. -/
  | swept (code : Int)
  deriving DecidableEq, Repr

namespace Record

/-- `Probe` of the runner. -/
def probe : Record → Status
  | running => ⟨.running, 0⟩
  | finished c => ⟨.exited, c⟩
  | absent | refused | swept _ => ⟨.unknown, 0⟩

/-- `ActiveRefs` lists the attempt. -/
def active (r : Record) : Bool := r = .running

/-- The exit code that the attempt has come to, as the hub should know it. -/
def code : Record → Option Int
  | finished c | swept c => some c
  | refused => some 127
  | absent | running => none

/-- The runner answers that it does not know the attempt. -/
def gone (r : Record) : Bool := r.probe.phase = .unknown

end Record

/-- `refTrack`: the worker's view of one assignment. -/
structure RefTrack where
  /-- Bytes the hub has confirmed. -/
  ackOff : Int := 0
  /-- The hub demanded a restart from `ackOff`. -/
  rewind : Bool := false
  exited : Bool := false
  exitCode : Int := 0
  deriving DecidableEq, Repr

namespace RefTrack

/-- `handleAck` up to the garbage collection. -/
def onAck (tr : RefTrack) (ack : LogAck) : RefTrack :=
  if ack.rewind then { tr with ackOff := ack.offset, rewind := true }
  else if tr.ackOff < ack.offset then { tr with ackOff := ack.offset }
  else tr

/-- A fully acknowledged, exited ref is collected, when its spool is there. -/
def collectable (tr : RefTrack) (spoolSize : Option Nat) : Bool :=
  tr.exited && spoolSize.any (fun size : Nat => (size : Int) ≤ tr.ackOff)

end RefTrack

/-- The size of the buffer that `pumpLogs` reads with. -/
def chunkSize : Nat := 32 * 1024

/-- A pump's cursor. -/
structure Pump where
  sendOff : Nat
  eofSent : Bool := false
  deriving DecidableEq, Repr

/-- What `pumpLogs` sends next, in one round of its loop. Nothing, when it waits
or is through. -/
def Pump.chunk (p : Pump) (ref : String) (spool : Bytes) (exited : Bool) : Option LogChunk :=
  let data := (spool.drop p.sendOff).take chunkSize
  if data ≠ [] then
    some { ref := ref, offset := p.sendOff, data := data, eof := exited && decide (data.length < chunkSize) }
  else if exited && !p.eofSent then some { ref := ref, offset := p.sendOff, eof := true }
  else none

/-- The bytes of a chunk stand in the spool where its offset says. -/
def LogChunk.SliceOf (c : LogChunk) (spool : Bytes) : Prop :=
  0 ≤ c.offset ∧ c.offset + c.data.length ≤ spool.length ∧ c.data = (spool.drop c.offset.toNat).take c.data.length

instance (c : LogChunk) (spool : Bytes) : Decidable (c.SliceOf spool) := inferInstanceAs (Decidable (_ ∧ _ ∧ _))

/-- What `pumpLogs` sends are slices of the spool, while its cursor is inside. -/
theorem Pump.chunk_slice {p : Pump} {ref : String} {spool : Bytes} {exited : Bool} {c : LogChunk}
    (hin : p.sendOff ≤ spool.length) (hc : p.chunk ref spool exited = some c) : c.SliceOf spool := by
  unfold Pump.chunk at hc
  dsimp only at hc
  split at hc
  · cases hc
    have hlength : ((spool.drop p.sendOff).take chunkSize).length ≤ spool.length - p.sendOff := by
      rw [List.length_take, List.length_drop]
      exact min_le_right _ _
    refine ⟨Int.natCast_nonneg _, ?_, ?_⟩
    · dsimp only
      omega
    · dsimp only
      rw [Int.toNat_natCast, List.length_take, List.take_eq_take_iff]
      omega
  · split at hc
    · cases hc
      exact ⟨Int.natCast_nonneg _, by simpa using hin, rfl⟩
    · cases hc

/-- Where `watchExit` stands. -/
inductive Watch where
  | off
  | polling
  /-- The runner has answered that the attempt is not running. -/
  | seen (st : Status)
  /-- The track was marked, when there was one. -/
  | marked (st : Status) (tracked : Bool)
  /-- The report is with `sendReliable`. -/
  | ready (ev : TaskEvent)
  | done
  deriving DecidableEq, Repr

/-- Where the reader loop of the worker stands. -/
inductive Reader where
  | idle
  /-- In `answerProbe`: the runner has answered that the attempt has exited. -/
  | asked (code : Int)
  | lookedUp (code : Int) (tracked : Bool)
  /-- About to send: the answer to a probe, or the report of a failed launch. -/
  | replying (ev : TaskEvent)
  deriving DecidableEq, Repr

/-- The limit on what is reported as an attempt's output. -/
def maxOutput : Nat := 64 * 1024

/-- The output that a report carries: what the file holds when it can be read
and is not too large. -/
def reported (outFile : Option Bytes) (readable : Bool) : Bytes :=
  match outFile with
  | some b => if readable = true ∧ b.length ≤ maxOutput then b else []
  | none => []

/-- The report of `watchExit`. -/
def exitEvent (ref : String) (st : Status) (output : Bytes) : TaskEvent :=
  { ref := ref, phase := if st.phase = .unknown then .unknown else .exited, exitCode := st.exitCode, output := output }

/-- The report of a launch that failed. -/
def refusal (ref err : String) : TaskEvent := { ref := ref, phase := .exited, exitCode := 127, launchError := err }

end Cronova.Remote
