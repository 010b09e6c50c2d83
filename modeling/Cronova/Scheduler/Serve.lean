import Cronova.Scheduler.System

/-! Several `serve` processes on one database. A process schedules after it has
acquired the lease; a heartbeat renews the lease beside the loop and stops the
process when it is lost. The statements of the loop do not look at the lease. -/
namespace Cronova.Scheduler
open Cronova.Model Cronova.Store Cronova.Concurrency Cronova.Concurrency.Fallible

/-! ### The lease -/

/-- The row of `scheduler_lease`. The number of a process stands for its holder id. -/
structure Lease where
  holder : Nat
  expiresAt : Time
  deriving DecidableEq, Repr

inductive LeaseErr where
  | held | lost | failed
  deriving DecidableEq, Repr

def leaseTTL : Time := 15 * second

/-- Claim the lease: it is absent, expired or already the holder's. -/
def acquireLease (row : Option Lease) (holder : Nat) (now ttl : Time) : Except LeaseErr Unit × Option Lease :=
  match row with
  | none => (.ok (), some ⟨holder, now + ttl⟩)
  | some cur =>
    if cur.holder ≠ holder ∧ now < cur.expiresAt then (.error .held, row) else (.ok (), some ⟨holder, now + ttl⟩)

/-- Extend the lease if it still is the holder's, expired or not. -/
def renewLease (row : Option Lease) (holder : Nat) (now ttl : Time) : Except LeaseErr Unit × Option Lease :=
  match row with
  | some cur => if cur.holder = holder then (.ok (), some ⟨holder, now + ttl⟩) else (.error .lost, row)
  | none => (.error .lost, none)

def releaseLease (row : Option Lease) (holder : Nat) : Option Lease := row.filter (fun cur => cur.holder ≠ holder)

/-! ### The programs of a process -/

inductive ServeCmd : Type → Type 1 where
  | scheduler {β : Type} (c : Cmd β) : ServeCmd β
  | acquireLease : ServeCmd (Except LeaseErr Unit)
  | renewLease : ServeCmd (Except LeaseErr Unit)
  | releaseLease : ServeCmd (Except LeaseErr Unit)
  | ctxDone : ServeCmd Bool
  /-- Cancel the context of the process. -/
  | cancel : ServeCmd Unit

abbrev ServeProgram := Program ServeCmd (Except Err Unit)

/-- One attempt to become active. A standby tries again. -/
def activate : ServeProgram := do
  match ← Program.call .acquireLease with
  | .ok _ => return .ok ()
  | .error _ => return .error .failed

/-- One beat: a lost lease stops the process, any other error is only logged. -/
def heartbeat : ServeProgram := do
  if ← Program.call .ctxDone then return .ok ()
  match ← Program.call .renewLease with
  | .error .lost => do
    Program.call .cancel
    return .ok ()
  | _ => return .ok ()

/-- The dispatching part of a tick: `collect` is what the part before it makes of
the listed rows. -/
def pass (cfg : Cfg) (collect : Db → List ReadyTask) : M Unit := do
  let ready ← list collect
  admitReady cfg ready

/-- The end of a process. -/
def release : ServeProgram := do
  let _ ← Program.call .releaseLease
  return .ok ()

/-! ### The system -/

/-- The memory of a process. The database of `world` is not used. -/
structure Server where
  world : World := {}
  /-- It has acquired the lease and schedules. -/
  serving : Bool := false
  /-- Its context is cancelled, or it has crashed. -/
  stopped : Bool := false

inductive LeaseEvent where
  | acquired (process : Nat)
  | dispatched (process id tryNumber : Nat)
  deriving DecidableEq, Repr

/-- The database with its lease row, and the processes. The log, newest first, is a
record kept for the proofs. -/
structure Cluster where
  db : Db := {}
  lease : Option Lease := none
  memory : Nat → Server := fun _ => {}
  log : List LeaseEvent := []

inductive Role where
  | activate
  | heartbeat
  | pass (collect : Db → List ReadyTask)
  | release

structure ServeKind where
  process : Nat
  role : Role

/-- Statements under the context of the process. -/
def usesStore : {β : Type} → Cmd β → Bool
  | _, .read _ | _, .write _ => true
  | _, _ => false

/-- The instance and the try number that a command has dispatched. -/
def dispatches : {β : Type} → Cmd β → β → Option (Nat × Nat)
  | _, .write (.updateTaskInstance ti), .ok _ => if ti.state = .queued then some (ti.id, ti.tryNumber) else none
  | _, _, _ => none

namespace Cluster

/-- What a process sees. -/
def world (c : Cluster) (p : Nat) : World := { (c.memory p).world with db := c.db }

def stop (c : Cluster) (p : Nat) : Cluster := { c with memory := Function.update c.memory p { c.memory p with stopped := true } }

/-- The time of a lease statement is read on the machine of its process. -/
def clock : Answer → Time
  | .time now => now
  | _ => 0

/-- A statement on the lease row that is executed; a fault changes nothing. -/
def leaseOp (c : Cluster) (a : Answer) (x : Except LeaseErr Unit × Cluster) : Except LeaseErr Unit × Cluster :=
  if a = .fault then (.error .failed, c) else x

/-- The row claimed, and the process scheduling from now on. -/
def activated (c : Cluster) (p : Nat) (lease : Option Lease) : Cluster :=
  { c with lease := lease, memory := Function.update c.memory p { c.memory p with serving := true }
           log := .acquired p :: c.log }

/-- Execute one command for a process. -/
def exec (c : Cluster) (k : ServeKind) (t : Nat) (a : Answer) : {β : Type} → ServeCmd β → Option (β × Cluster)
  | _, .scheduler cmd =>
    let a := if (c.memory k.process).stopped && usesStore cmd then .fault else a
    ((c.world k.process).exec .loop t a cmd).map (fun result => (result.1,
      { c with db := result.2.db
               memory := Function.update c.memory k.process { c.memory k.process with world := result.2 }
               log := ((dispatches cmd result.1).map (fun d => .dispatched k.process d.1 d.2)).toList ++ c.log }))
  | _, .acquireLease =>
    let claim := Scheduler.acquireLease c.lease k.process (clock a) leaseTTL
    some (c.leaseOp a (claim.1, if claim.1.isOk then c.activated k.process claim.2 else c))
  | _, .renewLease =>
    let a := if (c.memory k.process).stopped then .fault else a
    let renewal := Scheduler.renewLease c.lease k.process (clock a) leaseTTL
    some (c.leaseOp a (renewal.1, { c with lease := renewal.2 }))
  | _, .releaseLease => some (c.leaseOp a (.ok (), { c with lease := Scheduler.releaseLease c.lease k.process }))
  | _, .ctxDone => some ((c.memory k.process).stopped, c)
  | _, .cancel => some ((), c.stop k.process)

/-- No row has a lower try number than one that was dispatched. -/
def KeepsTries (db : Db) (log : List LeaseEvent) : Prop :=
  ∀ p id tryNumber, .dispatched p id tryNumber ∈ log → ∀ row, db.task? id = some row → tryNumber ≤ row.tryNumber

end Cluster

/-- Which programs may begin. Thread `2 * p` is the loop of process `p`, the next one
its heartbeat. -/
inductive ServeStarts (cfg : Cfg) : Nat → ServeKind → ServeProgram → Cluster → Prop where
  | activate (p : Nat) (c : Cluster) : (c.memory p).serving = false → (c.memory p).stopped = false →
      ServeStarts cfg (2 * p) ⟨p, .activate⟩ activate c
  | heartbeat (p : Nat) (c : Cluster) : (c.memory p).serving = true → ServeStarts cfg (2 * p + 1) ⟨p, .heartbeat⟩ heartbeat c
  | pass (p : Nat) (collect : Db → List ReadyTask) (c : Cluster) : (c.memory p).serving = true →
      ServeStarts cfg (2 * p) ⟨p, .pass collect⟩ ((pass cfg collect).run.translate .scheduler) c
  | release (p : Nat) (c : Cluster) : (c.memory p).serving = true → (c.memory p).stopped = true →
      ServeStarts cfg (2 * p) ⟨p, .release⟩ release c

/-- What happens around the lease and the dispatches: rows are created, changed and
deleted, but no dispatched try number is taken back; processes stop or crash. -/
structure Cluster.Drift (c c' : Cluster) : Prop where
  lease : c'.lease = c.lease
  log : c'.log = c.log
  tries : Cluster.KeepsTries c'.db c.log
  serving : ∀ p, (c'.memory p).serving = (c.memory p).serving
  stopped : ∀ p, (c.memory p).stopped = true → (c'.memory p).stopped = true

/-- The processes. A process that has crashed is one that has stopped. -/
def cluster (cfg : Cfg) : System ServeKind ServeCmd (Except Err Unit) Cluster where
  sem k t _ cmd c r c' := ∃ a, c.exec k t a cmd = some (r, c')
  start t k p c c' := ServeStarts cfg t k p c ∧ c' = c
  drift := Cluster.Drift
  reset _ _ := False

/-! ### Concrete runs -/

/-- One move of a concrete run: a command of a thread, or the start of a program. -/
inductive ServeMove where
  | act (t : Nat) (a : Answer)
  | activate (p : Nat)
  | pass (p : Nat) (collect : Db → List ReadyTask)

abbrev Servers := Config ServeKind ServeCmd (Except Err Unit) Cluster

/-- The state after a move; `ok` accepts the replies. -/
def Servers.turn (cfg : Cfg) (ok : {β : Type} → ServeCmd β → Cluster → β → Bool) (c : Servers) : ServeMove → Option Servers
  | .act t a => c.act (fun k t _ cmd w => (w.exec k t a cmd).filter (fun result => ok cmd w result.1)) t
  | .activate p =>
    if (c.world.memory p).serving || (c.world.memory p).stopped then none
    else c.launch (2 * p) ⟨p, .activate⟩ Scheduler.activate c.world
  | .pass p collect =>
    if (c.world.memory p).serving then
      c.launch (2 * p) ⟨p, .pass collect⟩ ((Scheduler.pass cfg collect).run.translate .scheduler) c.world
    else none

variable {cfg : Cfg} {ok : {β : Type} → ServeCmd β → Cluster → β → Bool}
  {cond : ServeKind → Nat → {β : Type} → ServeCmd β → Cluster → β → Prop}

/-- A move is a step of the processes. -/
theorem Servers.turn_step (hok : ∀ k t {β : Type} (cmd : ServeCmd β) c r, ok cmd c r = true → cond k t cmd c r) {c c' : Servers}
    {m : ServeMove} (h : c.turn cfg ok m = some c') : ∃ l, ((cluster cfg).answering cond).Step c l c' := by
  cases m with
  | act t a =>
    have hact : c.act (fun k t _ cmd w => (w.exec k t a cmd).filter (fun result => ok cmd w result.1)) t = some c' := h
    refine Config.act_step ?_ hact
    intro k β cmd r w hexec
    obtain ⟨hexec, hallowed⟩ := Option.filter_eq_some_iff.mp hexec
    exact ⟨hok k t cmd _ r hallowed, a, hexec⟩
  | activate p =>
    simp only [Servers.turn] at h
    split at h
    · cases h
    · rename_i hfree
      rw [Bool.or_eq_true, not_or, Bool.not_eq_true, Bool.not_eq_true] at hfree
      exact Config.launch_step ⟨.activate p _ hfree.1 hfree.2, rfl⟩ h
  | pass p collect =>
    simp only [Servers.turn] at h
    split at h
    · rename_i hserving
      exact Config.launch_step ⟨.pass p collect _ hserving, rfl⟩ h
    · cases h

end Cronova.Scheduler
