import Cronova.Concurrency.ThreadPool
import Cronova.Scheduler.Tick
import Cronova.Store.Rows

/-! The running system: the scheduling loop, the operator calls and the attempt
goroutines interleave at the granularity of single commands over the database
and the memory of the process. -/
namespace Cronova.Scheduler
open Cronova.Model Cronova.Store Cronova.Concurrency Cronova.Text

/-- The database and the memory of the process. The fields from `recovering` on
are a record kept for the proofs: no program reads them. -/
structure World where
  db : Db := {}
  /-- The registered definitions. -/
  dags : List DAG := []
  bootTime : Time := 0
  lastRunTime : Time := zeroTime
  /-- The thread that holds `finalizeMu`. -/
  holder : Option Nat := none
  /-- Goroutines that were started and have not begun, by their number in `jobs`. -/
  pending : List Nat := []
  booted : Bool := false
  recovering : Bool := true
  /-- The attempts started since boot. -/
  jobs : List Job := []
  /-- The attempts whose task was given back to the queue. -/
  returned : List Nat := []
  /-- The operations in progress and the threads they run on. -/
  active : List (Nat × Op) := []
  /-- The cancelled runs that a thread has given another state since its last mark. -/
  revived : List (Nat × String) := []

/-- What a thread is there for. -/
inductive Kind where
  | loop
  | call (c : Call)
  | attempt (n : Nat) (job : Job)
  deriving DecidableEq, Repr

/-- The attempts given back after a statement of a thread. -/
def givenBack (returned : List Nat) : {β : Type} → Kind → Write β → Except Err β → List Nat
  | _, .attempt n _, .updateTaskInstanceGuarded ti _, .ok true => if ti.state = .scheduled then n :: returned else returned
  | _, _, _, _ => returned

/-- The cancelled runs that have another state after a statement of thread `t`. -/
def revivedBy (t : Nat) (before after : Db) : List (Nat × String) :=
  (before.runs.filter (fun r => r.state = .cancelled ∧ after.runState r.runID ≠ some .cancelled)).map
    (fun r => (t, r.runID))

namespace World

/-- A process that has not been started, over some database. -/
def Fresh (w : World) : Prop := ∃ db dags, w = { db := db, dags := dags }

/-- The state after a statement that did not fail for outside reasons. -/
def written (w : World) (k : Kind) (t : Nat) {β : Type} (s : Write β) : World :=
  { w with db := (w.db.apply s).2
           returned := givenBack w.returned k s (w.db.apply s).1
           revived := revivedBy t w.db (w.db.apply s).2 ++ w.revived }

/-- The record of a thread starts afresh at every mark. -/
def forget (w : World) (t : Nat) : List (Nat × String) := w.revived.filter (fun e => e.1 ≠ t)

/-- Execute one command for thread `t`. No result means that it is blocked. -/
def exec (w : World) (k : Kind) (t : Nat) (a : Answer) : {β : Type} → Cmd β → Option (β × World)
  | _, .read q => some (if a = .fault then .error .failed else q w.db, w)
  | _, .write s => if a = .fault then some (.error .failed, w) else some ((w.db.apply s).1, w.written k t s)
  | _, .registry q => some (q w.dags, w)
  | _, .bootTime => some (w.bootTime, w)
  | _, .uniqueRunTime =>
    match Ask.now.reply a with
    | none => none
    | some now =>
      let now := if w.lastRunTime < now then now else w.lastRunTime + 1
      some (now, { w with lastRunTime := now })
  | _, .ask q => (q.reply a).map (fun r => (r, w))
  | _, .lock => if w.holder = none then some ((), { w with holder := some t }) else none
  | _, .unlock => some ((), { w with holder := none })
  | _, .go job => some ((), { w with jobs := w.jobs ++ [job], pending := w.pending ++ [w.jobs.length] })
  | _, .enter op => some ((), { w with active := (t, op) :: w.active, revived := w.forget t })
  | _, .leave op _ => some ((), { w with active := w.active.erase (t, op), revived := w.forget t })
  | _, .recovered => some ((), { w with recovering := false })
  | _, .halt => none

/-- What executing one command can do, whatever the answers are. -/
def Effect (k : Kind) (t : Nat) : {β : Type} → Cmd β → World → β → World → Prop
  | _, .read q, w, r, w' => w' = w ∧ (r = q w.db ∨ r = .error .failed)
  | _, .write s, w, r, w' => (w' = w ∧ r = .error .failed) ∨ (w' = w.written k t s ∧ r = (w.db.apply s).1)
  | _, .registry q, w, r, w' => w' = w ∧ r = q w.dags
  | _, .bootTime, w, r, w' => w' = w ∧ r = w.bootTime
  | _, .uniqueRunTime, w, r, w' => w' = { w with lastRunTime := r } ∧ w.lastRunTime < r
  | _, .ask _, w, _, w' => w' = w
  | _, .lock, w, _, w' => w' = { w with holder := some t } ∧ w.holder = none
  | _, .unlock, w, _, w' => w' = { w with holder := none }
  | _, .go job, w, _, w' => w' = { w with jobs := w.jobs ++ [job], pending := w.pending ++ [w.jobs.length] }
  | _, .enter op, w, _, w' => w' = { w with active := (t, op) :: w.active, revived := w.forget t }
  | _, .leave op _, w, _, w' => w' = { w with active := w.active.erase (t, op), revived := w.forget t }
  | _, .recovered, w, _, w' => w' = { w with recovering := false }
  | _, .halt, _, _, _ => False

/-- Reads, questions and the start of a goroutine. -/
def silent : {β : Type} → Cmd β → Bool
  | _, .write _ | _, .lock | _, .unlock | _, .enter _ | _, .leave _ _ => false
  | _, _ => true

/-- A silent command leaves the database, the mutex and the marks alone. -/
theorem Effect.silent_eq {w w' : World} {k : Kind} {t : Nat} {β : Type} {c : Cmd β} {r : β} (h : Effect k t c w r w')
    (hc : silent c = true) :
    w'.db = w.db ∧ w'.holder = w.holder ∧ w'.active = w.active ∧ w'.revived = w.revived := by
  cases c with
  | write | lock | unlock | enter | leave => cases hc
  | read q => exact h.1 ▸ ⟨rfl, rfl, rfl, rfl⟩
  | registry q => exact h.1 ▸ ⟨rfl, rfl, rfl, rfl⟩
  | bootTime => exact h.1 ▸ ⟨rfl, rfl, rfl, rfl⟩
  | uniqueRunTime => exact h.1 ▸ ⟨rfl, rfl, rfl, rfl⟩
  | ask q => exact h ▸ ⟨rfl, rfl, rfl, rfl⟩
  | go job => exact h ▸ ⟨rfl, rfl, rfl, rfl⟩
  | recovered => exact h ▸ ⟨rfl, rfl, rfl, rfl⟩
  | halt => exact h.elim

/-- Reads, and questions to the surroundings. -/
def looks : {β : Type} → Cmd β → Bool
  | _, .read _ | _, .registry _ | _, .bootTime | _, .ask _ => true
  | _, _ => false

theorem Effect.looks_eq {w w' : World} {k : Kind} {t : Nat} {β : Type} {c : Cmd β} {r : β} (h : Effect k t c w r w')
    (hc : looks c = true) : w' = w := by
  cases c with
  | read q => exact h.1
  | registry q => exact h.1
  | bootTime => exact h.1
  | ask q => exact h
  | _ => cases hc

def isWrite : {β : Type} → Cmd β → Bool
  | _, .write _ => true
  | _, _ => false

/-- Only statements change the database. -/
theorem Effect.db {w w' : World} {k : Kind} {t : Nat} {β : Type} {c : Cmd β} {r : β} (h : Effect k t c w r w')
    (hc : isWrite c = false) : w'.db = w.db := by
  cases c with
  | write s => cases hc
  | read q => exact h.1 ▸ rfl
  | registry q => exact h.1 ▸ rfl
  | bootTime => exact h.1 ▸ rfl
  | uniqueRunTime => exact h.1 ▸ rfl
  | lock => exact h.1 ▸ rfl
  | ask q => exact h ▸ rfl
  | go job => exact h ▸ rfl
  | recovered => exact h ▸ rfl
  | unlock => exact h ▸ rfl
  | enter op => exact h ▸ rfl
  | leave op ok => exact h ▸ rfl
  | halt => exact h.elim

/-- No command of a program edits the registered definitions. -/
theorem Effect.dags {w w' : World} {k : Kind} {t : Nat} {β : Type} {c : Cmd β} {r : β} (h : Effect k t c w r w') :
    w'.dags = w.dags := by
  cases c with
  | write s => rcases h with ⟨rfl, -⟩ | ⟨rfl, -⟩ <;> rfl
  | read q => exact h.1 ▸ rfl
  | registry q => exact h.1 ▸ rfl
  | bootTime => exact h.1 ▸ rfl
  | uniqueRunTime => exact h.1 ▸ rfl
  | lock => exact h.1 ▸ rfl
  | ask q => exact h ▸ rfl
  | go job => exact h ▸ rfl
  | recovered => exact h ▸ rfl
  | unlock => exact h ▸ rfl
  | enter op => exact h ▸ rfl
  | leave op ok => exact h ▸ rfl
  | halt => exact h.elim

theorem exec_effect {w w' : World} {k : Kind} {t : Nat} {a : Answer} {β : Type} {c : Cmd β} {r : β}
    (h : w.exec k t a c = some (r, w')) : Effect k t c w r w' := by
  cases c with
  | read q =>
    cases h
    refine ⟨rfl, ?_⟩
    split
    · exact .inr rfl
    · exact .inl rfl
  | write s =>
    simp only [exec] at h
    split at h
    · cases h
      exact .inl ⟨rfl, rfl⟩
    · cases h
      exact .inr ⟨rfl, rfl⟩
  | uniqueRunTime =>
    simp only [exec] at h
    split at h
    · cases h
    · cases h
      refine ⟨rfl, ?_⟩
      split
      · assumption
      · exact Int.lt_succ _
  | ask q =>
    simp only [exec, Option.map_eq_some_iff] at h
    obtain ⟨_, _, heq⟩ := h
    cases heq
    rfl
  | lock =>
    simp only [exec] at h
    split at h
    · rename_i hnone
      cases h
      exact ⟨rfl, hnone⟩
    · cases h
  | registry q =>
    cases h
    exact ⟨rfl, rfl⟩
  | bootTime =>
    cases h
    exact ⟨rfl, rfl⟩
  | unlock =>
    cases h
    rfl
  | go job =>
    cases h
    rfl
  | enter op =>
    cases h
    rfl
  | leave op ok =>
    cases h
    rfl
  | recovered =>
    cases h
    rfl
  | halt => cases h

/-- The catalogue of definitions, edges and pools may be edited at any moment. -/
def Edited (w w' : World) : Prop :=
  ∃ dags rows edges pools,
    w' = { w with dags := dags, db := { w.db with dags := rows, dependencies := edges, pools := pools } }

/-- A crash keeps the database; definitions are loaded again. -/
def Crashed (w w' : World) : Prop := ∃ dags, w' = { db := w.db, dags := dags }

end World

variable (cfg : Cfg)

/-- Which programs may begin: the loop once per boot on thread 0, an operator call
or a pending goroutine on any other thread. -/
inductive Starts : Nat → Kind → Program Cmd (Except Err Unit) → World → World → Prop where
  | loop (w : World) (now : Time) : w.booted = false →
      Starts 0 .loop (run cfg).run w { w with booted := true, bootTime := now }
  | call (t : Nat) (c : Call) (w : World) : t ≠ 0 → Starts t (.call c) (c.body cfg).run w w
  | goroutine (t n : Nat) (job : Job) (w : World) : t ≠ 0 → n ∈ w.pending → w.jobs[n]? = some job →
      Starts t (.attempt n job) (job.body cfg).run w { w with pending := w.pending.erase n }

/-- The scheduler as a pool of threads. `faults` says whether store operations may fail. -/
def system (faults : Prop) : System Kind Cmd (Except Err Unit) World where
  sem k t _ c w r w' := ∃ a, (a = .fault → faults) ∧ w.exec k t a c = some (r, w')
  start := Starts cfg
  drift := World.Edited
  reset := World.Crashed

/-! ### Concrete runs -/

/-- A configuration for concrete runs. -/
def Cfg.ofDocuments (docs : List (String × Parser.DagYAML)) : Cfg :=
  { parser := .ofDocuments docs, definitionHash := id, decodeStringMap := fun _ => none }

/-- One move of a concrete run. -/
inductive Move where
  | act (t : Nat) (a : Answer)
  | boot (now : Time)
  | call (t : Nat) (c : Call)
  | go (t n : Nat)

abbrev Pool := Config Kind Cmd (Except Err Unit) World

/-- Start a program on a free thread. -/
def Pool.launch (p : Pool) (t : Nat) (k : Kind) (prog : Program Cmd (Except Err Unit)) (w : World) : Option Pool :=
  match p.threads t with
  | some (_, .step _ _) => none
  | _ => some ⟨w, Function.update p.threads t (some (k, prog))⟩

def Pool.move (p : Pool) : Move → Option Pool
  | .act t a =>
    match p.threads t with
    | some (k, .step c next) =>
      match p.world.exec k t a c with
      | some (r, w) => some ⟨w, Function.update p.threads t (some (k, next r))⟩
      | none => none
    | _ => none
  | .boot now =>
    if p.world.booted then none
    else p.launch 0 .loop (run cfg).run { p.world with booted := true, bootTime := now }
  | .call t c => if t = 0 then none else p.launch t (.call c) (c.body cfg).run p.world
  | .go t n =>
    match p.world.jobs[n]? with
    | none => none
    | some job =>
      if t = 0 ∨ n ∉ p.world.pending then none
      else p.launch t (.attempt n job) (job.body cfg).run { p.world with pending := p.world.pending.erase n }

/-- The run, as long as every move is one that `ok` accepts. -/
def Pool.playIf (ok : Pool → Move → Bool) (p : Pool) : List Move → Option Pool
  | [] => some p
  | m :: ms => if ok p m then (p.move cfg m).bind (fun q => Pool.playIf ok q ms) else none

def Pool.play (p : Pool) (ms : List Move) : Option Pool := p.playIf cfg (fun _ _ => true) ms

/-- The operation a move begins. -/
def Pool.begins (p : Pool) : Move → Option Op
  | .act t _ =>
    match p.threads t with
    | some (_, .step (.enter op) _) => some op
    | _ => none
  | _ => none

/-- The operation a move ends successfully. -/
def Pool.ends (p : Pool) : Move → Option Op
  | .act t _ =>
    match p.threads t with
    | some (_, .step (.leave op true) _) => some op
    | _ => none
  | _ => none

/-- What a finished thread has returned. -/
def Pool.result (p : Pool) (t : Nat) : Option (Kind × Except Err Unit) :=
  match p.threads t with
  | some (k, .pure r) => some (k, r)
  | _ => none

/-- The process before it is started. -/
def Pool.off (w : World) : Pool := ⟨w, fun _ => none⟩

variable {cfg} {faults : Prop}

private theorem launch_step {p q : Pool} {t : Nat} {k : Kind} {prog : Program Cmd (Except Err Unit)} {w : World}
    (hstart : Starts cfg t k prog p.world w) (h : p.launch t k prog w = some q) :
    (system cfg faults).Step p (.start t k) q := by
  unfold Pool.launch at h
  split at h
  · cases h
  · rename_i hfree
    cases h
    refine .start ?_ hstart
    cases hth : p.threads t with
    | none => trivial
    | some entry =>
      obtain ⟨k', prog'⟩ := entry
      cases prog' with
      | pure a => trivial
      | step c next => exact absurd hth (hfree k' _ c next)

/-- A move is a step, if it is no store fault that is ruled out. -/
theorem move_step_of {p q : Pool} {m : Move} (hfaults : ∀ t, m = .act t .fault → faults) (h : p.move cfg m = some q) :
    ∃ l, (system cfg faults).Step p l q ∧ l ≠ .reset ∧ ∀ t k {β : Type} (c : Cmd β) r, l = .act t k c r →
      ∃ a next, m = .act t a ∧ p.threads t = some (k, .step c next) := by
  cases m with
  | act t a =>
    simp only [Pool.move] at h
    split at h
    · rename_i k β c next hth
      split at h
      · rename_i r w hexec
        cases h
        refine ⟨.act t k c r, .act hth ⟨a, fun ha => hfaults t (by rw [ha]), hexec⟩, (fun hl => by cases hl), ?_⟩
        rintro _ _ _ _ _ ⟨⟩
        exact ⟨a, next, rfl, hth⟩
      · cases h
    · cases h
  | boot now =>
    simp only [Pool.move] at h
    split at h
    · cases h
    · rename_i hboot
      exact ⟨.start 0 .loop, launch_step (.loop p.world now (by simpa using hboot)) h, (fun hl => by cases hl),
        fun _ _ _ _ _ hl => by cases hl⟩
  | call t c =>
    simp only [Pool.move] at h
    split at h
    · cases h
    · rename_i ht
      exact ⟨.start t (.call c), launch_step (.call t c p.world ht) h, (fun hl => by cases hl),
        fun _ _ _ _ _ hl => by cases hl⟩
  | go t n =>
    simp only [Pool.move] at h
    split at h
    · cases h
    · rename_i job hjob
      split at h
      · cases h
      · rename_i hcond
        rw [not_or, not_not] at hcond
        exact ⟨.start t (.attempt n job), launch_step (.goroutine t n job p.world hcond.1 hcond.2 hjob) h,
          (fun hl => by cases hl), fun _ _ _ _ _ hl => by cases hl⟩

theorem move_step (hfaults : faults) {p q : Pool} {m : Move} (h : p.move cfg m = some q) :
    ∃ l, (system cfg faults).Step p l q ∧ l ≠ .reset ∧ ∀ t k {β : Type} (c : Cmd β) r, l = .act t k c r →
      ∃ a next, m = .act t a ∧ p.threads t = some (k, .step c next) :=
  move_step_of (fun _ _ => hfaults) h

/-- What a concrete run reaches, the system reaches. -/
theorem playIf_runs {sys : System Kind Cmd (Except Err Unit) World} {P : Pool → Label Kind Cmd → Pool → Prop}
    {ok : Pool → Move → Bool}
    (hmove : ∀ p m q, ok p m = true → p.move cfg m = some q → ∃ l, sys.Step p l q ∧ P p l q) {p q : Pool}
    {ms : List Move} (h : p.playIf cfg ok ms = some q) : sys.RunsWhile P p q := by
  induction ms generalizing p with
  | nil =>
    cases h
    exact .refl
  | cons m ms ih =>
    simp only [Pool.playIf] at h
    split at h
    · rename_i hok
      obtain ⟨mid, hmid, hrest⟩ := Option.bind_eq_some_iff.mp h
      exact Relation.ReflTransGen.head (hmove p m mid hok hmid) (ih hrest)
    · cases h

theorem play_runs (hfaults : faults) {p q : Pool} {ms : List Move} (h : p.play cfg ms = some q) :
    (system cfg faults).Runs p q := by
  refine playIf_runs ?_ h
  intro p m q _ hm
  obtain ⟨l, hl, -⟩ := move_step hfaults hm
  exact ⟨l, hl, trivial⟩

end Cronova.Scheduler
