import Cronova.Scheduler.Footprint
import Cronova.Scheduler.System

/-! One program that runs alone, from its first command to its result. Every
command gets its own answer from outside; a store operation never fails. -/
namespace Cronova.Scheduler
open Cronova.Model Cronova.Store Cronova.Concurrency Cronova.Concurrency.Fallible

/-- The answers from outside, by the number of the command and the command. -/
abbrev Answers := Nat → {β : Type} → Cmd β → Answer

/-- Run a program alone as thread `t`, from its `n`th command on. No result means
that it is blocked. -/
def World.perform (k : Kind) (t : Nat) (answers : Answers) {α : Type} : (n : Nat) → Program Cmd α → World → Option (α × World)
  | _, .pure a, w => some (a, w)
  | n, .step c next, w =>
    match w.exec k t (answers n c) c with
    | none => none
    | some (r, w') => perform k t answers (n + 1) (next r) w'

/-- Nothing remarkable happens outside. -/
def fine : Answers := fun _ _ _ => .fine

/-- No answer is a fault of the store. -/
def Faultless (answers : Answers) : Prop := ∀ (n : Nat) {β : Type} (c : Cmd β), answers n c ≠ .fault

/-- Every question gets an answer of its kind. -/
structure Fitting (answers : Answers) : Prop where
  asked : ∀ (n : Nat) {β : Type} (q : Ask β), ∃ r, q.reply (answers n (.ask q)) = some r
  clock : ∀ n, ∃ now, Ask.now.reply (answers n .uniqueRunTime) = some now

/-- What is known of the answers to each command. -/
abbrev Known := {β : Type} → Cmd β → Answer → Prop

/-- Nothing is known of the answers. -/
def anything : Known := fun _ _ => True

theorem anything_holds (answers : Answers) (n : Nat) {β : Type} (c : Cmd β) : anything c (answers n c) := trivial

/-- A command that these answers never block. -/
def Prompt (answers : Answers) {β : Type} (c : Cmd β) : Prop :=
  ∀ (w : World) (k : Kind) (t n : Nat), ∃ r w', w.exec k t (answers n c) c = some (r, w')

/-- A thread that is alone. -/
def solo (known : Known) (k : Kind) (t : Nat) : Rules Cmd World where
  sem c s r s' := ∃ a, a ≠ .fault ∧ known c a ∧ s.exec k t a c = some (r, s')
  rely := Eq
  guar _ _ _ _ := True

theorem faultless_fine : Faultless fine := fun _ _ _ => nofun

theorem fitting_fine : Fitting fine where
  asked n β q := by cases q <;> exact ⟨_, rfl⟩
  clock _ := ⟨0, rfl⟩

section Prompt
variable {answers : Answers} {α : Type}

theorem prompt_read (q : Db → Except Err α) : Prompt answers (.read q) := fun w _ _ _ => ⟨_, w, rfl⟩

theorem prompt_write (s : Write α) : Prompt answers (.write s) := by
  intro w k t n
  simp only [World.exec]
  split
  · exact ⟨_, _, rfl⟩
  · exact ⟨_, _, rfl⟩

theorem prompt_ask (hfit : Fitting answers) (q : Ask α) : Prompt answers (.ask q) := by
  intro w k t n
  obtain ⟨r, hr⟩ := hfit.asked n q
  exact ⟨r, w, by simp only [World.exec, hr, Option.map_some]⟩

/-- A program that neither waits for the mutex nor stops at a bound is never blocked. -/
theorem Footprint.Bounds.prompt {F : Footprint} {x : M α} (hx : F.Bounds x) (hhalts : ¬ F.halts)
    (hfit : Fitting answers) : Uses (Prompt answers) x := by
  refine Uses.mono hx ?_
  intro β c hc
  cases c with
  | read q => exact prompt_read q
  | write s => exact prompt_write s
  | ask q => exact prompt_ask hfit q
  | uniqueRunTime =>
    intro w k t n
    obtain ⟨now, hnow⟩ := hfit.clock n
    simp only [World.exec, hnow]
    exact ⟨_, _, rfl⟩
  | lock => exact hc.elim
  | halt => exact absurd hc hhalts
  | registry q => exact fun w _ _ _ => ⟨_, w, rfl⟩
  | bootTime => exact fun w _ _ _ => ⟨_, w, rfl⟩
  | unlock => exact hc.elim
  | go job => exact fun _ _ _ _ => ⟨(), _, rfl⟩
  | enter op => exact fun _ _ _ _ => ⟨(), _, rfl⟩
  | leave op ok => exact fun _ _ _ _ => ⟨(), _, rfl⟩
  | recovered => exact hc.elim

theorem perform_isSome {p : Program Cmd α} (hp : p.Uses (Prompt answers)) (k : Kind) (t n : Nat) (w : World) :
    ∃ r w', w.perform k t answers n p = some (r, w') := by
  induction p generalizing n w with
  | pure a => exact ⟨a, w, rfl⟩
  | step c next ih =>
    obtain ⟨x, w₁, hexec⟩ := hp.1 w k t n
    obtain ⟨r, w', hrest⟩ := ih x (hp.2 x) (n + 1) w₁
    exact ⟨r, w', by simp only [World.perform, hexec, hrest]⟩

end Prompt

section Solo
variable {known : Known} {k : Kind} {t : Nat} {answers : Answers} {α : Type}

theorem perform_holds (hanswers : Faultless answers) (hknown : ∀ (n : Nat) {β : Type} (c : Cmd β), known c (answers n c))
    {n : Nat} {p : Program Cmd α} {w w' : World} {r : α} {post : α → World → Prop} (h : Holds (solo known k t) p post w)
    (hp : w.perform k t answers n p = some (r, w')) : post r w' := by
  induction p generalizing n w with
  | pure a =>
    cases hp
    exact h
  | step c next ih =>
    simp only [World.perform] at hp
    split at hp
    · cases hp
    · rename_i x w₁ hexec
      exact ih x (h w rfl x w₁ ⟨_, hanswers n c, hknown n c, hexec⟩).2 hp

/-- A program that runs alone runs its parts one after the other. -/
theorem perform_bind {β : Type} {n : Nat} {p : Program Cmd β} {f : β → Program Cmd α} {w w' : World} {r : α}
    (h : w.perform k t answers n (p >>= f) = some (r, w')) :
    ∃ b v m, w.perform k t answers n p = some (b, v) ∧ v.perform k t answers m (f b) = some (r, w') := by
  induction p generalizing n w with
  | pure b => exact ⟨b, w, n, rfl, h⟩
  | step c next ih =>
    simp only [Program.step_bind, World.perform] at h ⊢
    split at h
    · cases h
    · rename_i x w₁ hexec
      exact ih x h

/-- What a program that runs alone establishes. -/
theorem perform_triple (hanswers : Faultless answers)
    (hknown : ∀ (n : Nat) {β : Type} (c : Cmd β), known c (answers n c)) {x : M α} {pre : World → Prop}
    {post : Except Err α → World → Prop} (h : Triple (solo known k t) pre x post) {n : Nat} {w w' : World}
    {r : Except Err α} (hpre : pre w) (hp : w.perform k t answers n x.run = some (r, w')) : post r w' :=
  perform_holds hanswers hknown (h w hpre) hp

theorem solo_stable {A : World → Prop} : Stable (solo known k t) A := by
  rintro s s' rfl h
  exact h

theorem solo_query {pre : World → Prop} (q : Db → Except Err α) :
    Triple (solo known k t) pre (query q) (fun r s => r = q s.db ∧ pre s) := by
  refine Triple.call solo_stable ?_
  rintro s r s' hs ⟨a, ha, -, hexec⟩
  simp only [World.exec, if_neg ha, Option.some.injEq, Prod.mk.injEq] at hexec
  obtain ⟨rfl, rfl⟩ := hexec
  exact ⟨trivial, rfl, hs⟩

theorem solo_list {pre : World → Prop} (q : Db → α) :
    Triple (solo known k t) pre (list q) (Ends (fun a s => a = q s.db ∧ pre s) (fun _ => False)) := by
  refine (solo_query _).weaken ?_
  rintro r s ⟨rfl, hs⟩
  exact ⟨rfl, hs⟩

/-- A list whose failure would be handled. -/
theorem solo_outcome_list {pre : World → Prop} (q : Db → α) :
    Triple (solo known k t) pre (Fallible.outcome (list q))
      (Ends (fun r s => r = .ok (q s.db) ∧ pre s) (fun _ => False)) := by
  refine .outcome ((solo_list q).weaken ?_)
  rintro (e | a) s hs
  · exact hs.elim
  · obtain ⟨rfl, hs⟩ := hs
    exact ⟨rfl, hs⟩

theorem solo_statement {pre : World → Prop} (w : Write α) :
    Triple (solo known k t) pre (statement w) (fun r s' => ∃ s, pre s ∧ r = (s.db.apply w).1 ∧ s' = s.written k t w) := by
  refine Triple.call solo_stable ?_
  rintro s r s' hs ⟨a, ha, -, hexec⟩
  simp only [World.exec, if_neg ha, Option.some.injEq, Prod.mk.injEq] at hexec
  exact ⟨trivial, s, hs, hexec.1.symm, hexec.2.symm⟩

theorem solo_ask {pre : World → Prop} (q : Ask α) :
    Triple (solo known k t) pre (ask q)
      (Ends (fun r s => pre s ∧ ∃ a, known (.ask q) a ∧ q.reply a = some r) (fun _ => False)) := by
  refine Triple.lift solo_stable ?_
  rintro s r s' hs ⟨a, -, hknown, hexec⟩
  simp only [World.exec, Option.map_eq_some_iff, Prod.mk.injEq] at hexec
  obtain ⟨_, hreply, rfl, rfl⟩ := hexec
  exact ⟨trivial, hs, a, hknown, hreply⟩

theorem solo_asked {pre : World → Prop} (q : Ask α) :
    Triple (solo known k t) pre (ask q) (Ends (fun _ => pre) (fun _ => False)) := by
  refine (solo_ask q).weaken ?_
  intro r s hs
  cases r with
  | ok a => exact hs.1
  | error e => exact hs

theorem solo_registry {pre : World → Prop} (q : List DAG → α) :
    Triple (solo known k t) pre (command (.registry q)) (Ends (fun r s => r = q s.dags ∧ pre s) (fun _ => False)) := by
  refine Triple.lift solo_stable ?_
  rintro s r s' hs ⟨a, -, -, hexec⟩
  cases hexec
  exact ⟨trivial, rfl, hs⟩

/-- What holds of the database and the definitions is not affected by the mutex
and the marks around a program. -/
theorem solo_around {before : Cmd Unit} {after : Bool → Cmd Unit} {x : M α} {A : Db → List DAG → Prop}
    {B : Except Err α → Db → List DAG → Prop}
    (hbefore : ∀ s r s', World.Effect k t before s r s' → s'.db = s.db ∧ s'.dags = s.dags)
    (hafter : ∀ ok s r s', World.Effect k t (after ok) s r s' → s'.db = s.db ∧ s'.dags = s.dags)
    (hx : Triple (solo known k t) (fun s => A s.db s.dags) x (fun r s => B r s.db s.dags)) :
    Triple (solo known k t) (fun s => A s.db s.dags) (Fallible.around before after x) (fun r s => B r s.db s.dags) := by
  refine .around solo_stable ?_ hx (fun _ => solo_stable) ?_
  · rintro s s' hs ⟨a, -, -, hexec⟩
    obtain ⟨hdb, hdags⟩ := hbefore s () s' (World.exec_effect hexec)
    rw [hdb, hdags]
    exact ⟨trivial, hs⟩
  · rintro r s s' hs ⟨a, -, -, hexec⟩
    obtain ⟨hdb, hdags⟩ := hafter r.isOk s () s' (World.exec_effect hexec)
    rw [hdb, hdags]
    exact ⟨trivial, hs⟩

theorem solo_locked {x : M α} {A : Db → List DAG → Prop} {B : Except Err α → Db → List DAG → Prop}
    (hx : Triple (solo known k t) (fun s => A s.db s.dags) x (fun r s => B r s.db s.dags)) :
    Triple (solo known k t) (fun s => A s.db s.dags) (locked x) (fun r s => B r s.db s.dags) := by
  refine solo_around ?_ ?_ hx
  · rintro s r s' ⟨rfl, -⟩
    exact ⟨rfl, rfl⟩
  · rintro ok s r s' rfl
    exact ⟨rfl, rfl⟩

theorem solo_marked {op : Op} {x : M α} {A : Db → List DAG → Prop} {B : Except Err α → Db → List DAG → Prop}
    (hx : Triple (solo known k t) (fun s => A s.db s.dags) x (fun r s => B r s.db s.dags)) :
    Triple (solo known k t) (fun s => A s.db s.dags) (marked op x) (fun r s => B r s.db s.dags) := by
  refine solo_around ?_ ?_ hx
  · rintro s r s' rfl
    exact ⟨rfl, rfl⟩
  · rintro ok s r s' rfl
    exact ⟨rfl, rfl⟩

/-- The start of a goroutine. -/
theorem solo_go {p post : World → Prop} (job : Job)
    (h : ∀ s, p s → post { s with jobs := s.jobs ++ [job], pending := s.pending ++ [s.jobs.length] }) :
    Triple (solo known k t) p (command (.go job)) (Ends (fun _ => post) (fun _ => False)) := by
  refine Triple.lift solo_stable ?_
  rintro s _ s' hs ⟨a, -, -, hexec⟩
  cases hexec
  exact ⟨trivial, h s hs⟩

/-- A program alone keeps what none of its commands changes. -/
theorem solo_uses {allowed : {β : Type} → Cmd β → Prop} {A : World → Prop} {x : M α} (hx : Uses allowed x)
    (hcmd : ∀ {β : Type} (c : Cmd β), allowed c → ∀ s r s', A s → World.Effect k t c s r s' → A s') :
    Keeps (solo known k t) A x := by
  refine Triple.of_uses hx solo_stable ?_
  rintro β c hc s r s' hs ⟨a, -, -, hexec⟩
  exact ⟨trivial, hcmd c hc s r s' hs (World.exec_effect hexec)⟩

/-- A program alone keeps what none of its statements changes. -/
theorem solo_bounds {F : Footprint} {A : Db → Prop} {x : M α} (hx : F.Bounds x)
    (h : ∀ {β : Type} (s : Write β) (db : Db), F.writes s → A db → A (db.apply s).2) :
    Keeps (solo known k t) (fun s => A s.db) x := by
  refine solo_uses hx ?_
  intro β c hc s r s' hs heffect
  cases c with
  | write st =>
    rcases heffect with ⟨rfl, -⟩ | ⟨rfl, -⟩
    · exact hs
    · exact h st s.db hc hs
  | lock => exact hc.elim
  | unlock => exact hc.elim
  | enter op =>
    rw [show s' = _ from heffect]
    exact hs
  | leave op ok =>
    rw [show s' = _ from heffect]
    exact hs
  | _ =>
    rw [(heffect.silent_eq rfl).1]
    exact hs

/-- What every command keeps, every program that runs alone keeps. -/
theorem solo_keeps {A : World → Prop} (x : M α)
    (hcmd : ∀ {β : Type} (c : Cmd β) s r s', A s → World.Effect k t c s r s' → A s') : Keeps (solo known k t) A x :=
  solo_uses (Program.Uses.any _) (fun c _ => hcmd c)

/-- A program that runs alone does not edit the definitions. -/
theorem solo_dags (dags : List DAG) (x : M α) : Keeps (solo known k t) (fun s => s.dags = dags) x :=
  solo_keeps x (fun _ _ _ _ hs heffect => heffect.dags.trans hs)

end Solo

/-! ### Completion -/

/-- Alone, with these answers, the program ends and establishes `post`. -/
def Completes (k : Kind) (t : Nat) (answers : Answers) {α : Type} (pre : World → Prop) (x : M α)
    (post : Except Err α → World → Prop) : Prop :=
  ∀ n w, pre w → ∃ r w', w.perform k t answers n x.run = some (r, w') ∧ post r w'

theorem perform_append {k : Kind} {t n : Nat} {answers : Answers} {α β : Type} {p : Program Cmd β} {w v : World} {b : β}
    (h : w.perform k t answers n p = some (b, v)) :
    ∃ m, ∀ f : β → Program Cmd α, w.perform k t answers n (p >>= f) = v.perform k t answers m (f b) := by
  induction p generalizing n w with
  | pure a =>
    cases h
    exact ⟨n, fun f => rfl⟩
  | step c next ih =>
    simp only [World.perform] at h
    split at h
    · cases h
    · rename_i x w₁ hexec
      obtain ⟨m, hm⟩ := ih x h
      refine ⟨m, ?_⟩
      intro f
      rw [Program.step_bind, World.perform, hexec]
      exact hm f

namespace Completes
variable {k : Kind} {t : Nat} {answers : Answers} {α β : Type} {pre : World → Prop} {post : Except Err α → World → Prop}

theorem mono {pre' : World → Prop} {post' : Except Err α → World → Prop} {x : M α} (h : Completes k t answers pre x post)
    (hpre : ∀ w, pre' w → pre w) (hpost : ∀ r w, post r w → post' r w) : Completes k t answers pre' x post' := by
  intro n w hw
  obtain ⟨r, w', hp, hr⟩ := h n w (hpre w hw)
  exact ⟨r, w', hp, hpost r w' hr⟩

theorem pure {a : α} (h : ∀ w, pre w → post (.ok a) w) : Completes k t answers pre (Pure.pure a) post :=
  fun _ w hw => ⟨.ok a, w, rfl, h w hw⟩

theorem throw {e : Err} (h : ∀ w, pre w → post (.error e) w) :
    Completes k t answers pre (MonadExcept.throw e : M α) post :=
  fun _ w hw => ⟨.error e, w, rfl, h w hw⟩

theorem bind {m : Except Err β → World → Prop} {x : M β} {f : β → M α} (hx : Completes k t answers pre x m)
    (hf : ∀ b, Completes k t answers (m (.ok b)) (f b) post) (he : ∀ e w, m (.error e) w → post (.error e) w) :
    Completes k t answers pre (x >>= f) post := by
  intro n w hw
  obtain ⟨r, v, hp, hr⟩ := hx n w hw
  obtain ⟨n', hn'⟩ := perform_append (α := Except Err α) hp
  cases r with
  | ok b =>
    obtain ⟨r', w', hp', hr'⟩ := hf b n' v hr
    refine ⟨r', w', ?_, hr'⟩
    exact (hn' _).trans hp'
  | error e => exact ⟨.error e, v, hn' _, he e v hr⟩

/-- Sequencing after a part that cannot fail. -/
theorem next {m : β → World → Prop} {x : M β} {f : β → M α} (hx : Completes k t answers pre x (Ends m (fun _ => False)))
    (hf : ∀ b, Completes k t answers (m b) (f b) post) : Completes k t answers pre (x >>= f) post :=
  bind hx hf (fun _ _ hfalse => hfalse.elim)

theorem ite {c : Prop} [Decidable c] {x y : M α} (hx : c → Completes k t answers pre x post)
    (hy : ¬ c → Completes k t answers pre y post) : Completes k t answers pre (if c then x else y) post := by
  split
  · rename_i h
    exact hx h
  · rename_i h
    exact hy h

theorem outcome {x : M β} {q : Except Err (Except Err β) → World → Prop}
    (h : Completes k t answers pre x (fun r w => q (.ok r) w)) : Completes k t answers pre (Fallible.outcome x) q := by
  intro n w hw
  obtain ⟨r, w', hp, hr⟩ := h n w hw
  obtain ⟨m, hm⟩ := perform_append (α := Except Err (Except Err β)) hp
  exact ⟨.ok r, w', hm _, hr⟩

/-- What a body leaves, whatever its outcome, its attempt leaves. -/
theorem attempt {x : M β} {post : World → Prop} (h : Completes k t answers pre x (fun _ => post)) :
    Completes k t answers pre (Scheduler.attempt x) (Ends (fun _ => post) (fun _ => False)) :=
  next (m := fun _ => post) (outcome h) (fun _ => pure (fun _ hw => hw))

theorem query (hfault : Faultless answers) (q : Db → Except Err β) :
    Completes k t answers pre (query q) (fun r w => r = q w.db ∧ pre w) := by
  intro n w hw
  refine ⟨q w.db, w, ?_, rfl, hw⟩
  change w.perform k t answers n (Program.step (.read q) .pure) = _
  simp only [World.perform, World.exec, if_neg (hfault n _)]

theorem list (hfault : Faultless answers) (q : Db → β) :
    Completes k t answers pre (list q) (Ends (fun a w => a = q w.db ∧ pre w) (fun _ => False)) := by
  refine (query hfault _).mono (fun _ hw => hw) ?_
  rintro r w ⟨rfl, hw⟩
  exact ⟨rfl, hw⟩

theorem statement (hfault : Faultless answers) (st : Write β) :
    Completes k t answers pre (statement st) (fun r w' => ∃ w, pre w ∧ r = (w.db.apply st).1 ∧ w' = w.written k t st) := by
  intro n w hw
  refine ⟨(w.db.apply st).1, w.written k t st, ?_, w, hw, rfl, rfl⟩
  change w.perform k t answers n (Program.step (.write st) .pure) = _
  simp only [World.perform, World.exec, if_neg (hfault n _)]

theorem ask (hfit : Fitting answers) (q : Ask β) :
    Completes k t answers pre (ask q) (Ends (fun _ => pre) (fun _ => False)) := by
  intro n w hw
  obtain ⟨r, hr⟩ := hfit.asked n q
  refine ⟨.ok r, w, ?_, hw⟩
  change w.perform k t answers n (Program.step (.ask q) _) = _
  simp only [World.perform, World.exec, hr, Option.map_some]
  rfl

/-- The marks around a body change nothing in the database. -/
theorem marked {op : Op} {x : M α} {A : Db → Prop} {B : Except Err α → Db → Prop}
    (hx : Completes k t answers (fun w => A w.db) x (fun r w => B r w.db)) :
    Completes k t answers (fun w => A w.db) (marked op x) (fun r w => B r w.db) := by
  intro n w hw
  obtain ⟨r, v, hp, hr⟩ := hx (n + 1) { w with active := (t, op) :: w.active, revived := w.forget t } hw
  obtain ⟨m, hm⟩ := perform_append (α := Except Err α) hp
  refine ⟨r, { v with active := v.active.erase (t, op), revived := v.forget t }, ?_, hr⟩
  exact hm _

/-- A loop over a list whose invariant speaks about what is done and what is left. -/
theorem forM_rest {f : β → M PUnit} {I : List β → World → Prop}
    (h : ∀ b rest, Completes k t answers (I (b :: rest)) (f b) (Ends (fun _ => I rest) (fun _ => False))) (l : List β) :
    Completes k t answers (I l) (l.forM f) (Ends (fun _ => I []) (fun _ => False)) := by
  induction l with
  | nil => exact pure (fun _ hw => hw)
  | cons b l ih => exact next (h b l) (fun _ => ih)

end Completes

/-! ### Turns -/

/-- What is done at once when ticks and operator calls do not overlap. -/
inductive Turn where
  | tick
  | call (c : Call)
  | attempt (n : Nat)
  deriving DecidableEq, Repr

/-- A whole tick, a whole operator call, or one command of an attempt. No store
operation fails. -/
inductive Takes (cfg : Cfg) : World → Turn → World → Prop where
  | tick {w w' : World} {answers : Answers} {r : Except Err Unit} : Faultless answers →
      w.perform .loop 0 answers 0 (tickOnce cfg).run = some (r, w') → Takes cfg w .tick w'
  | call {w w' : World} {c : Call} {answers : Answers} {r : Except Err Unit} : Faultless answers →
      w.perform (.call c) 1 answers 0 (c.body cfg).run = some (r, w') → Takes cfg w (.call c) w'
  | attempt {w w' : World} {n : Nat} {job : Job} {a : Answer} {β : Type} {c : Cmd β} {r : β} : w.jobs[n]? = some job →
      a ≠ .fault → (attemptPrint job.ti).allows c → w.exec (.attempt n job) 1 a c = some (r, w') →
      Takes cfg w (.attempt n) w'

/-- A concrete sequence of ticks and calls, where a call is `some`. -/
def World.after (cfg : Cfg) (answers : Answers) (w : World) : List (Option Call) → Option World
  | [] => some w
  | none :: rest => (w.perform .loop 0 answers 0 (tickOnce cfg).run).bind (fun p => World.after cfg answers p.2 rest)
  | some c :: rest => (w.perform (.call c) 1 answers 0 (c.body cfg).run).bind (fun p => World.after cfg answers p.2 rest)

variable {cfg : Cfg} {w w' : World} {turn : Turn}

theorem World.after_takes {answers : Answers} (hanswers : Faultless answers) {turns : List (Option Call)}
    (h : w.after cfg answers turns = some w') : Relation.ReflTransGen
      (fun a b => ∃ turn, Takes cfg a turn b ∧ ∀ c, turn = .call c → some c ∈ turns) w w' := by
  have hstep : ∀ done rest w, done ++ rest = turns → w.after cfg answers rest = some w' → Relation.ReflTransGen
      (fun a b => ∃ turn, Takes cfg a turn b ∧ ∀ c, turn = .call c → some c ∈ turns) w w' := by
    intro done rest
    induction rest generalizing done with
    | nil =>
      intro w _ hw
      cases hw
      exact .refl
    | cons c rest ih =>
      intro w heq hw
      rw [← List.singleton_append, ← List.append_assoc] at heq
      cases c with
      | none =>
        obtain ⟨⟨r, mid⟩, hp, hrest⟩ := Option.bind_eq_some_iff.mp hw
        exact .head ⟨.tick, .tick hanswers hp, nofun⟩ (ih _ mid heq hrest)
      | some c =>
        obtain ⟨⟨r, mid⟩, hp, hrest⟩ := Option.bind_eq_some_iff.mp hw
        refine .head ⟨.call c, .call hanswers hp, ?_⟩ (ih _ mid heq hrest)
        rintro _ ⟨⟩
        rw [← heq]
        simp
  exact hstep [] turns w rfl h

/-- What a tick, a call and the statements of an attempt keep, every turn keeps. -/
theorem Takes.keeps {A : World → Prop} (h : Takes cfg w turn w') (hw : A w)
    (htick : turn = .tick → Keeps (solo anything .loop 0) A (tickOnce cfg))
    (hcall : ∀ c, turn = .call c → Triple (solo anything (.call c) 1) (· = w) (c.body cfg) (fun _ => A))
    (hattempt : ∀ n job {β : Type} (c : Cmd β) r, turn = .attempt n → (attemptPrint job.ti).allows c →
      World.Effect (.attempt n job) 1 c w r w' → A w') : A w' := by
  cases h with
  | tick hfault hp => exact perform_triple hfault (anything_holds _) (htick rfl) hw hp
  | call hfault hp => exact perform_triple hfault (anything_holds _) (hcall _ rfl) rfl hp
  | attempt hjob _ hc hexec => exact hattempt _ _ _ _ rfl hc (World.exec_effect hexec)

end Cronova.Scheduler
