import Cronova.Properties.Lifecycle

/-! Two contracts of the run lifecycle, and the runs of the scheduler that break
them. -/
namespace Cronova.Properties.Cancellation
open Cronova.Model hiding Pool
open Cronova.Store Cronova.Concurrency Cronova.Scheduler Cronova.Properties.RunStates

/-- The scheduler, with store faults, in which every command of run `r` is fair. -/
def fairSystem (cfg : Cfg) (aim : Aim) (calm : World → Prop) (watched : String → Prop) :
    System Kind Cmd (Except Err Unit) World :=
  (system cfg True).restrict (fun _ _ _ c w => ∀ r, watched r → Fair cfg aim r w c) calm

section Fair
variable {cfg : Cfg} {aim : Aim} {calm : World → Prop} {watched : String → Prop} {r : String} {hr : watched r}

/-- Both disciplines hold in every reachable state. -/
private structure Kept (cfg : Cfg) (aim : Aim) (calm : World → Prop) (watched : String → Prop) (r : String)
    (hr : watched r) (c : Pool) : Prop where
  mutex : ((mutexDiscipline cfg True).restrict (fun _ _ _ c w => ∀ r, watched r → Fair cfg aim r w c) calm).Sound c
  lifecycle : (RunStates.lifecycle cfg True aim r (fun _ _ _ c w => ∀ r, watched r → Fair cfg aim r w c) calm
    (fun h => h r hr)).Sound c

private theorem Kept.step {c c' : Pool} {l : Label Kind Cmd} (h : Kept cfg aim calm watched r hr c)
    (hstep : (fairSystem cfg aim calm watched).Step c l c') : Kept cfg aim calm watched r hr c' :=
  ⟨Discipline.step_sound _ h.mutex hstep, Discipline.step_sound _ h.lifecycle (Discipline.step_guarded _ h.mutex hstep)⟩

omit hr in
private theorem kept_of_reachable {c : Pool} (h : (fairSystem cfg aim calm watched).Reachable World.Fresh c)
    (hr : watched r) :
    Kept cfg aim calm watched r hr c := by
  obtain ⟨w, ⟨db, dags, rfl⟩, hruns⟩ := h
  refine hruns.keeps (fun _ _ _ hstep _ hx => hx.step hstep) ⟨⟨trivial, fun _ => trivial⟩, trivial, ?_⟩
  exact fun t _ hmem => by simp at hmem

/-- What a command does in a reachable state. -/
private theorem Kept.act {c c' : Pool} {t : Nat} {k : Kind} {β : Type} {cmd : Cmd β} {x : β}
    (h : Kept cfg aim calm watched r hr c) (hstep : (fairSystem cfg aim calm watched).Step c (.act t k cmd x) c') :
    World.Effect k t cmd c.world x c'.world ∧ Own aim r t c.world cmd := by
  cases hstep with
  | act hthread hsem =>
    have hguar := Discipline.act_guar _ h.mutex hthread hsem
    have hown := Discipline.act_guar _ h.lifecycle hthread ⟨h.mutex.1, hsem, hguar.1⟩
    obtain ⟨-, a, -, hexec⟩ := hsem
    exact ⟨World.exec_effect hexec, hown.1.2⟩

end Fair

/-! ### Lifecycle -/

/-- A statement moves a run along the lifecycle. -/
private theorem write_legal {s : World} {t : Nat} {β : Type} {w : Write β} {id : String}
    (hown : Own .legality id t s (.write w)) {a b : RunState} (ha : s.db.runState id = some a)
    (hb : (s.db.apply w).2.runState id = some b) (hne : a ≠ b) : a ∈ legalPriorRunStates b := by
  cases hrec : w.recordsState id with
  | none =>
    rw [Db.apply_runState hrec ha] at hb
    exact absurd (Option.some.inj hb) hne
  | some target =>
    have htarget : b = target := by
      rcases Db.recorded_state hrec hb with h | h
      · exact h
      · rw [ha] at h
        exact absurd (Option.some.inj h) hne
    subst htarget
    cases w with
    | updateDagRunState id' target' started finished =>
      simp only [Write.recordsState, Option.ite_none_right_eq_some, Option.some.injEq] at hrec
      obtain ⟨rfl, rfl⟩ := hrec
      rcases s.db.updateDagRunState_cases id' target' started finished with ⟨_, heq⟩ | ⟨run, hrun, hlegal, heq⟩
      · rw [heq, ha] at hb
        exact absurd (Option.some.inj hb) hne
      · obtain rfl : run.state = a := by simpa [Db.runState, hrun] using ha
        exact hlegal
    | updateDagRunSuccess id' started finished =>
      simp only [Write.recordsState, Option.ite_none_right_eq_some, Option.some.injEq] at hrec
      obtain ⟨rfl, rfl⟩ := hrec
      have hfree := hown rfl rfl a ha
      revert hfree
      cases a <;> simp [Aim.protects, legalPriorRunStates]
    | _ => cases hrec

/-- A statement that may not move the run is refused. -/
private theorem write_refused {s : World} {t : Nat} {β : Type} {w : Write β} {id : String}
    (hown : Own .legality id t s (.write w)) {a target : RunState} (ha : s.db.runState id = some a)
    (hrec : w.recordsState id = some target) (hillegal : a ∉ legalPriorRunStates target) :
    ∃ e, s.db.apply w = (.error e, s.db) := by
  cases w with
  | updateDagRunState id' target' started finished =>
    simp only [Write.recordsState, Option.ite_none_right_eq_some, Option.some.injEq] at hrec
    obtain ⟨rfl, rfl⟩ := hrec
    rcases s.db.updateDagRunState_cases id' target' started finished with h | ⟨run, hrun, hlegal, _⟩
    · exact h
    · obtain rfl : run.state = a := by simpa [Db.runState, hrun] using ha
      exact absurd hlegal hillegal
  | updateDagRunSuccess id' started finished =>
    simp only [Write.recordsState, Option.ite_none_right_eq_some, Option.some.injEq] at hrec
    obtain ⟨rfl, rfl⟩ := hrec
    have hfree := hown rfl rfl a ha
    revert hfree hillegal
    cases a <;> simp [Aim.protects, legalPriorRunStates]
  | _ => cases hrec

/-- What the lifecycle demands of one step of the scheduler. -/
structure Lawful (c : Pool) (l : Label Kind Cmd) (c' : Pool) : Prop where
  moves : ∀ id a b, c.world.db.runState id = some a → c'.world.db.runState id = some b → a ≠ b →
    a ∈ legalPriorRunStates b
  refused : ∀ t k {β : Type} (w : Write β) x, l = .act t k (.write w) x → ∀ id a target,
    w.recordsState id = some target → c.world.db.runState id = some a → a ∉ legalPriorRunStates target →
    (∃ e, x = .error e) ∧ c'.world.db = c.world.db

/-- In every run in which no success is marked on a cancelled or timed-out run,
and no step of such a run starts from a snapshot that could still succeed, every
step obeys the lifecycle. -/
theorem run_states_obey_lifecycle (cfg : Cfg) {c c' : Pool} {l : Label Kind Cmd}
    (hc : (fairSystem cfg .legality (fun _ => True) (fun _ => True)).Reachable World.Fresh c)
    (hstep : (fairSystem cfg .legality (fun _ => True) (fun _ => True)).Step c l c') : Lawful c l c' := by
  constructor
  · intro id a b ha hb hne
    have hkept := kept_of_reachable (r := id) hc trivial
    have hsame : c'.world.db.runs = c.world.db.runs → a ∈ legalPriorRunStates b := by
      intro hruns
      have : c'.world.db.runState id = c.world.db.runState id := by
        unfold Db.runState Db.run?
        rw [hruns]
      rw [this, ha] at hb
      exact absurd (Option.some.inj hb) hne
    cases l with
    | @act t k β cmd x =>
      obtain ⟨heffect, hown⟩ := hkept.act hstep
      cases cmd with
      | write w =>
        obtain ⟨heq, -⟩ | ⟨heq, -⟩ := heffect
        · exact hsame (by rw [heq])
        · rw [heq] at hb
          exact write_legal hown ha hb hne
      | lock => exact hsame (by rw [heffect.1])
      | unlock => exact hsame (by rw [show c'.world = _ from heffect])
      | enter op => exact hsame (by rw [show c'.world = _ from heffect])
      | leave op ok => exact hsame (by rw [show c'.world = _ from heffect])
      | _ => exact hsame (by rw [(heffect.silent_eq rfl).1])
    | start t k =>
      cases hstep with
      | start hidle hstart => cases hstart <;> exact hsame rfl
    | drift =>
      cases hstep with
      | drift hdrift =>
        obtain ⟨dags, rows, edges, pools, rfl⟩ := hdrift
        exact hsame rfl
    | reset =>
      cases hstep with
      | reset hreset =>
        obtain ⟨-, dags, rfl⟩ := hreset
        exact hsame rfl
  · rintro t k β w x rfl id a target hrec ha hillegal
    have hkept := kept_of_reachable (r := id) hc trivial
    obtain ⟨heffect, hown⟩ := hkept.act hstep
    obtain ⟨e, he⟩ := write_refused hown ha hrec hillegal
    obtain ⟨heq, hx⟩ | ⟨heq, hx⟩ := heffect
    · exact ⟨⟨_, hx⟩, by rw [heq]⟩
    · rw [he] at hx
      refine ⟨⟨e, hx⟩, ?_⟩
      rw [heq]
      simp only [World.written, he]

/-! ### Finality -/

/-- Thread `t` has taken the cancelled run `r` to another state, and its next mark
can only be the successful end of a retry or a mark of `r`. -/
structure Overriding (sys : System Kind Cmd (Except Err Unit) World) (r : String) (c : Pool) (t : Nat) : Prop where
  revived : (t, r) ∈ c.world.revived
  busy : ¬ Idle (c.threads t)
  starts : ∀ k op c', ¬ sys.Step c (.act t k (.enter op) ()) c'
  ends : ∀ k op ok c', sys.Step c (.act t k (.leave op ok) ()) c' → ok = true ∧ Overrides r op

/-- The run is cancelled, or a thread has taken it out of that state since its last mark. -/
private def Final (r : String) (c : Pool) : Prop :=
  c.world.db.runState r = some .cancelled ∨ ∃ t, (t, r) ∈ c.world.revived

section Finality
variable {cfg : Cfg} {r : String}

/-- The scheduler in which the steps of `r` are fair and a crash does not strike
between the write and the end of an operation that overrides `r`. -/
def finalSystem (cfg : Cfg) (r : String) : System Kind Cmd (Except Err Unit) World :=
  fairSystem cfg .finality (fun w => ∀ t, (t, r) ∉ w.revived) (· = r)

private abbrev KeptFinal (cfg : Cfg) (r : String) (c : Pool) : Prop :=
  Kept cfg .finality (fun w => ∀ t, (t, r) ∉ w.revived) (· = r) r rfl c

private theorem final_forget {w : World} {t : Nat} (hnot : (t, r) ∉ w.revived) {t' : Nat} (h : (t', r) ∈ w.revived) :
    (t', r) ∈ w.forget t := by
  have hne : t' ≠ t := by
    rintro rfl
    exact hnot h
  simp [World.forget, hne, h]

private theorem final_write {w : World} {k : Kind} {t : Nat} {β : Type} {s : Write β}
    (h : w.db.runState r = some .cancelled ∨ ∃ t, (t, r) ∈ w.revived) :
    (w.written k t s).db.runState r = some .cancelled ∨ ∃ t', (t', r) ∈ (w.written k t s).revived := by
  rcases h with hcancelled | ⟨t', ht'⟩
  · by_cases hstill : (w.db.apply s).2.runState r = some .cancelled
    · exact .inl hstill
    · exact .inr ⟨t, List.mem_append_left _ (mem_revivedBy_self.mpr ⟨hcancelled, hstill⟩)⟩
  · exact .inr ⟨t', List.mem_append_right _ ht'⟩

private theorem final_step {c c' : Pool} {l : Label Kind Cmd} (hkept : KeptFinal cfg r c)
    (hstep : (finalSystem cfg r).Step c l c') (hl : ∀ t k op, Overrides r op → l ≠ .act t k (.leave op true) ())
    (h : Final r c) : Final r c' := by
  have hsame : c'.world.db.runs = c.world.db.runs → c'.world.revived = c.world.revived → Final r c' := by
    intro hruns hrevived
    have hstate : c'.world.db.runState r = c.world.db.runState r := by
      unfold Db.runState Db.run?
      rw [hruns]
    unfold Final
    rw [hstate, hrevived]
    exact h
  cases l with
  | @act t k β cmd x =>
    obtain ⟨heffect, hown⟩ := hkept.act hstep
    cases cmd with
    | write w =>
      obtain ⟨heq, -⟩ | ⟨heq, -⟩ := heffect
      · exact hsame (by rw [heq]) (by rw [heq])
      · unfold Final
        rw [heq]
        exact final_write h
    | lock => exact hsame (by rw [heffect.1]) (by rw [heffect.1])
    | unlock =>
      have heq : c'.world = _ := heffect
      exact hsame (by rw [heq]) (by rw [heq])
    | enter op =>
      have heq : c'.world = _ := heffect
      refine h.imp (fun hc => by rw [heq]; exact hc) ?_
      rintro ⟨t', ht'⟩
      refine ⟨t', ?_⟩
      rw [heq]
      exact final_forget (hown rfl) ht'
    | leave op ok =>
      have heq : c'.world = _ := heffect
      refine h.imp (fun hc => by rw [heq]; exact hc) ?_
      rintro ⟨t', ht'⟩
      refine ⟨t', ?_⟩
      rw [heq]
      refine final_forget ?_ ht'
      intro hmem
      obtain ⟨rfl, hover⟩ := hown rfl hmem
      exact hl t k op hover rfl
    | _ =>
      obtain ⟨hdb, -, -, hrevived⟩ := heffect.silent_eq rfl
      exact hsame (by rw [hdb]) hrevived
  | start t k =>
    cases hstep with
    | start hidle hstart => cases hstart <;> exact hsame rfl rfl
  | drift =>
    cases hstep with
    | drift hdrift =>
      obtain ⟨dags, rows, edges, pools, rfl⟩ := hdrift
      exact hsame rfl rfl
  | reset =>
    cases hstep with
    | reset hreset =>
      obtain ⟨hcalm, dags, rfl⟩ := hreset
      rcases h with hcancelled | ⟨t, ht⟩
      · exact .inl hcancelled
      · exact absurd ht (hcalm t)

private theorem overriding_of_revived {c : Pool} (hkept : KeptFinal cfg r c) {t : Nat} (ht : (t, r) ∈ c.world.revived) :
    Overriding (finalSystem cfg r) r c t := by
  refine ⟨ht, ?_, ?_, ?_⟩
  · intro hidle
    have hfits := hkept.lifecycle.2 t
    cases hthread : c.threads t with
    | none =>
      rw [hthread] at hfits
      exact hfits rfl ht
    | some entry =>
      obtain ⟨k, p⟩ := entry
      rw [hthread] at hfits hidle
      cases p with
      | pure a => exact hfits rfl ht
      | step cmd next => exact hidle
  · intro k op c' hstep
    exact (hkept.act hstep).2 rfl ht
  · intro k op ok c' hstep
    exact (hkept.act hstep).2 rfl ht

end Finality

/-- Once run `r` is cancelled it stays so until a retry or a mark of `r` succeeds,
in every run in which no step of `r` starts after the cancel from a snapshot
listed before it that could still make it run or succeed. -/
theorem cancelled_until_overridden (cfg : Cfg) (r : String) {b c : Pool}
    (hb : (finalSystem cfg r).Reachable World.Fresh b) (hcancelled : b.world.db.runState r = some .cancelled)
    (hruns : (finalSystem cfg r).RunsWhile
      (fun _ l _ => ∀ t k op, Overrides r op → l ≠ .act t k (.leave op true) ()) b c) :
    c.world.db.runState r = some .cancelled ∨ ∃ t, Overriding (finalSystem cfg r) r c t := by
  have hinv : KeptFinal cfg r c ∧ Final r c := by
    refine hruns.keeps (I := fun x => KeptFinal cfg r x ∧ Final r x) ?_ ⟨kept_of_reachable hb rfl, .inl hcancelled⟩
    rintro x l y hstep hl ⟨hkept, hfinal⟩
    exact ⟨hkept.step hstep, final_step hkept hstep hl hfinal⟩
  refine hinv.2.imp id ?_
  rintro ⟨t, ht⟩
  exact ⟨t, overriding_of_revived hinv.1 ht⟩

/-! ### Runs that break the contracts -/

def jobYAML : String := "dag_id: job\ntasks:\n- {id: a, command: x}\n"

def jobDocument : Parser.DagYAML := { dagID := "job", tasks := [{ id := "a", command := "x" }] }

def job : DAG := { dagID := "job", definitionYAML := jobYAML, tasks := [{ id := "a", command := "x" }] }

def jobCfg : Cfg := .ofDocuments [(jobYAML, jobDocument)]

/-- One manual run of the job, in a given state. -/
def jobRun (state : RunState) : DagRun :=
  { runID := "job__1", dagID := "job", logicalDate := 0, state := state, triggerType := .manual, finishedAt := some 0
    definitionYAML := jobYAML }

def jobWorld (state : RunState) : World :=
  { db := { runs := ⟨[jobRun state], List.pairwise_singleton _ _⟩ }, dags := [job] }

/-- The tick lists the queued run; then the run is cancelled. -/
def cancelMoves : List Move :=
  .boot 0 :: List.replicate 11 (.act 0 .fine) ++ .call 1 (.cancelRun "job__1") :: List.replicate 8 (.act 1 .fine)

/-- The tick goes on with the run it listed, to the end of its step. -/
def staleMoves : List Move := List.replicate 13 (.act 0 .fine)

theorem cancelled_run_restarted :
    ¬ ∀ (b c : Pool) (t : Nat), (system jobCfg True).Reachable World.Fresh b →
      b.result t = some (.call (.cancelRun "job__1"), .ok ()) →
      (system jobCfg True).RunsWhile
        (fun _ l _ => ∀ t k op, Overrides "job__1" op → l ≠ .act t k (.leave op true) ()) b c →
      c.world.db.runState "job__1" = some .cancelled ∨ ∃ t, Overriding (system jobCfg True) "job__1" c t := by
  have hplay : ((Pool.off (jobWorld .queued)).play jobCfg cancelMoves).bind (fun b =>
      (b.playIf jobCfg (fun b m => !(b.ends m).any (fun op => decide (Overrides "job__1" op))) staleMoves).map (fun c =>
        (b.result 1, c.world.db.runState "job__1", c.world.revived))) =
      some (some (.call (.cancelRun "job__1"), .ok ()), some .running, []) := by
    decide +kernel
  obtain ⟨b, hb, hrest⟩ := Option.bind_eq_some_iff.mp hplay
  obtain ⟨c, hc, heq⟩ := Option.map_eq_some_iff.mp hrest
  simp only [Prod.mk.injEq] at heq
  obtain ⟨hresult, hstate, hrevived⟩ := heq
  intro h
  have hruns : (system jobCfg True).RunsWhile
      (fun _ l _ => ∀ t k op, Overrides "job__1" op → l ≠ .act t k (.leave op true) ()) b c := by
    refine playIf_runs ?_ hc
    intro p m q hok hm
    obtain ⟨l, hstep, -, hlabel⟩ := move_step trivial hm
    refine ⟨l, hstep, ?_⟩
    intro t k op hover hl
    obtain ⟨a, next, rfl, hthread⟩ := hlabel t k _ _ hl
    simp [Pool.ends, hthread, hover] at hok
  rcases h b c 1 ⟨_, ⟨_, _, rfl⟩, play_runs trivial hb⟩ hresult hruns with hcancelled | ⟨t, ht⟩
  · rw [hstate] at hcancelled
    cases hcancelled
  · have := ht.revived
    rw [hrevived] at this
    cases this

/-- A success is marked on a cancelled run. -/
theorem cancelled_run_marked_success :
    ¬ ∀ (c c' : Pool) (l : Label Kind Cmd), (system jobCfg True).Reachable World.Fresh c →
      (system jobCfg True).Step c l c' → Lawful c l c' := by
  have hplay : ((Pool.off (jobWorld .cancelled)).play jobCfg
      (.call 1 (.markRun "job__1" .success) :: List.replicate 3 (.act 1 .fine))).bind (fun c =>
      (c.move jobCfg (.act 1 .fine)).map (fun c' => (c.world.db.runState "job__1", c'.world.db.runState "job__1"))) =
      some (some .cancelled, some .success) := by
    decide +kernel
  obtain ⟨c, hc, hrest⟩ := Option.bind_eq_some_iff.mp hplay
  obtain ⟨c', hc', heq⟩ := Option.map_eq_some_iff.mp hrest
  simp only [Prod.mk.injEq] at heq
  intro h
  obtain ⟨l, hstep, -⟩ := move_step trivial hc'
  have hlawful := h c c' l ⟨_, ⟨_, _, rfl⟩, play_runs trivial hc⟩ hstep
  have hlegal := hlawful.moves "job__1" .cancelled .success heq.1 heq.2 (by decide)
  revert hlegal
  decide

/-- No operation begins that the conditions speak of. -/
private def unconditional (p : Pool) (m : Move) : Bool :=
  match p.begins m with
  | some (.processRun _) | some (.markRun _ _) | some (.discardRun _) => false
  | _ => true

private theorem fair_move {aim : Aim} {calm : World → Prop} {watched : String → Prop} {p q : Pool} {m : Move}
    (hok : unconditional p m = true) (h : p.move jobCfg m = some q) :
    ∃ l, (fairSystem jobCfg aim calm watched).Step p l q ∧ ∀ t k op, Overrides "job__1" op →
      l = .act t k (.leave op true) () → p.ends m = some op := by
  obtain ⟨l, hstep, hreset, hlabel⟩ := move_step trivial h
  refine ⟨l, hstep.restrict ?_ hreset, ?_⟩
  · rintro t k β c r hl id -
    obtain ⟨a, next, rfl, hthread⟩ := hlabel t k c r hl
    cases c with
    | enter op =>
      simp only [unconditional, Pool.begins, hthread] at hok
      cases op <;> trivial
    | _ => trivial
  · intro t k op _ hl
    obtain ⟨a, next, rfl, hthread⟩ := hlabel t k _ _ hl
    simp only [Pool.ends, hthread]

theorem run_states_obey_lifecycle_cancel :
    ∃ c l c', (fairSystem jobCfg .legality (fun _ => True) (fun _ => True)).Reachable World.Fresh c ∧
      (fairSystem jobCfg .legality (fun _ => True) (fun _ => True)).Step c l c' ∧
      c.world.db.runState "job__1" = some .running ∧ c'.world.db.runState "job__1" = some .cancelled ∧
      Lawful c l c' := by
  have hplay : ((Pool.off (jobWorld .running)).playIf jobCfg unconditional
      (.call 1 (.cancelRun "job__1") :: List.replicate 4 (.act 1 .fine))).bind (fun c =>
        (c.move jobCfg (.act 1 .fine)).map (fun c' =>
          (unconditional c (.act 1 .fine), c.world.db.runState "job__1", c'.world.db.runState "job__1"))) =
      some (true, some .running, some .cancelled) := by
    decide +kernel
  obtain ⟨c, hc, hrest⟩ := Option.bind_eq_some_iff.mp hplay
  obtain ⟨c', hc', heq⟩ := Option.map_eq_some_iff.mp hrest
  simp only [Prod.mk.injEq] at heq
  obtain ⟨hok, hbefore, hafter⟩ := heq
  have hstep : ∃ l, (fairSystem jobCfg .legality (fun _ => True) (fun _ => True)).Step c l c' := by
    obtain ⟨l, hl, -⟩ := fair_move hok hc'
    exact ⟨l, hl⟩
  obtain ⟨l, hstep⟩ := hstep
  have hreach : (fairSystem jobCfg .legality (fun _ => True) (fun _ => True)).Reachable World.Fresh c := by
    refine ⟨_, ⟨_, _, rfl⟩, playIf_runs ?_ hc⟩
    intro p m q hok hm
    obtain ⟨l, hl, -⟩ := fair_move hok hm
    exact ⟨l, hl, trivial⟩
  exact ⟨c, l, c', hreach, hstep, hbefore, hafter, run_states_obey_lifecycle jobCfg hreach hstep⟩

/-- A second cancel of the run is refused, and the run stays cancelled. -/
theorem cancelled_until_overridden_again :
    ∃ c, c.result 1 = some (.call (.cancelRun "job__1"), .error .runNotActive) ∧
      (c.world.db.runState "job__1" = some .cancelled ∨ ∃ t, Overriding (finalSystem jobCfg "job__1") "job__1" c t) := by
  have hplay : ((Pool.off (jobWorld .cancelled)).playIf jobCfg
      (fun p m => unconditional p m && (p.ends m).all (fun op => !decide (Overrides "job__1" op)))
      (.call 1 (.cancelRun "job__1") :: List.replicate 5 (.act 1 .fine))).map (fun c => c.result 1) =
      some (some (.call (.cancelRun "job__1"), .error .runNotActive)) := by
    decide +kernel
  obtain ⟨c, hc, hresult⟩ := Option.map_eq_some_iff.mp hplay
  refine ⟨c, hresult, cancelled_until_overridden jobCfg "job__1" (b := Pool.off (jobWorld .cancelled))
    ⟨_, ⟨_, _, rfl⟩, .refl⟩ (by decide) (playIf_runs ?_ hc)⟩
  intro p m q hok hm
  rw [Bool.and_eq_true] at hok
  obtain ⟨l, hstep, hends⟩ := fair_move hok.1 hm
  refine ⟨l, hstep, ?_⟩
  intro t k op hover hl
  have hop := hok.2
  rw [hends t k op hover hl] at hop
  simp [hover] at hop

end Cronova.Properties.Cancellation
