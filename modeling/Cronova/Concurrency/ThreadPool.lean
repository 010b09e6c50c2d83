import Cronova.Concurrency.Interference
import Mathlib.Logic.Relation
import Mathlib.Logic.Function.Basic

/-! A pool of numbered threads over one shared state. Threads interleave at the
granularity of single commands, new threads may begin on idle numbers, and a
crash drops them all. The rules of `Discipline` reduce a property of every run
to judgements about one program at a time. -/
namespace Cronova.Concurrency
variable {κ : Type} {Cmd : Type → Type 1} {ρ S : Type}

/-- What the threads of a pool can do. `sem` executes one command for a thread,
given its kind and number; `start` says which programs may begin; `drift` is
what the surroundings do to the state; `reset` is what a crash leaves of it. -/
structure System (κ : Type) (Cmd : Type → Type 1) (ρ S : Type) where
  sem : κ → Nat → {β : Type} → Cmd β → S → β → S → Prop
  start : Nat → κ → Program Cmd ρ → S → S → Prop
  drift : S → S → Prop
  reset : S → S → Prop

/-- The shared state and the program each thread still has to run. -/
structure Config (κ : Type) (Cmd : Type → Type 1) (ρ S : Type) where
  world : S
  threads : Nat → Option (κ × Program Cmd ρ)

/-- A number is free when no program was started on it or its program returned. -/
def Idle : Option (κ × Program Cmd ρ) → Prop
  | none => True
  | some (_, .pure _) => True
  | some (_, .step _ _) => False

/-- What a step of the pool did. -/
inductive Label (κ : Type) (Cmd : Type → Type 1) : Type 1 where
  | act (t : Nat) (k : κ) {β : Type} (c : Cmd β) (r : β)
  | start (t : Nat) (k : κ)
  | drift
  | reset

namespace System
variable (sys : System κ Cmd ρ S)

inductive Step : Config κ Cmd ρ S → Label κ Cmd → Config κ Cmd ρ S → Prop where
  | act {cfg : Config κ Cmd ρ S} {t : Nat} {k : κ} {β : Type} {c : Cmd β} {next : β → Program Cmd ρ} {r : β} {w : S}
      (hthread : cfg.threads t = some (k, .step c next)) (hsem : sys.sem k t c cfg.world r w) :
      Step cfg (.act t k c r) ⟨w, Function.update cfg.threads t (some (k, next r))⟩
  | start {cfg : Config κ Cmd ρ S} {t : Nat} {k : κ} {p : Program Cmd ρ} {w : S}
      (hidle : Idle (cfg.threads t)) (hstart : sys.start t k p cfg.world w) :
      Step cfg (.start t k) ⟨w, Function.update cfg.threads t (some (k, p))⟩
  | drift {cfg : Config κ Cmd ρ S} {w : S} (hdrift : sys.drift cfg.world w) :
      Step cfg .drift ⟨w, cfg.threads⟩
  | reset {cfg : Config κ Cmd ρ S} {w : S} (hreset : sys.reset cfg.world w) :
      Step cfg .reset ⟨w, fun _ => none⟩

/-- Zero or more steps, each of which satisfies `P`. -/
def RunsWhile (P : Config κ Cmd ρ S → Label κ Cmd → Config κ Cmd ρ S → Prop) :
    Config κ Cmd ρ S → Config κ Cmd ρ S → Prop :=
  Relation.ReflTransGen (fun a b => ∃ l, sys.Step a l b ∧ P a l b)

def Runs : Config κ Cmd ρ S → Config κ Cmd ρ S → Prop :=
  sys.RunsWhile (fun _ _ _ => True)

/-- All runs from a state in which no thread is active. -/
def Reachable (init : S → Prop) (cfg : Config κ Cmd ρ S) : Prop :=
  ∃ w, init w ∧ sys.Runs ⟨w, fun _ => none⟩ cfg

/-- The same pool, in which a command is executed only when `cond` allows it and
a crash strikes only where `calm` does. -/
def restrict (cond : κ → Nat → {β : Type} → Cmd β → S → Prop) (calm : S → Prop) : System κ Cmd ρ S :=
  { sys with sem := fun k t _ c s r s' => cond k t c s ∧ sys.sem k t c s r s'
             reset := fun s s' => calm s ∧ sys.reset s s' }

/-- The same pool, in which a command gets an answer only when `cond` allows it. -/
def answering (cond : κ → Nat → {β : Type} → Cmd β → S → β → Prop) : System κ Cmd ρ S :=
  { sys with sem := fun k t _ c s r s' => cond k t c s r ∧ sys.sem k t c s r s' }

variable {sys}

theorem Runs.of_while {P : Config κ Cmd ρ S → Label κ Cmd → Config κ Cmd ρ S → Prop}
    {a b : Config κ Cmd ρ S} (h : sys.RunsWhile P a b) : sys.Runs a b := by
  refine Relation.ReflTransGen.mono ?_ a b h
  rintro x y ⟨l, hstep, -⟩
  exact ⟨l, hstep, trivial⟩

theorem Step.runs {a b : Config κ Cmd ρ S} {l : Label κ Cmd} (h : sys.Step a l b) : sys.Runs a b :=
  Relation.ReflTransGen.single ⟨l, h, trivial⟩

/-- A step whose command the condition allows is one of the restricted pool. -/
theorem Step.restrict {cond : κ → Nat → {β : Type} → Cmd β → S → Prop} {calm : S → Prop} {a b : Config κ Cmd ρ S}
    {l : Label κ Cmd} (h : sys.Step a l b) (hcond : ∀ t k {β : Type} (c : Cmd β) r, l = .act t k c r → cond k t c a.world)
    (hcalm : l ≠ .reset) : (sys.restrict cond calm).Step a l b := by
  cases h with
  | act hthread hsem => exact .act hthread ⟨hcond _ _ _ _ rfl, hsem⟩
  | start hidle hstart => exact .start hidle hstart
  | drift hdrift => exact .drift hdrift
  | reset hreset => exact absurd rfl hcalm

theorem Step.of_answering {cond : κ → Nat → {β : Type} → Cmd β → S → β → Prop} {a b : Config κ Cmd ρ S} {l : Label κ Cmd}
    (h : (sys.answering cond).Step a l b) : sys.Step a l b := by
  cases h with
  | act hthread hsem => exact .act hthread hsem.2
  | start hidle hstart => exact .start hidle hstart
  | drift hdrift => exact .drift hdrift
  | reset hreset => exact .reset hreset

theorem Runs.of_answering {cond : κ → Nat → {β : Type} → Cmd β → S → β → Prop} {a b : Config κ Cmd ρ S}
    (h : (sys.answering cond).Runs a b) : sys.Runs a b := by
  refine Relation.ReflTransGen.mono ?_ a b h
  rintro x y ⟨l, hstep, -⟩
  exact ⟨l, hstep.of_answering, trivial⟩

/-- A property that every allowed step keeps holds along the run. -/
theorem RunsWhile.keeps {P : Config κ Cmd ρ S → Label κ Cmd → Config κ Cmd ρ S → Prop}
    {I : Config κ Cmd ρ S → Prop} {a b : Config κ Cmd ρ S} (h : sys.RunsWhile P a b)
    (hstep : ∀ x l y, sys.Step x l y → P x l y → I x → I y) (ha : I a) : I b := by
  induction h with
  | refl => exact ha
  | tail _ hlast ih =>
    obtain ⟨l, hl, hP⟩ := hlast
    exact hstep _ _ _ hl hP ih

/-! ### Records -/

section Record
variable {H : Type} (sys) (note : κ → Nat → {β : Type} → Cmd β → β → H → H) (blank : H)

/-- The same pool with a record that no program reads: every command adds to it,
and a crash wipes it. -/
def record : System κ Cmd ρ (S × H) where
  sem k t _ c s r s' := sys.sem k t c s.1 r s'.1 ∧ s'.2 = note k t c r s.2
  start t k p s s' := sys.start t k p s.1 s'.1 ∧ s'.2 = s.2
  drift s s' := sys.drift s.1 s'.1 ∧ s'.2 = s.2
  reset s s' := sys.reset s.1 s'.1 ∧ s'.2 = blank

/-- Every step can be recorded. -/
theorem Step.record {sys : System κ Cmd ρ S} {a b : Config κ Cmd ρ S} {l : Label κ Cmd} (h : sys.Step a l b) (past : H) :
    ∃ now, (sys.record note blank).Step ⟨(a.world, past), a.threads⟩ l ⟨(b.world, now), b.threads⟩ := by
  cases h with
  | act hthread hsem => exact ⟨_, .act hthread ⟨hsem, rfl⟩⟩
  | start hidle hstart => exact ⟨past, .start hidle ⟨hstart, rfl⟩⟩
  | drift hdrift => exact ⟨past, .drift ⟨hdrift, rfl⟩⟩
  | reset hreset => exact ⟨blank, .reset ⟨hreset, rfl⟩⟩

/-- Every run can be recorded. -/
theorem Runs.record {sys : System κ Cmd ρ S} {a b : Config κ Cmd ρ S} (h : sys.Runs a b) (past : H) :
    ∃ now, (sys.record note blank).Runs ⟨(a.world, past), a.threads⟩ ⟨(b.world, now), b.threads⟩ := by
  induction h with
  | refl => exact ⟨past, .refl⟩
  | tail _ hlast ih =>
    obtain ⟨mid, hmid⟩ := ih
    obtain ⟨l, hstep, -⟩ := hlast
    obtain ⟨now, hnow⟩ := hstep.record note blank mid
    exact ⟨now, hmid.tail ⟨l, hnow, trivial⟩⟩

/-- What is recorded happened. -/
theorem Runs.of_record {sys : System κ Cmd ρ S} {note : κ → Nat → {β : Type} → Cmd β → β → H → H} {blank : H}
    {a b : Config κ Cmd ρ (S × H)} (h : (sys.record note blank).Runs a b) :
    sys.Runs ⟨a.world.1, a.threads⟩ ⟨b.world.1, b.threads⟩ := by
  induction h with
  | refl => exact .refl
  | tail _ hlast ih =>
    obtain ⟨l, hstep, -⟩ := hlast
    refine ih.tail ⟨l, ?_, trivial⟩
    cases hstep with
    | act hthread hsem => exact .act hthread hsem.1
    | start hidle hstart => exact .start hidle hstart.1
    | drift hdrift => exact .drift hdrift.1
    | reset hreset => exact .reset hreset.1

end Record

/-! ### Observers -/

section Observe
variable {H : Type} (sys) (note : κ → Nat → {β : Type} → Cmd β → β → S → H → H) (begin_ : κ → Nat → H → H) (blank : H)

/-- The same pool under an observer that no program reads: it sees every command
with the state it led to, and every start. A crash blinds it. -/
def observe : System κ Cmd ρ (S × H) where
  sem k t _ c s r s' := sys.sem k t c s.1 r s'.1 ∧ s'.2 = note k t c r s'.1 s.2
  start t k p s s' := sys.start t k p s.1 s'.1 ∧ s'.2 = begin_ k t s.2
  drift s s' := sys.drift s.1 s'.1 ∧ s'.2 = s.2
  reset s s' := sys.reset s.1 s'.1 ∧ s'.2 = blank

/-- The observer notes nothing at a step with this label. -/
def Unnoticed (h : H) : Label κ Cmd → Prop
  | .act t k c r => ∀ w, note k t c r w h = h
  | .start t k => begin_ k t h = h
  | .drift => True
  | .reset => blank = h

/-- A run without anything to note. -/
theorem RunsWhile.unnoticed {sys : System κ Cmd ρ S} {P : Config κ Cmd ρ S → Label κ Cmd → Config κ Cmd ρ S → Prop} {h : H}
    (hP : ∀ a l b, P a l b → Unnoticed note begin_ blank h l) {a b : Config κ Cmd ρ S} (hruns : sys.RunsWhile P a b) :
    (sys.observe note begin_ blank).Runs ⟨(a.world, h), a.threads⟩ ⟨(b.world, h), b.threads⟩ := by
  induction hruns with
  | refl => exact .refl
  | tail _ hlast ih =>
    obtain ⟨l, hstep, hl⟩ := hlast
    have hquiet := hP _ l _ hl
    refine ih.tail ⟨l, ?_, trivial⟩
    cases hstep with
    | act hthread hsem => exact .act hthread ⟨hsem, (hquiet _).symm⟩
    | start hidle hstart => exact .start hidle ⟨hstart, hquiet.symm⟩
    | drift hdrift => exact .drift ⟨hdrift, rfl⟩
    | reset hreset => exact .reset ⟨hreset, hquiet.symm⟩

end Observe

end System

/-! ### Concrete runs -/

namespace Config

/-- Execute the next command of a thread. -/
def act (exec : κ → Nat → {β : Type} → Cmd β → S → Option (β × S)) (c : Config κ Cmd ρ S) (t : Nat) : Option (Config κ Cmd ρ S) :=
  match c.threads t with
  | some (k, .step cmd next) =>
    (exec k t cmd c.world).map (fun result => ⟨result.2, Function.update c.threads t (some (k, next result.1))⟩)
  | _ => none

/-- Begin a program on a free thread. -/
def launch (c : Config κ Cmd ρ S) (t : Nat) (k : κ) (p : Program Cmd ρ) (w : S) : Option (Config κ Cmd ρ S) :=
  match c.threads t with
  | some (_, .step _ _) => none
  | _ => some ⟨w, Function.update c.threads t (some (k, p))⟩

/-- The state after a list of moves. -/
def plays {Move : Type} (turn : Config κ Cmd ρ S → Move → Option (Config κ Cmd ρ S)) (c : Config κ Cmd ρ S) :
    List Move → Option (Config κ Cmd ρ S)
  | [] => some c
  | m :: ms => (turn c m).bind (fun c' => plays turn c' ms)

variable {sys : System κ Cmd ρ S} {c c' : Config κ Cmd ρ S} {t : Nat}

theorem act_step {exec : κ → Nat → {β : Type} → Cmd β → S → Option (β × S)}
    (hexec : ∀ k {β : Type} (cmd : Cmd β) r w, exec k t cmd c.world = some (r, w) → sys.sem k t cmd c.world r w)
    (h : c.act exec t = some c') : ∃ l, sys.Step c l c' := by
  unfold act at h
  split at h
  · rename_i k β cmd next hthread
    obtain ⟨⟨r, w⟩, hresult, heq⟩ := Option.map_eq_some_iff.mp h
    cases heq
    exact ⟨_, .act hthread (hexec k cmd r w hresult)⟩
  · cases h

theorem launch_step {k : κ} {p : Program Cmd ρ} {w : S} (hstart : sys.start t k p c.world w) (h : c.launch t k p w = some c') :
    ∃ l, sys.Step c l c' := by
  unfold launch at h
  split at h
  · cases h
  · rename_i hfree
    cases h
    refine ⟨_, .start ?_ hstart⟩
    cases hthread : c.threads t with
    | none => trivial
    | some entry =>
      obtain ⟨k', prog⟩ := entry
      cases prog with
      | pure a => trivial
      | step cmd next => exact absurd hthread (hfree k' _ cmd next)

/-- What a concrete run reaches, the system reaches. -/
theorem plays_runs {Move : Type} {turn : Config κ Cmd ρ S → Move → Option (Config κ Cmd ρ S)}
    (hturn : ∀ c m c', turn c m = some c' → ∃ l, sys.Step c l c') {ms : List Move} (h : c.plays turn ms = some c') :
    sys.Runs c c' := by
  induction ms generalizing c with
  | nil =>
    cases h
    exact .refl
  | cons m ms ih =>
    obtain ⟨mid, hmid, hrest⟩ := Option.bind_eq_some_iff.mp h
    obtain ⟨l, hl⟩ := hturn c m mid hmid
    exact Relation.ReflTransGen.head ⟨l, hl, trivial⟩ (ih hrest)

end Config

/-- An invariant of the state, and for each thread what it relies on and what it
guarantees, such that what one thread guarantees is what the others rely on.
`free` is what holds of a number on which no program is running. -/
structure Discipline (sys : System κ Cmd ρ S) where
  inv : S → Prop
  free : Nat → S → Prop
  rely : Nat → S → S → Prop
  guar : κ → Nat → {β : Type} → Cmd β → S → β → S → Prop
  rely_refl : ∀ t s, rely t s s
  rely_trans : ∀ t a b c, rely t a b → rely t b c → rely t a c
  free_rely : ∀ t s s', rely t s s' → free t s → free t s'
  guar_inv : ∀ k t {β : Type} (c : Cmd β) s r s', inv s → guar k t c s r s' → inv s'
  guar_rely : ∀ k t t' {β : Type} (c : Cmd β) s r s', t ≠ t' → inv s → guar k t c s r s' → rely t' s s'
  start_inv : ∀ t k p s s', inv s → free t s → sys.start t k p s s' → inv s'
  start_rely : ∀ t k p s s', inv s → free t s → sys.start t k p s s' → ∀ t', t ≠ t' → rely t' s s'
  start_holds : ∀ t k p s s', inv s → free t s → sys.start t k p s s' →
    Holds ⟨sys.sem k t, rely t, guar k t⟩ p (fun _ s => free t s) s'
  drift_inv : ∀ s s', inv s → sys.drift s s' → inv s'
  drift_rely : ∀ s s', inv s → sys.drift s s' → ∀ t, rely t s s'
  reset_inv : ∀ s s', inv s → sys.reset s s' → inv s'
  reset_free : ∀ s s', inv s → sys.reset s s' → ∀ t, free t s'

namespace Discipline
variable {sys : System κ Cmd ρ S} (D : Discipline sys)

def rules (k : κ) (t : Nat) : Rules Cmd S := ⟨sys.sem k t, D.rely t, D.guar k t⟩

/-- What is known of a thread: its number is free, or its program keeps its judgement. -/
def Fits (t : Nat) (s : S) : Option (κ × Program Cmd ρ) → Prop
  | none => D.free t s
  | some (k, p) => Holds (D.rules k t) p (fun _ s => D.free t s) s

/-- The invariant holds and every thread's remaining program keeps its judgement. -/
def Sound (cfg : Config κ Cmd ρ S) : Prop :=
  D.inv cfg.world ∧ ∀ t, D.Fits t cfg.world (cfg.threads t)

theorem act_guar {cfg : Config κ Cmd ρ S} (h : D.Sound cfg) {t : Nat} {k : κ} {β : Type} {c : Cmd β}
    {next : β → Program Cmd ρ} (hthread : cfg.threads t = some (k, .step c next)) {r : β} {w : S}
    (hsem : sys.sem k t c cfg.world r w) :
    D.guar k t c cfg.world r w ∧ Holds (D.rules k t) (next r) (fun _ s => D.free t s) w := by
  have hfits := h.2 t
  rw [hthread] at hfits
  exact hfits cfg.world (D.rely_refl t cfg.world) r w hsem

private theorem fits_rely {t : Nat} {s w : S} (hrely : D.rely t s w) :
    ∀ thread : Option (κ × Program Cmd ρ), D.Fits t s thread → D.Fits t w thread
  | none, h => D.free_rely t s w hrely h
  | some (_, _), h => Holds.interfere (D.rely_trans t) (fun _ => D.free_rely t) hrely h

private theorem free_of_idle {t : Nat} {s : S} :
    ∀ thread : Option (κ × Program Cmd ρ), Idle thread → D.Fits t s thread → D.free t s
  | none, _, h => h
  | some (_, .pure _), _, h => h

theorem step_sound {cfg cfg' : Config κ Cmd ρ S} {l : Label κ Cmd} (h : D.Sound cfg)
    (hstep : sys.Step cfg l cfg') : D.Sound cfg' := by
  cases hstep with
  | @act t k β c next r w hthread hsem =>
    obtain ⟨hg, hk⟩ := D.act_guar h hthread hsem
    refine ⟨D.guar_inv k t c _ r w h.1 hg, ?_⟩
    intro t'
    by_cases ht : t' = t
    · subst ht
      simp only [Function.update_self]
      exact hk
    · simp only [Function.update_of_ne ht]
      exact D.fits_rely (D.guar_rely k t t' c _ r w (Ne.symm ht) h.1 hg) _ (h.2 t')
  | @start t k p w hidle hstart =>
    have hfree := D.free_of_idle _ hidle (h.2 t)
    refine ⟨D.start_inv t k p _ w h.1 hfree hstart, ?_⟩
    intro t'
    by_cases ht : t' = t
    · subst ht
      simp only [Function.update_self]
      exact D.start_holds t' k p _ w h.1 hfree hstart
    · simp only [Function.update_of_ne ht]
      exact D.fits_rely (D.start_rely t k p _ w h.1 hfree hstart t' (Ne.symm ht)) _ (h.2 t')
  | drift hdrift =>
    refine ⟨D.drift_inv _ _ h.1 hdrift, ?_⟩
    intro t
    exact D.fits_rely (D.drift_rely _ _ h.1 hdrift t) _ (h.2 t)
  | reset hreset => exact ⟨D.reset_inv _ _ h.1 hreset, D.reset_free _ _ h.1 hreset⟩

theorem runs_sound {cfg cfg' : Config κ Cmd ρ S} (h : D.Sound cfg) (hruns : sys.Runs cfg cfg') :
    D.Sound cfg' :=
  hruns.keeps (fun _ _ _ hstep _ hx => D.step_sound hx hstep) h

theorem reachable_sound {init : S → Prop} (hinit : ∀ w, init w → D.inv w ∧ ∀ t, D.free t w)
    {cfg : Config κ Cmd ρ S} (h : sys.Reachable init cfg) : D.Sound cfg := by
  obtain ⟨w, hw, hruns⟩ := h
  have hstart : D.Sound ⟨w, fun _ => none⟩ := hinit w hw
  exact D.runs_sound hstart hruns

/-! ### Layers -/

/-- A discipline of the pool is one of the restricted pool. -/
def restrict (cond : κ → Nat → {β : Type} → Cmd β → S → Prop) (calm : S → Prop) :
    Discipline (sys.restrict cond calm) :=
  { D with
    start_holds := by
      intro t k p s s' hi hf hs
      refine Holds.weaken ?_ ?_ ?_ (D.start_holds t k p s s' hi hf hs)
      · exact fun _ _ _ _ h => h.2
      · exact fun _ _ h => h
      · exact fun _ _ _ _ h => h
    reset_inv := fun s s' hi hr => D.reset_inv s s' hi hr.2
    reset_free := fun s s' hi hr => D.reset_free s s' hi hr.2 }

/-- The pool with what the discipline guarantees built into its commands, for a
second discipline to start from. -/
def guarded : System κ Cmd ρ S :=
  { sys with sem := fun k t _ c s r s' => D.inv s ∧ sys.sem k t c s r s' ∧ D.guar k t c s r s' }

theorem step_guarded {cfg cfg' : Config κ Cmd ρ S} {l : Label κ Cmd} (h : D.Sound cfg) (hstep : sys.Step cfg l cfg') :
    D.guarded.Step cfg l cfg' := by
  cases hstep with
  | act hthread hsem => exact .act hthread ⟨h.1, hsem, (D.act_guar h hthread hsem).1⟩
  | start hidle hstart => exact .start hidle hstart
  | drift hdrift => exact .drift hdrift
  | reset hreset => exact .reset hreset

theorem runs_guarded {P : Config κ Cmd ρ S → Label κ Cmd → Config κ Cmd ρ S → Prop} {cfg cfg' : Config κ Cmd ρ S}
    (h : D.Sound cfg) (hruns : sys.RunsWhile P cfg cfg') : D.guarded.RunsWhile P cfg cfg' := by
  induction hruns with
  | refl => exact .refl
  | tail hpre hlast ih =>
    obtain ⟨l, hl, hP⟩ := hlast
    have hmid := D.runs_sound h (System.Runs.of_while hpre)
    exact ih.tail ⟨l, D.step_guarded hmid hl, hP⟩

end Discipline
end Cronova.Concurrency
