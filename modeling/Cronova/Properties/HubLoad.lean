import Cronova.Properties.SessionTable

/-! The load counters of the hub and the ownership of attempts: a session counts
the running attempts of its worker, as long as events are recorded only where
the counter moves with the phase; and a worker's messages touch its own attempts
only, whatever happens. -/
namespace Cronova.Properties
open Cronova.Model Cronova.Concurrency Cronova.Remote

/-- The number of tracked refs of a worker in phase running. -/
def load (h : Hub) (workerID : String) : Nat := Registry.count h.refs (fun _ e => h.running workerID e)

/-- What the counters depend on in a record. -/
def view (rs : RefState) : String × Phase × Bool := (rs.workerID, rs.phase, rs.lost)

theorem running_iff {h : Hub} {workerID : String} {e : Nat} : h.running workerID e = true ↔
    ∃ rs, h.heap[e]? = some rs ∧ rs.workerID = workerID ∧ rs.phase = .running := by
  unfold Hub.running
  cases h.heap[e]? with
  | none => simp
  | some rs => simp

theorem running_congr {h h' : Hub} {e : Nat}
    (hheap : h'.heap[e]?.map (fun rs => (rs.workerID, rs.phase)) = h.heap[e]?.map (fun rs => (rs.workerID, rs.phase)))
    (workerID : String) : h'.running workerID e = h.running workerID e := by
  unfold Hub.running
  cases ha : h.heap[e]? with
  | none =>
    rw [ha, Option.map_none, Option.map_eq_none_iff] at hheap
    rw [hheap]
  | some rs =>
    rw [ha, Option.map_some, Option.map_eq_some_iff] at hheap
    obtain ⟨rs', hrs', hsame⟩ := hheap
    obtain ⟨hworker, hphase⟩ := Prod.mk.inj hsame
    rw [hrs']
    simp only [Option.any_some, hworker, hphase]

/-- The two states agree in what the counters depend on; sessions and refs may
have gone, but no running ref. -/
structure Frame (h h' : Hub) : Prop where
  sessions : ∀ w i, h'.sessions.lookup w = some i → h.sessions.lookup w = some i
  refs : ∀ ref e, h'.refs.lookup ref = some e → h.refs.lookup ref = some e
  load : ∀ w, load h' w = load h w
  heap : ∀ e : Nat, h'.heap[e]?.map view = h.heap[e]?.map view
  active : ∀ i : Nat, h'.calls[i]?.map (fun c => (c.session.workerID, c.session.active)) =
    h.calls[i]?.map (fun c => (c.session.workerID, c.session.active))

/-- No reader has taken up an event. -/
def KeepsPending (h h' : Hub) : Prop :=
  ∀ i e ev, h'.stage? i = some (.applying e ev) → h.stage? i = some (.applying e ev)

namespace Frame
variable {h h' h'' : Hub}

theorem refl (h : Hub) : Frame h h := ⟨fun _ _ hw => hw, fun _ _ hr => hr, fun _ => rfl, fun _ => rfl, fun _ => rfl⟩

theorem trans (a : Frame h h') (b : Frame h' h'') : Frame h h'' :=
  ⟨fun w i hw => a.sessions w i (b.sessions w i hw), fun ref e hr => a.refs ref e (b.refs ref e hr),
    fun w => (b.load w).trans (a.load w), fun e => (b.heap e).trans (a.heap e), fun i => (b.active i).trans (a.active i)⟩

theorem onCall {i : Nat} {f : Call → Call}
    (hf : ∀ c, (f c).session.workerID = c.session.workerID ∧ (f c).session.active = c.session.active) :
    Frame h (h.onCall i f) := by
  refine ⟨fun _ _ hw => hw, fun _ _ hr => hr, fun _ => rfl, fun _ => rfl, ?_⟩
  intro j
  by_cases hij : i = j
  · subst hij
    rw [Hub.onCall_calls, List.getElem?_modify_eq]
    cases h.calls[i]? with
    | none => rfl
    | some c => exact congrArg some (Prod.ext (hf c).1 (hf c).2)
  · rw [Hub.onCall_calls, List.getElem?_modify_ne _ _ hij]

theorem onSession {i : Nat} {f : Session → Session}
    (hf : ∀ s, (f s).workerID = s.workerID ∧ (f s).active = s.active) : Frame h (h.onSession i f) :=
  onCall (fun c => hf c.session)

theorem enqueue {i : Nat} {m : ServerMessage} : Frame h (h.onSession i (·.enqueue m)) := by
  refine onSession ?_
  intro s
  unfold Session.enqueue
  split <;> exact ⟨rfl, rfl⟩

theorem onEntry {e : Nat} {f : RefState → RefState} (hf : ∀ rs, h.heap[e]? = some rs → view (f rs) = view rs) :
    Frame h (h.onEntry e f) := by
  have hheap : ∀ j : Nat, (h.onEntry e f).heap[j]?.map view = h.heap[j]?.map view := by
    intro j
    by_cases hej : e = j
    · subst hej
      rw [Hub.onEntry_heap, List.getElem?_modify_eq]
      cases hrs : h.heap[e]? with
      | none => rfl
      | some rs => exact congrArg some (hf rs hrs)
    · rw [Hub.onEntry_heap, List.getElem?_modify_ne _ _ hej]
  refine ⟨fun _ _ hw => hw, fun _ _ hr => hr, ?_, hheap, fun _ => rfl⟩
  intro w
  refine Registry.count_congr ?_
  intro ref j _
  refine running_congr ?_ w
  have hview := congrArg (Option.map (fun v : String × Phase × Bool => (v.1, v.2.1))) (hheap j)
  rwa [Option.map_map, Option.map_map] at hview

theorem goto {i : Nat} {stage : Stage} : Frame h (h.goto i stage) := onCall (fun _ => ⟨rfl, rfl⟩)

theorem touch {i : Nat} {now : Time} : Frame h (h.touch i now) := onSession (fun _ => ⟨rfl, rfl⟩)

theorem closeDone {i : Nat} : Frame h (h.closeDone i) := by
  have hclosed : Frame h (h.onSession i (fun s => { s with closed := true })) := onSession (fun _ => ⟨rfl, rfl⟩)
  exact ⟨hclosed.sessions, hclosed.refs, hclosed.load, hclosed.heap, hclosed.active⟩

theorem foldl {α : Type} {f : Hub → α → Hub} (hf : ∀ h x, Frame h (f h x)) (l : List α) (h : Hub) :
    Frame h (l.foldl f h) := by
  induction l generalizing h with
  | nil => exact refl h
  | cons x l ih => exact (hf h x).trans (ih (f h x))

theorem closeLog {e : Nat} : Frame h (h.onEntry e RefState.closeLog) := onEntry (fun _ _ => rfl)

/-- Refs that do not run may go. -/
theorem keepRefs {p : String → Nat → Bool} (hp : ∀ ref e w, h.running w e = true → p ref e = true) :
    Frame h { h with refs := Registry.keep h.refs p } := by
  refine ⟨fun _ _ hw => hw, ?_, ?_, fun _ => rfl, fun _ => rfl⟩
  · intro ref e hr
    exact (Registry.lookup_keep.1 hr).1
  · intro w
    refine Registry.count_keep.trans (Registry.count_congr ?_)
    intro ref e _
    change (h.running w e && p ref e) = h.running w e
    cases hrun : h.running w e with
    | false => rfl
    | true => rw [hp ref e w hrun, Bool.and_true]

theorem collect (now : Time) : Frame h (h.collect now) := by
  refine Frame.trans (keepRefs ?_) (foldl (fun _ _ => closeLog) _ _)
  intro ref e w hrun
  obtain ⟨rs, hrs, -, hphase⟩ := running_iff.1 hrun
  simp [Hub.expired, hrs, hphase]

theorem sweep {now : Time} : Frame h (h.sweep now) := by
  have hkeep : Frame h { h with sessions := Registry.keep h.sessions (fun _ i => !h.silent now i) } :=
    ⟨fun w i hw => (Registry.lookup_keep.1 hw).1, fun _ _ hr => hr, fun _ => rfl, fun _ => rfl, fun _ => rfl⟩
  have hstale : Frame h (h.closeStale now) := hkeep.trans (foldl (fun _ _ => closeDone) _ _)
  have hcollected := hstale.trans (collect now)
  exact ⟨hcollected.sessions, hcollected.refs, hcollected.load, hcollected.heap, hcollected.active⟩

theorem onChunk_view (rs : RefState) (c : LogChunk) (disk : RefState.Disk) : view (rs.onChunk c disk).state = view rs := by
  unfold RefState.onChunk
  dsimp only
  split
  · rfl
  · split
    · rfl
    · split
      · rfl
      · split <;> split <;> rfl

theorem handleLogChunk {i : Nat} {c : LogChunk} {disk : RefState.Disk} : Frame h (h.handleLogChunk i c disk) := by
  unfold Hub.handleLogChunk
  split
  case h_1 call e _ _ =>
    split
    case h_1 rs hrs =>
      split
      · have hentry : Frame h (h.onEntry e (fun _ => (rs.onChunk c disk).state)) := by
          refine onEntry ?_
          intro rs' hrs'
          rw [hrs] at hrs'
          cases hrs'
          exact onChunk_view rs c disk
        dsimp only
        split
        · exact hentry.trans enqueue
        · exact hentry
      · exact refl h
    case h_2 => exact refl h
  case h_2 => exact refl h

theorem onWorker {workerID : String} {f : Session → Session}
    (hf : ∀ s, (f s).workerID = s.workerID ∧ (f s).active = s.active) : Frame h (h.onWorker workerID f) := by
  unfold Hub.onWorker
  split
  · exact onSession hf
  · exact refl h

theorem cancel {ref : String} : Frame h (h.cancel ref) := by
  unfold Hub.cancel
  split
  · refine onWorker ?_
    intro s
    unfold Session.enqueue
    split <;> exact ⟨rfl, rfl⟩
  · exact refl h

theorem eraseSession {workerID : String} : Frame h { h with sessions := h.sessions.erase workerID } :=
  ⟨fun _ _ hw => (Registry.lookup_erase_cases hw).2, fun _ _ hr => hr, fun _ => rfl, fun _ => rfl, fun _ => rfl⟩

theorem dropSession {i : Nat} : Frame h (h.dropSession i) := by
  unfold Hub.dropSession
  split
  · split
    · exact eraseSession.trans closeDone
    · exact refl h
  · exact refl h

theorem disconnect {workerID : String} : Frame h (h.disconnect workerID) := by
  unfold Hub.disconnect
  split
  · exact closeDone.trans eraseSession
  · exact refl h

theorem eraseRef {ref : String} (hidle : ∀ e w, h.refs.lookup ref = some e → h.running w e = false) :
    Frame h { h with refs := h.refs.erase ref } := by
  refine ⟨fun _ _ hw => hw, fun _ _ hr => (Registry.lookup_erase_cases hr).2, ?_, fun _ => rfl, fun _ => rfl⟩
  intro w
  change Registry.count (h.refs.erase ref) _ = Registry.count h.refs _
  cases he : h.refs.lookup ref with
  | none => exact (Registry.count_of_lookup_none he).symm
  | some e =>
    rw [Registry.count_of_lookup he, if_neg (by rw [hidle e w he]; decide), Nat.add_zero]
    rfl

theorem forget {ref : String} : Frame h (h.forget ref) := by
  unfold Hub.forget
  split
  case h_1 e he =>
    split
    case isTrue hterminal =>
      refine Frame.trans closeLog (eraseRef ?_)
      intro e' w he'
      rw [Hub.onEntry_refs, he] at he'
      cases he'
      by_contra hrun
      rw [Bool.not_eq_false] at hrun
      obtain ⟨rs, hrs, -, hphase⟩ := running_iff.1 hrun
      rw [Hub.onEntry_heap, List.getElem?_modify_eq] at hrs
      cases hold : h.heap[e]? with
      | none =>
        rw [hold] at hrs
        cases hrs
      | some rs' =>
        rw [hold] at hrs hterminal
        cases hrs
        simp only [Option.any_some, decide_eq_true_eq] at hterminal
        exact hterminal hphase
    case isFalse => exact refl h
  case h_2 => exact refl h

theorem reorder {sessions refs : Registry String Nat} (hsessions : sessions.entries.Perm h.sessions.entries)
    (hrefs : refs.entries.Perm h.refs.entries) : Frame h { h with sessions := sessions, refs := refs } := by
  refine ⟨?_, ?_, ?_, fun _ => rfl, fun _ => rfl⟩
  · intro w i hw
    rw [← AList.perm_lookup hsessions]
    exact hw
  · intro ref e hr
    rw [← AList.perm_lookup hrefs]
    exact hr
  · intro w
    exact Registry.count_perm hrefs

end Frame

/-- What holds of the records whatever the workers send. -/
structure Wired (h : Hub) : Prop where
  sound : Sound h
  known : ∀ ref e, h.refs.lookup ref = some e → e < h.heap.length
  once : ∀ ref ref' e, h.refs.lookup ref = some e → h.refs.lookup ref' = some e → ref = ref'
  held : ∀ (i : Nat) (c : Call) (e : Nat) ev, h.calls[i]? = some c → c.stage = .applying e ev →
    ∃ rs : RefState, h.heap[e]? = some rs ∧ rs.workerID = c.session.workerID

/-- The counters are exact, and an attempt that was given up as lost belongs to
a worker without a session. -/
structure Accounted (h : Hub) : Prop where
  active : ∀ w i (c : Call), h.sessions.lookup w = some i → h.calls[i]? = some c → c.session.active = load h w
  lost : ∀ ref e (rs : RefState), h.refs.lookup ref = some e → h.heap[e]? = some rs → rs.phase = .running → rs.lost = true →
    h.sessions.lookup rs.workerID = none

section Frame
variable {h h' : Hub}

theorem Frame.entry (hf : Frame h h') {e : Nat} {rs' : RefState} (hrs : h'.heap[e]? = some rs') :
    ∃ rs, h.heap[e]? = some rs ∧ view rs = view rs' := by
  have hview := hf.heap e
  rw [hrs] at hview
  exact Option.map_eq_some_iff.1 hview.symm

theorem Frame.entry' (hf : Frame h h') {e : Nat} {rs : RefState} (hrs : h.heap[e]? = some rs) :
    ∃ rs', h'.heap[e]? = some rs' ∧ view rs' = view rs := by
  have hview := hf.heap e
  rw [hrs] at hview
  exact Option.map_eq_some_iff.1 hview

theorem Frame.call (hf : Frame h h') {i : Nat} {c' : Call} (hc : h'.calls[i]? = some c') :
    ∃ c, h.calls[i]? = some c ∧ c.session.workerID = c'.session.workerID ∧ c.session.active = c'.session.active := by
  have hacct := hf.active i
  rw [hc] at hacct
  obtain ⟨c, hc, hsame⟩ := Option.map_eq_some_iff.1 hacct.symm
  exact ⟨c, hc, (Prod.mk.inj hsame).1, (Prod.mk.inj hsame).2⟩

theorem Wired.frame (hw : Wired h) (hf : Frame h h') (hs : Sound h') (hpending : KeepsPending h h') : Wired h' := by
  refine ⟨hs, ?_, ?_, ?_⟩
  · intro ref e hr
    obtain ⟨rs', hrs', -⟩ := hf.entry' (List.getElem?_eq_getElem (hw.known ref e (hf.refs ref e hr)))
    exact (List.getElem?_eq_some_iff.1 hrs').1
  · intro ref ref' e hr hr'
    exact hw.once ref ref' e (hf.refs ref e hr) (hf.refs ref' e hr')
  · intro i c' e ev hc' hstage
    have hst : h'.stage? i = some (.applying e ev) := by rw [Hub.stage?, hc', Option.map_some, hstage]
    obtain ⟨c, hc, hstage'⟩ := Option.map_eq_some_iff.1 (hpending i e ev hst)
    obtain ⟨c₁, hc₁, hworker, -⟩ := hf.call hc'
    rw [hc] at hc₁
    cases hc₁
    obtain ⟨rs, hrs, howner⟩ := hw.held i c e ev hc hstage'
    obtain ⟨rs', hrs', hview⟩ := hf.entry' hrs
    exact ⟨rs', hrs', (Prod.mk.inj hview).1.trans (howner.trans hworker)⟩

theorem Accounted.frame (ha : Accounted h) (hf : Frame h h') : Accounted h' := by
  constructor
  · intro w i c' hw hc'
    obtain ⟨c, hc, -, hactive⟩ := hf.call hc'
    rw [← hactive, hf.load w]
    exact ha.active w i c (hf.sessions w i hw) hc
  · intro ref e rs' hr hrs' hphase hlost
    obtain ⟨rs, hrs, hview⟩ := hf.entry hrs'
    have hworker : rs.workerID = rs'.workerID := congrArg (·.1) hview
    have hph : rs.phase = rs'.phase := congrArg (·.2.1) hview
    have hl : rs.lost = rs'.lost := congrArg (·.2.2) hview
    have hnone := ha.lost ref e rs (hf.refs ref e hr) hrs (hph.trans hphase) (hl.trans hlost)
    rw [hworker] at hnone
    by_contra hsome
    obtain ⟨i, hi⟩ := Option.ne_none_iff_exists'.1 hsome
    rw [hf.sessions _ _ hi] at hnone
    cases hnone

end Frame
theorem load_refs {h : Hub} {refs : Registry String Nat} {w : String} :
    load { h with refs := refs } w = Registry.count refs (fun _ e => h.running w e) := rfl

section Track
variable {h : Hub} {ref : String} {rs : RefState} {w : String}

theorem track_running {e : Nat} (he : e < h.heap.length) : (h.track ref rs).running w e = h.running w e := by
  unfold Hub.running
  rw [Hub.track]
  dsimp only
  rw [List.getElem?_append_left he]

theorem load_track (hw : Wired h) : load (h.track ref rs) w =
    Registry.count (h.refs.erase ref) (fun _ e => h.running w e) +
      if rs.workerID = w ∧ rs.phase = .running then 1 else 0 := by
  have hnew : (h.track ref rs).running w h.heap.length = decide (rs.workerID = w ∧ rs.phase = .running) := by
    simp [Hub.running, Hub.track]
  have hold : Registry.count (h.refs.erase ref) (fun _ e => (h.track ref rs).running w e) =
      Registry.count (h.refs.erase ref) (fun _ e => h.running w e) := by
    refine Registry.count_congr ?_
    intro ref' e hr
    exact track_running (hw.known ref' e (Registry.lookup_erase_cases hr).2)
  have hinsert : load (h.track ref rs) w = Registry.count (h.refs.erase ref) (fun _ e => (h.track ref rs).running w e) +
      if (h.track ref rs).running w h.heap.length then 1 else 0 := Registry.count_insert
  rw [hinsert, hold, hnew]
  by_cases hcounted : rs.workerID = w ∧ rs.phase = .running <;> simp [hcounted]

/-- A ref whose entry does not run for the worker adds nothing to its load. -/
theorem load_erase (hidle : ∀ e, h.refs.lookup ref = some e → h.running w e = false) :
    Registry.count (h.refs.erase ref) (fun _ e => h.running w e) = load h w := by
  unfold load
  cases he : h.refs.lookup ref with
  | none => exact (Registry.count_of_lookup_none he).symm
  | some e => rw [Registry.count_of_lookup he, if_neg (by rw [hidle e he]; decide), Nat.add_zero]

theorem track_wired (hw : Wired h) : Wired (h.track ref rs) := by
  refine ⟨hw.sound.same track_sameTable, ?_, ?_, ?_⟩
  · intro ref' e hr
    have hlen : (h.track ref rs).heap.length = h.heap.length + 1 := by simp [Hub.track]
    rcases Registry.lookup_insert_cases hr with ⟨-, rfl⟩ | ⟨-, hr⟩
    · omega
    · have := hw.known ref' e hr
      omega
  · intro ref₁ ref₂ e hr₁ hr₂
    rcases Registry.lookup_insert_cases hr₁ with ⟨href₁, he₁⟩ | ⟨-, hold₁⟩ <;>
      rcases Registry.lookup_insert_cases hr₂ with ⟨href₂, he₂⟩ | ⟨-, hold₂⟩
    · exact href₁.trans href₂.symm
    · exact absurd (he₁ ▸ hw.known ref₂ e hold₂) (lt_irrefl _)
    · exact absurd (he₂ ▸ hw.known ref₁ e hold₁) (lt_irrefl _)
    · exact hw.once ref₁ ref₂ e hold₁ hold₂
  · intro i c e ev hc hstage
    obtain ⟨rs', hrs', howner⟩ := hw.held i c e ev hc hstage
    refine ⟨rs', ?_, howner⟩
    rw [Hub.track]
    dsimp only
    rw [List.getElem?_append_left (List.getElem?_eq_some_iff.1 hrs').1]
    exact hrs'

/-- A record that is not lost keeps the given up ones apart from the registered workers. -/
theorem track_lost (hw : Wired h) (ha : Accounted h) (hnew : rs.lost = false) :
    ∀ ref' e (rs' : RefState), (h.track ref rs).refs.lookup ref' = some e → (h.track ref rs).heap[e]? = some rs' →
      rs'.phase = .running → rs'.lost = true → h.sessions.lookup rs'.workerID = none := by
  intro ref' e rs' hr hrs' hphase hlost
  rcases Registry.lookup_insert_cases hr with ⟨-, rfl⟩ | ⟨-, hr⟩
  · have hself : (h.track ref rs).heap[h.heap.length]? = some rs := by simp [Hub.track]
    rw [hself] at hrs'
    cases hrs'
    rw [hnew] at hlost
    cases hlost
  · refine ha.lost ref' e rs' hr ?_ hphase hlost
    rw [Hub.track] at hrs'
    dsimp only at hrs'
    rwa [List.getElem?_append_left (hw.known ref' e hr)] at hrs'

end Track

section Worker
variable {h : Hub} {w w' : String} {f : Session → Session} {i : Nat} {c' : Call}

/-- An update of a worker's session reaches the session registered for it and no other. -/
theorem onWorker_call (hs : Sound h) (hw : h.sessions.lookup w = some i) (hc' : (h.onWorker w' f).calls[i]? = some c') :
    ∃ c, h.calls[i]? = some c ∧ c'.session = if w = w' then f c.session else c.session := by
  unfold Hub.onWorker at hc'
  split at hc'
  case h_1 j hj =>
    by_cases hij : j = i
    · subst hij
      rw [Hub.onSession_calls, List.getElem?_modify_eq] at hc'
      obtain ⟨c, hc, rfl⟩ := Option.map_eq_some_iff.1 hc'
      refine ⟨c, hc, ?_⟩
      rw [if_pos (hs.worker_unique hw hj)]
    · have hww : w ≠ w' := by
        rintro rfl
        rw [hw] at hj
        exact hij (Option.some.inj hj).symm
      rw [Hub.onSession_calls, List.getElem?_modify_ne _ _ hij] at hc'
      refine ⟨c', hc', ?_⟩
      rw [if_neg hww]
  case h_2 hnone =>
    have hww : w ≠ w' := by
      rintro rfl
      rw [hw] at hnone
      cases hnone
    refine ⟨c', hc', ?_⟩
    rw [if_neg hww]

@[simp] theorem onWorker_refs : (h.onWorker w f).refs = h.refs := by
  unfold Hub.onWorker
  split <;> rfl

@[simp] theorem onWorker_heap : (h.onWorker w f).heap = h.heap := by
  unfold Hub.onWorker
  split <;> rfl

@[simp] theorem onWorker_sessions : (h.onWorker w f).sessions = h.sessions := by
  unfold Hub.onWorker
  split <;> rfl

theorem onWorker_load : load (h.onWorker w f) w' = load h w' := by
  unfold load Hub.running
  rw [onWorker_refs, onWorker_heap]

theorem onWorker_stage : (h.onWorker w f).stage? i = h.stage? i := by
  unfold Hub.onWorker
  split
  case h_1 j _ =>
    unfold Hub.stage?
    by_cases hij : j = i
    · subst hij
      rw [Hub.onSession_calls, List.getElem?_modify_eq]
      cases h.calls[j]? <;> rfl
    · rw [Hub.onSession_calls, List.getElem?_modify_ne _ _ hij]
  case h_2 => rfl

end Worker

/-- An adopted attempt runs, and its worker's counter goes up by one. -/
theorem adoptOrphan_accounted {h : Hub} (hw : Wired h) (ha : Accounted h) {ref : String} {rs : RefState}
    (hphase : rs.phase = .running) (hlost : rs.lost = false) : Accounted (h.adoptOrphan ref rs) := by
  unfold Hub.adoptOrphan
  split
  case isTrue => exact ha
  case isFalse huntracked =>
    have hnone : h.refs.lookup ref = none := by simpa using huntracked
    have hidle : ∀ w e, h.refs.lookup ref = some e → h.running w e = false := by
      intro w e he
      rw [hnone] at he
      cases he
    constructor
    · intro w i c' hreg hc'
      rw [onWorker_sessions] at hreg
      rw [onWorker_load, load_track hw, load_erase (hidle w)]
      obtain ⟨c, hc, hsession⟩ := onWorker_call (track_wired hw).sound hreg hc'
      have hactive := ha.active w i c hreg hc
      rw [hsession]
      by_cases hworker : w = rs.workerID
      · rw [if_pos hworker, if_pos ⟨hworker.symm, hphase⟩]
        push_cast
        rw [← hactive]
      · rw [if_neg hworker, if_neg (fun hc => hworker hc.1.symm)]
        exact hactive
    · intro ref' e rs' hr hrs' hphase' hlost'
      rw [onWorker_refs] at hr
      rw [onWorker_heap] at hrs'
      rw [onWorker_sessions]
      exact track_lost hw ha hlost ref' e rs' hr hrs' hphase' hlost'

/-- An entry that a launch may replace does not run for a registered worker. -/
theorem replaceable_idle {h : Hub} (ha : Accounted h) {ref w : String} {i e : Nat} (howned : h.owned ref = false)
    (hreg : h.sessions.lookup w = some i) (he : h.refs.lookup ref = some e) : h.running w e = false := by
  by_contra hrun
  rw [Bool.not_eq_false] at hrun
  obtain ⟨rs, hrs, rfl, hphase⟩ := running_iff.1 hrun
  have hlost : rs.lost = true := by
    by_contra hnot
    have : h.owned ref = true := by simpa [Hub.owned, he, hrs, hphase] using hnot
    rw [howned] at this
    cases this
  rw [ha.lost ref e rs he hrs hphase hlost] at hreg
  cases hreg

/-- What a launch can do: nothing, assign the attempt to the session registered
for its worker, or forget the entry. -/
theorem launch_cases {h : Hub} (hs : Sound h) (group : String) (spec : Hub.Spec) :
    (h.launch group spec).2 = h ∨
      h.owned spec.assign.ref = false ∧ ∃ w,
        ((h.launch group spec).2 = (h.track spec.assign.ref (spec.entry w)).onWorker w spec.push ∨
          (h.launch group spec).2 = { h.track spec.assign.ref (spec.entry w) with
            refs := (h.track spec.assign.ref (spec.entry w)).refs.erase spec.assign.ref }) := by
  unfold Hub.launch
  dsimp only
  split
  case isTrue => exact .inl rfl
  case isFalse howned =>
    rw [Bool.not_eq_true] at howned
    split
    case h_1 => exact .inl rfl
    case h_2 i c hbest =>
      obtain ⟨j, hj, hcall⟩ := Option.bind_eq_some_iff.1 hbest
      obtain ⟨c', hc, hpair⟩ := Option.map_eq_some_iff.1 hcall
      obtain ⟨rfl, rfl⟩ := Prod.mk.inj hpair
      refine .inr ⟨howned, c'.session.workerID, ?_⟩
      have hreg : h.sessions.lookup c'.session.workerID = some j := by
        obtain ⟨w, hw⟩ := best_registered hj
        have hopen := (hs.open_iff w j).1 hw
        simp only [table, List.getElem?_map, hc, Option.map_some, Option.some.injEq, Prod.mk.injEq] at hopen
        rw [hopen.1]
        exact hw
      split
      · left
        have hreg' : (h.track spec.assign.ref (spec.entry c'.session.workerID)).sessions.lookup c'.session.workerID = some j :=
          hreg
        unfold Hub.onWorker
        rw [hreg']
      · exact .inr rfl

/-- The entry that a launch has made and taken back leaves the refs it found, less its own. -/
theorem track_erase {h : Hub} {ref : String} {rs : RefState} :
    AList.erase ref (h.track ref rs).refs = AList.erase ref h.refs := by
  apply AList.ext
  change List.kerase ref (AList.insert ref h.heap.length h.refs).entries = List.kerase ref h.refs.entries
  rw [AList.entries_insert]
  exact List.kerase_cons_eq rfl

theorem launch_accounted {h : Hub} (hw : Wired h) (ha : Accounted h) (group : String) (spec : Hub.Spec) :
    Accounted (h.launch group spec).2 := by
  rcases launch_cases hw.sound group spec with heq | ⟨howned, w, heq | heq⟩
  · rw [heq]
    exact ha
  · rw [heq]
    constructor
    · intro w' i c' hreg hc'
      rw [onWorker_sessions] at hreg
      rw [onWorker_load, load_track hw, load_erase (fun e he => replaceable_idle ha howned hreg he)]
      obtain ⟨c, hc, hsession⟩ := onWorker_call (track_wired hw).sound hreg hc'
      have hactive := ha.active w' i c hreg hc
      rw [hsession]
      by_cases hww : w' = w
      · rw [if_pos hww, if_pos ⟨hww.symm, rfl⟩]
        push_cast
        rw [← hactive]
        rfl
      · rw [if_neg hww, if_neg (fun hc => hww hc.1.symm)]
        exact hactive
    · intro ref e rs hr hrs hphase hlost
      rw [onWorker_refs] at hr
      rw [onWorker_heap] at hrs
      rw [onWorker_sessions]
      exact track_lost hw ha rfl ref e rs hr hrs hphase hlost
  · rw [heq]
    constructor
    · intro w' i c hreg hc
      rw [ha.active w' i c hreg hc, ← load_erase (fun e he => replaceable_idle ha howned hreg he)]
      rw [load_refs, track_erase]
      refine congrArg _ (Registry.count_congr ?_)
      intro ref e hr
      rw [track_running]
      exact hw.known ref e (Registry.lookup_erase_cases hr).2
    · intro ref e rs hr hrs hphase hlost
      exact track_lost hw ha rfl ref e rs (Registry.lookup_erase_cases hr).2 hrs hphase hlost

section Record
variable {h : Hub} {e : Nat} {rs : RefState} {f : RefState → RefState} {w : String}

def Tracked (h : Hub) (e : Nat) : Prop := ∃ ref, h.refs.lookup ref = some e

theorem onEntry_running {j : Nat} (hej : e ≠ j) : (h.onEntry e f).running w j = h.running w j := by
  unfold Hub.running
  rw [Hub.onEntry_heap, List.getElem?_modify_ne _ _ hej]

theorem onEntry_running_self (hrs : h.heap[e]? = some rs) :
    (h.onEntry e f).running w e = decide ((f rs).workerID = w ∧ (f rs).phase = .running) := by
  unfold Hub.running
  rw [Hub.onEntry_heap, List.getElem?_modify_eq, hrs]
  rfl

/-- A record that no ref leads to counts for nobody. -/
theorem load_onEntry_untracked (hun : ¬ Tracked h e) : load (h.onEntry e f) w = load h w := by
  refine Registry.count_congr ?_
  intro ref j hr
  refine onEntry_running ?_
  rintro rfl
  exact hun ⟨ref, hr⟩

/-- A record that a ref leads to counts once. -/
theorem load_onEntry_tracked (hw : Wired h) (ht : Tracked h e) (hrs : h.heap[e]? = some rs) :
    load (h.onEntry e f) w + (if rs.workerID = w ∧ rs.phase = .running then 1 else 0) =
      load h w + if (f rs).workerID = w ∧ (f rs).phase = .running then 1 else 0 := by
  obtain ⟨ref, hr⟩ := ht
  have hself : h.running w e = decide (rs.workerID = w ∧ rs.phase = .running) := by
    unfold Hub.running
    rw [hrs]
    rfl
  have hrest : Registry.count (h.refs.erase ref) (fun _ j => (h.onEntry e f).running w j) =
      Registry.count (h.refs.erase ref) (fun _ j => h.running w j) := by
    refine Registry.count_congr ?_
    intro ref' j hr'
    obtain ⟨hne, hr'⟩ := Registry.lookup_erase_cases hr'
    refine onEntry_running ?_
    rintro rfl
    exact hne (hw.once ref' ref _ hr' hr)
  have hafter : load (h.onEntry e f) w =
      Registry.count (h.refs.erase ref) (fun _ j => (h.onEntry e f).running w j) +
        if (h.onEntry e f).running w e then 1 else 0 := Registry.count_of_lookup hr
  have hbefore : load h w = Registry.count (h.refs.erase ref) (fun _ j => h.running w j) +
        if h.running w e then 1 else 0 := Registry.count_of_lookup hr
  rw [hafter, hbefore, hrest, onEntry_running_self hrs, hself]
  simp only [decide_eq_true_eq]
  omega

theorem onEvent_workerID (rs : RefState) (ev : TaskEvent) (now : Time) : (rs.onEvent ev now).workerID = rs.workerID := by
  unfold RefState.onEvent
  dsimp only
  split <;> split <;> rfl

theorem onEvent_lost (rs : RefState) (ev : TaskEvent) (now : Time) : (rs.onEvent ev now).lost = rs.lost := by
  unfold RefState.onEvent
  dsimp only
  split <;> split <;> rfl

theorem onEvent_phase (rs : RefState) (ev : TaskEvent) (now : Time) : (rs.onEvent ev now).phase =
    if ev.launchError ≠ "" then .exited
    else match ev.phase with
      | .unspecified => rs.phase
      | .running => .running
      | .exited => .exited
      | .unknown => .unknown := by
  unfold RefState.onEvent
  by_cases herr : ev.launchError = "" <;> cases hp : ev.phase <;> simp [herr, RefState.closeLog]

end Record

/-- The event moves the phase of the record where the counter of its worker moves with it. -/
structure Steady (h : Hub) (e : Nat) (ev : TaskEvent) (rs : RefState) : Prop where
  /-- An exit is recorded for an attempt that has exited already, or that is
  tracked and runs. -/
  exited : ev.phase = .exited → rs.phase = .exited ∨ Tracked h e ∧ rs.phase = .running
  running : ev.phase = .running → ev.launchError = "" → Tracked h e → rs.phase = .running
  /-- Nothing else ends a tracked attempt that runs. -/
  ended : ev.phase = .unknown ∨ ev.phase ≠ .exited ∧ ev.launchError ≠ "" → Tracked h e → rs.phase ≠ .running

/-- An event is recorded only where it is steady, or for a worker without a session. -/
def SettlesLoad (h : Hub) : HubEvent → Prop
  | .record i _ => ∀ c e ev rs, h.calls[i]? = some c → c.stage = .applying e ev → h.heap[e]? = some rs →
      (h.sessions.lookup c.session.workerID).isSome → Steady h e ev rs
  | _ => True

/-- A steady event takes the attempt off its worker's load exactly when it is
the first exit. -/
theorem steady_load {h : Hub} (hw : Wired h) {e : Nat} {ev : TaskEvent} {rs : RefState} (hrs : h.heap[e]? = some rs)
    (hst : Steady h e ev rs) (now : Time) :
    load (h.onEntry e (fun rs => rs.onEvent ev now)) rs.workerID +
      (if ev.phase = .exited ∧ rs.phase ≠ .exited then 1 else 0) = load h rs.workerID := by
  by_cases ht : Tracked h e
  · have hcount := load_onEntry_tracked (f := fun rs => rs.onEvent ev now) (w := rs.workerID) hw ht hrs
    rw [onEvent_workerID, onEvent_phase] at hcount
    simp only [true_and] at hcount
    by_cases herr : ev.launchError = ""
    · simp only [herr, ne_eq, not_true_eq_false, if_false] at hcount
      cases hp : ev.phase with
      | unspecified =>
        simp [hp] at hcount
        simp [hcount]
      | running =>
        have hrun := hst.running hp herr ht
        simp [hp, hrun] at hcount
        simp [hcount]
      | exited =>
        rcases hst.exited hp with hdone | ⟨-, hrun⟩
        · simp [hp, hdone] at hcount
          simp [hcount, hdone]
        · simp [hp, hrun] at hcount
          simp [hcount, hrun]
      | unknown =>
        have hnot := hst.ended (.inl hp) ht
        simp [hp, hnot] at hcount
        simp [hcount]
    · simp only [ne_eq, herr, not_false_eq_true, if_true, reduceCtorEq, if_false] at hcount
      by_cases hex : ev.phase = .exited
      · rcases hst.exited hex with hdone | ⟨-, hrun⟩
        · simp [hdone] at hcount
          simp [hcount, hdone]
        · simp [hrun] at hcount
          simp [hcount, hex, hrun]
      · have hnot := hst.ended (.inr ⟨hex, herr⟩) ht
        simp [hnot] at hcount
        simp [hcount, hex]
  · have hnot : ¬ (ev.phase = .exited ∧ rs.phase ≠ .exited) := by
      rintro ⟨hex, hne⟩
      rcases hst.exited hex with hdone | ⟨ht', -⟩
      · exact hne hdone
      · exact ht ht'
    rw [load_onEntry_untracked ht, if_neg hnot, Nat.add_zero]

/-- The load of every other worker stays as it is. -/
theorem record_load_other {h : Hub} (hw : Wired h) {e : Nat} {ev : TaskEvent} {rs : RefState} (hrs : h.heap[e]? = some rs)
    {w : String} (hother : rs.workerID ≠ w) (now : Time) :
    load (h.onEntry e (fun rs => rs.onEvent ev now)) w = load h w := by
  by_cases ht : Tracked h e
  · have hcount := load_onEntry_tracked (f := fun rs => rs.onEvent ev now) (w := w) hw ht hrs
    rw [onEvent_workerID, if_neg (fun hc => hother hc.1), if_neg (fun hc => hother hc.1)] at hcount
    exact hcount
  · exact load_onEntry_untracked ht

/-- `recordEvent` takes one from the counter of the worker's session on a first
exit, and records the transition. -/
theorem recordEvent_cases {h : Hub} (hs : Sound h) (w : String) {e : Nat} (ev : TaskEvent) {rs : RefState} (now : Time)
    (hrs : h.heap[e]? = some rs) : ∃ h₁ : Hub,
      h.recordEvent w e ev now = h₁.onEntry e (fun rs => rs.onEvent ev now) ∧
        h₁.refs = h.refs ∧ h₁.heap = h.heap ∧ h₁.sessions = h.sessions ∧
        ∀ w' i c', h.sessions.lookup w' = some i → h₁.calls[i]? = some c' → ∃ d, h.calls[i]? = some d ∧
          c'.session.active = if w' = w ∧ (ev.phase = .exited ∧ rs.phase ≠ .exited) ∧ 0 < d.session.active
            then d.session.active - 1 else d.session.active := by
  unfold Hub.recordEvent
  rw [hrs, Option.any_some]
  by_cases hfirst : ev.phase = .exited ∧ rs.phase ≠ .exited
  · rw [if_pos (by simpa using hfirst)]
    refine ⟨_, rfl, onWorker_refs, onWorker_heap, onWorker_sessions, ?_⟩
    intro w' i c' hreg hc'
    obtain ⟨d, hd, hsession⟩ := onWorker_call hs hreg hc'
    refine ⟨d, hd, ?_⟩
    rw [hsession]
    by_cases hww : w' = w
    · rw [if_pos hww]
      by_cases hpos : 0 < d.session.active
      · rw [if_pos hpos, if_pos ⟨hww, hfirst, hpos⟩]
      · rw [if_neg hpos, if_neg (fun hc => hpos hc.2.2)]
    · rw [if_neg hww, if_neg (fun hc => hww hc.1)]
  · rw [if_neg (by simpa using hfirst)]
    refine ⟨_, rfl, rfl, rfl, rfl, ?_⟩
    intro w' i c' _ hc'
    refine ⟨c', hc', ?_⟩
    rw [if_neg (fun hc => hfirst hc.2.1)]

theorem recordEvent_accounted {h : Hub} (hw : Wired h) (ha : Accounted h) {e : Nat} {ev : TaskEvent} {rs : RefState}
    (now : Time) (hrs : h.heap[e]? = some rs) (hsteady : (h.sessions.lookup rs.workerID).isSome → Steady h e ev rs) :
    Accounted (h.recordEvent rs.workerID e ev now) := by
  obtain ⟨h₁, hh₁, hrefs, hheap, hsessions, hcall⟩ := recordEvent_cases hw.sound rs.workerID ev now hrs
  have hload : ∀ w', load (h₁.onEntry e (fun rs => rs.onEvent ev now)) w' =
      load (h.onEntry e (fun rs => rs.onEvent ev now)) w' := by
    intro w'
    unfold load Hub.running
    simp only [Hub.onEntry_refs, Hub.onEntry_heap, hrefs, hheap]
  rw [hh₁]
  constructor
  · intro w' i c' hreg hc'
    rw [Hub.onEntry_sessions, hsessions] at hreg
    obtain ⟨d, hd, hactive'⟩ := hcall w' i c' hreg hc'
    have hactive := ha.active w' i d hreg hd
    rw [hload, hactive']
    by_cases hww : w' = rs.workerID
    · have hcount := steady_load hw hrs (hsteady (by rw [← hww, hreg]; rfl)) now
      rw [← hww] at hcount
      by_cases hfirst : ev.phase = .exited ∧ rs.phase ≠ .exited
      · rw [if_pos hfirst] at hcount
        rw [if_pos ⟨hww, hfirst, by omega⟩]
        omega
      · rw [if_neg hfirst] at hcount
        rw [if_neg (fun hc => hfirst hc.2.1)]
        omega
    · rw [if_neg (fun hc => hww hc.1), record_load_other hw hrs (Ne.symm hww) now]
      exact hactive
  · intro ref j rs' hr hrs' hphase hlost
    rw [Hub.onEntry_sessions, hsessions]
    rw [Hub.onEntry_refs, hrefs] at hr
    rw [Hub.onEntry_heap, hheap] at hrs'
    by_cases hej : e = j
    · subst hej
      rw [List.getElem?_modify_eq, hrs] at hrs'
      cases hrs'
      rw [onEvent_workerID]
      rw [onEvent_lost] at hlost
      by_contra hsome
      have hst := hsteady (Option.isSome_iff_ne_none.2 hsome)
      -- the attempt runs after the event, so it ran before
      have hrun : rs.phase = .running := by
        rw [onEvent_phase] at hphase
        by_cases herr : ev.launchError = ""
        · rw [if_neg (not_not.2 herr)] at hphase
          cases hp : ev.phase <;> rw [hp] at hphase
          case unspecified => exact hphase
          case running => exact hst.running hp herr ⟨ref, hr⟩
          case exited => cases hphase
          case unknown => cases hphase
        · rw [if_pos herr] at hphase
          cases hphase
      exact hsome (ha.lost ref e rs hr hrs hrun hlost)
    · rw [List.getElem?_modify_ne _ _ hej] at hrs'
      exact ha.lost ref j rs' hr hrs' hphase hlost

/-- The records differ in the flag `lost` at most, which is set for workers
without a session only, or was taken back. -/
def Loosened (sessions : Registry String Nat) (heap heap' : List RefState) : Prop :=
  heap'.length = heap.length ∧ ∀ (e : Nat) (rs' : RefState), heap'[e]? = some rs' → ∃ rs : RefState, heap[e]? = some rs ∧
    rs'.workerID = rs.workerID ∧ rs'.phase = rs.phase ∧
      (rs'.lost = true → rs.lost = true ∨ sessions.lookup rs.workerID = none)

namespace Loosened
variable {sessions : Registry String Nat} {heap heap' heap'' : List RefState}

theorem refl : Loosened sessions heap heap := ⟨rfl, fun _ rs hrs => ⟨rs, hrs, rfl, rfl, .inl⟩⟩

theorem trans (a : Loosened sessions heap heap') (b : Loosened sessions heap' heap'') : Loosened sessions heap heap'' := by
  refine ⟨b.1.trans a.1, ?_⟩
  intro e rs'' hrs''
  obtain ⟨rs', hrs', hworker', hphase', hlost'⟩ := b.2 e rs'' hrs''
  obtain ⟨rs, hrs, hworker, hphase, hlost⟩ := a.2 e rs' hrs'
  refine ⟨rs, hrs, hworker'.trans hworker, hphase'.trans hphase, ?_⟩
  intro h
  rcases hlost' h with h | h
  · exact hlost h
  · exact .inr (hworker ▸ h)

theorem modify {e : Nat} {f : RefState → RefState}
    (hf : ∀ rs, (f rs).workerID = rs.workerID ∧ (f rs).phase = rs.phase ∧
      ((f rs).lost = true → rs.lost = true ∨ sessions.lookup rs.workerID = none)) :
    Loosened sessions heap (heap.modify e f) := by
  refine ⟨List.length_modify .., ?_⟩
  intro j rs' hrs'
  by_cases hej : e = j
  · subst hej
    rw [List.getElem?_modify_eq] at hrs'
    obtain ⟨rs, hrs, rfl⟩ := Option.map_eq_some_iff.1 hrs'
    exact ⟨rs, hrs, hf rs⟩
  · rw [List.getElem?_modify_ne _ _ hej] at hrs'
    exact ⟨rs', hrs', rfl, rfl, .inl⟩

theorem any_running (hl : Loosened sessions heap heap') (w : String) (e : Nat) :
    heap'[e]?.any (fun rs => rs.workerID = w ∧ rs.phase = .running) =
      heap[e]?.any (fun rs => rs.workerID = w ∧ rs.phase = .running) := by
  cases hrs' : heap'[e]? with
  | none =>
    have hlen := List.getElem?_eq_none_iff.1 hrs'
    rw [hl.1] at hlen
    rw [List.getElem?_eq_none_iff.2 hlen]
  | some rs' =>
    obtain ⟨rs, hrs, hworker, hphase, -⟩ := hl.2 e rs' hrs'
    rw [hrs, Option.any_some, Option.any_some, hworker, hphase]

theorem running {h h' : Hub} (hl : Loosened sessions h.heap h'.heap) (w : String) (e : Nat) :
    h'.running w e = h.running w e := hl.any_running w e

end Loosened

theorem releaseAll_loosened (h : Hub) (silent : List String) :
    Loosened h.sessions h.heap (h.releaseAll silent).heap ∧ (h.releaseAll silent).refs = h.refs ∧
      (h.releaseAll silent).calls = h.calls ∧ (h.releaseAll silent).sessions = h.sessions := by
  have hrelease : ∀ rs, (h.release silent rs).workerID = rs.workerID ∧ (h.release silent rs).phase = rs.phase ∧
      ((h.release silent rs).lost = true → rs.lost = true ∨ h.sessions.lookup rs.workerID = none) := by
    intro rs
    unfold Hub.release
    split
    case isTrue hcond => exact ⟨rfl, rfl, fun _ => .inr (Option.isNone_iff_eq_none.1 hcond.2.2.2)⟩
    case isFalse => exact ⟨rfl, rfl, .inl⟩
  have hfold : ∀ (l : List (Sigma fun _ : String => Nat)) (h' : Hub),
      Loosened h.sessions h'.heap (l.foldl (fun h' e => h'.onEntry e.2 (h.release silent)) h').heap ∧
        (l.foldl (fun h' e => h'.onEntry e.2 (h.release silent)) h').refs = h'.refs ∧
        (l.foldl (fun h' e => h'.onEntry e.2 (h.release silent)) h').calls = h'.calls ∧
        (l.foldl (fun h' e => h'.onEntry e.2 (h.release silent)) h').sessions = h'.sessions := by
    intro l
    induction l with
    | nil => exact fun h' => ⟨.refl, rfl, rfl, rfl⟩
    | cons e l ih =>
      intro h'
      obtain ⟨hheap, hrefs, hcalls, hsessions⟩ := ih (h'.onEntry e.2 (h.release silent))
      exact ⟨(Loosened.modify hrelease).trans hheap, hrefs, hcalls, hsessions⟩
  exact hfold h.refs.entries h

theorem markLost_accounted {h : Hub} (ha : Accounted h) (silentTooLong : List String) :
    Accounted (h.markLost silentTooLong) := by
  unfold Hub.markLost
  split
  case h_1 stale candidates _ =>
    generalize candidates.filter (fun w => stale.contains w || silentTooLong.contains w) = silent
    obtain ⟨hheap, hrefs, hcalls, hsessions⟩ := releaseAll_loosened h silent
    constructor
    · intro w i c hreg hc
      dsimp only at hreg hc
      rw [hsessions] at hreg
      rw [hcalls] at hc
      rw [ha.active w i c hreg hc]
      unfold load
      dsimp only
      rw [hrefs]
      refine congrArg _ (Registry.count_congr ?_)
      intro ref e _
      exact (hheap.running w e).symm
    · intro ref e rs' hr hrs' hphase hlost
      dsimp only at hr hrs' ⊢
      rw [hrefs] at hr
      rw [hsessions]
      obtain ⟨rs, hrs, hworker, hphase', hlost'⟩ := hheap.2 e rs' hrs'
      rw [hworker]
      rcases hlost' hlost with h | h
      · exact ha.lost ref e rs hr hrs (hphase'.symm.trans hphase) h
      · exact h
  case h_2 => exact ha

section Greet
variable {w : String} {known : List String}

theorem readopt_loosened (acc : List RefState × Session) (ref : String) (e : Nat) (sessions : Registry String Nat) :
    Loosened sessions acc.1 (Hub.readopt w known acc ref e).1 := by
  unfold Hub.readopt
  split
  · split
    · refine Loosened.modify ?_
      intro rs
      refine ⟨rfl, rfl, ?_⟩
      intro h
      cases h
    · exact .refl
  · exact .refl

/-- A ref that the loop has visited is not lost any more. -/
theorem readopt_found (acc : List RefState × Session) (ref : String) (e : Nat) {j : Nat} {rs' : RefState}
    (hrs' : (Hub.readopt w known acc ref e).1[j]? = some rs') (hworker : rs'.workerID = w) (hphase : rs'.phase = .running)
    (hlost : rs'.lost = true) : j ≠ e ∧ acc.1[j]? = some rs' := by
  unfold Hub.readopt at hrs'
  split at hrs'
  case h_1 rs hrs =>
    split at hrs'
    case isTrue =>
      by_cases hej : e = j
      · subst hej
        rw [List.getElem?_modify_eq] at hrs'
        obtain ⟨rs₀, -, rfl⟩ := Option.map_eq_some_iff.1 hrs'
        cases hlost
      · rw [List.getElem?_modify_ne _ _ hej] at hrs'
        exact ⟨Ne.symm hej, hrs'⟩
    case isFalse hnot =>
      refine ⟨?_, hrs'⟩
      rintro rfl
      rw [hrs] at hrs'
      cases hrs'
      exact hnot ⟨hworker, hphase⟩
  case h_2 hnone =>
    refine ⟨?_, hrs'⟩
    rintro rfl
    rw [hnone] at hrs'
    cases hrs'

theorem enqueue_active (s : Session) (m : ServerMessage) : (s.enqueue m).active = s.active := by
  unfold Session.enqueue
  split <;> rfl

theorem readopt_active (acc : List RefState × Session) (ref : String) (e : Nat) :
    (Hub.readopt w known acc ref e).2.active =
      acc.2.active + if acc.1[e]?.any (fun rs => rs.workerID = w ∧ rs.phase = .running) then 1 else 0 := by
  unfold Hub.readopt
  split
  case h_1 rs hrs =>
    rw [hrs, Option.any_some]
    split
    case isTrue hcond =>
      rw [if_pos (by simpa using hcond)]
      dsimp only
      split
      · rfl
      · rw [enqueue_active]
    case isFalse hcond =>
      rw [if_neg (by simpa using hcond)]
      exact (Int.add_zero _).symm
  case h_2 hnone =>
    rw [hnone]
    exact (Int.add_zero _).symm

theorem readopt_fold (l : List (Sigma fun _ : String => Nat)) (acc : List RefState × Session) (sessions : Registry String Nat) :
    Loosened sessions acc.1 (l.foldl (fun acc e => Hub.readopt w known acc e.1 e.2) acc).1 ∧
      (l.foldl (fun acc e => Hub.readopt w known acc e.1 e.2) acc).2.active =
        acc.2.active + l.countP (fun e => acc.1[e.2]?.any (fun rs => rs.workerID = w ∧ rs.phase = .running)) ∧
      ∀ j rs', (l.foldl (fun acc e => Hub.readopt w known acc e.1 e.2) acc).1[j]? = some rs' →
        rs'.workerID = w → rs'.phase = .running → rs'.lost = true → (∀ e ∈ l, j ≠ e.2) ∧ acc.1[j]? = some rs' := by
  induction l generalizing acc with
  | nil =>
    refine ⟨.refl, by simp, ?_⟩
    intro j rs' hrs' _ _ _
    exact ⟨by simp, hrs'⟩
  | cons x l ih =>
    have hone := @readopt_loosened w known acc x.1 x.2 sessions
    obtain ⟨hheap, hactive, hfound⟩ := ih (Hub.readopt w known acc x.1 x.2)
    refine ⟨hone.trans hheap, ?_, ?_⟩
    · rw [List.foldl_cons, hactive, readopt_active, List.countP_cons]
      simp only [hone.any_running w]
      split
      · push_cast
        omega
      · push_cast
        omega
    · intro j rs' hrs' hworker hphase hlost
      obtain ⟨hrest, hacc⟩ := hfound j rs' hrs' hworker hphase hlost
      obtain ⟨hne, hacc⟩ := readopt_found acc x.1 x.2 hacc hworker hphase hlost
      refine ⟨?_, hacc⟩
      intro e he
      rcases List.mem_cons.1 he with rfl | he
      · exact hne
      · exact hrest e he

@[simp] theorem closeOld_refs (h : Hub) : (h.closeOld w).refs = h.refs := by
  unfold Hub.closeOld
  split <;> rfl

@[simp] theorem closeOld_heap (h : Hub) : (h.closeOld w).heap = h.heap := by
  unfold Hub.closeOld
  split <;> rfl

theorem closeOld_frame (h : Hub) : Frame h (h.closeOld w) := by
  unfold Hub.closeOld
  split
  · exact .closeDone
  · exact .refl h

/-- What the first section of `Session` does to the records and to its own session. -/
theorem greet_records (h : Hub) (hello : Hello) (draining : Bool) (now : Time) :
    Loosened h.sessions h.heap (h.greet hello draining now).heap ∧ (h.greet hello draining now).refs = h.refs ∧
      (∀ ref e rs', h.refs.lookup ref = some e → (h.greet hello draining now).heap[e]? = some rs' →
        rs'.workerID = hello.workerID → rs'.phase = .running → rs'.lost = false) ∧
      ∃ c : Call, (h.greet hello draining now).calls = (h.closeOld hello.workerID).calls ++ [c] ∧
        c.session.active = load h hello.workerID ∧ ∀ e ev, c.stage ≠ .applying e ev := by
  obtain ⟨hheap, hactive, hfound⟩ := @readopt_fold hello.workerID hello.activeRefs h.refs.entries
    (h.heap, { workerID := hello.workerID, labels := hello.labels, draining := draining, lastSeen := now }) h.sessions
  unfold Hub.greet
  simp only [closeOld_refs, closeOld_heap]
  refine ⟨hheap, trivial, ?_, ?_⟩
  · intro ref e rs' hr hrs' hworker hphase
    by_contra hlost
    rw [Bool.not_eq_false] at hlost
    exact (hfound e rs' hrs' hworker hphase hlost).1 ⟨ref, e⟩ (Registry.mem_entries.2 hr) rfl
  · refine ⟨_, rfl, ?_, ?_⟩
    · rw [hactive, Int.zero_add]
      rfl
    · intro e ev hstage
      cases hstage

theorem greet_sessions (h : Hub) (hello : Hello) (draining : Bool) (now : Time) :
    (h.greet hello draining now).sessions = h.sessions.insert hello.workerID h.calls.length := by
  unfold Hub.greet
  simp only [closeOld_sessions]

/-- A new session starts with the attempts its worker had. -/
theorem greet_accounted {h : Hub} (hs : Sound h) (ha : Accounted h) (hello : Hello) (draining : Bool) (now : Time) :
    Accounted (h.greet hello draining now) := by
  obtain ⟨hheap, hrefs, hfound, c, hcalls, hactive, -⟩ := greet_records h hello draining now
  have hload : ∀ w, load (h.greet hello draining now) w = load h w := by
    intro w
    unfold load
    rw [hrefs]
    refine Registry.count_congr ?_
    intro ref e _
    exact hheap.running w e
  constructor
  · intro w i c' hreg hc'
    rw [greet_sessions] at hreg
    rw [hload]
    rcases Registry.lookup_insert_cases hreg with ⟨rfl, rfl⟩ | ⟨hne, hreg⟩
    · rw [hcalls, List.getElem?_append_right (by rw [closeOld_length]), closeOld_length, Nat.sub_self] at hc'
      cases hc'
      exact hactive
    · have hlt : i < (h.closeOld hello.workerID).calls.length := by
        rw [closeOld_length]
        exact Agrees.lt hs hreg
      rw [hcalls, List.getElem?_append_left hlt] at hc'
      obtain ⟨d, hd, -, hsame⟩ := (closeOld_frame h).call hc'
      rw [← hsame]
      exact ha.active w i d hreg hd
  · intro ref e rs' hr hrs' hphase hlost
    rw [hrefs] at hr
    rw [greet_sessions]
    obtain ⟨rs, hrs, hworker, hphase', hlost'⟩ := hheap.2 e rs' hrs'
    have hne : rs'.workerID ≠ hello.workerID := by
      intro heq
      rw [hfound ref e rs' hr hrs' heq hphase] at hlost
      cases hlost
    rw [AList.lookup_insert_ne hne, hworker]
    rcases hlost' hlost with hl | hl
    · exact ha.lost ref e rs hr hrs (hphase'.symm.trans hphase) hl
    · exact hl

end Greet

/-- The records that were there stay with their workers. -/
def Owners (h h' : Hub) : Prop :=
  ∀ (e : Nat) (rs : RefState), h.heap[e]? = some rs → ∃ rs', h'.heap[e]? = some rs' ∧ rs'.workerID = rs.workerID

/-- Every tracked ref has a record of its own. -/
structure Linked (h : Hub) : Prop where
  known : ∀ ref e, h.refs.lookup ref = some e → e < h.heap.length
  once : ∀ ref ref' e, h.refs.lookup ref = some e → h.refs.lookup ref' = some e → ref = ref'

section Records
variable {h h' : Hub}

theorem Wired.linked (hw : Wired h) : Linked h := ⟨hw.known, hw.once⟩

theorem Frame.records (hw : Wired h) (hf : Frame h h') : Linked h' ∧ Owners h h' := by
  refine ⟨⟨?_, ?_⟩, ?_⟩
  · intro ref e hr
    obtain ⟨rs', hrs', -⟩ := hf.entry' (List.getElem?_eq_getElem (hw.known ref e (hf.refs ref e hr)))
    exact (List.getElem?_eq_some_iff.1 hrs').1
  · intro ref ref' e hr hr'
    exact hw.once ref ref' e (hf.refs ref e hr) (hf.refs ref' e hr')
  · intro e rs hrs
    obtain ⟨rs', hrs', hview⟩ := hf.entry' hrs
    exact ⟨rs', hrs', congrArg (·.1) hview⟩

theorem Loosened.records (hw : Wired h) {sessions : Registry String Nat} (hl : Loosened sessions h.heap h'.heap)
    (hrefs : h'.refs = h.refs) : Linked h' ∧ Owners h h' := by
  refine ⟨⟨?_, ?_⟩, ?_⟩
  · intro ref e hr
    rw [hrefs] at hr
    rw [hl.1]
    exact hw.known ref e hr
  · intro ref ref' e hr hr'
    rw [hrefs] at hr hr'
    exact hw.once ref ref' e hr hr'
  · intro e rs hrs
    have hlt : e < h'.heap.length := by
      rw [hl.1]
      exact (List.getElem?_eq_some_iff.1 hrs).1
    obtain ⟨rs₁, hrs₁, hworker, -⟩ := hl.2 e _ (List.getElem?_eq_getElem hlt)
    rw [hrs] at hrs₁
    cases hrs₁
    exact ⟨_, List.getElem?_eq_getElem hlt, hworker⟩

theorem track_owners (ref : String) (rs : RefState) : Owners h (h.track ref rs) := by
  intro e rs' hrs'
  refine ⟨rs', ?_, rfl⟩
  rw [Hub.track]
  dsimp only
  rw [List.getElem?_append_left (List.getElem?_eq_some_iff.1 hrs').1]
  exact hrs'

theorem adoptOrphan_records (hw : Wired h) {ref : String} {rs : RefState} :
    Linked (h.adoptOrphan ref rs) ∧ Owners h (h.adoptOrphan ref rs) := by
  unfold Hub.adoptOrphan
  split
  · exact ⟨hw.linked, fun e rs hrs => ⟨rs, hrs, rfl⟩⟩
  · refine ⟨⟨?_, ?_⟩, ?_⟩
    · intro ref' e hr
      rw [onWorker_refs] at hr
      rw [onWorker_heap]
      exact (track_wired hw).known ref' e hr
    · intro ref₁ ref₂ e hr₁ hr₂
      rw [onWorker_refs] at hr₁ hr₂
      exact (track_wired hw).once ref₁ ref₂ e hr₁ hr₂
    · intro e rs' hrs'
      rw [onWorker_heap]
      exact track_owners ref rs e rs' hrs'

theorem launch_records (hw : Wired h) (group : String) (spec : Hub.Spec) :
    Linked (h.launch group spec).2 ∧ Owners h (h.launch group spec).2 := by
  rcases launch_cases hw.sound group spec with heq | ⟨-, w, heq | heq⟩
  · rw [heq]
    exact ⟨hw.linked, fun e rs hrs => ⟨rs, hrs, rfl⟩⟩
  · rw [heq]
    refine ⟨⟨?_, ?_⟩, ?_⟩
    · intro ref e hr
      rw [onWorker_refs] at hr
      rw [onWorker_heap]
      exact (track_wired hw).known ref e hr
    · intro ref₁ ref₂ e hr₁ hr₂
      rw [onWorker_refs] at hr₁ hr₂
      exact (track_wired hw).once ref₁ ref₂ e hr₁ hr₂
    · intro e rs hrs
      rw [onWorker_heap]
      exact track_owners spec.assign.ref (spec.entry w) e rs hrs
  · rw [heq]
    refine ⟨⟨?_, ?_⟩, ?_⟩
    · intro ref e hr
      exact (track_wired hw).known ref e (Registry.lookup_erase_cases hr).2
    · intro ref₁ ref₂ e hr₁ hr₂
      exact (track_wired hw).once ref₁ ref₂ e (Registry.lookup_erase_cases hr₁).2 (Registry.lookup_erase_cases hr₂).2
    · exact track_owners spec.assign.ref (spec.entry w)

theorem onEntry_records (hw : Wired h) {k : Nat} {f : RefState → RefState} (hf : ∀ rs, (f rs).workerID = rs.workerID)
    (hrefs : h'.refs = h.refs) (hheap : h'.heap = h.heap.modify k f) : Linked h' ∧ Owners h h' := by
  refine ⟨⟨?_, ?_⟩, ?_⟩
  · intro ref e hr
    rw [hrefs] at hr
    rw [hheap, List.length_modify]
    exact hw.known ref e hr
  · intro ref ref' e hr hr'
    rw [hrefs] at hr hr'
    exact hw.once ref ref' e hr hr'
  · intro e rs hrs
    rw [hheap]
    by_cases hke : k = e
    · subst hke
      refine ⟨f rs, ?_, hf rs⟩
      rw [List.getElem?_modify_eq, hrs]
      rfl
    · refine ⟨rs, ?_, rfl⟩
      rw [List.getElem?_modify_ne _ _ hke]
      exact hrs

end Records

section Step
variable {h h' : Hub} {e : HubEvent}

/-- Every event but four leaves what the counters depend on. -/
theorem step_frame (hstep : Hub.step h e = some h') :
    Frame h h' ∨ (∃ hello draining now, e = .connect hello draining now) ∨ (∃ i rows sizes, e = .adopt i rows sizes) ∨
      (∃ i now, e = .record i now) ∨ (∃ silentTooLong, e = .markLost silentTooLong) ∨ ∃ group spec, e = .launch group spec := by
  cases e with
  | connect hello draining now => exact .inr (.inl ⟨hello, draining, now, rfl⟩)
  | adopt i rows sizes => exact .inr (.inr (.inl ⟨i, rows, sizes, rfl⟩))
  | record i now => exact .inr (.inr (.inr (.inl ⟨i, now, rfl⟩)))
  | markLost silentTooLong => exact .inr (.inr (.inr (.inr (.inl ⟨silentTooLong, rfl⟩))))
  | launch group spec => exact .inr (.inr (.inr (.inr (.inr ⟨group, spec, rfl⟩))))
  | acknowledge i sent =>
    simp only [Hub.step] at hstep
    split at hstep
    · cases hstep
    · split at hstep
      · cases hstep
        exact .inl (.onCall (fun _ => ⟨rfl, rfl⟩))
      · cases hstep
        exact .inl .goto
  | heartbeat i now =>
    obtain ⟨-, hnext⟩ := Option.ite_none_right_eq_some.1 hstep
    cases hnext
    exact .inl .touch
  | taskEvent i ev now =>
    simp only [Hub.step, Hub.receiveEvent] at hstep
    split at hstep
    · split at hstep
      · cases hstep
        exact .inl (Frame.touch.trans .goto)
      · cases hstep
        exact .inl .touch
    · cases hstep
  | logChunk i c disk now =>
    obtain ⟨-, hnext⟩ := Option.ite_none_right_eq_some.1 hstep
    cases hnext
    exact .inl (Frame.touch.trans .handleLogChunk)
  | hangUp i =>
    obtain ⟨-, hnext⟩ := Option.ite_none_right_eq_some.1 hstep
    cases hnext
    exact .inl .goto
  | drop i =>
    obtain ⟨-, hnext⟩ := Option.ite_none_right_eq_some.1 hstep
    cases hnext
    exact .inl (Frame.dropSession.trans .goto)
  | finish i =>
    obtain ⟨-, hnext⟩ := Option.ite_none_right_eq_some.1 hstep
    cases hnext
    exact .inl .goto
  | write i sent =>
    simp only [Hub.step, Hub.write] at hstep
    split at hstep
    · split at hstep
      · cases hstep
        exact .inl (.onCall (fun _ => ⟨rfl, rfl⟩))
      · cases hstep
    · cases hstep
  | writerDone i =>
    simp only [Hub.step, Hub.writerDone] at hstep
    split at hstep
    · split at hstep
      · cases hstep
        exact .inl (.onCall (fun _ => ⟨rfl, rfl⟩))
      · cases hstep
    · cases hstep
  | sweep now =>
    obtain ⟨-, hnext⟩ := Option.ite_none_right_eq_some.1 hstep
    cases hnext
    exact .inl .sweep
  | disconnect workerID =>
    cases hstep
    exact .inl .disconnect
  | setDraining workerID draining =>
    cases hstep
    exact .inl (.onWorker (fun _ => ⟨rfl, rfl⟩))
  | cancel ref =>
    cases hstep
    exact .inl .cancel
  | forget ref =>
    cases hstep
    exact .inl .forget
  | reorder sessions refs =>
    obtain ⟨⟨hsessions, hrefs⟩, hnext⟩ := Option.ite_none_right_eq_some.1 hstep
    cases hnext
    exact .inl (.reorder hsessions hrefs)

theorem adopted_fresh (workerID taskID ref : String) (try' : Int) (rows : Option (List TaskInstance))
    (size : String → Option Nat) : (adopted workerID taskID ref try' rows size).phase = .running ∧
      (adopted workerID taskID ref try' rows size).lost = false := by
  unfold adopted
  dsimp only
  split <;> split <;> exact ⟨rfl, rfl⟩

theorem adoptRef_cases (workerID ref : String) (listing : String → Option (List TaskInstance)) (sizes : List (String × Nat)) :
    h.adoptRef workerID ref listing sizes = h ∨ ∃ rs, h.adoptRef workerID ref listing sizes = h.adoptOrphan ref rs ∧
      rs.phase = .running ∧ rs.lost = false := by
  unfold Hub.adoptRef
  split
  · exact .inr ⟨_, rfl, adopted_fresh _ _ _ _ _ _⟩
  · exact .inl rfl

theorem adoptNext_cases {i : Nat} {rows : Option (List TaskInstance)} {sizes : List (String × Nat)}
    (hstep : h.adoptNext i rows sizes = some h') : ∃ rest, h' = h.goto i (.adopting rest) ∨
      ∃ ref rs, h' = (h.goto i (.adopting rest)).adoptOrphan ref rs ∧ rs.phase = .running ∧ rs.lost = false := by
  unfold Hub.adoptNext at hstep
  split at hstep
  case h_1 ref rest s _ _ =>
    cases hstep
    rcases adoptRef_cases (h := h.goto i (.adopting rest)) s.workerID ref (fun _ => rows) sizes with heq | ⟨rs, heq, hfresh⟩
    · exact ⟨rest, .inl heq⟩
    · exact ⟨rest, .inr ⟨ref, rs, heq, hfresh⟩⟩
  case h_2 => cases hstep

/-- The event that a reader records, and its record. -/
theorem recordNext_cases (hw : Wired h) {i : Nat} {now : Time} (hstep : h.recordNext i now = some h') :
    ∃ (c : Call) (k : Nat) (ev : TaskEvent) (rs : RefState), h.calls[i]? = some c ∧ c.stage = .applying k ev ∧
      h.heap[k]? = some rs ∧ rs.workerID = c.session.workerID ∧
      h' = (h.recordEvent rs.workerID k ev now).goto i .reading := by
  unfold Hub.recordNext at hstep
  split at hstep
  case h_1 k ev s hstage hsession =>
    cases hstep
    obtain ⟨c, hc, hst⟩ := Option.map_eq_some_iff.1 hstage
    obtain ⟨c', hc', hse⟩ := Option.map_eq_some_iff.1 hsession
    rw [hc] at hc'
    cases hc'
    obtain ⟨rs, hrs, howner⟩ := hw.held i c k ev hc hst
    refine ⟨c, k, ev, rs, hc, hst, hrs, howner, ?_⟩
    rw [howner, hse]
  case h_2 => cases hstep

theorem goto_wired_records (hw : Wired h) {i : Nat} {stage : Stage} (hstage : ∀ k ev, stage ≠ .applying k ev) :
    Wired (h.goto i stage) := by
  refine ⟨hw.sound.same goto_sameTable, hw.known, hw.once, ?_⟩
  intro j c k ev hc hst
  by_cases hij : i = j
  · subst hij
    rw [Hub.goto, Hub.onCall_calls, List.getElem?_modify_eq] at hc
    obtain ⟨c', -, rfl⟩ := Option.map_eq_some_iff.1 hc
    exact absurd hst (hstage k ev)
  · rw [Hub.goto, Hub.onCall_calls, List.getElem?_modify_ne _ _ hij] at hc
    exact hw.held j c k ev hc hst

/-- Every event leaves the tracked refs with records of their own, and the
records with their workers. -/
theorem step_records (hw : Wired h) (hstep : Hub.step h e = some h') : Linked h' ∧ Owners h h' := by
  rcases step_frame hstep with hf | ⟨hello, draining, now, rfl⟩ | ⟨i, rows, sizes, rfl⟩ | ⟨i, now, rfl⟩ |
    ⟨silentTooLong, rfl⟩ | ⟨group, spec, rfl⟩
  · exact hf.records hw
  · cases hstep
    obtain ⟨hheap, hrefs, -⟩ := greet_records h hello draining now
    exact hheap.records hw hrefs
  · obtain ⟨rest, rfl | ⟨ref, rs, rfl, -⟩⟩ := adoptNext_cases hstep
    · exact Frame.goto.records hw
    · exact adoptOrphan_records (goto_wired_records hw (fun _ _ hs => by cases hs))
  · obtain ⟨c, k, ev, rs, -, -, hrs, -, rfl⟩ := recordNext_cases hw hstep
    obtain ⟨h₁, hh₁, hrefs, hheap, -⟩ := recordEvent_cases hw.sound rs.workerID ev now hrs
    refine onEntry_records (k := k) hw (fun rs => onEvent_workerID rs ev now) ?_ ?_
    · rw [Hub.goto, Hub.onCall_refs, hh₁, Hub.onEntry_refs, hrefs]
    · rw [Hub.goto, Hub.onCall_heap, hh₁, Hub.onEntry_heap, hheap]
  · obtain ⟨hsome, hnext⟩ := Option.ite_none_right_eq_some.1 hstep
    cases hnext
    unfold Hub.markLost
    split
    case h_1 stale candidates _ =>
      obtain ⟨hheap, hrefs, -⟩ := releaseAll_loosened h
        (candidates.filter (fun w => stale.contains w || silentTooLong.contains w))
      exact Loosened.records hw hheap hrefs
    case h_2 => exact ⟨hw.linked, fun e rs hrs => ⟨rs, hrs, rfl⟩⟩
  · cases hstep
    exact launch_records hw group spec

/-- Only a Hello makes a new call. -/
theorem step_no_call (hstep : Hub.step h e = some h') (hconnect : ∀ hello draining now, e ≠ .connect hello draining now)
    {i : Nat} (hnone : h.calls[i]? = none) : h'.calls[i]? = none := by
  have hsame : SameTable h h' → h'.calls[i]? = none := by
    intro hsame
    have hview : (table h')[i]? = (table h)[i]? := by rw [hsame.table]
    simp only [table, List.getElem?_map, hnone, Option.map_none, Option.map_eq_none_iff] at hview
    exact hview
  rcases step_frame hstep with hf | ⟨hello, draining, now, rfl⟩ | ⟨j, rows, sizes, rfl⟩ | ⟨j, now, rfl⟩ |
    ⟨silentTooLong, rfl⟩ | ⟨group, spec, rfl⟩
  · have hview := hf.active i
    rw [hnone] at hview
    exact Option.map_eq_none_iff.1 hview
  · exact absurd rfl (hconnect hello draining now)
  · exact hsame (adoptNext_sameTable hstep)
  · exact hsame (recordNext_sameTable hstep)
  · obtain ⟨-, hnext⟩ := Option.ite_none_right_eq_some.1 hstep
    cases hnext
    exact hsame markLost_sameTable
  · cases hstep
    exact hsame launch_sameTable

/-- An event that a reader holds was held before, or has just been received. -/
def HeldBefore (h : Hub) (i : Nat) (c' : Call) (k : Nat) (ev : TaskEvent) : Prop :=
  ∃ c, h.calls[i]? = some c ∧ c'.session.workerID = c.session.workerID ∧
    (c.stage = .applying k ev ∨ h.findEntry c.session.workerID ev.ref = some k)

/-- What others do to a reader does not make it hold an event. -/
theorem step_pending_other (hstep : Hub.step h e = some h') {i : Nat} {c' : Call} {k : Nat} {ev : TaskEvent}
    (hactor : e.actor ≠ some i) (hc' : h'.calls[i]? = some c') (hstage : c'.stage = .applying k ev) :
    HeldBefore h i c' k ev := by
  cases hc : h.calls[i]? with
  | some c =>
    obtain ⟨c₁, hc₁, hb⟩ := step_undisturbed hactor (length_of_call hc) hstep c hc
    rw [hc'] at hc₁
    cases hc₁
    exact ⟨c, hc, hb.workerID, .inl (hb.stage.symm.trans hstage)⟩
  | none =>
    by_cases hconnect : ∃ hello draining now, e = .connect hello draining now
    · obtain ⟨hello, draining, now, rfl⟩ := hconnect
      cases hstep
      obtain ⟨-, -, -, c, hcalls, -, hidle⟩ := greet_records h hello draining now
      have hlen := List.getElem?_eq_none_iff.1 hc
      rw [hcalls, List.getElem?_append_right (by rw [closeOld_length]; exact hlen)] at hc'
      have hmem := List.mem_of_getElem? hc'
      rw [List.mem_singleton] at hmem
      subst hmem
      exact absurd hstage (hidle k ev)
    · push Not at hconnect
      rw [step_no_call hstep hconnect hc] at hc'
      cases hc'

theorem goto_call {i : Nat} {stage : Stage} {c' : Call} (hc' : (h.goto i stage).calls[i]? = some c') :
    c'.stage = stage ∧ ∃ c, h.calls[i]? = some c ∧ c'.session = c.session := by
  rw [Hub.goto, Hub.onCall_calls, List.getElem?_modify_eq] at hc'
  obtain ⟨c, hc, rfl⟩ := Option.map_eq_some_iff.1 hc'
  exact ⟨rfl, c, hc, rfl⟩

theorem onCall_call {i : Nat} {f : Call → Call} {c' : Call} (hc' : (h.onCall i f).calls[i]? = some c') :
    ∃ c, h.calls[i]? = some c ∧ c' = f c := by
  rw [Hub.onCall_calls, List.getElem?_modify_eq] at hc'
  obtain ⟨c, hc, rfl⟩ := Option.map_eq_some_iff.1 hc'
  exact ⟨c, hc, rfl⟩

theorem stage?_of_call {i : Nat} {c : Call} (hc : h.calls[i]? = some c) : h.stage? i = some c.stage := by
  rw [Hub.stage?, hc, Option.map_some]

theorem touch_stage {i : Nat} {now : Time} : (h.touch i now).stage? i = h.stage? i := by
  rw [Hub.stage?, Hub.stage?, Hub.touch, Hub.onSession_calls, List.getElem?_modify_eq]
  cases h.calls[i]? <;> rfl

theorem handleLogChunk_stage {i : Nat} {c : LogChunk} {disk : RefState.Disk} :
    (h.handleLogChunk i c disk).stage? i = h.stage? i := by
  unfold Hub.handleLogChunk
  split
  · split
    · split
      · dsimp only
        split
        · rw [Hub.stage?, Hub.stage?, Hub.onSession_calls, Hub.onEntry_calls, List.getElem?_modify_eq]
          cases h.calls[i]? <;> rfl
        · rfl
      · rfl
    · rfl
  · rfl

theorem adoptOrphan_stage {i : Nat} {ref : String} {rs : RefState} :
    (h.adoptOrphan ref rs).stage? i = h.stage? i := by
  unfold Hub.adoptOrphan
  split
  · rfl
  · rw [onWorker_stage]
    rfl

/-- A call's own steps hold an event only when one has been received. -/
theorem step_pending_own (hstep : Hub.step h e = some h') {i : Nat} {c' : Call} {k : Nat} {ev : TaskEvent}
    (hactor : e.actor = some i) (hc' : h'.calls[i]? = some c') (hstage : c'.stage = .applying k ev) :
    HeldBefore h i c' k ev := by
  have hafter : h'.stage? i = some (.applying k ev) := by rw [stage?_of_call hc', hstage]
  -- the readers that were in the loop, or go to another stage, hold nothing
  have hreading : h'.stage? i = some .reading → HeldBefore h i c' k ev := by
    intro hr
    rw [hr] at hafter
    cases hafter
  have hgoto : ∀ (h₀ : Hub) (stage : Stage), h' = h₀.goto i stage → (∀ k ev, stage ≠ .applying k ev) →
      HeldBefore h i c' k ev := by
    rintro h₀ stage rfl hne
    exact absurd ((goto_call hc').1.symm.trans hstage) (hne k ev)
  cases e with
  | adopt j rows sizes =>
    cases hactor
    obtain ⟨rest, rfl | ⟨ref, rs, rfl, -⟩⟩ := adoptNext_cases hstep
    · exact hgoto h _ rfl (fun _ _ hs => by cases hs)
    · rw [adoptOrphan_stage, Hub.stage?] at hafter
      obtain ⟨c, hc, hs⟩ := Option.map_eq_some_iff.1 hafter
      rw [(goto_call hc).1] at hs
      cases hs
  | acknowledge j sent =>
    cases hactor
    simp only [Hub.step] at hstep
    split at hstep
    · cases hstep
    · split at hstep
      · cases hstep
        obtain ⟨c, -, rfl⟩ := onCall_call hc'
        cases hstage
      · cases hstep
        exact hgoto h .leaving rfl (fun _ _ hs => by cases hs)
  | heartbeat j now =>
    cases hactor
    obtain ⟨hr, hnext⟩ := Option.ite_none_right_eq_some.1 hstep
    cases hnext
    exact hreading (touch_stage.trans hr)
  | taskEvent j ev' now =>
    cases hactor
    simp only [Hub.step, Hub.receiveEvent] at hstep
    split at hstep
    case h_1 s hr hs =>
      split at hstep
      case h_1 k' hfound =>
        cases hstep
        obtain ⟨hst, c, hc, hsession⟩ := goto_call hc'
        cases hst.symm.trans hstage
        obtain ⟨d, hd, rfl⟩ := onCall_call hc
        obtain ⟨d', hd', hs'⟩ := Option.map_eq_some_iff.1 hs
        rw [hd] at hd'
        cases hd'
        refine ⟨d, hd, by rw [hsession], .inr ?_⟩
        rw [hs']
        exact hfound
      case h_2 =>
        cases hstep
        exact hreading (touch_stage.trans hr)
    case h_2 => cases hstep
  | record j now =>
    cases hactor
    simp only [Hub.step, Hub.recordNext] at hstep
    split at hstep
    · cases hstep
      exact hgoto _ .reading rfl (fun _ _ hs => by cases hs)
    · cases hstep
  | logChunk j c disk now =>
    cases hactor
    obtain ⟨hr, hnext⟩ := Option.ite_none_right_eq_some.1 hstep
    cases hnext
    exact hreading (handleLogChunk_stage.trans (touch_stage.trans hr))
  | hangUp j =>
    cases hactor
    obtain ⟨-, hnext⟩ := Option.ite_none_right_eq_some.1 hstep
    cases hnext
    exact hgoto h .leaving rfl (fun _ _ hs => by cases hs)
  | drop j =>
    cases hactor
    obtain ⟨-, hnext⟩ := Option.ite_none_right_eq_some.1 hstep
    cases hnext
    refine hgoto (h.dropSession i) _ rfl ?_
    intro k ev hs
    unfold Hub.afterDrop at hs
    split at hs <;> cases hs
  | finish j =>
    cases hactor
    obtain ⟨-, hnext⟩ := Option.ite_none_right_eq_some.1 hstep
    cases hnext
    exact hgoto h .returned rfl (fun _ _ hs => by cases hs)
  | write j sent =>
    cases hactor
    simp only [Hub.step, Hub.write] at hstep
    split at hstep
    · split at hstep
      · cases hstep
        obtain ⟨c, hc, rfl⟩ := onCall_call hc'
        exact ⟨c, hc, rfl, .inl hstage⟩
      · cases hstep
    · cases hstep
  | writerDone j =>
    cases hactor
    simp only [Hub.step, Hub.writerDone] at hstep
    split at hstep
    · split at hstep
      · cases hstep
        obtain ⟨c, hc, rfl⟩ := onCall_call hc'
        exact ⟨c, hc, rfl, .inl hstage⟩
      · cases hstep
    · cases hstep
  | connect | sweep | markLost | disconnect | setDraining | launch | cancel | forget | reorder => cases hactor

theorem step_wired (hw : Wired h) (hstep : Hub.step h e = some h') : Wired h' := by
  obtain ⟨hlinked, howners⟩ := step_records hw hstep
  refine ⟨step_sound hw.sound hstep, hlinked.known, hlinked.once, ?_⟩
  intro i c' k ev hc' hstage
  have hbefore : HeldBefore h i c' k ev := by
    by_cases hactor : e.actor = some i
    · exact step_pending_own hstep hactor hc' hstage
    · exact step_pending_other hstep hactor hc' hstage
  obtain ⟨c, hc, hworker, hheld⟩ := hbefore
  have hrecord : ∃ rs, h.heap[k]? = some rs ∧ rs.workerID = c.session.workerID := by
    rcases hheld with hst | hfound
    · exact hw.held i c k ev hc hst
    · obtain ⟨-, hown⟩ := Option.filter_eq_some_iff.1 hfound
      cases hrs : h.heap[k]? with
      | none =>
        rw [hrs] at hown
        cases hown
      | some rs =>
        rw [hrs] at hown
        exact ⟨rs, rfl, by simpa using hown⟩
  obtain ⟨rs, hrs, howner⟩ := hrecord
  obtain ⟨rs', hrs', hsame⟩ := howners k rs hrs
  exact ⟨rs', hrs', hsame.trans (howner.trans hworker.symm)⟩

/-- Events that are steady where they are recorded keep the counters exact. -/
theorem step_accounted (hw : Wired h) (ha : Accounted h) (hok : SettlesLoad h e) (hstep : Hub.step h e = some h') :
    Accounted h' := by
  rcases step_frame hstep with hf | ⟨hello, draining, now, rfl⟩ | ⟨i, rows, sizes, rfl⟩ | ⟨i, now, rfl⟩ |
    ⟨silentTooLong, rfl⟩ | ⟨group, spec, rfl⟩
  · exact ha.frame hf
  · cases hstep
    exact greet_accounted hw.sound ha hello draining now
  · obtain ⟨rest, rfl | ⟨ref, rs, rfl, hphase, hlost⟩⟩ := adoptNext_cases hstep
    · exact ha.frame .goto
    · exact adoptOrphan_accounted (goto_wired_records hw (fun _ _ hs => by cases hs)) (ha.frame .goto) hphase hlost
  · obtain ⟨c, k, ev, rs, hc, hst, hrs, howner, rfl⟩ := recordNext_cases hw hstep
    refine (recordEvent_accounted hw ha now hrs ?_).frame .goto
    intro hreg
    rw [howner] at hreg
    exact hok c k ev rs hc hst hrs hreg
  · obtain ⟨-, hnext⟩ := Option.ite_none_right_eq_some.1 hstep
    cases hnext
    exact markLost_accounted ha silentTooLong
  · cases hstep
    exact launch_accounted hw ha group spec

end Step

/-- The event is a message of the worker of call `i`, or the second half of one. -/
def IsMessage (i : Nat) (e : HubEvent) : Prop :=
  (∃ ev now, e = .taskEvent i ev now) ∨ (∃ now, e = .record i now) ∨ ∃ c disk now, e = .logChunk i c disk now

/-- A worker's message leaves the attempts of others as they are, with what was
written of their logs. -/
theorem foreign_unchanged {h h' : Hub} (hw : Wired h) {e : HubEvent} {i : Nat} {c : Call} (hmessage : IsMessage i e)
    (hc : h.calls[i]? = some c) (hstep : Hub.step h e = some h') {ref : String} {k : Nat} {rs : RefState}
    (hr : h.refs.lookup ref = some k) (hrs : h.heap[k]? = some rs) (hforeign : rs.workerID ≠ c.session.workerID) :
    h'.refs.lookup ref = some k ∧ h'.heap[k]? = some rs := by
  rcases hmessage with ⟨ev, now, rfl⟩ | ⟨now, rfl⟩ | ⟨chunk, disk, now, rfl⟩
  · simp only [Hub.step, Hub.receiveEvent] at hstep
    split at hstep
    · split at hstep <;> cases hstep <;> exact ⟨hr, hrs⟩
    · cases hstep
  · obtain ⟨c', k', ev, rs', hc', -, hrs', howner, rfl⟩ := recordNext_cases hw hstep
    rw [hc] at hc'
    cases hc'
    obtain ⟨h₁, hh₁, hrefs, hheap, -⟩ := recordEvent_cases hw.sound rs'.workerID ev now hrs'
    have hne : k' ≠ k := by
      rintro rfl
      rw [hrs] at hrs'
      cases hrs'
      exact hforeign howner
    constructor
    · rw [Hub.goto, Hub.onCall_refs, hh₁, Hub.onEntry_refs, hrefs]
      exact hr
    · rw [Hub.goto, Hub.onCall_heap, hh₁, Hub.onEntry_heap, hheap, List.getElem?_modify_ne _ _ hne]
      exact hrs
  · obtain ⟨-, hnext⟩ := Option.ite_none_right_eq_some.1 hstep
    cases hnext
    have hcall : (h.touch i now).calls[i]? = some { c with session := { c.session with lastSeen := now } } := by
      rw [Hub.touch, Hub.onSession_calls, List.getElem?_modify_eq, hc]
      rfl
    unfold Hub.handleLogChunk
    rw [hcall]
    split
    case h_1 call k' hcall' hk' =>
      cases hcall'
      split
      case h_1 rs' hrs' =>
        split
        case isTrue howner =>
          have hne : k' ≠ k := by
            rintro rfl
            rw [Hub.touch, Hub.onSession_heap, hrs] at hrs'
            cases hrs'
            exact hforeign howner
          dsimp only
          split
          · refine ⟨hr, ?_⟩
            rw [Hub.onSession_heap, Hub.onEntry_heap, List.getElem?_modify_ne _ _ hne]
            exact hrs
          · refine ⟨hr, ?_⟩
            rw [Hub.onEntry_heap, List.getElem?_modify_ne _ _ hne]
            exact hrs
        case isFalse => exact ⟨hr, hrs⟩
      case h_2 => exact ⟨hr, hrs⟩
    case h_2 => exact ⟨hr, hrs⟩

theorem new_wired (boot lostAfter bootGrace : Time) : Wired (Hub.new boot lostAfter bootGrace) := by
  refine ⟨new_sound boot lostAfter bootGrace, ?_, ?_, ?_⟩
  · intro ref e hr
    cases hr
  · intro ref ref' e hr
    cases hr
  · intro i c e ev hc
    cases hc

theorem new_accounted (boot lostAfter bootGrace : Time) : Accounted (Hub.new boot lostAfter bootGrace) := by
  constructor
  · intro w i c hw
    cases hw
  · intro ref e rs hr
    cases hr

theorem reaches_wired {boot lostAfter bootGrace : Time} {h : Hub}
    (hrun : Reaches Hub.step anyEvent (Hub.new boot lostAfter bootGrace) h) : Wired h :=
  hrun.keeps (new_wired boot lostAfter bootGrace) (fun _ _ _ hw _ hstep => step_wired hw hstep)

/-- In a run whose events settle, a registered session counts the running
attempts of its worker. In every run a worker's messages change only what the
worker owns. -/
theorem load_exact (boot lostAfter bootGrace : Time) :
    (∀ h, Reaches Hub.step SettlesLoad (Hub.new boot lostAfter bootGrace) h → ∀ w i c, h.sessions.lookup w = some i →
      h.calls[i]? = some c → c.session.workerID = w ∧ c.session.active = load h w) ∧
    (∀ h, Reaches Hub.step anyEvent (Hub.new boot lostAfter bootGrace) h → ∀ i c e h', IsMessage i e →
      h.calls[i]? = some c → Hub.step h e = some h' → ∀ ref k rs, h.refs.lookup ref = some k → h.heap[k]? = some rs →
        rs.workerID ≠ c.session.workerID → h'.refs.lookup ref = some k ∧ h'.heap[k]? = some rs) := by
  constructor
  · intro h hrun w i c hreg hc
    have hboth : (fun h => Wired h ∧ Accounted h) h := by
      apply hrun.keeps
      · exact ⟨new_wired boot lostAfter bootGrace, new_accounted boot lostAfter bootGrace⟩
      · intro _ _ _ hi hok hstep
        exact ⟨step_wired hi.1 hstep, step_accounted hi.1 hi.2 hok hstep⟩
    refine ⟨?_, hboth.2.active w i c hreg hc⟩
    have hopen := (hboth.1.sound.open_iff w i).1 hreg
    simp only [table, List.getElem?_map, hc, Option.map_some, Option.some.injEq, Prod.mk.injEq] at hopen
    exact hopen.1
  · intro h hrun i c e h' hmessage hc hstep ref k rs hr hrs hforeign
    exact foreign_unchanged (reaches_wired hrun) hmessage hc hstep hr hrs hforeign

def oneTask : Hub.Spec := { assign := { ref := "run/task/1" }, logPath := "task.log" }

/-- A launch, counted for the worker it went to. -/
theorem load_exact_launch :
    ∃ (h : Hub) (c : Call), h.calls[0]? = some c ∧ load h "w" = 1 ∧ c.session.active = load h "w" := by
  obtain ⟨h, hrun, hfacts⟩ := play_any Hub.step (fun _ e => ¬ e matches .record ..) (Hub.new 0 15 30)
    [.connect { workerID := "w" } false 1, .acknowledge 0 true, .launch "default" oneTask]
    (fun h => h.sessions.lookup "w" = some 0 ∧ h.calls[0]?.isSome ∧ load h "w" = 1) (by decide +kernel)
  simp only [decide_eq_true_eq] at hfacts
  obtain ⟨hreg, hcall, hload⟩ := hfacts
  obtain ⟨c, hc⟩ := Option.isSome_iff_exists.1 hcall
  have hsettled : Reaches Hub.step SettlesLoad (Hub.new 0 15 30) h := by
    refine hrun.mono ?_
    intro h e hother
    cases e <;> trivial
  exact ⟨h, c, hc, hload, ((load_exact 0 15 30).1 h hsettled "w" 0 c hreg hc).2⟩

/-- The worker answers the probe of its reconnect with no record of the attempt:
the attempt stops running, and the new session still counts it. -/
theorem load_inexact : ¬ ∀ h, Reaches Hub.step anyEvent (Hub.new 0 15 30) h → ∀ w i c, h.sessions.lookup w = some i →
    h.calls[i]? = some c → c.session.active = load h w := by
  intro hexact
  obtain ⟨h, hrun, hfacts⟩ := play_any Hub.step anyEvent (Hub.new 0 15 30)
    [.connect { workerID := "w" } false 1, .acknowledge 0 true, .launch "default" oneTask, .hangUp 0, .drop 0,
      .connect { workerID := "w" } false 2, .acknowledge 1 true, .write 1 true,
      .taskEvent 1 { ref := "run/task/1", phase := .unknown } 3, .record 1 3]
    (fun h => h.sessions.lookup "w" = some 1 ∧ h.calls[1]?.any (fun c => c.session.active = 1) ∧ load h "w" = 0)
    (by decide +kernel)
  simp only [decide_eq_true_eq, Option.any_eq_true] at hfacts
  obtain ⟨hreg, ⟨c, hc, hactive⟩, hload⟩ := hfacts
  have hequal := hexact h hrun "w" 1 c hreg hc
  rw [hactive, hload] at hequal
  cases hequal

end Cronova.Properties
