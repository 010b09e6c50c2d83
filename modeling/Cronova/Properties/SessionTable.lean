import Cronova.Remote.Sessions

/-! The hub's session table: which `Session` call is registered for a worker,
when its channel is closed, and that a call whose stream has ended returns. -/
namespace Cronova.Properties
open Cronova.Model Cronova.Concurrency Cronova.Remote

/-- The call is in the session table. -/
def Registered (h : Hub) (i : Nat) : Prop := ∃ w, h.sessions.lookup w = some i

/-- Worker and channel of every call. -/
def table (h : Hub) : List (String × Bool) := h.calls.map (fun c => (c.session.workerID, c.session.closed))

/-- The two states have the same session table. -/
structure SameTable (h h' : Hub) : Prop where
  sessions : h'.sessions = h.sessions
  table : table h' = table h
  panicked : h'.panicked = h.panicked

namespace SameTable
variable {h h' h'' : Hub}

theorem refl (h : Hub) : SameTable h h := ⟨rfl, rfl, rfl⟩

theorem trans (a : SameTable h h') (b : SameTable h' h'') : SameTable h h'' :=
  ⟨b.sessions.trans a.sessions, b.table.trans a.table, b.panicked.trans a.panicked⟩

end SameTable

private theorem map_modify_same {α β : Type} {l : List α} {i : Nat} {f : α → α} {view : α → β}
    (hf : ∀ a, view (f a) = view a) : (l.modify i f).map view = l.map view := by
  apply List.ext_getElem?
  intro j
  rw [List.getElem?_map, List.getElem?_map]
  by_cases hij : i = j
  · subst hij
    rw [List.getElem?_modify_eq]
    cases l[i]? with
    | none => rfl
    | some a => exact congrArg some (hf a)
  · rw [List.getElem?_modify_ne _ _ hij]

theorem onCall_sameTable {h : Hub} {i : Nat} {f : Call → Call}
    (hf : ∀ c, (f c).session.workerID = c.session.workerID ∧ (f c).session.closed = c.session.closed) :
    SameTable h (h.onCall i f) := by
  refine ⟨rfl, map_modify_same ?_, rfl⟩
  intro c
  rw [(hf c).1, (hf c).2]

theorem onSession_sameTable {h : Hub} {i : Nat} {f : Session → Session}
    (hf : ∀ s, (f s).workerID = s.workerID ∧ (f s).closed = s.closed) : SameTable h (h.onSession i f) :=
  onCall_sameTable (fun c => hf c.session)

theorem onEntry_sameTable {h : Hub} {e : Nat} {f : RefState → RefState} : SameTable h (h.onEntry e f) :=
  ⟨rfl, rfl, rfl⟩

theorem foldl_sameTable {α : Type} {f : Hub → α → Hub} (hf : ∀ h x, SameTable h (f h x)) (l : List α) (h : Hub) :
    SameTable h (l.foldl f h) := by
  induction l generalizing h with
  | nil => exact .refl h
  | cons x l ih => exact (hf h x).trans (ih (f h x))

theorem enqueue_same (s : Session) (m : ServerMessage) :
    (s.enqueue m).workerID = s.workerID ∧ (s.enqueue m).closed = s.closed := by
  unfold Session.enqueue
  split <;> exact ⟨rfl, rfl⟩

/-- The registered calls are those with an open channel, each under its own
worker, and no channel was closed twice. -/
structure Agrees (reg : String → Nat → Prop) (h : Hub) : Prop where
  open_iff : ∀ w i, reg w i ↔ (table h)[i]? = some (w, false)
  calm : h.panicked = false

/-- The session table agrees with the channels. -/
def Sound (h : Hub) : Prop := Agrees (fun w i => h.sessions.lookup w = some i) h

namespace Agrees
variable {reg reg' : String → Nat → Prop} {h h' : Hub}

theorem congr (ha : Agrees reg h) (hreg : ∀ w i, reg' w i ↔ reg w i) : Agrees reg' h :=
  ⟨fun w i => (hreg w i).trans (ha.open_iff w i), ha.calm⟩

theorem same (ha : Agrees reg h) (hsame : SameTable h h') : Agrees reg h' :=
  ⟨fun w i => by rw [hsame.table]; exact ha.open_iff w i, hsame.panicked.trans ha.calm⟩

/-- One call is registered for one worker only. -/
theorem worker_unique (ha : Agrees reg h) {w w' : String} {i : Nat} (hw : reg w i) (hw' : reg w' i) : w = w' := by
  have hopen := (ha.open_iff w i).1 hw
  rw [(ha.open_iff w' i).1 hw'] at hopen
  exact (Prod.mk.inj (Option.some.inj hopen)).1.symm

theorem table_closeDone (h : Hub) (i : Nat) :
    table (h.closeDone i) = (table h).modify i (fun x => (x.1, true)) := by
  apply List.ext_getElem?
  intro j
  by_cases hij : i = j
  · subst hij
    simp only [table, Hub.closeDone_calls, List.getElem?_map, List.getElem?_modify_eq]
    cases h.calls[i]? <;> rfl
  · rw [List.getElem?_modify_ne _ _ hij]
    simp only [table, Hub.closeDone_calls, List.getElem?_map, List.getElem?_modify_ne _ _ hij]

/-- Closing the channel of a registered call takes it off the table. -/
theorem close (ha : Agrees reg h) {w : String} {i : Nat} (hw : reg w i) :
    Agrees (fun w' i' => reg w' i' ∧ i' ≠ i) (h.closeDone i) := by
  have hopen := (ha.open_iff w i).1 hw
  constructor
  · intro w' i'
    rw [table_closeDone]
    by_cases hii : i = i'
    · subst hii
      rw [List.getElem?_modify_eq, hopen]
      simp
    · rw [List.getElem?_modify_ne _ _ hii, ← ha.open_iff w' i']
      exact ⟨fun hreg => hreg.1, fun hreg => ⟨hreg, Ne.symm hii⟩⟩
  · simp only [table, List.getElem?_map, Option.map_eq_some_iff] at hopen
    obtain ⟨c, hc, hview⟩ := hopen
    change (h.panicked || h.calls[i]?.any (·.session.closed)) = false
    rw [hc, ha.calm]
    exact (Prod.mk.inj hview).2

theorem closeAll (ha : Agrees reg h) {l : List Nat} (hnodup : l.Nodup) (hl : ∀ i ∈ l, ∃ w, reg w i) :
    Agrees (fun w i => reg w i ∧ i ∉ l) (l.foldl Hub.closeDone h) := by
  induction l generalizing h reg with
  | nil => exact ha.congr (fun w i => by simp)
  | cons i l ih =>
    obtain ⟨hi, hnodup⟩ := List.nodup_cons.1 hnodup
    obtain ⟨w, hw⟩ := hl i List.mem_cons_self
    have hrest := ih (ha.close hw) hnodup (by
      intro j hj
      obtain ⟨w', hw'⟩ := hl j (List.mem_cons_of_mem _ hj)
      exact ⟨w', hw', fun hji => hi (hji ▸ hj)⟩)
    refine hrest.congr ?_
    intro w' j
    simp only [List.mem_cons, not_or]
    tauto

end Agrees

theorem Sound.same {h h' : Hub} (hs : Sound h) (hsame : SameTable h h') : Sound h' := by
  have ha := Agrees.same hs hsame
  unfold Sound
  rw [hsame.sessions]
  exact ha

theorem readopt_same (workerID : String) (known : List String) (l : List (Sigma fun _ : String => Nat))
    (acc : List RefState × Session) :
    (l.foldl (fun acc e => Hub.readopt workerID known acc e.1 e.2) acc).2.workerID = acc.2.workerID ∧
      (l.foldl (fun acc e => Hub.readopt workerID known acc e.1 e.2) acc).2.closed = acc.2.closed := by
  induction l generalizing acc with
  | nil => exact ⟨rfl, rfl⟩
  | cons e l ih =>
    obtain ⟨hworker, hclosed⟩ := ih (Hub.readopt workerID known acc e.1 e.2)
    have hone : (Hub.readopt workerID known acc e.1 e.2).2.workerID = acc.2.workerID ∧
        (Hub.readopt workerID known acc e.1 e.2).2.closed = acc.2.closed := by
      unfold Hub.readopt
      split
      · split
        · dsimp only
          split
          · exact ⟨rfl, rfl⟩
          · exact enqueue_same _ _
        · exact ⟨rfl, rfl⟩
      · exact ⟨rfl, rfl⟩
    exact ⟨hworker.trans hone.1, hclosed.trans hone.2⟩

theorem table_append (h : Hub) (c : Call) (sessions : Registry String Nat) (heap : List RefState) :
    table { h with sessions := sessions, heap := heap, calls := h.calls ++ [c] } =
      table h ++ [(c.session.workerID, c.session.closed)] := List.map_append

theorem Agrees.lt {reg : String → Nat → Prop} {h : Hub} (ha : Agrees reg h) {w : String} {i : Nat} (hw : reg w i) :
    i < h.calls.length := by
  have hlt := (List.getElem?_eq_some_iff.1 ((ha.open_iff w i).1 hw)).1
  simpa [table] using hlt

/-- Without the session it had, the worker is not registered. -/
theorem closeOld_agrees {h : Hub} (hs : Sound h) (workerID : String) :
    Agrees (fun w i => h.sessions.lookup w = some i ∧ w ≠ workerID) (h.closeOld workerID) := by
  unfold Hub.closeOld
  cases hold : h.sessions.lookup workerID with
  | none =>
    refine hs.congr ?_
    intro w i
    constructor
    · exact fun hw => hw.1
    · intro hw
      refine ⟨hw, ?_⟩
      rintro rfl
      rw [hold] at hw
      cases hw
  | some old =>
    refine (hs.close hold).congr ?_
    intro w i
    constructor
    · rintro ⟨hw, hne⟩
      refine ⟨hw, ?_⟩
      rintro rfl
      exact hne (hs.worker_unique hw hold)
    · rintro ⟨hw, hne⟩
      refine ⟨hw, ?_⟩
      rintro rfl
      rw [hold] at hw
      exact hne (Option.some.inj hw).symm

@[simp] theorem closeOld_sessions (h : Hub) (workerID : String) : (h.closeOld workerID).sessions = h.sessions := by
  unfold Hub.closeOld
  split <;> rfl

@[simp] theorem closeOld_length (h : Hub) (workerID : String) :
    (h.closeOld workerID).calls.length = h.calls.length := by
  unfold Hub.closeOld
  split
  · simp
  · rfl

/-- A new session takes the place of the one its worker had. -/
theorem greet_sound {h : Hub} (hs : Sound h) (hello : Hello) (draining : Bool) (now : Time) :
    Sound (h.greet hello draining now) := by
  have ha := closeOld_agrees hs hello.workerID
  obtain ⟨hworker, hopen⟩ := readopt_same hello.workerID hello.activeRefs (h.closeOld hello.workerID).refs.entries
    ((h.closeOld hello.workerID).heap, { workerID := hello.workerID, labels := hello.labels, draining := draining, lastSeen := now })
  have hlen : (table (h.closeOld hello.workerID)).length = h.calls.length := by
    rw [← closeOld_length h hello.workerID]
    exact List.length_map _
  unfold Sound Hub.greet
  constructor
  · intro w i
    dsimp only
    rw [table_append, hworker, hopen, closeOld_sessions]
    by_cases hi : i < h.calls.length
    · rw [List.getElem?_append_left (by omega), ← ha.open_iff w i]
      constructor
      · intro hw
        rcases Registry.lookup_insert_cases hw with ⟨-, rfl⟩ | ⟨hne, hw⟩
        · omega
        · exact ⟨hw, hne⟩
      · rintro ⟨hw, hne⟩
        rw [AList.lookup_insert_ne hne]
        exact hw
    · rw [List.getElem?_append_right (by omega), hlen]
      constructor
      · intro hw
        rcases Registry.lookup_insert_cases hw with ⟨rfl, rfl⟩ | ⟨hne, hw⟩
        · simp
        · have hlt := ha.lt ⟨hw, hne⟩
          rw [closeOld_length] at hlt
          exact absurd hlt hi
      · intro hw
        have hi' : i - h.calls.length = 0 := by
          have := (List.getElem?_eq_some_iff.1 hw).1
          simp only [List.length_singleton] at this
          omega
        rw [hi'] at hw
        simp only [List.getElem?_cons_zero, Option.some.injEq, Prod.mk.injEq, and_true] at hw
        have hi'' : i = h.calls.length := by omega
        subst hi'' hw
        exact AList.lookup_insert _
  · exact ha.calm

/-- Taking a worker off the table closes its channel. -/
theorem erase_sound {h h' : Hub} (hs : Sound h) {w : String} {i : Nat} (hw : h.sessions.lookup w = some i)
    (hsessions : h'.sessions = h.sessions.erase w) (htable : table h' = table (h.closeDone i))
    (hpanicked : h'.panicked = (h.closeDone i).panicked) : Sound h' := by
  have ha := hs.close hw
  have hcalm : h'.panicked = false := hpanicked.trans ha.calm
  refine ⟨?_, hcalm⟩
  intro w' i'
  rw [hsessions, htable, ← ha.open_iff w' i']
  constructor
  · intro hw'
    obtain ⟨hne, hw'⟩ := Registry.lookup_erase_cases hw'
    refine ⟨hw', ?_⟩
    rintro rfl
    exact hne (hs.worker_unique hw' hw)
  · rintro ⟨hw', hne⟩
    have hww : w' ≠ w := by
      rintro rfl
      rw [hw] at hw'
      exact hne (Option.some.inj hw').symm
    rw [AList.lookup_erase_ne hww]
    exact hw'

theorem disconnect_sound {h : Hub} (hs : Sound h) (workerID : String) : Sound (h.disconnect workerID) := by
  unfold Hub.disconnect
  split
  case h_1 i hi => exact erase_sound hs hi rfl rfl rfl
  case h_2 => exact hs

theorem dropSession_sound {h : Hub} (hs : Sound h) (i : Nat) : Sound (h.dropSession i) := by
  unfold Hub.dropSession
  split
  case h_1 c _ =>
    split
    case isTrue hreg => exact erase_sound hs hreg rfl rfl rfl
    case isFalse => exact hs
  case h_2 => exact hs

theorem closeDone_fold_sessions (l : List (Sigma fun _ : String => Nat)) (h : Hub) :
    (l.foldl (fun h e => h.closeDone e.2) h).sessions = h.sessions := by
  induction l generalizing h with
  | nil => rfl
  | cons e l ih => exact ih (h.closeDone e.2)

theorem closeStale_sound {h : Hub} (hs : Sound h) (now : Time) : Sound (h.closeStale now) := by
  have hgone : ∀ e ∈ h.sessions.entries.filter (fun e => h.silent now e.2), h.sessions.lookup e.1 = some e.2 := by
    rintro ⟨w, i⟩ he
    exact Registry.mem_entries.1 (List.mem_filter.1 he).1
  have hnodup : ((h.sessions.entries.filter (fun e => h.silent now e.2)).map (·.2)).Nodup := by
    refine List.Nodup.map_on ?_ (h.sessions.nodupKeys.nodup.filter _)
    rintro ⟨w, i⟩ he ⟨w', i'⟩ he' hii
    dsimp only at hii
    subst hii
    obtain rfl : w = w' := hs.worker_unique (hgone ⟨w, i⟩ he) (hgone ⟨w', i⟩ he')
    rfl
  have hkept : Agrees (fun w i => h.sessions.lookup w = some i)
      { h with sessions := Registry.keep h.sessions (fun _ i => !h.silent now i) } := ⟨hs.open_iff, hs.calm⟩
  have hclosed := hkept.closeAll hnodup (by
    intro i hi
    obtain ⟨e, he, rfl⟩ := List.mem_map.1 hi
    exact ⟨e.1, hgone e he⟩)
  rw [List.foldl_map] at hclosed
  refine hclosed.congr ?_
  intro w i
  dsimp only [Hub.closeStale]
  rw [closeDone_fold_sessions, Registry.lookup_keep]
  constructor
  · rintro ⟨hw, hsilent⟩
    refine ⟨hw, ?_⟩
    intro hi
    obtain ⟨e, he, rfl⟩ := List.mem_map.1 hi
    rw [(List.mem_filter.1 he).2] at hsilent
    cases hsilent
  · rintro ⟨hw, hi⟩
    refine ⟨hw, ?_⟩
    by_contra hsilent
    refine hi (List.mem_map.2 ⟨⟨w, i⟩, List.mem_filter.2 ⟨Registry.mem_entries.2 hw, ?_⟩, rfl⟩)
    simpa using hsilent

theorem collect_sameTable (h : Hub) (now : Time) : SameTable h (h.collect now) := by
  have hrefs : SameTable h { h with refs := Registry.keep h.refs (fun _ e => !h.expired now e) } := ⟨rfl, rfl, rfl⟩
  exact hrefs.trans (foldl_sameTable (fun _ _ => onEntry_sameTable) _ _)

theorem sweep_sound {h : Hub} (hs : Sound h) (now : Time) : Sound (h.sweep now) := by
  have hcollected := (closeStale_sound hs now).same (collect_sameTable (h.closeStale now) now)
  exact ⟨hcollected.open_iff, hcollected.calm⟩

theorem reorder_sound {h : Hub} (hs : Sound h) {sessions refs : Registry String Nat}
    (hperm : sessions.entries.Perm h.sessions.entries) : Sound { h with sessions := sessions, refs := refs } := by
  refine ⟨?_, hs.calm⟩
  intro w i
  dsimp only
  rw [AList.perm_lookup hperm]
  exact hs.open_iff w i

section Operations
variable {h h' : Hub}

theorem goto_sameTable {i : Nat} {stage : Stage} : SameTable h (h.goto i stage) :=
  onCall_sameTable (fun _ => ⟨rfl, rfl⟩)

theorem touch_sameTable {i : Nat} {now : Time} : SameTable h (h.touch i now) :=
  onSession_sameTable (fun _ => ⟨rfl, rfl⟩)

theorem track_sameTable {ref : String} {rs : RefState} : SameTable h (h.track ref rs) := ⟨rfl, rfl, rfl⟩

theorem onWorker_sameTable {workerID : String} {f : Session → Session}
    (hf : ∀ s, (f s).workerID = s.workerID ∧ (f s).closed = s.closed) : SameTable h (h.onWorker workerID f) := by
  unfold Hub.onWorker
  split
  · exact onSession_sameTable hf
  · exact .refl h

theorem adoptOrphan_sameTable {ref : String} {rs : RefState} : SameTable h (h.adoptOrphan ref rs) := by
  unfold Hub.adoptOrphan
  split
  · exact .refl h
  · exact track_sameTable.trans (onWorker_sameTable (fun _ => ⟨rfl, rfl⟩))

theorem adoptRef_sameTable {workerID ref : String} {listing : String → Option (List TaskInstance)}
    {sizes : List (String × Nat)} : SameTable h (h.adoptRef workerID ref listing sizes) := by
  unfold Hub.adoptRef
  split
  · exact adoptOrphan_sameTable
  · exact .refl h

theorem recordEvent_sameTable {workerID : String} {e : Nat} {ev : TaskEvent} {now : Time} :
    SameTable h (h.recordEvent workerID e ev now) := by
  unfold Hub.recordEvent
  refine SameTable.trans ?_ onEntry_sameTable
  split
  · refine onWorker_sameTable ?_
    intro s
    split <;> exact ⟨rfl, rfl⟩
  · exact .refl h

theorem handleLogChunk_sameTable {i : Nat} {c : LogChunk} {disk : RefState.Disk} :
    SameTable h (h.handleLogChunk i c disk) := by
  unfold Hub.handleLogChunk
  split
  · split
    · split
      · dsimp only
        split
        · exact onEntry_sameTable.trans (onSession_sameTable (fun s => enqueue_same s _))
        · exact onEntry_sameTable
      · exact .refl h
    · exact .refl h
  · exact .refl h

theorem launch_sameTable {group : String} {spec : Hub.Spec} : SameTable h (h.launch group spec).2 := by
  unfold Hub.launch
  dsimp only
  split
  · exact .refl h
  · split
    · exact .refl h
    · split
      · dsimp only
        apply track_sameTable.trans
        apply onSession_sameTable
        exact fun _ => ⟨rfl, rfl⟩
      · exact ⟨rfl, rfl, rfl⟩

theorem cancel_sameTable {ref : String} : SameTable h (h.cancel ref) := by
  unfold Hub.cancel
  split
  · exact onWorker_sameTable (fun s => enqueue_same s _)
  · exact .refl h

theorem forget_sameTable {ref : String} : SameTable h (h.forget ref) := by
  unfold Hub.forget
  split
  · split <;> exact ⟨rfl, rfl, rfl⟩
  · exact .refl h

theorem releaseAll_sameTable {silent : List String} : SameTable h (h.releaseAll silent) :=
  foldl_sameTable (fun _ _ => onEntry_sameTable) _ _

theorem markLost_sameTable {silentTooLong : List String} : SameTable h (h.markLost silentTooLong) := by
  unfold Hub.markLost
  split
  case h_1 stale candidates _ =>
    have hsame : SameTable h (h.releaseAll (candidates.filter (fun w => stale.contains w || silentTooLong.contains w))) :=
      releaseAll_sameTable
    exact ⟨hsame.sessions, hsame.table, hsame.panicked⟩
  case h_2 => exact .refl h

theorem setDraining_sameTable {workerID : String} {draining : Bool} : SameTable h (h.setDraining workerID draining) :=
  onWorker_sameTable (fun _ => ⟨rfl, rfl⟩)

theorem adoptNext_sameTable {i : Nat} {rows : Option (List TaskInstance)} {sizes : List (String × Nat)}
    (hstep : h.adoptNext i rows sizes = some h') : SameTable h h' := by
  unfold Hub.adoptNext at hstep
  split at hstep
  · cases hstep
    exact goto_sameTable.trans adoptRef_sameTable
  · cases hstep

theorem receiveEvent_sameTable {i : Nat} {ev : TaskEvent} {now : Time} (hstep : h.receiveEvent i ev now = some h') :
    SameTable h h' := by
  unfold Hub.receiveEvent at hstep
  split at hstep
  · split at hstep
    · cases hstep
      exact touch_sameTable.trans goto_sameTable
    · cases hstep
      exact touch_sameTable
  · cases hstep

theorem recordNext_sameTable {i : Nat} {now : Time} (hstep : h.recordNext i now = some h') : SameTable h h' := by
  unfold Hub.recordNext at hstep
  split at hstep
  · cases hstep
    exact recordEvent_sameTable.trans goto_sameTable
  · cases hstep

theorem write_sameTable {i : Nat} {sent : Bool} (hstep : h.write i sent = some h') : SameTable h h' := by
  unfold Hub.write at hstep
  split at hstep
  · split at hstep
    · cases hstep
      exact onCall_sameTable (fun _ => ⟨rfl, rfl⟩)
    · cases hstep
  · cases hstep

theorem writerDone_sameTable {i : Nat} (hstep : h.writerDone i = some h') : SameTable h h' := by
  unfold Hub.writerDone at hstep
  split at hstep
  · split at hstep
    · cases hstep
      exact onCall_sameTable (fun _ => ⟨rfl, rfl⟩)
    · cases hstep
  · cases hstep

end Operations

/-- Every event leaves the table in agreement with the channels. -/
theorem step_sound {h h' : Hub} {e : HubEvent} (hs : Sound h) (hstep : Hub.step h e = some h') : Sound h' := by
  cases e with
  | connect hello draining now =>
    cases hstep
    exact greet_sound hs hello draining now
  | adopt i rows sizes => exact hs.same (adoptNext_sameTable hstep)
  | acknowledge i sent =>
    simp only [Hub.step] at hstep
    split at hstep
    · cases hstep
    · split at hstep
      · cases hstep
        exact hs.same (onCall_sameTable (fun _ => ⟨rfl, rfl⟩))
      · cases hstep
        exact hs.same goto_sameTable
  | heartbeat i now =>
    obtain ⟨-, hnext⟩ := Option.ite_none_right_eq_some.1 hstep
    cases hnext
    exact hs.same touch_sameTable
  | taskEvent i ev now => exact hs.same (receiveEvent_sameTable hstep)
  | record i now => exact hs.same (recordNext_sameTable hstep)
  | logChunk i c disk now =>
    obtain ⟨-, hnext⟩ := Option.ite_none_right_eq_some.1 hstep
    cases hnext
    exact hs.same (touch_sameTable.trans handleLogChunk_sameTable)
  | hangUp i =>
    obtain ⟨-, hnext⟩ := Option.ite_none_right_eq_some.1 hstep
    cases hnext
    exact hs.same goto_sameTable
  | drop i =>
    obtain ⟨-, hnext⟩ := Option.ite_none_right_eq_some.1 hstep
    cases hnext
    exact (dropSession_sound hs i).same goto_sameTable
  | finish i =>
    obtain ⟨-, hnext⟩ := Option.ite_none_right_eq_some.1 hstep
    cases hnext
    exact hs.same goto_sameTable
  | write i sent => exact hs.same (write_sameTable hstep)
  | writerDone i => exact hs.same (writerDone_sameTable hstep)
  | sweep now =>
    obtain ⟨-, hnext⟩ := Option.ite_none_right_eq_some.1 hstep
    cases hnext
    exact sweep_sound hs now
  | markLost silentTooLong =>
    obtain ⟨-, hnext⟩ := Option.ite_none_right_eq_some.1 hstep
    cases hnext
    exact hs.same markLost_sameTable
  | disconnect workerID =>
    cases hstep
    exact disconnect_sound hs workerID
  | setDraining workerID draining =>
    cases hstep
    exact hs.same setDraining_sameTable
  | launch group spec =>
    cases hstep
    exact hs.same launch_sameTable
  | cancel ref =>
    cases hstep
    exact hs.same cancel_sameTable
  | forget ref =>
    cases hstep
    exact hs.same forget_sameTable
  | reorder sessions refs =>
    obtain ⟨⟨hperm, -⟩, hnext⟩ := Option.ite_none_right_eq_some.1 hstep
    cases hnext
    exact reorder_sound hs hperm

/-- What others may do to a call: close its channel, and put messages into its
queue unless it is `idle`. -/
structure Beside (idle : Prop) (c c' : Call) : Prop where
  workerID : c'.session.workerID = c.session.workerID
  stage : c'.stage = c.stage
  writer : c'.writer = c.writer
  closed : c.session.closed = true → c'.session.closed = true
  send : idle → c'.session.send = c.session.send

/-- Call `i` is still there, and only others have acted. -/
def Unaffected (idle : Prop) (i : Nat) (h h' : Hub) : Prop :=
  ∀ c, h.calls[i]? = some c → ∃ c', h'.calls[i]? = some c' ∧ Beside idle c c'

namespace Unaffected
variable {idle : Prop} {i j : Nat} {h h' h'' : Hub}

theorem of_eq (hcalls : h'.calls = h.calls) : Unaffected idle i h h' := by
  intro c hc
  exact ⟨c, by rw [hcalls]; exact hc, ⟨rfl, rfl, rfl, id, fun _ => rfl⟩⟩

theorem trans (a : Unaffected idle i h h') (b : Unaffected idle i h' h'') : Unaffected idle i h h'' := by
  intro c hc
  obtain ⟨c', hc', hb⟩ := a c hc
  obtain ⟨c'', hc'', hb'⟩ := b c' hc'
  exact ⟨c'', hc'', hb'.workerID.trans hb.workerID, hb'.stage.trans hb.stage, hb'.writer.trans hb.writer, fun hcl => hb'.closed (hb.closed hcl),
    fun hid => (hb'.send hid).trans (hb.send hid)⟩

theorem onCall {f : Call → Call} (hf : ∀ c, j = i → Beside idle c (f c)) : Unaffected idle i h (h.onCall j f) := by
  intro c hc
  by_cases hij : j = i
  · subst hij
    refine ⟨f c, ?_, hf c rfl⟩
    rw [Hub.onCall_calls, List.getElem?_modify_eq, hc]
    rfl
  · refine ⟨c, ?_, rfl, rfl, rfl, id, fun _ => rfl⟩
    rw [Hub.onCall_calls, List.getElem?_modify_ne _ _ hij]
    exact hc

theorem onSession {f : Session → Session} (hf : ∀ s, (f s).workerID = s.workerID ∧ (s.closed = true → (f s).closed = true))
    (hsend : ∀ s, idle → j = i → (f s).send = s.send) : Unaffected idle i h (h.onSession j f) := by
  refine onCall ?_
  intro c hij
  exact ⟨(hf c.session).1, rfl, rfl, (hf c.session).2, fun hid => hsend c.session hid hij⟩

/-- The queue of a registered call may grow. -/
theorem enqueue {m : ServerMessage} (hreg : idle → j ≠ i) : Unaffected idle i h (h.onSession j (·.enqueue m)) := by
  refine onSession ?_ ?_
  · intro s
    rw [(enqueue_same s m).1, (enqueue_same s m).2]
    exact ⟨rfl, id⟩
  · intro s hid hij
    exact absurd hij (hreg hid)

theorem foldl {α : Type} {f : Hub → α → Hub} (hf : ∀ h x, Unaffected idle i h (f h x)) (l : List α) (h : Hub) :
    Unaffected idle i h (l.foldl f h) := by
  induction l generalizing h with
  | nil => exact of_eq rfl
  | cons x l ih => exact (hf h x).trans (ih (f h x))

theorem closeDone : Unaffected idle i h (h.closeDone j) := by
  have hclosed : Unaffected idle i h (h.onSession j (fun s => { s with closed := true })) :=
    onSession (fun _ => ⟨rfl, fun _ => rfl⟩) (fun _ _ _ => rfl)
  exact hclosed.trans (of_eq rfl)

end Unaffected

theorem onWorker_undisturbed {idle : Prop} {i : Nat} {h : Hub} {workerID : String} {f : Session → Session}
    (hf : ∀ s, (f s).workerID = s.workerID ∧ (s.closed = true → (f s).closed = true)) (hsend : ∀ s, (f s).send = s.send) :
    Unaffected idle i h (h.onWorker workerID f) := by
  unfold Hub.onWorker
  split
  · exact .onSession hf (fun s _ _ => hsend s)
  · exact .of_eq rfl

theorem better_cases {h : Hub} {group : String} {b : Option Nat} {i j : Nat} (hbest : h.better group b i = some j) :
    b = some j ∨ j = i := by
  unfold Hub.better at hbest
  split at hbest
  · split at hbest
    · exact .inl hbest
    · split at hbest
      · split at hbest
        · exact .inr (Option.some.inj hbest).symm
        · exact .inl hbest
      · exact .inr (Option.some.inj hbest).symm
  · exact .inl hbest

theorem best_registered {h : Hub} {group : String} {i : Nat} (hbest : h.best group = some i) : Registered h i := by
  have hfold : ∀ (l : List (Sigma fun _ : String => Nat)) (b : Option Nat), (∀ e ∈ l, e ∈ h.sessions.entries) →
      (∀ i, b = some i → Registered h i) →
      ∀ i, l.foldl (fun best e => h.better group best e.2) b = some i → Registered h i := by
    intro l
    induction l with
    | nil => exact fun b _ hb i hi => hb i hi
    | cons e l ih =>
      intro b hl hb
      refine ih _ (fun e he => hl e (List.mem_cons_of_mem _ he)) ?_
      intro i hi
      rcases better_cases hi with hi | rfl
      · exact hb i hi
      · exact ⟨e.1, Registry.mem_entries.1 (hl e List.mem_cons_self)⟩
  exact hfold _ none (fun e he => he) (fun i hi => by cases hi) i hbest

section Beside
variable {h h' : Hub} {i : Nat}

theorem greet_undisturbed (hello : Hello) (draining : Bool) (now : Time) (hi : i < h.calls.length) :
    Unaffected (¬ Registered h i) i h (h.greet hello draining now) := by
  have hold : Unaffected (¬ Registered h i) i h (h.closeOld hello.workerID) := by
    unfold Hub.closeOld
    split
    · exact .closeDone
    · exact .of_eq rfl
  intro c hc
  obtain ⟨c', hc', hb⟩ := hold c hc
  refine ⟨c', ?_, hb⟩
  have hlt : i < (h.closeOld hello.workerID).calls.length := by
    rw [closeOld_length]
    exact hi
  unfold Hub.greet
  dsimp only
  rw [List.getElem?_append_left hlt]
  exact hc'

theorem adoptOrphan_undisturbed {idle : Prop} (ref : String) (rs : RefState) :
    Unaffected idle i h (h.adoptOrphan ref rs) := by
  have htrack : Unaffected idle i h (h.track ref rs) := .of_eq rfl
  unfold Hub.adoptOrphan
  split
  · exact .of_eq rfl
  · exact htrack.trans (onWorker_undisturbed (fun _ => ⟨rfl, id⟩) (fun _ => rfl))

theorem adoptRef_undisturbed {idle : Prop} (workerID ref : String) (listing : String → Option (List TaskInstance))
    (sizes : List (String × Nat)) : Unaffected idle i h (h.adoptRef workerID ref listing sizes) := by
  unfold Hub.adoptRef
  split
  · exact adoptOrphan_undisturbed _ _
  · exact .of_eq rfl

theorem recordEvent_undisturbed {idle : Prop} (workerID : String) (e : Nat) (ev : TaskEvent) (now : Time) :
    Unaffected idle i h (h.recordEvent workerID e ev now) := by
  have hentry : ∀ h₁ : Hub, Unaffected idle i h₁ (h₁.onEntry e (fun rs => rs.onEvent ev now)) := fun _ => .of_eq rfl
  unfold Hub.recordEvent
  refine Unaffected.trans ?_ (hentry _)
  split
  · refine onWorker_undisturbed ?_ ?_
    · intro s
      split <;> exact ⟨rfl, id⟩
    · intro s
      split <;> rfl
  · exact .of_eq rfl

theorem handleLogChunk_undisturbed {idle : Prop} {j : Nat} (hij : j ≠ i) (c : LogChunk) (disk : RefState.Disk) :
    Unaffected idle i h (h.handleLogChunk j c disk) := by
  have hentry : ∀ e f, Unaffected idle i h (h.onEntry e f) := fun _ _ => .of_eq rfl
  unfold Hub.handleLogChunk
  split
  · split
    · split
      · dsimp only
        split
        · exact (hentry _ _).trans (.enqueue (fun _ => hij))
        · exact .of_eq rfl
      · exact .of_eq rfl
    · exact .of_eq rfl
  · exact .of_eq rfl

theorem launch_undisturbed (group : String) (spec : Hub.Spec) :
    Unaffected (¬ Registered h i) i h (h.launch group spec).2 := by
  have htrack : ∀ ref rs, Unaffected (¬ Registered h i) i h (h.track ref rs) := fun _ _ => .of_eq rfl
  unfold Hub.launch
  dsimp only
  split
  · exact .of_eq rfl
  · split
    · exact .of_eq rfl
    case h_2 b c hbest =>
      split
      · dsimp only
        apply (htrack _ _).trans
        apply Unaffected.onSession
        · exact fun _ => ⟨rfl, id⟩
        · intro s hidle hb
          subst hb
          obtain ⟨j, hj, hcall⟩ := Option.bind_eq_some_iff.1 hbest
          obtain ⟨c', -, hpair⟩ := Option.map_eq_some_iff.1 hcall
          cases hpair
          exact absurd (best_registered hj) hidle
      · exact .of_eq rfl

theorem cancel_undisturbed (ref : String) : Unaffected (¬ Registered h i) i h (h.cancel ref) := by
  unfold Hub.cancel Hub.onWorker
  split
  · split
    case h_1 j hj =>
      refine Unaffected.enqueue ?_
      rintro hidle rfl
      exact hidle ⟨_, hj⟩
    case h_2 => exact .of_eq rfl
  · exact .of_eq rfl

theorem collect_undisturbed {idle : Prop} (now : Time) : Unaffected idle i h (h.collect now) := by
  have hkeep : ∀ refs, Unaffected idle i h { h with refs := refs } := fun _ => .of_eq rfl
  refine (hkeep _).trans (Unaffected.foldl ?_ _ _)
  exact fun _ _ => .of_eq rfl

theorem sweep_undisturbed {idle : Prop} (now : Time) : Unaffected idle i h (h.sweep now) := by
  have hkeep : ∀ sessions, Unaffected idle i h { h with sessions := sessions } := fun _ => .of_eq rfl
  have hstale : Unaffected idle i h (h.closeStale now) :=
    (hkeep _).trans (Unaffected.foldl (fun _ _ => .closeDone) _ _)
  exact hstale.trans ((collect_undisturbed now).trans (.of_eq rfl))

theorem releaseAll_undisturbed {idle : Prop} (silent : List String) : Unaffected idle i h (h.releaseAll silent) := by
  refine Unaffected.foldl ?_ _ _
  exact fun _ _ => .of_eq rfl

theorem markLost_undisturbed {idle : Prop} (silentTooLong : List String) :
    Unaffected idle i h (h.markLost silentTooLong) := by
  unfold Hub.markLost
  split
  · exact (releaseAll_undisturbed _).trans (.of_eq rfl)
  · exact .of_eq rfl

theorem goto_undisturbed {idle : Prop} {j : Nat} (hij : j ≠ i) {stage : Stage} : Unaffected idle i h (h.goto j stage) :=
  .onCall (fun _ hji => absurd hji hij)

theorem touch_undisturbed {idle : Prop} {j : Nat} {now : Time} : Unaffected idle i h (h.touch j now) :=
  .onSession (fun _ => ⟨rfl, id⟩) (fun _ _ _ => rfl)

/-- An event of somebody else. -/
theorem step_undisturbed {e : HubEvent} (hactor : e.actor ≠ some i) (hi : i < h.calls.length)
    (hstep : Hub.step h e = some h') : Unaffected (¬ Registered h i) i h h' := by
  have hne : ∀ j, e.actor = some j → j ≠ i := fun j hj hji => hactor (hji ▸ hj)
  cases e with
  | connect hello draining now =>
    cases hstep
    exact greet_undisturbed hello draining now hi
  | adopt j rows sizes =>
    simp only [Hub.step, Hub.adoptNext] at hstep
    split at hstep
    · cases hstep
      exact (goto_undisturbed (hne j rfl)).trans (adoptRef_undisturbed _ _ _ _)
    · cases hstep
  | acknowledge j sent =>
    simp only [Hub.step] at hstep
    split at hstep
    · cases hstep
    · split at hstep
      · cases hstep
        exact .onCall (fun _ hji => absurd hji (hne j rfl))
      · cases hstep
        exact goto_undisturbed (hne j rfl)
  | heartbeat j now =>
    obtain ⟨-, hnext⟩ := Option.ite_none_right_eq_some.1 hstep
    cases hnext
    exact touch_undisturbed
  | taskEvent j ev now =>
    simp only [Hub.step, Hub.receiveEvent] at hstep
    split at hstep
    · split at hstep
      · cases hstep
        exact touch_undisturbed.trans (goto_undisturbed (hne j rfl))
      · cases hstep
        exact touch_undisturbed
    · cases hstep
  | record j now =>
    simp only [Hub.step, Hub.recordNext] at hstep
    split at hstep
    · cases hstep
      exact (recordEvent_undisturbed _ _ _ _).trans (goto_undisturbed (hne j rfl))
    · cases hstep
  | logChunk j c disk now =>
    obtain ⟨-, hnext⟩ := Option.ite_none_right_eq_some.1 hstep
    cases hnext
    exact touch_undisturbed.trans (handleLogChunk_undisturbed (hne j rfl) c disk)
  | hangUp j =>
    obtain ⟨-, hnext⟩ := Option.ite_none_right_eq_some.1 hstep
    cases hnext
    exact goto_undisturbed (hne j rfl)
  | drop j =>
    obtain ⟨-, hnext⟩ := Option.ite_none_right_eq_some.1 hstep
    cases hnext
    refine Unaffected.trans ?_ (goto_undisturbed (hne j rfl))
    have herase : ∀ sessions, Unaffected (¬ Registered h i) i h { h with sessions := sessions } := fun _ => .of_eq rfl
    unfold Hub.dropSession
    split
    · split
      · exact (herase _).trans .closeDone
      · exact .of_eq rfl
    · exact .of_eq rfl
  | finish j =>
    obtain ⟨-, hnext⟩ := Option.ite_none_right_eq_some.1 hstep
    cases hnext
    exact goto_undisturbed (hne j rfl)
  | write j sent =>
    simp only [Hub.step, Hub.write] at hstep
    split at hstep
    · split at hstep
      · cases hstep
        exact .onCall (fun _ hji => absurd hji (hne j rfl))
      · cases hstep
    · cases hstep
  | writerDone j =>
    simp only [Hub.step, Hub.writerDone] at hstep
    split at hstep
    · split at hstep
      · cases hstep
        exact .onCall (fun _ hji => absurd hji (hne j rfl))
      · cases hstep
    · cases hstep
  | sweep now =>
    obtain ⟨-, hnext⟩ := Option.ite_none_right_eq_some.1 hstep
    cases hnext
    exact sweep_undisturbed now
  | markLost silentTooLong =>
    obtain ⟨-, hnext⟩ := Option.ite_none_right_eq_some.1 hstep
    cases hnext
    exact markLost_undisturbed silentTooLong
  | disconnect workerID =>
    cases hstep
    have hclosed : ∀ j, Unaffected (¬ Registered h i) i h (h.closeDone j) := fun _ => .closeDone
    unfold Hub.disconnect
    split
    · exact (hclosed _).trans (.of_eq rfl)
    · exact .of_eq rfl
  | setDraining workerID draining =>
    cases hstep
    exact onWorker_undisturbed (fun _ => ⟨rfl, id⟩) (fun _ => rfl)
  | launch group spec =>
    cases hstep
    exact launch_undisturbed group spec
  | cancel ref =>
    cases hstep
    exact cancel_undisturbed ref
  | forget ref =>
    cases hstep
    refine .of_eq ?_
    unfold Hub.forget
    split
    · split <;> rfl
    · rfl
  | reorder sessions refs =>
    obtain ⟨-, hnext⟩ := Option.ite_none_right_eq_some.1 hstep
    cases hnext
    exact .of_eq rfl

end Beside

section Return
variable {h h' : Hub} {i : Nat} {c : Call} {e : HubEvent}

/-- Once the stream has ended, the call itself only drops its session, waits
for its writer and returns. -/
theorem acting_ended (hc : h.calls[i]? = some c) (hstage : c.stage = .leaving ∨ c.stage = .waiting)
    (hactor : e.actor = some i) (hstep : Hub.step h e = some h') : e.byReader i ∨ e.byWriter i := by
  have hstage? : h.stage? i = some c.stage := by rw [Hub.stage?, hc]; rfl
  have hnot : ∀ s : Stage, h.stage? i = some s → s = .leaving ∨ s = .waiting := by
    intro s hs
    rw [hstage?] at hs
    exact Option.some.inj hs ▸ hstage
  cases e with
  | drop j =>
    cases hactor
    exact .inl (.inl rfl)
  | finish j =>
    cases hactor
    exact .inl (.inr rfl)
  | write j sent =>
    cases hactor
    exact .inr (.inl ⟨sent, rfl⟩)
  | writerDone j =>
    cases hactor
    exact .inr (.inr rfl)
  | adopt j rows sizes =>
    cases hactor
    simp only [Hub.step, Hub.adoptNext] at hstep
    split at hstep
    case h_1 hs _ => rcases hnot _ hs with h | h <;> cases h
    case h_2 => cases hstep
  | acknowledge j sent =>
    cases hactor
    simp only [Hub.step] at hstep
    split at hstep
    case isTrue => cases hstep
    case isFalse hs => rcases hnot _ (not_not.1 hs) with h | h <;> cases h
  | heartbeat j now =>
    cases hactor
    rcases hnot _ (Option.ite_none_right_eq_some.1 hstep).1 with h | h <;> cases h
  | taskEvent j ev now =>
    cases hactor
    simp only [Hub.step, Hub.receiveEvent] at hstep
    split at hstep
    case h_1 hs _ => rcases hnot _ hs with h | h <;> cases h
    case h_2 => cases hstep
  | record j now =>
    cases hactor
    simp only [Hub.step, Hub.recordNext] at hstep
    split at hstep
    case h_1 hs _ => rcases hnot _ hs with h | h <;> cases h
    case h_2 => cases hstep
  | logChunk j c disk now =>
    cases hactor
    rcases hnot _ (Option.ite_none_right_eq_some.1 hstep).1 with h | h <;> cases h
  | hangUp j =>
    cases hactor
    rcases hnot _ (Option.ite_none_right_eq_some.1 hstep).1 with h | h <;> cases h
  | connect | sweep | markLost | disconnect | setDraining | launch | cancel | forget | reorder => cases hactor

/-- The writer delivers, or has one message less to send. -/
theorem writer_step (hc : h.calls[i]? = some c) (hown : e.byWriter i) (hstep : Hub.step h e = some h') :
    ∃ c', h'.calls[i]? = some c' ∧ c'.stage = c.stage ∧ c.writer = .running ∧ c'.session.closed = c.session.closed ∧
      (c'.writer = .delivered ∨ c'.writer = .running ∧ c'.session.send.length < c.session.send.length) := by
  have hw : h.writer? i = some c.writer := by rw [Hub.writer?, hc]; rfl
  have hs : h.session? i = some c.session := by rw [Hub.session?, hc]; rfl
  rcases hown with ⟨sent, rfl⟩ | rfl
  · simp only [Hub.step, Hub.write, hw, hs] at hstep
    split at hstep
    case h_1 s hrunning hsession =>
      cases hsession
      split at hstep
      case h_1 m rest hsend =>
        cases hstep
        refine ⟨{ c with session := { c.session with send := rest }, writer := if sent then .running else .delivered },
          ?_, rfl, Option.some.inj hrunning, rfl, ?_⟩
        · rw [Hub.onCall_calls, List.getElem?_modify_eq, hc]
          rfl
        · cases sent with
          | false => exact .inl rfl
          | true =>
            refine .inr ⟨rfl, ?_⟩
            dsimp only
            rw [hsend]
            exact Nat.lt_succ_self _
      case h_2 => cases hstep
    case h_2 => cases hstep
  · simp only [Hub.step, Hub.writerDone, hw, hs] at hstep
    split at hstep
    case h_1 s hrunning hsession =>
      obtain ⟨-, hnext⟩ := Option.ite_none_right_eq_some.1 hstep
      cases hnext
      refine ⟨{ c with writer := .delivered }, ?_, rfl, Option.some.inj hrunning, rfl, .inl rfl⟩
      rw [Hub.onCall_calls, List.getElem?_modify_eq, hc]
      rfl
    case h_2 => cases hstep

/-- `dropSession` leaves the call with a closed channel, whether the session was
still registered or not. -/
theorem dropSession_closed (hs : Sound h) (hc : h.calls[i]? = some c) :
    ∃ c', (h.dropSession i).calls[i]? = some c' ∧ c'.writer = c.writer ∧ c'.session.closed = true := by
  unfold Hub.dropSession
  rw [hc]
  dsimp only
  split
  case isTrue =>
    refine ⟨{ c with session := { c.session with closed := true } }, ?_, rfl, rfl⟩
    rw [Hub.closeDone_calls, List.getElem?_modify_eq]
    dsimp only
    rw [hc]
    rfl
  case isFalse hreg =>
    refine ⟨c, hc, rfl, ?_⟩
    by_contra hopen
    refine hreg ((hs.open_iff c.session.workerID i).2 ?_)
    simp only [table, List.getElem?_map, hc, Option.map_some]
    simpa using hopen

/-- The call waits for a writer that still runs, and whose channel is closed. -/
def AwaitsWriter (i : Nat) (h : Hub) : Prop :=
  ∃ c, h.calls[i]? = some c ∧ c.stage = .waiting ∧ c.writer = .running ∧ c.session.closed = true

/-- The writer has delivered on `sendErr`. -/
def Delivered (i : Nat) (h : Hub) : Prop :=
  ∃ c, h.calls[i]? = some c ∧ c.stage = .waiting ∧ c.writer = .delivered

/-- The call has returned, and its writer, when it had one, has delivered. -/
def Returned (i : Nat) (h : Hub) : Prop :=
  ∃ c, h.calls[i]? = some c ∧ c.stage = .returned ∧ c.writer ≠ .running

def queued (h : Hub) (i : Nat) : Nat := (h.calls[i]?.map (·.session.send.length)).getD 0

theorem closed_unregistered (hs : Sound h) (hc : h.calls[i]? = some c) (hclosed : c.session.closed = true) :
    ¬ Registered h i := by
  rintro ⟨w, hw⟩
  have hopen := (hs.open_iff w i).1 hw
  simp only [table, List.getElem?_map, hc, Option.map_some, Option.some.injEq, Prod.mk.injEq] at hopen
  rw [hclosed] at hopen
  exact absurd hopen.2 (by decide)

theorem length_of_call (hc : h.calls[i]? = some c) : i < h.calls.length := (List.getElem?_eq_some_iff.1 hc).1

/-- A call whose stream has ended either still has to drop its session, or has
dropped it. -/
theorem leaving_next (hs : Sound h) (hc : h.calls[i]? = some c) (hstage : c.stage = .leaving)
    (hstep : Hub.step h e = some h') :
    (Returned i h' ∨ AwaitsWriter i h' ∨ Delivered i h') ∨
      ((∃ c', h'.calls[i]? = some c' ∧ c'.stage = .leaving) ∧ ¬ e.byReader i) := by
  by_cases hactor : e.actor = some i
  · rcases acting_ended hc (.inl hstage) hactor hstep with (rfl | rfl) | hown
    · obtain ⟨-, hnext⟩ := Option.ite_none_right_eq_some.1 hstep
      obtain ⟨c', hc', hwriter, hclosed⟩ := dropSession_closed hs hc
      have hnew : h'.calls[i]? = some { c' with stage := Hub.afterDrop (h.writer? i) } := by
        cases hnext
        rw [Hub.goto, Hub.onCall_calls, List.getElem?_modify_eq, hc']
        rfl
      have hw : h.writer? i = some c.writer := by rw [Hub.writer?, hc]; rfl
      rw [hw] at hnew
      left
      cases hcw : c.writer with
      | off => exact .inl ⟨_, hnew, by rw [hcw]; rfl, by rw [hwriter, hcw]; decide⟩
      | running => exact .inr (.inl ⟨_, hnew, by rw [hcw]; rfl, by rw [hwriter, hcw], hclosed⟩)
      | delivered => exact .inr (.inr ⟨_, hnew, by rw [hcw]; rfl, by rw [hwriter, hcw]⟩)
    · obtain ⟨⟨hwaiting, -⟩, -⟩ := Option.ite_none_right_eq_some.1 hstep
      rw [Hub.stage?, hc, Option.map_some, hstage] at hwaiting
      cases hwaiting
    · obtain ⟨c', hc', hstage', -⟩ := writer_step hc hown hstep
      right
      refine ⟨⟨c', hc', hstage'.trans hstage⟩, ?_⟩
      rcases hown with ⟨sent, rfl⟩ | rfl <;> rintro (h | h) <;> cases h
  · obtain ⟨c', hc', hb⟩ := step_undisturbed hactor (length_of_call hc) hstep c hc
    right
    refine ⟨⟨c', hc', hb.stage.trans hstage⟩, ?_⟩
    rintro (rfl | rfl) <;> exact hactor rfl

/-- While the call waits, its queue only gets shorter. -/
theorem awaiting_next (hs : Sound h) (hwait : AwaitsWriter i h) (hstep : Hub.step h e = some h') :
    Delivered i h' ∨ AwaitsWriter i h' ∧ queued h' i ≤ queued h i ∧ (e.byWriter i → queued h' i < queued h i) := by
  obtain ⟨c, hc, hstage, hwriter, hclosed⟩ := hwait
  have hqueue : ∀ h₁ c₁, h₁.calls[i]? = some c₁ → queued h₁ i = c₁.session.send.length := by
    intro h₁ c₁ hc₁
    rw [queued, hc₁]
    rfl
  by_cases hactor : e.actor = some i
  · rcases acting_ended hc (.inr hstage) hactor hstep with (rfl | rfl) | hown
    · obtain ⟨hleaving, -⟩ := Option.ite_none_right_eq_some.1 hstep
      rw [Hub.stage?, hc, Option.map_some, hstage] at hleaving
      cases hleaving
    · obtain ⟨⟨-, hdelivered⟩, -⟩ := Option.ite_none_right_eq_some.1 hstep
      rw [Hub.writer?, hc, Option.map_some, hwriter] at hdelivered
      cases hdelivered
    · obtain ⟨c', hc', hstage', -, hclosed', hnext⟩ := writer_step hc hown hstep
      rcases hnext with hdelivered | ⟨hrunning, hshorter⟩
      · exact .inl ⟨c', hc', hstage'.trans hstage, hdelivered⟩
      · refine .inr ⟨⟨c', hc', hstage'.trans hstage, hrunning, hclosed'.trans hclosed⟩, ?_, ?_⟩
        · rw [hqueue h' c' hc', hqueue h c hc]
          exact hshorter.le
        · intro _
          rw [hqueue h' c' hc', hqueue h c hc]
          exact hshorter
  · obtain ⟨c', hc', hb⟩ := step_undisturbed hactor (length_of_call hc) hstep c hc
    have hsend := hb.send (closed_unregistered hs hc hclosed)
    refine .inr ⟨⟨c', hc', hb.stage.trans hstage, hb.writer.trans hwriter, hb.closed hclosed⟩, ?_, ?_⟩
    · rw [hqueue h' c' hc', hqueue h c hc, hsend]
    · rintro (⟨sent, rfl⟩ | rfl) <;> exact absurd rfl hactor

theorem delivered_next (hdel : Delivered i h) (hstep : Hub.step h e = some h') :
    Returned i h' ∨ Delivered i h' ∧ ¬ e.byReader i := by
  obtain ⟨c, hc, hstage, hwriter⟩ := hdel
  by_cases hactor : e.actor = some i
  · rcases acting_ended hc (.inr hstage) hactor hstep with (rfl | rfl) | hown
    · obtain ⟨hleaving, -⟩ := Option.ite_none_right_eq_some.1 hstep
      rw [Hub.stage?, hc, Option.map_some, hstage] at hleaving
      cases hleaving
    · obtain ⟨-, hnext⟩ := Option.ite_none_right_eq_some.1 hstep
      cases hnext
      refine .inl ⟨{ c with stage := .returned }, ?_, rfl, by rw [hwriter]; decide⟩
      rw [Hub.goto, Hub.onCall_calls, List.getElem?_modify_eq, hc]
      rfl
    · obtain ⟨-, -, -, hrunning, -⟩ := writer_step hc hown hstep
      rw [hwriter] at hrunning
      cases hrunning
  · obtain ⟨c', hc', hb⟩ := step_undisturbed hactor (length_of_call hc) hstep c hc
    refine .inr ⟨⟨c', hc', hb.stage.trans hstage, hb.writer.trans hwriter⟩, ?_⟩
    rintro (rfl | rfl) <;> exact hactor rfl

/-- When its goroutines are not put off for ever, a call whose stream has ended
returns. -/
theorem ended_returns (x : Execution Hub.step) (hs : Sound (x.state 0)) {i n : Nat} (hreader : x.Fair (·.byReader i))
    (hwriter : x.Fair (·.byWriter i)) (hc : (x.state n).calls[i]? = some c) (hstage : c.stage = .leaving) :
    ∃ m, n ≤ m ∧ Returned i (x.state m) := by
  have hsound : ∀ n, Sound (x.state n) := x.keeps hs (fun _ _ _ ha h => step_sound ha h)
  have hdropped : ∃ m, n ≤ m ∧ (Returned i (x.state m) ∨ AwaitsWriter i (x.state m) ∨ Delivered i (x.state m)) := by
    refine x.leads_to hreader (fun _ => 0) (P := fun h => ∃ c, h.calls[i]? = some c ∧ c.stage = .leaving)
      (Q := fun h => Returned i h ∨ AwaitsWriter i h ∨ Delivered i h) ?_ ?_ ⟨c, hc, hstage⟩
    · rintro m ⟨c, hc, hstage⟩
      refine ⟨.drop i, .inl rfl, ?_⟩
      have : (x.state m).stage? i = some .leaving := by rw [Hub.stage?, hc, Option.map_some, hstage]
      simp [Hub.step, this]
    · rintro m ⟨c, hc, hstage⟩
      rcases leaving_next (hsound m) hc hstage (x.next m) with hdone | ⟨hstill, hother⟩
      · exact .inl hdone
      · exact .inr ⟨hstill, le_rfl, fun hown => absurd hown hother⟩
  have hfinish : ∀ m, Delivered i (x.state m) → ∃ k, m ≤ k ∧ Returned i (x.state k) := by
    intro m hdel
    refine x.leads_to hreader (fun _ => 0) (P := Delivered i) ?_ ?_ hdel
    · rintro k ⟨c, hc, hstage, hdelivered⟩
      refine ⟨.finish i, .inr rfl, ?_⟩
      have hst : (x.state k).stage? i = some .waiting := by rw [Hub.stage?, hc, Option.map_some, hstage]
      have hwr : (x.state k).writer? i = some .delivered := by rw [Hub.writer?, hc, Option.map_some, hdelivered]
      simp [Hub.step, hst, hwr]
    · intro k hdel
      rcases delivered_next hdel (x.next k) with hdone | ⟨hstill, hother⟩
      · exact .inl hdone
      · exact .inr ⟨hstill, le_rfl, fun hown => absurd hown hother⟩
  obtain ⟨m, hm, hreturned | hwait | hdel⟩ := hdropped
  · exact ⟨m, hm, hreturned⟩
  · have hdelivers : ∃ k, m ≤ k ∧ Delivered i (x.state k) := by
      refine x.leads_to hwriter (queued · i) (P := AwaitsWriter i) ?_ ?_ hwait
      · rintro k ⟨c, hc, -, hrunning, hclosed⟩
        refine ⟨.writerDone i, .inr rfl, ?_⟩
        have hwr : (x.state k).writer? i = some .running := by rw [Hub.writer?, hc, Option.map_some, hrunning]
        have hse : (x.state k).session? i = some c.session := by rw [Hub.session?, hc, Option.map_some]
        simp [Hub.step, Hub.writerDone, hwr, hse, hclosed]
      · exact fun k hwait => awaiting_next (hsound k) hwait (x.next k)
    obtain ⟨k, hk, hdel⟩ := hdelivers
    obtain ⟨l, hl, hreturned⟩ := hfinish k hdel
    exact ⟨l, by omega, hreturned⟩
  · obtain ⟨k, hk, hreturned⟩ := hfinish m hdel
    exact ⟨k, by omega, hreturned⟩

end Return

theorem new_sound (boot lostAfter bootGrace : Time) : Sound (Hub.new boot lostAfter bootGrace) := by
  refine ⟨?_, rfl⟩
  intro w i
  simp [Hub.new, table]

/-- In every state of the hub no channel was closed twice, a call's channel is
closed exactly when the call is not the registered one, each worker has one
registered session at most, and a call whose stream has ended returns in every
run that goes on. -/
theorem session_table_sound {boot lostAfter bootGrace : Time} {h : Hub}
    (hrun : Reaches Hub.step anyEvent (Hub.new boot lostAfter bootGrace) h) :
    h.panicked = false ∧
      (∀ i c, h.calls[i]? = some c → (c.session.closed = true ↔ ¬ Registered h i)) ∧
      (∀ i j c d, h.calls[i]? = some c → h.calls[j]? = some d → Registered h i → Registered h j →
        c.session.workerID = d.session.workerID → i = j) ∧
      (∀ (x : Execution Hub.step) i n c, x.state 0 = h → x.Fair (·.byReader i) → x.Fair (·.byWriter i) →
        (x.state n).calls[i]? = some c → c.stage = .leaving → ∃ m, n ≤ m ∧ Returned i (x.state m)) := by
  have hs : Sound h := hrun.keeps (new_sound boot lostAfter bootGrace) (fun _ _ _ ha _ hstep => step_sound ha hstep)
  have hopen : ∀ i c, h.calls[i]? = some c → ∀ w, h.sessions.lookup w = some i ↔
      c.session.workerID = w ∧ c.session.closed = false := by
    intro i c hc w
    rw [hs.open_iff w i]
    simp [table, hc]
  refine ⟨hs.calm, ?_, ?_, ?_⟩
  · intro i c hc
    constructor
    · exact closed_unregistered hs hc
    · intro hunregistered
      by_contra hnot
      exact hunregistered ⟨c.session.workerID, (hopen i c hc _).2 ⟨rfl, by simpa using hnot⟩⟩
  · rintro i j c d hc hd ⟨w, hw⟩ ⟨w', hw'⟩ hworker
    obtain rfl := ((hopen i c hc w).1 hw).1
    obtain rfl := ((hopen j d hd w').1 hw').1
    rw [hworker, hw'] at hw
    exact (Option.some.inj hw).symm
  · intro x i n c hx hreader hwriter hc hstage
    subst hx
    exact ended_returns x hs hreader hwriter hc hstage

/-- A reconnect, the end of the stream it replaced, and a removal. -/
theorem session_table_sound_reconnect :
    ∃ h, play Hub.step anyEvent (Hub.new 0 15 30)
        [.connect { workerID := "w" } false 1, .acknowledge 0 true, .connect { workerID := "w" } false 2,
          .acknowledge 1 true, .hangUp 0, .drop 0, .disconnect "w"] = some h ∧ h.panicked = false := by
  have hsome : (play Hub.step anyEvent (Hub.new 0 15 30)
      [.connect { workerID := "w" } false 1, .acknowledge 0 true, .connect { workerID := "w" } false 2,
        .acknowledge 1 true, .hangUp 0, .drop 0, .disconnect "w"]).isSome = true := by decide +kernel
  obtain ⟨h, hplay⟩ := Option.isSome_iff_exists.1 hsome
  exact ⟨h, hplay, (session_table_sound (play_reaches hplay)).1⟩

end Cronova.Properties
