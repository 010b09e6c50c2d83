import Cronova.Properties.HubLoad
import Cronova.Remote.Membership

/-! Draining and removal of workers: whether the sessions of the hub agree with the rows of
the store when no call for their workers is in progress. -/
namespace Cronova.Properties.Membership
open Cronova.Model Cronova.Concurrency Cronova.Remote

/-! ### What the hub keeps of the draining flags -/

/-- Worker and draining flag of every call. -/
def flags (h : Hub) : List (String × Bool) := h.calls.map (fun c => (c.session.workerID, c.session.draining))

/-- The hub has dropped sessions at most, and no flag has changed. -/
structure Fewer (h h' : Hub) : Prop where
  sessions : ∀ w i, h'.sessions.lookup w = some i → h.sessions.lookup w = some i
  flags : flags h' = flags h

section Flags
variable {h h' h'' : Hub}

theorem Fewer.flag (hf : Fewer h h') {i : Nat} {c' : Call} (hc : h'.calls[i]? = some c') :
    ∃ c, h.calls[i]? = some c ∧ c'.session.draining = c.session.draining := by
  have hflag := congrArg (·[i]?) hf.flags
  simp only [Membership.flags, List.getElem?_map, hc, Option.map_some] at hflag
  obtain ⟨c, hc', heq⟩ := Option.map_eq_some_iff.1 hflag.symm
  exact ⟨c, hc', (Prod.mk.inj heq).2.symm⟩

theorem flags_onCall {i : Nat} {f : Call → Call}
    (hf : ∀ c, (f c).session.workerID = c.session.workerID ∧ (f c).session.draining = c.session.draining) :
    flags (h.onCall i f) = flags h := by
  apply List.ext_getElem?
  intro j
  rw [flags, flags, List.getElem?_map, List.getElem?_map, Hub.onCall_calls]
  by_cases hij : i = j
  · subst hij
    rw [List.getElem?_modify_eq]
    cases h.calls[i]? with
    | none => rfl
    | some c => exact congrArg some (Prod.ext (hf c).1 (hf c).2)
  · rw [List.getElem?_modify_ne _ _ hij]

theorem flags_onSession {i : Nat} {f : Session → Session} (hf : ∀ s, (f s).workerID = s.workerID ∧ (f s).draining = s.draining) :
    flags (h.onSession i f) = flags h := flags_onCall (fun c => hf c.session)

theorem flags_enqueue {i : Nat} {msg : ServerMessage} : flags (h.onSession i (·.enqueue msg)) = flags h := by
  refine flags_onSession (fun s => ?_)
  unfold Session.enqueue
  split
  · exact ⟨rfl, rfl⟩
  · exact ⟨rfl, rfl⟩

theorem flags_onWorker {workerID : String} {f : Session → Session}
    (hf : ∀ s, (f s).workerID = s.workerID ∧ (f s).draining = s.draining) : flags (h.onWorker workerID f) = flags h := by
  unfold Hub.onWorker
  split
  · exact flags_onSession hf
  · rfl

theorem flags_goto {i : Nat} {stage : Stage} : flags (h.goto i stage) = flags h := flags_onCall (fun _ => ⟨rfl, rfl⟩)

theorem flags_touch {i : Nat} {now : Time} : flags (h.touch i now) = flags h := flags_onSession (fun _ => ⟨rfl, rfl⟩)

theorem flags_closeDone {i : Nat} : flags (h.closeDone i) = flags h := by
  have hclosed : flags (h.onSession i (fun s => { s with closed := true })) = flags h := flags_onSession (fun _ => ⟨rfl, rfl⟩)
  exact hclosed

theorem flags_foldl {α : Type} {f : Hub → α → Hub} (hf : ∀ h x, flags (f h x) = flags h) (l : List α) (h : Hub) :
    flags (l.foldl f h) = flags h := by
  induction l generalizing h with
  | nil => rfl
  | cons x l ih => exact (ih (f h x)).trans (hf h x)

theorem flags_adoptRef {workerID ref : String} {listing : String → Option (List TaskInstance)} {sizes : List (String × Nat)} :
    flags (h.adoptRef workerID ref listing sizes) = flags h := by
  unfold Hub.adoptRef
  split
  · unfold Hub.adoptOrphan
    split
    · rfl
    · exact flags_onWorker (fun _ => ⟨rfl, rfl⟩)
  · rfl

theorem flags_recordEvent {workerID : String} {e : Nat} {ev : TaskEvent} {now : Time} :
    flags (h.recordEvent workerID e ev now) = flags h := by
  unfold Hub.recordEvent
  change flags (if _ then _ else _) = _
  split
  · refine flags_onWorker (fun s => ?_)
    split
    · exact ⟨rfl, rfl⟩
    · exact ⟨rfl, rfl⟩
  · rfl

theorem flags_handleLogChunk {i : Nat} {c : LogChunk} {disk : RefState.Disk} : flags (h.handleLogChunk i c disk) = flags h := by
  unfold Hub.handleLogChunk
  split
  · split
    · split
      · dsimp only
        split
        · exact flags_enqueue
        · rfl
      · rfl
    · rfl
  · rfl

theorem flags_dropSession {i : Nat} : flags (h.dropSession i) = flags h := by
  unfold Hub.dropSession
  split
  · split
    · exact flags_closeDone
    · rfl
  · rfl

theorem flags_disconnect {workerID : String} : flags (h.disconnect workerID) = flags h := by
  unfold Hub.disconnect
  split
  · exact flags_closeDone
  · rfl

theorem flags_onEntry {e : Nat} {f : RefState → RefState} : flags (h.onEntry e f) = flags h := rfl

theorem flags_sweep {now : Time} : flags (h.sweep now) = flags h := by
  have hstale : flags (h.closeStale now) = flags h := flags_foldl (fun _ _ => flags_closeDone) _ _
  have hcollect : flags ((h.closeStale now).collect now) = flags (h.closeStale now) :=
    flags_foldl (fun _ _ => flags_onEntry) _ _
  exact hcollect.trans hstale

theorem flags_markLost {silentTooLong : List String} : flags (h.markLost silentTooLong) = flags h := by
  unfold Hub.markLost
  split
  · rename_i stale candidates _
    have hrelease : flags (h.releaseAll (candidates.filter (fun w => stale.contains w || silentTooLong.contains w))) = flags h :=
      flags_foldl (fun _ _ => flags_onEntry) _ _
    exact hrelease
  · rfl

theorem flags_launch {group : String} {spec : Hub.Spec} : flags (h.launch group spec).2 = flags h := by
  unfold Hub.launch
  dsimp only
  split
  · rfl
  · split
    · rfl
    · split
      · exact flags_onSession (h := h.track _ _) (fun _ => ⟨rfl, rfl⟩)
      · rfl

theorem flags_cancel {ref : String} : flags (h.cancel ref) = flags h := by
  unfold Hub.cancel
  split
  · refine flags_onWorker (fun s => ?_)
    unfold Session.enqueue
    split
    · exact ⟨rfl, rfl⟩
    · exact ⟨rfl, rfl⟩
  · rfl

theorem flags_forget {ref : String} : flags (h.forget ref) = flags h := by
  unfold Hub.forget
  split
  · split
    · rfl
    · rfl
  · rfl

/-- Only a new session and `SetDraining` have to do with the flags. -/
theorem step_fewer {e : HubEvent} (hconnect : ∀ hello draining now, e ≠ .connect hello draining now)
    (hdraining : ∀ w draining, e ≠ .setDraining w draining) (hstep : h.step e = some h') : Fewer h h' := by
  have hsessions : ∀ w i, h'.sessions.lookup w = some i → h.sessions.lookup w = some i := by
    rcases step_frame hstep with hframe | ⟨hello, draining, now, rfl⟩ | ⟨i, rows, sizes, rfl⟩ | ⟨i, now, rfl⟩ | ⟨silent, rfl⟩ |
      ⟨group, spec, rfl⟩
    · exact hframe.sessions
    · exact absurd rfl (hconnect hello draining now)
    · rw [(adoptNext_sameTable hstep).sessions]
      exact fun _ _ hw => hw
    · rw [(recordNext_sameTable hstep).sessions]
      exact fun _ _ hw => hw
    · obtain ⟨-, hnext⟩ := Option.ite_none_right_eq_some.1 hstep
      cases hnext
      rw [markLost_sameTable.sessions]
      exact fun _ _ hw => hw
    · cases hstep
      rw [launch_sameTable.sessions]
      exact fun _ _ hw => hw
  refine ⟨hsessions, ?_⟩
  cases e with
  | connect hello draining now => exact absurd rfl (hconnect hello draining now)
  | setDraining w draining => exact absurd rfl (hdraining w draining)
  | adopt i rows sizes =>
    simp only [Hub.step, Hub.adoptNext] at hstep
    split at hstep
    · cases hstep
      exact flags_adoptRef.trans flags_goto
    · cases hstep
  | acknowledge i sent =>
    simp only [Hub.step] at hstep
    split at hstep
    · cases hstep
    · split at hstep
      · cases hstep
        exact flags_onCall (fun _ => ⟨rfl, rfl⟩)
      · cases hstep
        exact flags_goto
  | heartbeat i now =>
    obtain ⟨-, hnext⟩ := Option.ite_none_right_eq_some.1 hstep
    cases hnext
    exact flags_touch
  | taskEvent i ev now =>
    simp only [Hub.step, Hub.receiveEvent] at hstep
    split at hstep
    · split at hstep
      · cases hstep
        exact flags_goto.trans flags_touch
      · cases hstep
        exact flags_touch
    · cases hstep
  | record i now =>
    simp only [Hub.step, Hub.recordNext] at hstep
    split at hstep
    · cases hstep
      exact flags_goto.trans flags_recordEvent
    · cases hstep
  | logChunk i c disk now =>
    obtain ⟨-, hnext⟩ := Option.ite_none_right_eq_some.1 hstep
    cases hnext
    exact flags_handleLogChunk.trans flags_touch
  | hangUp i =>
    obtain ⟨-, hnext⟩ := Option.ite_none_right_eq_some.1 hstep
    cases hnext
    exact flags_goto
  | drop i =>
    obtain ⟨-, hnext⟩ := Option.ite_none_right_eq_some.1 hstep
    cases hnext
    exact flags_goto.trans flags_dropSession
  | finish i =>
    obtain ⟨-, hnext⟩ := Option.ite_none_right_eq_some.1 hstep
    cases hnext
    exact flags_goto
  | write i sent =>
    simp only [Hub.step, Hub.write] at hstep
    split at hstep
    · split at hstep
      · cases hstep
        exact flags_onCall (fun _ => ⟨rfl, rfl⟩)
      · cases hstep
    · cases hstep
  | writerDone i =>
    simp only [Hub.step, Hub.writerDone] at hstep
    split at hstep
    · split at hstep
      · cases hstep
        exact flags_onCall (fun _ => ⟨rfl, rfl⟩)
      · cases hstep
    · cases hstep
  | sweep now =>
    obtain ⟨-, hnext⟩ := Option.ite_none_right_eq_some.1 hstep
    cases hnext
    exact flags_sweep
  | markLost silentTooLong =>
    obtain ⟨-, hnext⟩ := Option.ite_none_right_eq_some.1 hstep
    cases hnext
    exact flags_markLost
  | disconnect workerID =>
    cases hstep
    exact flags_disconnect
  | launch group spec =>
    cases hstep
    exact flags_launch
  | cancel ref =>
    cases hstep
    exact flags_cancel
  | forget ref =>
    cases hstep
    exact flags_forget
  | reorder sessions refs =>
    obtain ⟨-, hnext⟩ := Option.ite_none_right_eq_some.1 hstep
    cases hnext
    rfl

/-- A new session has the flag that it was made with; the others have kept theirs. -/
theorem flags_greet (hello : Hello) (draining : Bool) (now : Time) :
    flags (h.greet hello draining now) = flags h ++ [(hello.workerID, draining)] := by
  have hold : flags (h.closeOld hello.workerID) = flags h := by
    unfold Hub.closeOld
    split
    · exact flags_closeDone
    · rfl
  have hreadopt : ∀ (l : List (Sigma fun _ : String => Nat)) (acc : List RefState × Session),
      (l.foldl (fun acc e => Hub.readopt hello.workerID hello.activeRefs acc e.1 e.2) acc).2.workerID = acc.2.workerID ∧
        (l.foldl (fun acc e => Hub.readopt hello.workerID hello.activeRefs acc e.1 e.2) acc).2.draining = acc.2.draining := by
    intro l
    induction l with
    | nil => exact fun acc => ⟨rfl, rfl⟩
    | cons e l ih =>
      intro acc
      have hone : (Hub.readopt hello.workerID hello.activeRefs acc e.1 e.2).2.workerID = acc.2.workerID ∧
          (Hub.readopt hello.workerID hello.activeRefs acc e.1 e.2).2.draining = acc.2.draining := by
        unfold Hub.readopt
        split
        · split
          · dsimp only
            split
            · exact ⟨rfl, rfl⟩
            · unfold Session.enqueue
              split
              · exact ⟨rfl, rfl⟩
              · exact ⟨rfl, rfl⟩
          · exact ⟨rfl, rfl⟩
        · exact ⟨rfl, rfl⟩
      obtain ⟨hworker, hflag⟩ := ih (Hub.readopt hello.workerID hello.activeRefs acc e.1 e.2)
      exact ⟨hworker.trans hone.1, hflag.trans hone.2⟩
  obtain ⟨hworker, hflag⟩ := hreadopt (h.closeOld hello.workerID).refs.entries
    ((h.closeOld hello.workerID).heap, { workerID := hello.workerID, labels := hello.labels, draining := draining, lastSeen := now })
  unfold Hub.greet
  rw [flags, List.map_append, ← hold]
  rw [List.map_singleton, hworker, hflag]
  rfl

end Flags

/-! ### Sessions and rows -/

/-- A new session is made from the row as it is, or as a drain in progress is going to tell
the hub; the row is still there when the session writes it; and a drain tells the hub what is
stored by then, or another one is going to. -/
def Current (m : Members) : MemberEvent → Prop
  | .register k _ => ∀ s ∈ m.starts[k]?, ∃ row ∈ m.rows.lookup s.hello.workerID,
      s.row.draining = row.draining ∨ (s.hello.workerID, row.draining) ∈ m.drains
  | .upsertWorker k _ saved => ∀ s ∈ m.starts[k]?, saved = true → m.rows.lookup s.hello.workerID ≠ none
  | .setDraining k => ∀ d ∈ m.drains[k]?, ∀ row ∈ m.rows.lookup d.1,
      row.draining = d.2 ∨ (d.1, row.draining) ∈ m.drains.eraseIdx k
  | _ => True

instance (m : Members) : ∀ e, Decidable (Current m e)
  | .register k _ => inferInstanceAs (Decidable (∀ s ∈ m.starts[k]?, ∃ row ∈ m.rows.lookup s.hello.workerID, _ ∨ _))
  | .upsertWorker k _ saved => inferInstanceAs (Decidable (∀ s ∈ m.starts[k]?, saved = true → m.rows.lookup s.hello.workerID ≠ none))
  | .setDraining k => inferInstanceAs (Decidable (∀ d ∈ m.drains[k]?, ∀ row ∈ m.rows.lookup d.1, _ ∨ _))
  | .joinWorker .. | .getWorker _ | .setWorkerDraining .. | .deleteWorker _ | .disconnect _ | .updateWorkerStatus .. | .hub _ =>
    .isTrue trivial

/-- The row of a session is there, with its flag or one that a drain in progress is going to
tell the hub; or a removal in progress is going to end the session. -/
def Tied (m : Members) (workerID : String) (flag : Bool) : Prop :=
  (∃ row, m.rows.lookup workerID = some row ∧ (flag = row.draining ∨ (workerID, row.draining) ∈ m.drains)) ∨
    m.rows.lookup workerID = none ∧ workerID ∈ m.removals

structure Agreed (m : Members) : Prop where
  sound : Sound m.hub
  tied : ∀ w i c, m.hub.sessions.lookup w = some i → m.hub.calls[i]? = some c → Tied m w c.session.draining
  once : m.removals.Nodup
  deleted : ∀ w, w ∈ m.removals ∨ w ∈ m.removed → m.rows.lookup w = none
  settled : ∀ w ∈ m.removed, w ∉ m.removals

section Agreed
variable {m m' : Members}

/-- The hub has at most lost sessions, and the rows tie what they have tied. -/
theorem Agreed.fewer (ha : Agreed m) (hsound : Sound m'.hub) (hfewer : Fewer m.hub m'.hub)
    (htied : ∀ w flag, (∃ i, m'.hub.sessions.lookup w = some i) → Tied m w flag → Tied m' w flag) (honce : m'.removals.Nodup)
    (hdeleted : ∀ w, w ∈ m'.removals ∨ w ∈ m'.removed → m'.rows.lookup w = none) (hsettled : ∀ w ∈ m'.removed, w ∉ m'.removals) :
    Agreed m' := by
  refine ⟨hsound, fun w i c hw hc => ?_, honce, hdeleted, hsettled⟩
  obtain ⟨c₀, hc₀, hflag⟩ := hfewer.flag hc
  rw [hflag]
  exact htied w _ ⟨i, hw⟩ (ha.tied w i c₀ (hfewer.sessions w i hw) hc₀)

theorem fewer_refl (h : Hub) : Fewer h h := ⟨fun _ _ hw => hw, rfl⟩

/-- A row is written that keeps the flag of the row it replaces. -/
theorem Agreed.write (ha : Agreed m) {workerID : String} {old row : WorkerRow} {starts : List Start}
    (hold : m.rows.lookup workerID = some old) (hrow : row.draining = old.draining) :
    Agreed { m with rows := m.rows.insert workerID row, starts := starts } := by
  refine ha.fewer ha.sound (fewer_refl _) (fun w flag _ htied => ?_) ha.once (fun w hw => ?_) ha.settled
  · by_cases hsame : w = workerID
    · subst hsame
      rcases htied with ⟨row', hrow', hflag⟩ | ⟨hnone, -⟩
      · rw [hold] at hrow'
        obtain rfl := Option.some.inj hrow'
        exact .inl ⟨row, AList.lookup_insert _, by rw [hrow]; exact hflag⟩
      · rw [hold] at hnone
        cases hnone
    · have hlookup : (m.rows.insert workerID row).lookup w = m.rows.lookup w := AList.lookup_insert_ne hsame
      unfold Tied
      dsimp only
      rw [hlookup]
      exact htied
  · have hne : w ≠ workerID := by
      rintro rfl
      have hnone := ha.deleted w hw
      rw [hold] at hnone
      cases hnone
    exact (AList.lookup_insert_ne hne).trans (ha.deleted w hw)

theorem Agreed.lt (ha : Agreed m) {w : String} {i : Nat} (hw : m.hub.sessions.lookup w = some i) : i < m.hub.calls.length :=
  Agrees.lt ha.sound hw

theorem nodup_index {α : Type} {l : List α} (h : l.Nodup) {i j : Nat} {a : α} (hi : l[i]? = some a) (hj : l[j]? = some a) : i = j := by
  obtain ⟨hi', rfl⟩ := List.getElem?_eq_some_iff.1 hi
  obtain ⟨hj', heq⟩ := List.getElem?_eq_some_iff.1 hj
  exact (h.getElem_inj_iff.1 heq).symm

theorem disconnect_lookup (h : Hub) (workerID : String) : (h.disconnect workerID).sessions.lookup workerID = none := by
  unfold Hub.disconnect
  cases hlookup : h.sessions.lookup workerID with
  | none => exact hlookup
  | some i => exact AList.lookup_erase _ _

/-- A session after the hub has been told a flag. -/
theorem tied_setDraining (ha : Agreed m) {k : Nat} {workerID : String} {draining : Bool}
    (hdrain : m.drains[k]? = some (workerID, draining))
    (hok : ∀ row, m.rows.lookup workerID = some row → row.draining = draining ∨ (workerID, row.draining) ∈ m.drains.eraseIdx k)
    {w : String} {i : Nat} {c : Call} (hw : m.hub.sessions.lookup w = some i)
    (hc : (m.hub.setDraining workerID draining).calls[i]? = some c) :
    Tied { m with hub := m.hub.setDraining workerID draining, drains := m.drains.eraseIdx k } w c.session.draining := by
  unfold Hub.setDraining Hub.onWorker at hc
  by_cases hsame : w = workerID
  · subst hsame
    rw [hw] at hc
    rw [Hub.onSession_calls, List.getElem?_modify_eq] at hc
    obtain ⟨c₀, hc₀, rfl⟩ := Option.map_eq_some_iff.1 hc
    rcases ha.tied w i c₀ hw hc₀ with ⟨row, hrow, -⟩ | hgone
    · exact .inl ⟨row, hrow, (hok row hrow).imp_left Eq.symm⟩
    · exact .inr hgone
  · have hkept : ∃ c₀, m.hub.calls[i]? = some c₀ ∧ c.session.draining = c₀.session.draining := by
      split at hc
      · rename_i j hj
        have hne : j ≠ i := by
          rintro rfl
          exact hsame (ha.sound.worker_unique hw hj)
        rw [Hub.onSession_calls, List.getElem?_modify_ne _ _ hne] at hc
        exact ⟨c, hc, rfl⟩
      · exact ⟨c, hc, rfl⟩
    obtain ⟨c₀, hc₀, hflag⟩ := hkept
    rw [hflag]
    rcases ha.tied w i c₀ hw hc₀ with ⟨row, hrow, hcurrent⟩ | hgone
    · refine .inl ⟨row, hrow, hcurrent.imp_right (fun hmem => ?_)⟩
      obtain ⟨j, hj⟩ := List.getElem?_of_mem hmem
      refine List.mem_eraseIdx_iff_getElem?.2 ⟨j, ?_, hj⟩
      rintro rfl
      rw [hdrain] at hj
      exact hsame (Prod.mk.inj (Option.some.inj hj)).1.symm
    · exact .inr hgone

theorem Agreed.step {e : MemberEvent} (ha : Agreed m) (hok : Current m e) (hstep : m.step e = some m') : Agreed m' := by
  cases e with
  | joinWorker workerID labels =>
    obtain ⟨⟨hnone, hremovals, hremoved⟩, hnext⟩ := Option.ite_none_right_eq_some.1 hstep
    cases hnext
    have hrows : Members.upsert m.rows workerID { labels := labels } = m.rows.insert workerID { labels := labels } := by
      rw [Members.upsert, hnone]
    refine ha.fewer ha.sound (fewer_refl _) (fun w flag _ htied => ?_) ha.once (fun w hw => ?_) ha.settled
    · by_cases hsame : w = workerID
      · subst hsame
        rcases htied with ⟨row, hrow, -⟩ | ⟨-, hmem⟩
        · rw [hnone] at hrow
          cases hrow
        · exact absurd hmem hremovals
      · unfold Tied
        dsimp only
        rw [hrows, AList.lookup_insert_ne hsame]
        exact htied
    · have hne : w ≠ workerID := by
        rintro rfl
        exact hw.elim hremovals hremoved
      dsimp only
      rw [hrows, AList.lookup_insert_ne hne]
      exact ha.deleted w hw
  | getWorker hello =>
    simp only [Members.step] at hstep
    split at hstep
    · cases hstep
      exact ⟨ha.sound, ha.tied, ha.once, ha.deleted, ha.settled⟩
    · cases hstep
  | register k now =>
    simp only [Members.step] at hstep
    split at hstep
    · rename_i hello row hstart
      cases hstep
      refine ⟨greet_sound ha.sound hello row.draining now, fun w i c hw hc => ?_, ha.once, ha.deleted, ha.settled⟩
      have hcall : (flags (m.hub.greet hello row.draining now))[i]? = some (c.session.workerID, c.session.draining) := by
        rw [flags, List.getElem?_map, hc]
        rfl
      rw [flags_greet] at hcall
      have hsessions : (m.hub.greet hello row.draining now).sessions = m.hub.sessions.insert hello.workerID m.hub.calls.length :=
        greet_sessions m.hub hello row.draining now
      rw [hsessions] at hw
      have hlen : (flags m.hub).length = m.hub.calls.length := List.length_map _
      rcases Registry.lookup_insert_cases hw with ⟨rfl, rfl⟩ | ⟨-, hw⟩
      · rw [← hlen, List.getElem?_concat_length] at hcall
        have hflag := (Prod.mk.inj (Option.some.inj hcall)).2
        obtain ⟨row', hrow', hcurrent⟩ := hok _ hstart
        rw [← hflag]
        exact .inl ⟨row', hrow', hcurrent⟩
      · have hlt := Agreed.lt ha hw
        rw [List.getElem?_append_left (by omega), flags, List.getElem?_map] at hcall
        obtain ⟨c₀, hc₀, hview⟩ := Option.map_eq_some_iff.1 hcall
        rw [← (Prod.mk.inj hview).2]
        exact ha.tied w i c₀ hw hc₀
    · cases hstep
  | upsertWorker k now saved =>
    simp only [Members.step] at hstep
    split at hstep
    · rename_i hello row i hstart
      obtain ⟨-, hnext⟩ := Option.ite_none_right_eq_some.1 hstep
      cases hnext
      cases saved with
      | false => exact ⟨ha.sound, ha.tied, ha.once, ha.deleted, ha.settled⟩
      | true =>
        cases hold : m.rows.lookup hello.workerID with
        | none => exact absurd hold (hok _ hstart rfl)
        | some old =>
          rw [if_pos rfl, Members.upsert, hold]
          exact ha.write hold rfl
    · cases hstep
  | setWorkerDraining workerID draining =>
    simp only [Members.step] at hstep
    split at hstep
    · rename_i row hrow
      cases hstep
      refine ha.fewer ha.sound (fewer_refl _) (fun w flag _ htied => ?_) ha.once (fun w hw => ?_) ha.settled
      · by_cases hsame : w = workerID
        · subst hsame
          refine .inl ⟨{ row with draining := draining }, AList.lookup_insert _, .inr ?_⟩
          exact List.mem_append_right _ List.mem_cons_self
        · rcases htied with ⟨row', hrow', hflag⟩ | ⟨hnone, hmem⟩
          · refine .inl ⟨row', (AList.lookup_insert_ne hsame).trans hrow', hflag.imp_right ?_⟩
            exact fun hmem => List.mem_append_left _ hmem
          · exact .inr ⟨(AList.lookup_insert_ne hsame).trans hnone, hmem⟩
      · have hne : w ≠ workerID := by
          rintro rfl
          have hnone := ha.deleted w hw
          rw [hrow] at hnone
          cases hnone
        exact (AList.lookup_insert_ne hne).trans (ha.deleted w hw)
    · cases hstep
  | setDraining k =>
    simp only [Members.step] at hstep
    split at hstep
    · rename_i workerID draining hdrain
      cases hstep
      refine ⟨ha.sound.same setDraining_sameTable, fun w i c hw hc => ?_, ha.once, ha.deleted, ha.settled⟩
      rw [(setDraining_sameTable (h := m.hub)).sessions] at hw
      exact tied_setDraining ha hdrain (hok _ hdrain) hw hc
    · cases hstep
  | deleteWorker workerID =>
    obtain ⟨hsome, hnext⟩ := Option.ite_none_right_eq_some.1 hstep
    cases hnext
    have hnew : workerID ∉ m.removals ∧ workerID ∉ m.removed := by
      refine ⟨fun hmem => ?_, fun hmem => ?_⟩
      · rw [ha.deleted _ (.inl hmem)] at hsome
        cases hsome
      · rw [ha.deleted _ (.inr hmem)] at hsome
        cases hsome
    have hgone : ∀ w, m.rows.lookup w = none → (m.rows.erase workerID).lookup w = none := by
      intro w hnone
      by_cases hsame : w = workerID
      · subst hsame
        exact AList.lookup_erase _ _
      · exact (AList.lookup_erase_ne hsame).trans hnone
    refine ha.fewer ha.sound (fewer_refl _) (fun w flag _ htied => ?_) ?_ (fun w hw => ?_) (fun w hw hmem => ?_)
    · by_cases hsame : w = workerID
      · subst hsame
        exact .inr ⟨AList.lookup_erase _ _, List.mem_append_right _ List.mem_cons_self⟩
      · rcases htied with ⟨row, hrow, hflag⟩ | ⟨hnone, hmem⟩
        · exact .inl ⟨row, (AList.lookup_erase_ne hsame).trans hrow, hflag⟩
        · exact .inr ⟨hgone w hnone, List.mem_append_left _ hmem⟩
    · exact List.nodup_append.2 ⟨ha.once, List.nodup_singleton _, fun a ha' b hb => by
        rw [List.mem_singleton.1 hb]
        rintro rfl
        exact hnew.1 ha'⟩
    · rcases hw with hw | hw
      · rcases List.mem_append.1 hw with hw | hw
        · exact hgone w (ha.deleted w (.inl hw))
        · rw [List.mem_singleton.1 hw]
          exact AList.lookup_erase _ _
      · exact hgone w (ha.deleted w (.inr hw))
    · rcases List.mem_append.1 hmem with hmem | hmem
      · exact ha.settled w hw hmem
      · rw [List.mem_singleton.1 hmem] at hw
        exact hnew.2 hw
  | disconnect k =>
    simp only [Members.step] at hstep
    split at hstep
    · rename_i workerID hremoval
      cases hstep
      have hmem : workerID ∈ m.removals := List.mem_of_getElem? hremoval
      have hother : ∀ w ∈ m.removals, w ≠ workerID → w ∈ m.removals.eraseIdx k := by
        intro w hw hne
        obtain ⟨j, hj⟩ := List.getElem?_of_mem hw
        refine List.mem_eraseIdx_iff_getElem?.2 ⟨j, ?_, hj⟩
        rintro rfl
        rw [hremoval] at hj
        exact hne (Option.some.inj hj).symm
      have hout : workerID ∉ m.removals.eraseIdx k := by
        intro hin
        obtain ⟨j, hjk, hj⟩ := List.mem_eraseIdx_iff_getElem?.1 hin
        exact hjk (nodup_index ha.once hj hremoval)
      refine ha.fewer (disconnect_sound ha.sound workerID) ⟨Frame.disconnect.sessions, flags_disconnect⟩
        (fun w flag hsession htied => ?_) (ha.once.sublist (List.eraseIdx_sublist _ _)) (fun w hw => ?_) (fun w hw hin => ?_)
      · have hne : w ≠ workerID := by
          rintro rfl
          obtain ⟨i, hi⟩ := hsession
          rw [disconnect_lookup] at hi
          cases hi
        rcases htied with hrow | ⟨hnone, hin⟩
        · exact .inl hrow
        · exact .inr ⟨hnone, hother w hin hne⟩
      · rcases hw with hw | hw
        · exact ha.deleted w (.inl (List.mem_of_mem_eraseIdx hw))
        · rcases List.mem_cons.1 hw with rfl | hw
          · exact ha.deleted w (.inl hmem)
          · exact ha.deleted w (.inr hw)
      · rcases List.mem_cons.1 hw with rfl | hw
        · exact hout hin
        · exact ha.settled w hw (List.mem_of_mem_eraseIdx hin)
    · cases hstep
  | updateWorkerStatus workerID state activeTasks heartbeat =>
    simp only [Members.step] at hstep
    split at hstep
    · rename_i row hrow
      cases hstep
      exact ha.write hrow rfl
    · cases hstep
  | hub e =>
    obtain ⟨hfree, hnext⟩ := Option.ite_none_right_eq_some.1 hstep
    obtain ⟨h, hh, hm⟩ := Option.map_eq_some_iff.1 hnext
    cases hm
    have hfewer : Fewer m.hub h := by
      refine step_fewer (fun hello draining now he => ?_) (fun w draining he => ?_) hh
      · rw [he] at hfree
        cases hfree
      · rw [he] at hfree
        cases hfree
    exact ha.fewer (step_sound ha.sound hh) hfewer (fun _ _ _ htied => htied) ha.once ha.deleted ha.settled

end Agreed

theorem agreed_new (boot lostAfter bootGrace : Time) (rows : Registry String WorkerRow) :
    Agreed (Members.new boot lostAfter bootGrace rows) where
  sound := new_sound boot lostAfter bootGrace
  tied w i c hw := by cases hw
  once := List.nodup_nil
  deleted w hw := by
    rcases hw with hw | hw
    · cases hw
    · cases hw
  settled := nofun

/-- The session that a task is assigned to is not draining. -/
theorem best_working {h : Hub} {group : String} {i : Nat} (hbest : h.best group = some i) :
    ∃ c, h.calls[i]? = some c ∧ c.session.draining = false := by
  have hfold : ∀ (l : List (Sigma fun _ : String => Nat)) (b : Option Nat),
      (∀ i, b = some i → ∃ c, h.calls[i]? = some c ∧ c.session.draining = false) →
      ∀ i, l.foldl (fun best e => h.better group best e.2) b = some i → ∃ c, h.calls[i]? = some c ∧ c.session.draining = false := by
    intro l
    induction l with
    | nil => exact fun b hb => hb
    | cons e l ih =>
      intro b hb
      refine ih _ (fun j hj => ?_)
      have hj : h.better group b e.2 = some j := hj
      unfold Hub.better at hj
      split at hj
      · rename_i c hc
        split at hj
        · exact hb j hj
        · rename_i hfit
          have hidle : c.session.draining = false := by
            by_contra hdraining
            exact hfit (.inr (Bool.not_eq_false _ ▸ hdraining))
          split at hj
          · split at hj
            · exact Option.some.inj hj ▸ ⟨c, hc, hidle⟩
            · exact hb j hj
          · exact Option.some.inj hj ▸ ⟨c, hc, hidle⟩
      · exact hb j hj
  exact hfold _ none nofun i hbest

/-- `Launch` assigns a task to a worker. -/
def Assigns (h : Hub) (group : String) (spec : Hub.Spec) (workerID : String) : Prop :=
  h.owned spec.assign.ref = false ∧ ∃ i c, h.best group = some i ∧ h.calls[i]? = some c ∧ c.session.workerID = workerID

/-- What is told of a worker that no call is in progress for. -/
structure Effective (m : Members) (workerID : String) : Prop where
  flag : ∀ i c, m.hub.sessions.lookup workerID = some i → m.hub.calls[i]? = some c →
    ∃ row, m.rows.lookup workerID = some row ∧ c.session.draining = row.draining
  removed : workerID ∈ m.removed → m.hub.sessions.lookup workerID = none ∧ m.rows.lookup workerID = none
  assigns : ∀ group spec, Assigns m.hub group spec workerID → ∃ row, m.rows.lookup workerID = some row ∧ row.draining = false

/-- When the sessions start from current rows, draining and removal are effective. -/
theorem membership_effective {boot lostAfter bootGrace : Time} {rows : Registry String WorkerRow} {m : Members}
    (hreach : Reaches Members.step Current (Members.new boot lostAfter bootGrace rows) m) {workerID : String}
    (hquiet : m.Quiet workerID) : Effective m workerID := by
  have ha : Agreed m := hreach.keeps (agreed_new boot lostAfter bootGrace rows) (fun a e b ha hok hstep => ha.step hok hstep)
  obtain ⟨-, hdrains, hremovals⟩ := hquiet
  have hflag : ∀ i c, m.hub.sessions.lookup workerID = some i → m.hub.calls[i]? = some c →
      ∃ row, m.rows.lookup workerID = some row ∧ c.session.draining = row.draining := by
    intro i c hw hc
    rcases ha.tied workerID i c hw hc with ⟨row, hrow, hflag | hmem⟩ | ⟨-, hmem⟩
    · exact ⟨row, hrow, hflag⟩
    · exact absurd rfl (hdrains _ hmem)
    · exact absurd hmem hremovals
  refine ⟨hflag, fun hremoved => ?_, ?_⟩
  · have hnone := ha.deleted workerID (.inr hremoved)
    refine ⟨?_, hnone⟩
    cases hw : m.hub.sessions.lookup workerID with
    | none => rfl
    | some i =>
      obtain ⟨c, hc⟩ : ∃ c, m.hub.calls[i]? = some c := ⟨_, List.getElem?_eq_getElem (ha.lt hw)⟩
      obtain ⟨row, hrow, -⟩ := hflag i c hw hc
      rw [hnone] at hrow
      cases hrow
  · rintro group spec ⟨-, i, c, hbest, hc, rfl⟩
    obtain ⟨w, hw⟩ := best_registered hbest
    obtain ⟨c', hc', hidle⟩ := best_working hbest
    rw [hc] at hc'
    obtain rfl := Option.some.inj hc'
    have hworker : c.session.workerID = w := by
      have hopen := (ha.sound.open_iff w i).1 hw
      rw [table, List.getElem?_map, hc] at hopen
      exact (Prod.mk.inj (Option.some.inj hopen)).1
    rw [← hworker] at hw
    obtain ⟨row, hrow, hflag⟩ := hflag i c hw hc
    exact ⟨row, hrow, hflag ▸ hidle⟩

/-- Workers that have joined. -/
def joined : Registry String WorkerRow := (∅ : Registry String WorkerRow).insert "wk_1" {}

/-- A session, and a drain of its worker after it. -/
def drainAfter : List MemberEvent :=
  [.getWorker { workerID := "wk_1" }, .register 0 1, .upsertWorker 0 1 true, .setWorkerDraining "wk_1" true, .setDraining 0]

theorem membership_effective_drain : ∃ m : Members,
    (m.hub.sessions.lookup "wk_1").isSome = true ∧ (m.rows.lookup "wk_1").any (·.draining) = true ∧ Effective m "wk_1" := by
  have hplay : (play Members.step Current (Members.new 0 15 30 joined) drainAfter).any
      (fun m => (m.hub.sessions.lookup "wk_1").isSome ∧ (m.rows.lookup "wk_1").any (·.draining) ∧ m.Quiet "wk_1") = true := by
    decide +kernel
  obtain ⟨m, hreach, hm⟩ := play_any _ _ _ _ _ hplay
  obtain ⟨hsession, hrow, hquiet⟩ := of_decide_eq_true hm
  exact ⟨m, hsession, hrow, membership_effective hreach hquiet⟩

/-- The worker is drained, or removed, while a session of it starts. -/
def drainDuring : List MemberEvent :=
  [.getWorker { workerID := "wk_1" }, .setWorkerDraining "wk_1" true, .setDraining 0, .register 0 1, .upsertWorker 0 1 true]

def removeDuring : List MemberEvent :=
  [.getWorker { workerID := "wk_1" }, .deleteWorker "wk_1", .disconnect 0, .register 0 1, .upsertWorker 0 1 true]

/-- The session that starts does not see the drain and gets tasks; and it brings the removed
worker back, to the store too. -/
theorem membership_ineffective :
    (∃ m, Reaches Members.step anyEvent (Members.new 0 15 30 joined) m ∧ m.Quiet "wk_1" ∧
      (m.rows.lookup "wk_1").any (·.draining) = true ∧ Assigns m.hub "default" { assign := { ref := "r/t/1" }, logPath := "" } "wk_1" ∧
      ¬ Effective m "wk_1") ∧
    ∃ m, Reaches Members.step anyEvent (Members.new 0 15 30 joined) m ∧ m.Quiet "wk_1" ∧ "wk_1" ∈ m.removed ∧
      (m.hub.sessions.lookup "wk_1").isSome = true ∧ (m.rows.lookup "wk_1").isSome = true ∧ ¬ Effective m "wk_1" := by
  constructor
  · have hplay : (play Members.step anyEvent (Members.new 0 15 30 joined) drainDuring).any
        (fun m => m.Quiet "wk_1" ∧ (m.rows.lookup "wk_1").any (·.draining) ∧ m.hub.owned "r/t/1" = false ∧
          m.hub.best "default" = some 0 ∧ m.hub.calls[0]?.any (·.session.workerID = "wk_1")) = true := by
      decide +kernel
    obtain ⟨m, hreach, hm⟩ := play_any _ _ _ _ _ hplay
    obtain ⟨hquiet, hrow, howned, hbest, hcall⟩ := of_decide_eq_true hm
    obtain ⟨c, hc, hworker⟩ : ∃ c, m.hub.calls[0]? = some c ∧ c.session.workerID = "wk_1" := by
      cases hc : m.hub.calls[0]? with
      | none =>
        rw [hc] at hcall
        cases hcall
      | some c =>
        rw [hc] at hcall
        exact ⟨c, rfl, of_decide_eq_true hcall⟩
    have hassigns : Assigns m.hub "default" { assign := { ref := "r/t/1" }, logPath := "" } "wk_1" := ⟨howned, 0, c, hbest, hc, hworker⟩
    refine ⟨m, hreach, hquiet, hrow, hassigns, fun heffective => ?_⟩
    obtain ⟨row, hlookup, hidle⟩ := heffective.assigns _ _ hassigns
    rw [hlookup, Option.any_some, hidle] at hrow
    cases hrow
  · have hplay : (play Members.step anyEvent (Members.new 0 15 30 joined) removeDuring).any
        (fun m => m.Quiet "wk_1" ∧ "wk_1" ∈ m.removed ∧ (m.hub.sessions.lookup "wk_1").isSome ∧ (m.rows.lookup "wk_1").isSome) = true := by
      decide +kernel
    obtain ⟨m, hreach, hm⟩ := play_any _ _ _ _ _ hplay
    obtain ⟨hquiet, hremoved, hsession, hrow⟩ := of_decide_eq_true hm
    refine ⟨m, hreach, hquiet, hremoved, hsession, hrow, fun heffective => ?_⟩
    rw [(heffective.removed hremoved).2] at hrow
    cases hrow

end Cronova.Properties.Membership
