import Cronova.Properties.HubLoad

/-! What a reconnect asks the worker about: the running attempts that its Hello
does not list are probed, as far as the send queue has room for the probes. -/
namespace Cronova.Properties
open Cronova.Model Cronova.Concurrency Cronova.Remote

/-- The running refs of the worker that its Hello does not list. -/
def missing (h : Hub) (hello : Hello) : List String :=
  (h.refs.entries.filter (fun e => h.running hello.workerID e.2 && !hello.activeRefs.contains e.1)).map (·.1)

/-- Every running ref of the worker is in the Hello, or its probe waits for the
writer of call `i`. -/
def Reconciled (h : Hub) (hello : Hello) (i : Nat) : Prop :=
  ∀ ref e, h.refs.lookup ref = some e → h.running hello.workerID e = true →
    ref ∈ hello.activeRefs ∨ ∃ c, h.calls[i]? = some c ∧ ServerMessage.probe ref ∈ c.session.send

theorem enqueue_send {s : Session} {m : ServerMessage} {l : List ServerMessage} (hs : s.send = l.take sendCapacity) :
    (s.enqueue m).send = (l ++ [m]).take sendCapacity := by
  unfold Session.enqueue
  by_cases hroom : l.length < sendCapacity
  · have hfull : s.send = l := by rw [hs, List.take_of_length_le hroom.le]
    have hlength : (l ++ [m]).length ≤ sendCapacity := by
      rw [List.length_append, List.length_singleton]
      omega
    rw [hfull, if_pos hroom, List.take_of_length_le hlength]
  · have hlength : s.send.length = sendCapacity := by
      rw [hs, List.length_take]
      omega
    rw [if_neg (by omega), hs, List.take_append_of_le_length (by omega)]

section Probes
variable {w : String} {known : List String}

/-- One round of the loop: a running ref that is not known is probed. -/
theorem readopt_send_one (acc : List RefState × Session) (ref : String) (e : Nat) {l : List ServerMessage}
    (hacc : acc.2.send = l.take sendCapacity) :
    (Hub.readopt w known acc ref e).2.send =
      (l ++ if acc.1[e]?.any (fun rs : RefState => rs.workerID = w ∧ rs.phase = .running) && !known.contains ref
        then [ServerMessage.probe ref] else []).take sendCapacity := by
  unfold Hub.readopt
  cases hrs : acc.1[e]? with
  | none => simp [hacc]
  | some rs =>
    rw [Option.any_some]
    by_cases hrun : rs.workerID = w ∧ rs.phase = .running
    · by_cases hknown : known.contains ref
      · simp only [hrun, hknown, and_self, if_true, decide_true, Bool.not_true, Bool.and_false, Bool.false_eq_true, if_false,
          List.append_nil]
        exact hacc
      · simp only [hrun, hknown, and_self, if_true, decide_true, Bool.not_false, Bool.and_true, Bool.false_eq_true, if_false]
        exact enqueue_send hacc
    · simp only [hrun, if_false, decide_false, Bool.false_and, Bool.false_eq_true, List.append_nil]
      exact hacc

/-- The loop of `Session` leaves the first probes in the queue, one for each
running ref that is not known. -/
theorem readopt_send (w : String) (known : List String) (entries : List (Sigma fun _ : String => Nat)) (acc : List RefState × Session) (l : List ServerMessage)
    (hacc : acc.2.send = l.take sendCapacity) :
    (entries.foldl (fun acc e => Hub.readopt w known acc e.1 e.2) acc).2.send =
      (l ++ ((entries.filter (fun e => acc.1[e.2]?.any (fun rs => rs.workerID = w ∧ rs.phase = .running) &&
        !known.contains e.1)).map (fun e => ServerMessage.probe e.1))).take sendCapacity := by
  induction entries generalizing acc l with
  | nil => simpa using hacc
  | cons x entries ih =>
    have hone := @readopt_loosened w known acc x.1 x.2 ∅
    rw [List.foldl_cons, ih _ _ (readopt_send_one acc x.1 x.2 hacc), List.append_assoc]
    simp only [hone.any_running w, List.filter_cons]
    split
    · rfl
    · rfl

end Probes

/-- The queue that a new session starts with. -/
theorem greet_send (h : Hub) (hello : Hello) (draining : Bool) (now : Time) :
    ∃ c : Call, (h.greet hello draining now).calls[h.calls.length]? = some c ∧
      c.session.send = ((missing h hello).map ServerMessage.probe).take sendCapacity := by
  have hsend := readopt_send hello.workerID hello.activeRefs h.refs.entries
    (h.heap, { workerID := hello.workerID, labels := hello.labels, draining := draining, lastSeen := now }) [] rfl
  have hmissing : (missing h hello).map ServerMessage.probe =
      (h.refs.entries.filter (fun e => h.running hello.workerID e.2 && !hello.activeRefs.contains e.1)).map
        (fun e => ServerMessage.probe e.1) := List.map_map
  unfold Hub.greet
  simp only [closeOld_refs, closeOld_heap]
  rw [List.getElem?_append_right (by rw [closeOld_length]), closeOld_length, Nat.sub_self, hmissing]
  exact ⟨_, rfl, hsend⟩

/-- What adopting refs of the Hello does to the rest: the running refs are the
old ones and refs of the Hello, and the queue is as it was. -/
structure Adopts (i : Nat) (known : List String) (w : String) (h h' : Hub) : Prop where
  linked : ∀ ref e, h'.refs.lookup ref = some e → e < h'.heap.length
  new : ∀ ref e, h'.refs.lookup ref = some e → h'.running w e = true →
    ref ∈ known ∨ h.refs.lookup ref = some e ∧ h.running w e = true
  old : ∀ ref e, h.refs.lookup ref = some e → h.running w e = true →
    h'.refs.lookup ref = some e ∧ h'.running w e = true
  send : h'.calls[i]?.map (·.session.send) = h.calls[i]?.map (·.session.send)

section Adopt
variable {i : Nat} {known : List String} {w : String} {h h' h'' : Hub}

theorem Adopts.refl (hlinked : ∀ ref e, h.refs.lookup ref = some e → e < h.heap.length) : Adopts i known w h h :=
  ⟨hlinked, fun _ _ hr hrun => .inr ⟨hr, hrun⟩, fun _ _ hr hrun => ⟨hr, hrun⟩, rfl⟩

theorem Adopts.trans (a : Adopts i known w h h') (b : Adopts i known w h' h'') : Adopts i known w h h'' := by
  refine ⟨b.linked, ?_, ?_, b.send.trans a.send⟩
  · intro ref e hr hrun
    rcases b.new ref e hr hrun with hknown | ⟨hr', hrun'⟩
    · exact .inl hknown
    · exact a.new ref e hr' hrun'
  · intro ref e hr hrun
    obtain ⟨hr', hrun'⟩ := a.old ref e hr hrun
    exact b.old ref e hr' hrun'

theorem onWorker_send {f : Session → Session} (hf : ∀ s, (f s).send = s.send) {w' : String} :
    (h.onWorker w' f).calls[i]?.map (·.session.send) = h.calls[i]?.map (·.session.send) := by
  unfold Hub.onWorker
  split
  case h_1 j _ =>
    by_cases hij : j = i
    · subst hij
      rw [Hub.onSession_calls, List.getElem?_modify_eq]
      cases h.calls[j]? with
      | none => rfl
      | some c => exact congrArg some (hf c.session)
    · rw [Hub.onSession_calls, List.getElem?_modify_ne _ _ hij]
  case h_2 => rfl

theorem onWorker_running {f : Session → Session} {w' : String} {e : Nat} :
    (h.onWorker w' f).running w e = h.running w e := by
  unfold Hub.running
  rw [onWorker_heap]

theorem adoptOrphan_adopts (hlinked : ∀ ref e, h.refs.lookup ref = some e → e < h.heap.length) {ref : String}
    {rs : RefState} (hknown : ref ∈ known) : Adopts i known w h (h.adoptOrphan ref rs) := by
  unfold Hub.adoptOrphan
  split
  case isTrue => exact .refl hlinked
  case isFalse huntracked =>
    have hnone : h.refs.lookup ref = none := by simpa using huntracked
    refine ⟨?_, ?_, ?_, ?_⟩
    · intro ref' e hr
      rw [onWorker_refs] at hr
      rw [onWorker_heap]
      have hlength : (h.track ref rs).heap.length = h.heap.length + 1 := by simp [Hub.track]
      rcases Registry.lookup_insert_cases hr with ⟨-, rfl⟩ | ⟨-, hr⟩
      · omega
      · have := hlinked ref' e hr
        omega
    · intro ref' e hr hrun
      rw [onWorker_refs] at hr
      rw [onWorker_running] at hrun
      rcases Registry.lookup_insert_cases hr with ⟨rfl, -⟩ | ⟨-, hr⟩
      · exact .inl hknown
      · rw [track_running (hlinked ref' e hr)] at hrun
        exact .inr ⟨hr, hrun⟩
    · intro ref' e hr hrun
      have hne : ref' ≠ ref := by
        rintro rfl
        rw [hnone] at hr
        cases hr
      rw [onWorker_refs, onWorker_running, track_running (hlinked ref' e hr)]
      exact ⟨(AList.lookup_insert_ne hne).trans hr, hrun⟩
    · rw [onWorker_send]
      · rfl
      · intro s
        rfl

theorem adoptRefs_adopts {workerID : String} {listing : String → Option (List TaskInstance)} {sizes : List (String × Nat)}
    (orphans : List String) (hknown : ∀ ref ∈ orphans, ref ∈ known) (h : Hub)
    (hlinked : ∀ ref e, h.refs.lookup ref = some e → e < h.heap.length) :
    Adopts i known w h (orphans.foldl (fun h ref => h.adoptRef workerID ref listing sizes) h) := by
  induction orphans generalizing h with
  | nil => exact .refl hlinked
  | cons ref orphans ih =>
    have hone : Adopts i known w h (h.adoptRef workerID ref listing sizes) := by
      rcases adoptRef_cases workerID ref listing sizes with heq | ⟨rs, heq, -⟩
      · rw [heq]
        exact .refl hlinked
      · rw [heq]
        exact adoptOrphan_adopts hlinked (hknown ref (List.mem_cons_self ..))
    exact hone.trans (ih (fun ref' hmem => hknown ref' (List.mem_cons_of_mem _ hmem)) _ hone.linked)

end Adopt

theorem mem_missing {h : Hub} {hello : Hello} {ref : String} : ref ∈ missing h hello ↔
    ∃ e, h.refs.lookup ref = some e ∧ h.running hello.workerID e = true ∧ ref ∉ hello.activeRefs := by
  unfold missing
  simp only [List.mem_map, List.mem_filter, Bool.and_eq_true, Bool.not_eq_true', List.contains_eq_mem, decide_eq_false_iff_not]
  constructor
  · rintro ⟨⟨ref', e⟩, ⟨hmem, hrun, hunknown⟩, rfl⟩
    exact ⟨e, Registry.mem_entries.1 hmem, hrun, hunknown⟩
  · rintro ⟨e, hr, hrun, hunknown⟩
    exact ⟨⟨ref, e⟩, ⟨Registry.mem_entries.2 hr, hrun, hunknown⟩, rfl⟩

theorem missing_nodup (h : Hub) (hello : Hello) : (missing h hello).Nodup :=
  List.Nodup.sublist (List.filter_sublist.map _) h.refs.nodupKeys

/-- A prefix holds all of a list without repetitions only if it is all of it. -/
theorem take_covers {α : Type*} {l : List α} {n : Nat} (hnodup : l.Nodup) : (∀ a ∈ l, a ∈ l.take n) ↔ l.length ≤ n := by
  constructor
  · intro hcovers
    have hlength := (List.subperm_of_subset hnodup hcovers).length_le
    rw [List.length_take] at hlength
    omega
  · intro hle a ha
    rwa [List.take_of_length_le hle]

theorem reconciled_iff {h : Hub} (hw : Wired h) (hello : Hello) (draining : Bool) (now : Time)
    (listing : String → Option (List TaskInstance)) (sizes : List (String × Nat)) :
    Reconciled (h.processHello hello draining now listing sizes) hello h.calls.length ↔
      (missing h hello).length ≤ sendCapacity := by
  obtain ⟨hheap, hrefs, -⟩ := greet_records h hello draining now
  obtain ⟨c, hc, hsend⟩ := greet_send h hello draining now
  have hlinked : ∀ ref e, (h.greet hello draining now).refs.lookup ref = some e → e < (h.greet hello draining now).heap.length := by
    intro ref e hr
    rw [hrefs] at hr
    rw [hheap.1]
    exact hw.known ref e hr
  have hadopts : Adopts h.calls.length hello.activeRefs hello.workerID (h.greet hello draining now)
      (h.processHello hello draining now listing sizes) :=
    adoptRefs_adopts _ (fun ref hmem => List.mem_of_mem_filter hmem) _ hlinked
  have hqueue : ∀ ref, (∃ c', (h.processHello hello draining now listing sizes).calls[h.calls.length]? = some c' ∧
      ServerMessage.probe ref ∈ c'.session.send) ↔ ref ∈ (missing h hello).take sendCapacity := by
    intro ref
    have hsame := hadopts.send
    rw [hc, Option.map_some, hsend, ← List.map_take] at hsame
    obtain ⟨c', hc', hqueued⟩ := Option.map_eq_some_iff.1 hsame
    have hmem : ServerMessage.probe ref ∈ c'.session.send ↔ ref ∈ (missing h hello).take sendCapacity := by
      rw [hqueued]
      exact List.mem_map_of_injective (fun _ _ heq => by cases heq; rfl)
    constructor
    · rintro ⟨c'', hc'', hprobe⟩
      rw [hc'] at hc''
      cases hc''
      exact hmem.1 hprobe
    · intro htaken
      exact ⟨c', hc', hmem.2 htaken⟩
  rw [← take_covers (missing_nodup h hello)]
  constructor
  · intro hreconciled ref hmissing
    obtain ⟨e, hr, hrun, hunknown⟩ := mem_missing.1 hmissing
    have hgreeted : (h.greet hello draining now).refs.lookup ref = some e := by rw [hrefs, hr]
    obtain ⟨hr', hrun'⟩ := hadopts.old ref e hgreeted (by rw [hheap.running, hrun])
    rcases hreconciled ref e hr' hrun' with hknown | hprobe
    · exact absurd hknown hunknown
    · exact (hqueue ref).1 hprobe
  · intro hcovers ref e hr hrun
    rcases hadopts.new ref e hr hrun with hknown | ⟨hr', hrun'⟩
    · exact .inl hknown
    · rw [hrefs] at hr'
      rw [hheap.running] at hrun'
      by_cases hknown : ref ∈ hello.activeRefs
      · exact .inl hknown
      · exact .inr ((hqueue ref).2 (hcovers ref (mem_missing.2 ⟨e, hr', hrun', hknown⟩)))

/-- `Session` has every running ref of the worker accounted for exactly when the
refs that the Hello lacks are no more than the queue has room for. -/
theorem reconnect_reconciles (boot lostAfter bootGrace : Time) (h : Hub)
    (hrun : Reaches Hub.step anyEvent (Hub.new boot lostAfter bootGrace) h) (hello : Hello) (draining : Bool) (now : Time)
    (listing : String → Option (List TaskInstance)) (sizes : List (String × Nat)) :
    Reconciled (h.processHello hello draining now listing sizes) hello h.calls.length ↔
      (missing h hello).length ≤ sendCapacity :=
  reconciled_iff (reaches_wired hrun) hello draining now listing sizes

/-- An attempt whose task id is `n` letters long. -/
def numbered (n : Nat) : Hub.Spec :=
  { assign := { ref := "run/" ++ String.ofList (List.replicate n 'x') ++ "/1" }, logPath := "task.log" }

/-- A worker is given `n` attempts, each sent before the next, and its stream ends. -/
def busyWorker (n : Nat) : List HubEvent :=
  [.connect { workerID := "w" } false 1, .acknowledge 0 true] ++
    (List.range n).flatMap (fun k => [.launch "default" (numbered k), .write 0 true]) ++ [.hangUp 0, .drop 0]

theorem reconnect_reconciles_two :
    ∃ h : Hub, (missing h { workerID := "w" }).length = 2 ∧
      Reconciled (h.processHello { workerID := "w" } false 2 (fun _ => none) []) { workerID := "w" } h.calls.length := by
  obtain ⟨h, hrun, hfacts⟩ := play_any Hub.step anyEvent (Hub.new 0 15 30) (busyWorker 2)
    (fun h => (missing h { workerID := "w" }).length = 2) (by decide +kernel)
  have hlength : (missing h { workerID := "w" }).length = 2 := by simpa using hfacts
  have hroom : (missing h { workerID := "w" }).length ≤ sendCapacity := by
    rw [hlength]
    decide
  exact ⟨h, hlength, (reconnect_reconciles 0 15 30 h hrun { workerID := "w" } false 2 (fun _ => none) []).2 hroom⟩

/-- A worker that comes back without any of its 65 attempts is asked about 64 of them. -/
theorem reconnect_misses : ¬ ∀ h, Reaches Hub.step anyEvent (Hub.new 0 15 30) h → ∀ hello draining now listing sizes,
    Reconciled (h.processHello hello draining now listing sizes) hello h.calls.length := by
  intro hall
  obtain ⟨h, hrun, hfacts⟩ := play_any Hub.step anyEvent (Hub.new 0 15 30) (busyWorker 65)
    (fun h => (missing h { workerID := "w" }).length = 65) (by decide +kernel)
  have hlength : (missing h { workerID := "w" }).length = 65 := by simpa using hfacts
  have hroom := (reconciled_iff (reaches_wired hrun) { workerID := "w" } false 2 (fun _ => none) []).1
    (hall h hrun { workerID := "w" } false 2 (fun _ => none) [])
  rw [hlength] at hroom
  exact absurd hroom (by decide)

end Cronova.Properties
