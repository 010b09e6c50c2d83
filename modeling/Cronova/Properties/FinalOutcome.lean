import Cronova.Properties.LogDelivery

/-! The outcome of a remote attempt: which reports are on their way from the
worker, what they say, and when the first recorded exit is the last word. -/
namespace Cronova.Properties
open Cronova.Model Cronova.Concurrency Cronova.Remote

/-- What the hub records of an event. -/
def TaskEvent.outcome (ev : TaskEvent) : Option Status :=
  if ev.launchError ≠ "" then some ⟨.exited, 127⟩
  else
    match ev.phase with
    | .unspecified => none
    | .running => some ⟨.running, ev.exitCode⟩
    | .exited => some ⟨.exited, ev.exitCode⟩
    | .unknown => some ⟨.unknown, ev.exitCode⟩

/-- The status that `watchExit` is about to report. -/
def Watch.claim : Watch → Option Status
  | .seen st | .marked st _ => some st
  | .ready ev => TaskEvent.outcome ev
  | .off | .polling | .done => none

def Reader.claim : Reader → Option Status
  | .asked code | .lookedUp code _ => some ⟨.exited, code⟩
  | .replying ev => TaskEvent.outcome ev
  | .idle => none

/-- The events of a stream that the hub has not recorded. -/
def Wire.events (w : Wire) : List TaskEvent := (w.handling.map Handling.event).toList ++ w.up

def Wire.claims (w : Wire) : List Status := (Wire.events w).filterMap TaskEvent.outcome

/-- Everything that is being said about the attempt and not recorded. -/
def claims (l : Link) : List Status :=
  (Watch.claim l.watch).toList ++ (Reader.claim l.reader).toList ++ l.wires.flatMap Wire.claims

/-- An exit of the attempt is on its way to the hub. -/
def exitUnderway (l : Link) : Bool := (claims l).any (fun st => st.phase = .exited)

/-- A probe waits to be read by the worker. -/
def probeWaits (l : Link) : Bool := l.wires[l.current]?.any (fun w => w.down.any (fun m => m matches .probe _))

/-- An exit is recorded, or on its way. -/
def exitKnown (l : Link) : Bool := exitUnderway l || decide (l.entry.phase = .exited)

/-- The worker is asked while it knows the attempt or no exit is on its way, and
its record of the attempt goes after `watchExit` has seen it and no probe waits
that asks for a known exit. -/
def Answerable (l : Link) : LinkEvent → Prop
  | .hello k _ =>
    l.wires[k]?.any (fun w => !w.listed) = true → l.entry.phase = .running → l.record.gone = true → exitUnderway l = false
  | .evict => l.watch ≠ .polling ∧ (exitKnown l = true → probeWaits l = false)
  | _ => True

instance (l : Link) (e : LinkEvent) : Decidable (Answerable l e) := by
  cases e <;> unfold Answerable <;> infer_instance

section Claims
variable {l l' : Link} {st : Status}

theorem mem_claims : st ∈ claims l ↔ Watch.claim l.watch = some st ∨ Reader.claim l.reader = some st ∨
    ∃ (k : Nat) (w : Wire), l.wires[k]? = some w ∧ st ∈ Wire.claims w := by
  simp only [claims, List.mem_append, Option.mem_toList, Option.mem_def, List.mem_flatMap, or_assoc]
  refine or_congr_right (or_congr_right ?_)
  constructor
  · rintro ⟨w, hw, hst⟩
    obtain ⟨k, hk⟩ := List.mem_iff_getElem?.1 hw
    exact ⟨k, w, hk, hst⟩
  · rintro ⟨k, w, hw, hst⟩
    exact ⟨w, List.mem_of_getElem? hw, hst⟩

theorem mem_wire_claims {w : Wire} : st ∈ Wire.claims w ↔
    ∃ ev, ((∃ handling, w.handling = some handling ∧ handling.event = ev) ∨ ev ∈ w.up) ∧ TaskEvent.outcome ev = some st := by
  simp only [Wire.claims, Wire.events, List.mem_filterMap, List.mem_append, Option.mem_toList, Option.mem_def,
    Option.map_eq_some_iff]

theorem exitUnderway_iff : exitUnderway l = true ↔ ∃ c, ⟨.exited, c⟩ ∈ claims l := by
  simp only [exitUnderway, List.any_eq_true, decide_eq_true_eq]
  constructor
  · rintro ⟨⟨phase, c⟩, hmem, rfl⟩
    exact ⟨c, hmem⟩
  · rintro ⟨c, hmem⟩
    exact ⟨_, hmem, rfl⟩

theorem exitKnown_iff : exitKnown l = true ↔ (∃ c, ⟨.exited, c⟩ ∈ claims l) ∨ l.entry.phase = .exited := by
  rw [exitKnown, Bool.or_eq_true, exitUnderway_iff, decide_eq_true_eq]

/-- A report says what the runner has answered. -/
theorem outcome_exitEvent {ref : String} {output : Bytes} (hst : st.phase ≠ .running) :
    TaskEvent.outcome (exitEvent ref st output) = some st := by
  obtain ⟨phase, c⟩ := st
  cases phase with
  | unknown => rfl
  | running => exact absurd rfl hst
  | exited => rfl

end Claims

/-- What holds of the reports whatever the order of steps. -/
structure Honest (l : Link) : Prop where
  assigned : l.assigned = true → l.record = .absent
  exited : ∀ c, ⟨.exited, c⟩ ∈ claims l → l.record.code = some c
  running : ∀ c, ⟨.running, c⟩ ∉ claims l
  unknown : ∀ c, ⟨.unknown, c⟩ ∈ claims l → l.record.gone = true ∧ (l.record = .absent → 1 < l.wires.length)
  entry : l.entry.phase = .exited → l.record.code = some l.entry.exitCode
  first : ∃ w, l.wires[0]? = some w ∧ w.greeted = true
  probes : ∀ (k : Nat) (w : Wire) (ref : String), l.wires[k]? = some w → ServerMessage.probe ref ∈ w.down →
    0 < k ∧ w.listed = false
  unlisted : ∀ (k : Nat) (w : Wire), l.wires[k]? = some w → 0 < k → w.listed = false → l.record ≠ .running
  watch : l.record = .absent ∨ l.record = .refused → l.watch = .off

/-- What the condition on the steps adds: an exit and the answer that the attempt
is not known are never both to be had. -/
structure Settled (l : Link) : Prop where
  apart : exitKnown l = true → (∀ c, ⟨.unknown, c⟩ ∉ claims l) ∧ (l.record.gone = true → probeWaits l = false)
  swept : ∀ c, l.record = .swept c → l.watch ≠ .polling

/-- The step only hands reports on. -/
structure Relays (l l' : Link) : Prop where
  assigned : l'.assigned = l.assigned
  record : l'.record = l.record
  claims : ∀ st, st ∈ claims l' → st ∈ claims l
  report : l'.entry.phase = l.entry.phase ∧ l'.entry.exitCode = l.entry.exitCode ∧ l'.entry.lost = l.entry.lost
  off : l.watch = .off → l'.watch = .off
  polling : l'.watch = .polling → l.watch = .polling
  count : l'.wires.length = l.wires.length
  wires : ∀ (k : Nat) (w' : Wire), l'.wires[k]? = some w' → ∃ w, l.wires[k]? = some w ∧ w'.listed = w.listed ∧
    (w.greeted = true → w'.greeted = true) ∧ ∀ ref, ServerMessage.probe ref ∈ w'.down → ServerMessage.probe ref ∈ w.down

section Relays
variable {l l' l'' : Link}

theorem Relays.underway (hr : Relays l l') : exitUnderway l' = true → exitUnderway l = true := by
  rw [exitUnderway_iff, exitUnderway_iff]
  rintro ⟨c, hc⟩
  exact ⟨c, hr.claims _ hc⟩

theorem Relays.known (hr : Relays l l') (h : exitKnown l' = true) : exitKnown l = true := by
  rw [exitKnown_iff] at h ⊢
  rcases h with ⟨c, hc⟩ | hphase
  · exact .inl ⟨c, hr.claims _ hc⟩
  · exact .inr (hr.report.1.symm.trans hphase)

theorem probeWaits_iff : probeWaits l = true ↔
    ∃ w ref, l.wires[l.current]? = some w ∧ ServerMessage.probe ref ∈ w.down := by
  unfold probeWaits
  rw [Option.any_eq_true]
  simp only [List.any_eq_true]
  constructor
  · rintro ⟨w, hw, m, hm, hprobe⟩
    cases m <;> simp at hprobe
    exact ⟨w, _, hw, hm⟩
  · rintro ⟨w, ref, hw, hmem⟩
    exact ⟨w, hw, .probe ref, hmem, rfl⟩

theorem Relays.waits (hr : Relays l l') (h : probeWaits l' = true) : probeWaits l = true := by
  rw [probeWaits_iff] at h ⊢
  obtain ⟨w', ref, hw', hmem⟩ := h
  obtain ⟨w, hw, -, -, hprobes⟩ := hr.wires _ w' hw'
  rw [Link.current, hr.count] at hw
  exact ⟨w, ref, hw, hprobes ref hmem⟩

theorem Relays.honest (hr : Relays l l') (hh : Honest l) : Honest l' := by
  constructor
  · intro h
    rw [hr.assigned] at h
    exact hr.record.trans (hh.assigned h)
  · intro c hc
    rw [hr.record]
    exact hh.exited c (hr.claims _ hc)
  · intro c hc
    exact hh.running c (hr.claims _ hc)
  · intro c hc
    rw [hr.record, hr.count]
    exact hh.unknown c (hr.claims _ hc)
  · intro hphase
    rw [hr.record, hr.report.2.1]
    exact hh.entry (hr.report.1.symm.trans hphase)
  · obtain ⟨w, hw, hgreeted⟩ := hh.first
    have hlt : 0 < l'.wires.length := by
      rw [hr.count]
      exact (List.getElem?_eq_some_iff.1 hw).1
    obtain ⟨w₀, hw₀, -, hstays, -⟩ := hr.wires 0 _ (List.getElem?_eq_getElem hlt)
    rw [hw] at hw₀
    cases hw₀
    exact ⟨_, List.getElem?_eq_getElem hlt, hstays hgreeted⟩
  · intro k w' ref hw' hmem
    obtain ⟨w, hw, hlisted, -, hprobes⟩ := hr.wires k w' hw'
    rw [hlisted]
    exact hh.probes k w ref hw (hprobes ref hmem)
  · intro k w' hw' hk hlisted
    obtain ⟨w, hw, hsame, -⟩ := hr.wires k w' hw'
    rw [hr.record]
    exact hh.unlisted k w hw hk (hsame.symm.trans hlisted)
  · rw [hr.record]
    exact fun h => hr.off (hh.watch h)

theorem Relays.settled (hr : Relays l l') (hs : Settled l) : Settled l' := by
  constructor
  · intro hknown
    obtain ⟨hnone, hquiet⟩ := hs.apart (hr.known hknown)
    refine ⟨fun c hc => hnone c (hr.claims _ hc), ?_⟩
    intro hgone
    rw [hr.record] at hgone
    by_contra hwaits
    rw [Bool.not_eq_false] at hwaits
    have := hr.waits hwaits
    rw [hquiet hgone] at this
    cases this
  · intro c hswept hpolling
    rw [hr.record] at hswept
    exact hs.swept c hswept (hr.polling hpolling)

theorem Relays.refl (l : Link) : Relays l l :=
  ⟨rfl, rfl, fun _ => id, ⟨rfl, rfl, rfl⟩, id, id, rfl, fun _ w' hw' => ⟨w', hw', rfl, id, fun _ => id⟩⟩

theorem Relays.trans (a : Relays l l') (b : Relays l' l'') : Relays l l'' := by
  refine ⟨b.assigned.trans a.assigned, b.record.trans a.record, fun st h => a.claims st (b.claims st h),
    ⟨b.report.1.trans a.report.1, b.report.2.1.trans a.report.2.1, b.report.2.2.trans a.report.2.2⟩,
    fun h => b.off (a.off h), fun h => a.polling (b.polling h), b.count.trans a.count, ?_⟩
  intro k w'' hw''
  obtain ⟨w', hw', hlisted', hgreeted', hprobes'⟩ := b.wires k w'' hw''
  obtain ⟨w, hw, hlisted, hgreeted, hprobes⟩ := a.wires k w' hw'
  exact ⟨w, hw, hlisted'.trans hlisted, fun h => hgreeted' (hgreeted h), fun ref h => hprobes ref (hprobes' ref h)⟩

/-- Nothing is added to a stream but what is no probe and no new report. -/
structure Carries (w w' : Wire) : Prop where
  listed : w'.listed = w.listed
  greeted : w.greeted = true → w'.greeted = true
  down : ∀ ref, ServerMessage.probe ref ∈ w'.down → ServerMessage.probe ref ∈ w.down
  claims : ∀ st, st ∈ Wire.claims w' → st ∈ Wire.claims w

theorem onWire_length {k : Nat} {f : Wire → Wire} : (l.onWire k f).wires.length = l.wires.length :=
  List.length_modify ..

theorem relays_onWire {k : Nat} {f : Wire → Wire} (hf : ∀ w, l.wires[k]? = some w → Carries w (f w)) :
    Relays l (l.onWire k f) := by
  have hwire : ∀ (j : Nat) (w' : Wire), (l.onWire k f).wires[j]? = some w' → ∃ w, l.wires[j]? = some w ∧ Carries w w' := by
    intro j w' hw'
    obtain ⟨w, hw, ⟨rfl, rfl⟩ | ⟨-, rfl⟩⟩ := onWire_wire hw'
    · exact ⟨w, hw, hf w hw⟩
    · exact ⟨w', hw, rfl, id, fun _ => id, fun _ => id⟩
  refine ⟨rfl, rfl, ?_, ⟨rfl, rfl, rfl⟩, id, id, onWire_length, ?_⟩
  · intro st hst
    rcases mem_claims.1 hst with h | h | ⟨j, w', hw', h⟩
    · exact mem_claims.2 (.inl h)
    · exact mem_claims.2 (.inr (.inl h))
    · obtain ⟨w, hw, hc⟩ := hwire j w' hw'
      exact mem_claims.2 (.inr (.inr ⟨j, w, hw, hc.claims st h⟩))
  · intro j w' hw'
    obtain ⟨w, hw, hc⟩ := hwire j w' hw'
    exact ⟨w, hw, hc.listed, hc.greeted, hc.down⟩

/-- The goroutines of the worker say nothing new. -/
theorem relays_local {watch : Watch} {reader : Reader} (track : Option RefTrack)
    (hwatch : ∀ st, Watch.claim watch = some st → st ∈ claims l) (hreader : ∀ st, Reader.claim reader = some st → st ∈ claims l)
    (hoff : l.watch = .off → watch = .off) (hpolling : watch = .polling → l.watch = .polling) :
    Relays l { l with watch := watch, reader := reader, track := track } := by
  refine ⟨rfl, rfl, ?_, ⟨rfl, rfl, rfl⟩, hoff, hpolling, rfl, fun _ w' hw' => ⟨w', hw', rfl, id, fun _ => id⟩⟩
  intro st hst
  rcases mem_claims.1 hst with h | h | h
  · exact hwatch st h
  · exact hreader st h
  · exact mem_claims.2 (.inr (.inr h))

/-- A report that is said already gets onto the current stream. -/
theorem relays_push {ev : TaskEvent} {sent : Bool} (hsaid : ∀ st, TaskEvent.outcome ev = some st → st ∈ claims l) :
    Relays l (l.push ev sent) := by
  have hwire : ∀ (j : Nat) (w' : Wire), (l.push ev sent).wires[j]? = some w' → ∃ w, l.wires[j]? = some w ∧
      (w' = w ∨ w' = { w with up := w.up ++ [ev] }) := by
    intro j w' hw'
    obtain ⟨w, hw, h | ⟨-, h⟩⟩ := push_wire hw'
    · exact ⟨w, hw, .inl h⟩
    · exact ⟨w, hw, .inr h⟩
  have hlength : (l.push ev sent).wires.length = l.wires.length := by
    unfold Link.push
    split
    · exact onWire_length
    · rfl
  rw [push_frame]
  refine ⟨rfl, rfl, ?_, ⟨rfl, rfl, rfl⟩, id, id, hlength, ?_⟩
  · intro st hst
    rcases mem_claims.1 hst with h | h | ⟨j, w', hw', h⟩
    · exact mem_claims.2 (.inl h)
    · exact mem_claims.2 (.inr (.inl h))
    · obtain ⟨w, hw, rfl | rfl⟩ := hwire j w' hw'
      · exact mem_claims.2 (.inr (.inr ⟨j, w', hw, h⟩))
      · obtain ⟨ev', hev, hout⟩ := mem_wire_claims.1 h
        rcases hev with hhandling | hup
        · exact mem_claims.2 (.inr (.inr ⟨j, w, hw, mem_wire_claims.2 ⟨ev', .inl hhandling, hout⟩⟩))
        · rcases List.mem_append.1 hup with hup | hnew
          · exact mem_claims.2 (.inr (.inr ⟨j, w, hw, mem_wire_claims.2 ⟨ev', .inr hup, hout⟩⟩))
          · rw [List.mem_singleton] at hnew
            subst hnew
            exact hsaid st hout
  · intro j w' hw'
    obtain ⟨w, hw, rfl | rfl⟩ := hwire j w' hw'
    · exact ⟨w', hw, rfl, id, fun _ => id⟩
    · exact ⟨w, hw, rfl, id, fun _ => id⟩

theorem Carries.same {w w' : Wire} (hlisted : w'.listed = w.listed) (hgreeted : w.greeted = true → w'.greeted = true)
    (hdown : ∀ ref, ServerMessage.probe ref ∈ w'.down → ServerMessage.probe ref ∈ w.down)
    (hevents : ∀ ev, ev ∈ Wire.events w' → ev ∈ Wire.events w) : Carries w w' := by
  refine ⟨hlisted, hgreeted, hdown, ?_⟩
  intro st hst
  obtain ⟨ev, hev, hout⟩ := List.mem_filterMap.1 hst
  exact List.mem_filterMap.2 ⟨ev, hevents ev hev, hout⟩

/-- A handler goes on with its event. -/
theorem relays_handling {k : Nat} {before after : Handling} (hk : l.wires[k]?.bind (·.handling) = some before)
    (hevent : after.event = before.event) : Relays l (l.onWire k (fun w => { w with handling := some after })) := by
  refine relays_onWire ?_
  intro w hw
  rw [hw, Option.bind_some] at hk
  refine .same rfl id (fun _ => id) ?_
  intro ev hev
  simp only [Wire.events, hk, Option.map_some, Option.toList_some, hevent] at hev ⊢
  exact hev

theorem relays_entry {entry : RefState} {appended : Bytes} {output : Option Bytes}
    (hreport : entry.phase = l.entry.phase ∧ entry.exitCode = l.entry.exitCode ∧ entry.lost = l.entry.lost) :
    Relays l { l with entry := entry, appended := appended, output := output } :=
  ⟨rfl, rfl, fun _ => id, hreport, id, id, rfl, fun _ w' hw' => ⟨w', hw', rfl, id, fun _ => id⟩⟩

theorem onChunk_report (rs : RefState) (c : LogChunk) (disk : RefState.Disk) :
    (rs.onChunk c disk).state.phase = rs.phase ∧ (rs.onChunk c disk).state.exitCode = rs.exitCode ∧
      (rs.onChunk c disk).state.lost = rs.lost := by
  unfold RefState.onChunk
  dsimp only
  split
  · exact ⟨rfl, rfl, rfl⟩
  · split
    · exact ⟨rfl, rfl, rfl⟩
    · split
      · exact ⟨rfl, rfl, rfl⟩
      · split <;> split <;> exact ⟨rfl, rfl, rfl⟩

theorem relays_chunk {k : Nat} {c : LogChunk} {disk : RefState.Disk} {room : Bool} :
    Relays l (l.handleChunk k c disk room) := by
  have hentry : Relays l { l with entry := (l.entry.onChunk c disk).state,
                                  appended := l.appended ++ (l.entry.onChunk c disk).appended } :=
    relays_entry (onChunk_report l.entry c disk)
  unfold Link.handleChunk
  dsimp only
  split
  · split
    · refine hentry.trans (relays_onWire ?_)
      intro w _
      refine .same rfl id ?_ (fun _ => id)
      intro ref hmem
      simpa using hmem
    · exact hentry
  · exact hentry

theorem relays_ack {ack : LogAck} : Relays l (l.handleAck ack) := by
  unfold Link.handleAck
  split
  · dsimp only
    generalize RefTrack.collectable _ _ = collected
    cases collected <;>
      exact ⟨rfl, rfl, fun _ => id, ⟨rfl, rfl, rfl⟩, id, id, rfl, fun _ w' hw' => ⟨w', hw', rfl, id, fun _ => id⟩⟩
  · exact .refl l

theorem relays_took : Relays l l.took := by
  refine relays_onWire ?_
  intro w _
  exact .same rfl id (fun _ hmem => List.mem_of_mem_tail hmem) (fun _ => id)

end Relays

/-- The events that make, ask for or record a report. -/
def LinkEvent.decides : LinkEvent → Bool
  | .assign .. | .finish _ | .evict | .poll | .probed | .reconnect | .hello .. | .record .. | .markLost => true
  | _ => false

section Steps
variable {l l' : Link}

theorem step_relays (hh : Honest l) {e : LinkEvent} (he : LinkEvent.decides e = false) (hstep : l.step e = some l') :
    Relays l l' := by
  have hwatching : ∀ st, Watch.claim l.watch = some st → st ∈ claims l := fun st h => mem_claims.2 (.inl h)
  have hreading : ∀ st, Reader.claim l.reader = some st → st ∈ claims l := fun st h => mem_claims.2 (.inr (.inl h))
  cases e with
  | assign | finish | evict | poll | probed | reconnect | hello | record | markLost => cases he
  | log data =>
    obtain ⟨-, hnext⟩ := Option.ite_none_right_eq_some.1 hstep
    cases hnext
    exact ⟨rfl, rfl, fun _ => id, ⟨rfl, rfl, rfl⟩, id, id, rfl, fun _ w' hw' => ⟨w', hw', rfl, id, fun _ => id⟩⟩
  | emit data =>
    obtain ⟨-, hnext⟩ := Option.ite_none_right_eq_some.1 hstep
    cases hnext
    exact ⟨rfl, rfl, fun _ => id, ⟨rfl, rfl, rfl⟩, id, id, rfl, fun _ w' hw' => ⟨w', hw', rfl, id, fun _ => id⟩⟩
  | mark =>
    simp only [Link.step] at hstep
    split at hstep
    case h_1 st hseen =>
      cases hstep
      refine relays_local _ ?_ hreading ?_ ?_
      · intro st' h
        refine hwatching st' ?_
        rw [hseen]
        exact h
      · intro h
        rw [hseen] at h
        cases h
      · intro h
        cases h
    case h_2 => cases hstep
  | readOut readable =>
    simp only [Link.step] at hstep
    split at hstep
    case h_1 st tracked hmarked =>
      cases hstep
      have hsaid : st ∈ claims l := hwatching st (by rw [hmarked]; rfl)
      have hended : st.phase ≠ .running := by
        intro hrun
        obtain ⟨phase, c⟩ := st
        subst hrun
        exact hh.running c hsaid
      refine relays_local l.track ?_ hreading ?_ ?_
      · intro st' h
        rw [Watch.claim, outcome_exitEvent hended] at h
        cases h
        exact hsaid
      · intro h
        rw [hmarked] at h
        cases h
      · intro h
        cases h
    case h_2 => cases hstep
  | report sent =>
    simp only [Link.step] at hstep
    split at hstep
    case h_1 ev hready =>
      cases hstep
      have hpush : Relays l (l.push ev sent) := by
        refine relays_push ?_
        intro st hst
        exact hwatching st (by rw [hready]; exact hst)
      have hwatch : ({ l with watch := .done } : Link).push ev sent = { l.push ev sent with watch := .done } := by
        unfold Link.push
        split <;> rfl
      rw [hwatch]
      refine hpush.trans (relays_local (l.push ev sent).track ?_ ?_ ?_ ?_)
      · intro st h
        cases h
      · exact fun st h => mem_claims.2 (.inr (.inl h))
      · intro h
        rw [push_frame] at h
        dsimp only at h
        rw [hready] at h
        cases h
      · intro h
        cases h
    case h_2 => cases hstep
  | lookUp =>
    simp only [Link.step] at hstep
    split at hstep
    case h_1 code hasked =>
      cases hstep
      refine relays_local l.track hwatching ?_ id id
      intro st h
      refine hreading st ?_
      rw [hasked]
      exact h
    case h_2 => cases hstep
  | readAnswer readable =>
    simp only [Link.step] at hstep
    split at hstep
    case h_1 code tracked hlooked =>
      cases hstep
      refine relays_local l.track hwatching ?_ id id
      intro st h
      refine hreading st ?_
      rw [Reader.claim, outcome_exitEvent (by simp)] at h
      rw [hlooked]
      exact h
    case h_2 => cases hstep
  | reply sent =>
    simp only [Link.step] at hstep
    split at hstep
    case h_1 ev hreplying =>
      cases hstep
      have hpush : Relays l (l.push ev sent) := by
        refine relays_push ?_
        intro st hst
        exact hreading st (by rw [hreplying]; exact hst)
      have hreader : ({ l with reader := .idle } : Link).push ev sent = { l.push ev sent with reader := .idle } := by
        unfold Link.push
        split <;> rfl
      rw [hreader]
      refine hpush.trans (relays_local (l.push ev sent).track ?_ ?_ id id)
      · exact fun st h => mem_claims.2 (.inl h)
      · intro st h
        cases h
    case h_2 => cases hstep
  | acked =>
    simp only [Link.step] at hstep
    split at hstep
    · cases hstep
      exact relays_took.trans relays_ack
    · cases hstep
  | cut k n =>
    obtain ⟨-, hnext⟩ := Option.ite_none_right_eq_some.1 hstep
    cases hnext
    refine relays_onWire ?_
    intro w _
    refine .same rfl id (fun _ => id) ?_
    intro ev hev
    rcases List.mem_append.1 hev with h | h
    · exact List.mem_append_left _ h
    · exact List.mem_append_right _ (List.mem_of_mem_take h)
  | receive k =>
    simp only [Link.step] at hstep
    split at hstep
    case h_1 listed down ev rest hk =>
      cases hstep
      refine relays_onWire ?_
      intro w hw
      rw [hk] at hw
      cases hw
      refine .same rfl id (fun _ => id) ?_
      intro ev' hev
      exact hev
    case h_2 => cases hstep
  | openOutput k opened =>
    simp only [Link.step] at hstep
    split at hstep
    case h_1 ev hfound =>
      split at hstep
      · cases hstep
        exact relays_handling hfound rfl
      · cases hstep
        have hopened : Relays l (l.onWire k (fun w => { w with handling := some (.truncated ev) })) :=
          relays_handling hfound rfl
        exact hopened.trans (relays_entry ⟨rfl, rfl, rfl⟩)
    case h_2 => cases hstep
  | storeOutput k n =>
    simp only [Link.step] at hstep
    split at hstep
    case h_1 ev htruncated =>
      cases hstep
      have hstored : Relays l (l.onWire k (fun w => { w with handling := some (.stored ev) })) :=
        relays_handling htruncated rfl
      exact hstored.trans (relays_entry ⟨rfl, rfl, rfl⟩)
    case h_2 => cases hstep
  | chunk k c disk room =>
    simp only [Link.step] at hstep
    split at hstep
    · obtain ⟨-, hnext⟩ := Option.ite_none_right_eq_some.1 hstep
      cases hnext
      exact relays_chunk
    · cases hstep

/-- An event makes the record what it says, and leaves it alone when it says nothing. -/
theorem onEvent_report (rs : RefState) (ev : TaskEvent) (now : Time) :
    (rs.onEvent ev now).lost = rs.lost ∧
      match TaskEvent.outcome ev with
      | none => (rs.onEvent ev now).phase = rs.phase ∧ (rs.onEvent ev now).exitCode = rs.exitCode
      | some ⟨.exited, c⟩ => (rs.onEvent ev now).phase = .exited ∧ (rs.onEvent ev now).exitCode = c
      | some ⟨phase, _⟩ => (rs.onEvent ev now).phase = phase ∧ (rs.onEvent ev now).exitCode = rs.exitCode := by
  unfold RefState.onEvent TaskEvent.outcome
  by_cases herr : ev.launchError = ""
  · cases ev.phase <;> simp [herr, RefState.closeLog]
  · cases ev.phase <;> simp [herr, RefState.closeLog]

/-- A running attempt is spoken of by nobody. -/
theorem Honest.silent (hh : Honest l) (hrun : l.record = .running) (st : Status) : st ∉ claims l := by
  intro hst
  obtain ⟨phase, c⟩ := st
  cases phase with
  | unknown =>
    have hgone := (hh.unknown c hst).1
    rw [hrun] at hgone
    cases hgone
  | running => exact hh.running c hst
  | exited =>
    have hcode := hh.exited c hst
    rw [hrun] at hcode
    cases hcode

/-- On the only stream there is, nothing is said before the Assign is read. -/
theorem Honest.unspoken (hh : Honest l) (habsent : l.record = .absent) (hone : l.wires.length = 1) (st : Status) :
    st ∉ claims l := by
  intro hst
  obtain ⟨phase, c⟩ := st
  cases phase with
  | unknown =>
    have := (hh.unknown c hst).2 habsent
    omega
  | running => exact hh.running c hst
  | exited =>
    have hcode := hh.exited c hst
    rw [habsent] at hcode
    cases hcode

theorem Honest.not_exited (hh : Honest l) (hcode : l.record.code = none) : l.entry.phase ≠ .exited := by
  intro hphase
  rw [hh.entry hphase] at hcode
  cases hcode

theorem assign_honest (hh : Honest l) {failed : Option String} {head : Bytes} {opened : Bool}
    (hstep : l.step (.assign failed head opened) = some l') : Honest l' := by
  obtain ⟨⟨hassigned, hone, hidle, herr⟩, hnext⟩ := Option.ite_none_right_eq_some.1 hstep
  cases hnext
  have habsent := hh.assigned hassigned
  have hnone := hh.unspoken habsent hone
  have hoff := hh.watch (.inl habsent)
  have hphase := hh.not_exited (by rw [habsent]; rfl)
  have hfirst : ∀ (k : Nat) (w : Wire), l.wires[k]? = some w → ¬ 0 < k := by
    intro k w hw
    have := (List.getElem?_eq_some_iff.1 hw).1
    omega
  have hwires : ∀ st, (∃ (k : Nat) (w : Wire), l.wires[k]? = some w ∧ st ∈ Wire.claims w) → False :=
    fun st h => hnone st (mem_claims.2 (.inr (.inr h)))
  unfold Link.handleAssign
  split
  case isTrue =>
    exact ⟨(fun h => by cases h), hh.exited, hh.running, hh.unknown, hh.entry, hh.first, hh.probes, hh.unlisted, hh.watch⟩
  case isFalse =>
    cases failed with
    | none =>
      have hsilent : ∀ st, st ∉ claims { l with
          assigned := false, track := some {}, record := .running, spool := head, spooled := true, watch := .polling } := by
        intro st hst
        rcases mem_claims.1 hst with h | h | h
        · cases h
        · dsimp only at h
          rw [hidle] at h
          cases h
        · exact hwires st h
      refine ⟨(fun h => by cases h), fun c hc => absurd hc (hsilent _), fun c => hsilent _, fun c hc => absurd hc (hsilent _),
        fun h => absurd h hphase, hh.first, hh.probes, ?_, ?_⟩
      · intro k w hw hk
        exact absurd hk (hfirst k w hw)
      · rintro (h | h) <;> cases h
    | some err =>
      have hrefusal : TaskEvent.outcome (refusal l.ref err) = some ⟨.exited, 127⟩ := if_pos (by simpa [refusal] using herr)
      have honly : ∀ st, st ∈ claims { l with
          assigned := false, track := some {}, record := .refused, spool := head, spooled := opened,
          reader := .replying (refusal l.ref err) } → st = ⟨.exited, 127⟩ := by
        intro st hst
        rcases mem_claims.1 hst with h | h | h
        · dsimp only at h
          rw [hoff] at h
          cases h
        · rw [Reader.claim, hrefusal] at h
          exact (Option.some.inj h).symm
        · exact absurd h (hwires st)
      refine ⟨(fun h => by cases h), ?_, (fun c hc => by cases honly _ hc), (fun c hc => by cases honly _ hc),
        fun h => absurd h hphase, hh.first, hh.probes, ?_, fun _ => hoff⟩
      · intro c hc
        cases honly _ hc
        rfl
      · intro k w hw hk
        exact absurd hk (hfirst k w hw)

theorem finish_honest (hh : Honest l) {code : Int} (hstep : l.step (.finish code) = some l') : Honest l' := by
  obtain ⟨hrun, hnext⟩ := Option.ite_none_right_eq_some.1 hstep
  cases hnext
  have hsilent := hh.silent hrun
  refine ⟨?_, fun c hc => absurd hc (hsilent _), fun c => hsilent _, fun c hc => absurd hc (hsilent _),
    fun h => absurd h (hh.not_exited (by rw [hrun]; rfl)), hh.first, hh.probes, ?_, ?_⟩
  · intro h
    have := hh.assigned h
    rw [hrun] at this
    cases this
  · intro k w _ _ _ h
    cases h
  · rintro (h | h) <;> cases h

theorem evict_honest (hh : Honest l) (hstep : l.step .evict = some l') : Honest l' := by
  simp only [Link.step] at hstep
  split at hstep
  case h_1 code hfinished =>
    cases hstep
    refine ⟨?_, ?_, hh.running, ?_, ?_, hh.first, hh.probes, ?_, ?_⟩
    · intro h
      have := hh.assigned h
      rw [hfinished] at this
      cases this
    · intro c hc
      have := hh.exited c hc
      rwa [hfinished] at this
    · intro c hc
      have hgone := (hh.unknown c hc).1
      rw [hfinished] at hgone
      cases hgone
    · intro h
      have := hh.entry h
      rwa [hfinished] at this
    · intro k w _ _ _ h
      cases h
    · rintro (h | h) <;> cases h
  case h_2 => cases hstep

/-- What the runner answers about an attempt that is not running. -/
theorem probe_phase {r : Record} (hr : r ≠ .running) : r.probe.phase ≠ .running := by
  cases r with
  | running => exact absurd rfl hr
  | absent | finished | refused | swept => simp [Record.probe]

theorem poll_cases (hstep : l.step .poll = some l') :
    l.watch = .polling ∧ (l' = l ∨ l.record ≠ .running ∧ l' = { l with watch := .seen l.record.probe }) := by
  simp only [Link.step] at hstep
  split at hstep
  case h_1 hpolling =>
    refine ⟨hpolling, ?_⟩
    split at hstep
    case isTrue =>
      cases hstep
      exact .inl rfl
    case isFalse hended =>
      cases hstep
      exact .inr ⟨hended, rfl⟩
  case h_2 => cases hstep

/-- `watchExit` says what the runner has answered. -/
theorem seen_claims {st : Status} (hst : st ∈ claims { l with watch := .seen l.record.probe }) :
    st = l.record.probe ∨ st ∈ claims l := by
  rcases mem_claims.1 hst with h | h | h
  · exact .inl (Option.some.inj h).symm
  · exact .inr (mem_claims.2 (.inr (.inl h)))
  · exact .inr (mem_claims.2 (.inr (.inr h)))

theorem poll_honest (hh : Honest l) (hstep : l.step .poll = some l') : Honest l' := by
  obtain ⟨hpolling, rfl | ⟨hended, rfl⟩⟩ := poll_cases hstep
  · exact hh
  · have hknown : ¬ (l.record = .absent ∨ l.record = .refused) := by
      intro h
      rw [hh.watch h] at hpolling
      cases hpolling
    push Not at hknown
    refine ⟨hh.assigned, ?_, ?_, ?_, hh.entry, hh.first, hh.probes, hh.unlisted, ?_⟩
    · intro c hc
      rcases seen_claims hc with h | h
      · cases hr : l.record <;> rw [hr] at h <;> cases h
        rfl
      · exact hh.exited c h
    · intro c hc
      rcases seen_claims hc with h | h
      · exact probe_phase hended (congrArg Status.phase h).symm
      · exact hh.running c h
    · intro c hc
      rcases seen_claims hc with h | h
      · refine ⟨?_, fun habsent => absurd habsent hknown.1⟩
        unfold Record.gone
        rw [← h]
        rfl
      · exact hh.unknown c h
    · exact fun h => absurd h (by push Not; exact hknown)

/-- The worker reads a probe. It is not the first stream that brings one. -/
theorem probed_cases (hh : Honest l) (hstep : l.step .probed = some l') :
    l.reader = .idle ∧ probeWaits l = true ∧ l.record ≠ .running ∧ 1 < l.wires.length ∧ l' = l.took.answerProbe := by
  simp only [Link.step] at hstep
  split at hstep
  case h_1 ref hidle hincoming =>
    cases hstep
    obtain ⟨w, hw, hmem⟩ := incoming_mem hincoming
    obtain ⟨hpos, hlisted⟩ := hh.probes l.current w ref hw hmem
    refine ⟨hidle, probeWaits_iff.2 ⟨w, ref, hw, hmem⟩, hh.unlisted l.current w hw hpos hlisted, ?_, rfl⟩
    rw [Link.current] at hpos
    omega
  case h_2 => cases hstep

/-- The answer says what the runner has answered. -/
theorem answer_claims (hended : l.record ≠ .running) {st : Status} (hst : st ∈ claims l.answerProbe) :
    st = l.record.probe ∨ st ∈ claims l := by
  cases hr : l.record with
  | running => exact absurd hr hended
  | finished c =>
    have hasked : l.answerProbe = { l with reader := .asked c } := by
      unfold Link.answerProbe
      rw [hr]
      rfl
    rw [hasked] at hst
    rcases mem_claims.1 hst with h | h | h
    · exact .inr (mem_claims.2 (.inl h))
    · exact .inl (Option.some.inj h).symm
    · exact .inr (mem_claims.2 (.inr (.inr h)))
  | absent | refused | swept =>
    have hasked : l.answerProbe = { l with reader := .replying { ref := l.ref, phase := .unknown } } := by
      unfold Link.answerProbe
      rw [hr]
      rfl
    rw [hasked] at hst
    rcases mem_claims.1 hst with h | h | h
    · exact .inr (mem_claims.2 (.inl h))
    · exact .inl (Option.some.inj h).symm
    · exact .inr (mem_claims.2 (.inr (.inr h)))

theorem answerProbe_frame : l.answerProbe = { l with reader := l.answerProbe.reader } := by
  unfold Link.answerProbe
  split <;> rfl

theorem answerProbe_honest (hh : Honest l) (hended : l.record ≠ .running) (hmany : 1 < l.wires.length) :
    Honest l.answerProbe := by
  have hsaid := fun st (hst : st ∈ claims l.answerProbe) => answer_claims hended hst
  rw [answerProbe_frame] at hsaid ⊢
  refine ⟨hh.assigned, ?_, ?_, ?_, hh.entry, hh.first, hh.probes, hh.unlisted, hh.watch⟩
  · intro c hc
    rcases hsaid _ hc with h | h
    · cases hr : l.record <;> rw [hr] at h <;> cases h
      rfl
    · exact hh.exited c h
  · intro c hc
    rcases hsaid _ hc with h | h
    · exact probe_phase hended (congrArg Status.phase h).symm
    · exact hh.running c h
  · intro c hc
    rcases hsaid _ hc with h | h
    · refine ⟨?_, fun _ => hmany⟩
      unfold Record.gone
      rw [← h]
      rfl
    · exact hh.unknown c h

theorem probed_honest (hh : Honest l) (hstep : l.step .probed = some l') : Honest l' := by
  obtain ⟨-, -, hended, hmany, rfl⟩ := probed_cases hh hstep
  refine answerProbe_honest (relays_took.honest hh) hended ?_
  rw [relays_took.count]
  exact hmany

theorem reconnect_cases (hstep : l.step .reconnect = some l') :
    l' = { l with wires := l.wires ++ [{ listed := l.record.active }] } ∧ ∀ st, st ∈ claims l' → st ∈ claims l := by
  obtain ⟨-, hnext⟩ := Option.ite_none_right_eq_some.1 hstep
  cases hnext
  refine ⟨rfl, ?_⟩
  intro st hst
  simpa [claims, Wire.claims, Wire.events] using hst

theorem new_wire {k : Nat} {w w' : Wire} (hw : (l.wires ++ [w'])[k]? = some w) :
    l.wires[k]? = some w ∨ k = l.wires.length ∧ w = w' := by
  by_cases hk : k < l.wires.length
  · rw [List.getElem?_append_left hk] at hw
    exact .inl hw
  · rw [List.getElem?_append_right (by omega)] at hw
    have hlast := (List.getElem?_eq_some_iff.1 hw).1
    rw [List.length_singleton] at hlast
    have hmem := List.mem_of_getElem? hw
    rw [List.mem_singleton] at hmem
    exact .inr ⟨by omega, hmem⟩

theorem reconnect_honest (hh : Honest l) (hstep : l.step .reconnect = some l') : Honest l' := by
  obtain ⟨rfl, hsaid⟩ := reconnect_cases hstep
  refine ⟨hh.assigned, fun c hc => hh.exited c (hsaid _ hc), fun c hc => hh.running c (hsaid _ hc), ?_, hh.entry, ?_, ?_, ?_,
    hh.watch⟩
  · intro c hc
    obtain ⟨hgone, hmany⟩ := hh.unknown c (hsaid _ hc)
    refine ⟨hgone, ?_⟩
    intro habsent
    have := hmany habsent
    simp only [List.length_append]
    omega
  · obtain ⟨w, hw, hgreeted⟩ := hh.first
    have hlt := (List.getElem?_eq_some_iff.1 hw).1
    exact ⟨w, (List.getElem?_append_left hlt).trans hw, hgreeted⟩
  · intro k w ref hw hmem
    rcases new_wire hw with hold | ⟨-, rfl⟩
    · exact hh.probes k w ref hold hmem
    · cases hmem
  · intro k w hw hk hlisted
    rcases new_wire hw with hold | ⟨-, rfl⟩
    · exact hh.unlisted k w hold hk hlisted
    · simpa [Record.active] using hlisted

/-- What the Hello of a stream does: a running attempt is not lost any more, and
a probe may be queued when it is not listed. -/
theorem hello_cases {k : Nat} {room : Bool} (hstep : l.step (.hello k room) = some l') :
    ∃ w, l.wires[k]? = some w ∧ w.greeted = false ∧
      l'.assigned = l.assigned ∧ l'.record = l.record ∧ l'.watch = l.watch ∧ l'.reader = l.reader ∧
      (l'.entry.phase = l.entry.phase ∧ l'.entry.exitCode = l.entry.exitCode) ∧
      (l.entry.phase ≠ .running → l'.entry = l.entry) ∧ l'.wires.length = l.wires.length ∧
      ∀ (j : Nat) (w' : Wire), l'.wires[j]? = some w' → ∃ w₀, l.wires[j]? = some w₀ ∧ w'.listed = w₀.listed ∧
        (w₀.greeted = true → w'.greeted = true) ∧ w'.up = w₀.up ∧ w'.handling = w₀.handling ∧
        ∀ ref, ServerMessage.probe ref ∈ w'.down → ServerMessage.probe ref ∈ w₀.down ∨
          j = k ∧ l.entry.phase = .running ∧ w₀.listed = false := by
  simp only [Link.step] at hstep
  split at hstep
  case h_1 w hw =>
    obtain ⟨hgreeted, hnext⟩ := Option.ite_none_right_eq_some.1 hstep
    cases hnext
    refine ⟨w, hw, hgreeted, rfl, rfl, rfl, rfl, ?_, ?_, onWire_length, ?_⟩
    · unfold Link.greet
      dsimp only
      split <;> exact ⟨rfl, rfl⟩
    · exact fun hphase => if_neg hphase
    · intro j w' hw'
      obtain ⟨w₀, hw₀, ⟨rfl, rfl⟩ | ⟨-, rfl⟩⟩ := onWire_wire hw'
      · rw [hw] at hw₀
        cases hw₀
        refine ⟨w, hw, rfl, fun _ => rfl, rfl, rfl, ?_⟩
        intro ref hmem
        by_cases hasks : l.entry.phase = .running ∧ w.listed = false ∧ room = true
        · exact .inr ⟨rfl, hasks.1, hasks.2.1⟩
        · simp only [hasks, if_false] at hmem
          exact .inl hmem
      · exact ⟨w', hw₀, rfl, id, rfl, rfl, fun _ => .inl⟩
  case h_2 => cases hstep

theorem hello_claims {k : Nat} {room : Bool} (hstep : l.step (.hello k room) = some l') {st : Status} (hst : st ∈ claims l') :
    st ∈ claims l := by
  obtain ⟨-, -, -, -, -, hwatch, hreader, -, -, -, hwires⟩ := hello_cases hstep
  rcases mem_claims.1 hst with h | h | ⟨j, w', hw', h⟩
  · rw [hwatch] at h
    exact mem_claims.2 (.inl h)
  · rw [hreader] at h
    exact mem_claims.2 (.inr (.inl h))
  · obtain ⟨w, hw, -, -, hup, hhandling, -⟩ := hwires j w' hw'
    refine mem_claims.2 (.inr (.inr ⟨j, w, hw, ?_⟩))
    rwa [Wire.claims, Wire.events, hup, hhandling] at h

theorem hello_honest (hh : Honest l) {k : Nat} {room : Bool} (hstep : l.step (.hello k room) = some l') : Honest l' := by
  obtain ⟨w, hw, hfresh, hassigned, hrecord, hwatch, -, ⟨hphase, hcode⟩, -, hlength, hwires⟩ := hello_cases hstep
  have hsaid := fun st (hst : st ∈ claims l') => hello_claims hstep hst
  constructor
  · rw [hassigned, hrecord]
    exact hh.assigned
  · intro c hc
    rw [hrecord]
    exact hh.exited c (hsaid _ hc)
  · intro c hc
    exact hh.running c (hsaid _ hc)
  · intro c hc
    rw [hrecord, hlength]
    exact hh.unknown c (hsaid _ hc)
  · rw [hrecord, hphase, hcode]
    exact hh.entry
  · obtain ⟨w₀, hw₀, hgreeted⟩ := hh.first
    have hlt : 0 < l'.wires.length := by
      rw [hlength]
      exact (List.getElem?_eq_some_iff.1 hw₀).1
    obtain ⟨w₁, hw₁, -, hstays, -⟩ := hwires 0 _ (List.getElem?_eq_getElem hlt)
    rw [hw₀] at hw₁
    cases hw₁
    exact ⟨_, List.getElem?_eq_getElem hlt, hstays hgreeted⟩
  · intro j w' ref hw' hmem
    obtain ⟨w₀, hw₀, hlisted, -, -, -, hprobes⟩ := hwires j w' hw'
    rw [hlisted]
    rcases hprobes ref hmem with hold | ⟨rfl, -, hunlisted⟩
    · exact hh.probes j w₀ ref hw₀ hold
    · refine ⟨?_, hunlisted⟩
      -- the first stream is greeted from the start
      by_contra hzero
      obtain ⟨w₁, hw₁, hgreeted⟩ := hh.first
      rw [Nat.eq_zero_of_not_pos hzero, hw₁] at hw
      cases hw
      rw [hfresh] at hgreeted
      cases hgreeted
  · intro j w' hw' hj hlisted
    obtain ⟨w₀, hw₀, hsame, -⟩ := hwires j w' hw'
    rw [hrecord]
    exact hh.unlisted j w₀ hw₀ hj (hsame.symm.trans hlisted)
  · rw [hrecord, hwatch]
    exact hh.watch

/-- A handler records its event. -/
theorem record_cases {k : Nat} {now : Time} (hstep : l.step (.record k now) = some l') :
    ∃ ev l₁, (∀ st, TaskEvent.outcome ev = some st → st ∈ claims l) ∧ Relays l l₁ ∧
      l' = { l₁ with entry := l.entry.onEvent ev now } ∧ l₁.entry = l.entry := by
  simp only [Link.step] at hstep
  split at hstep
  case h_1 ev hstored =>
    cases hstep
    obtain ⟨w, hw, hhandling⟩ := Option.bind_eq_some_iff.1 hstored
    refine ⟨ev, l.onWire k (fun w => { w with handling := none }), ?_, ?_, rfl, rfl⟩
    · intro st hst
      exact mem_claims.2 (.inr (.inr ⟨k, w, hw, mem_wire_claims.2 ⟨ev, .inl ⟨_, hhandling, rfl⟩, hst⟩⟩))
    · refine relays_onWire ?_
      intro w' _
      exact .same rfl id (fun _ => id) (fun ev' hev' => List.mem_append_right _ hev')
  case h_2 => cases hstep

theorem record_honest (hh : Honest l) {k : Nat} {now : Time} (hstep : l.step (.record k now) = some l') : Honest l' := by
  obtain ⟨ev, l₁, hsaid, hr, rfl, hentry⟩ := record_cases hstep
  have hh₁ := hr.honest hh
  refine ⟨hh₁.assigned, hh₁.exited, hh₁.running, hh₁.unknown, ?_, hh₁.first, hh₁.probes, hh₁.unlisted, hh₁.watch⟩
  intro hphase
  dsimp only at hphase ⊢
  rw [hr.record]
  have hreport := (onEvent_report l.entry ev now).2
  cases hout : TaskEvent.outcome ev with
  | none =>
    rw [hout] at hreport
    obtain ⟨hsame, hcode⟩ := hreport
    rw [hcode]
    exact hh.entry (hsame.symm.trans hphase)
  | some st =>
    rw [hout] at hreport
    obtain ⟨phase, c⟩ := st
    cases phase with
    | exited =>
      rw [hreport.2]
      exact hh.exited c (hsaid _ hout)
    | running =>
      rw [hreport.1] at hphase
      cases hphase
    | unknown =>
      rw [hreport.1] at hphase
      cases hphase

theorem markLost_honest (hh : Honest l) (hstep : l.step .markLost = some l') : Honest l' := by
  obtain ⟨hrun, hnext⟩ := Option.ite_none_right_eq_some.1 hstep
  cases hnext
  refine ⟨hh.assigned, hh.exited, hh.running, hh.unknown, ?_, hh.first, hh.probes, hh.unlisted, hh.watch⟩
  intro hphase
  dsimp only at hphase
  rw [hrun] at hphase
  cases hphase

theorem step_honest (hh : Honest l) {e : LinkEvent} (hstep : l.step e = some l') : Honest l' := by
  cases he : LinkEvent.decides e with
  | false => exact (step_relays hh he hstep).honest hh
  | true =>
    cases e with
    | assign failed head opened => exact assign_honest hh hstep
    | finish code => exact finish_honest hh hstep
    | evict => exact evict_honest hh hstep
    | poll => exact poll_honest hh hstep
    | probed => exact probed_honest hh hstep
    | reconnect => exact reconnect_honest hh hstep
    | hello k room => exact hello_honest hh hstep
    | record k now => exact record_honest hh hstep
    | markLost => exact markLost_honest hh hstep
    | _ => cases he

/-- When the Assign is read, nobody says or will say that the attempt is not known. -/
theorem assign_unasked (hh : Honest l) {failed : Option String} {head : Bytes} {opened : Bool}
    (hstep : l.step (.assign failed head opened) = some l') :
    (∀ c, ⟨.unknown, c⟩ ∉ claims l') ∧ probeWaits l' = false ∧ ∀ c, l'.record ≠ .swept c := by
  obtain ⟨⟨hassigned, hone, hidle, herr⟩, hnext⟩ := Option.ite_none_right_eq_some.1 hstep
  cases hnext
  have habsent := hh.assigned hassigned
  have hnone := hh.unspoken habsent hone
  have hunasked : ∀ w ref, l.wires[l.current]? = some w → ServerMessage.probe ref ∉ w.down := by
    intro w ref hw hmem
    have hpos := (hh.probes l.current w ref hw hmem).1
    rw [Link.current, hone] at hpos
    exact absurd hpos (lt_irrefl 0)
  have hwaits : ∀ l₁ : Link, l₁.wires = l.wires → probeWaits l₁ = false := by
    intro l₁ hwires
    by_contra hwaits
    rw [Bool.not_eq_false, probeWaits_iff, Link.current, hwires] at hwaits
    obtain ⟨w, ref, hw, hmem⟩ := hwaits
    exact hunasked w ref hw hmem
  unfold Link.handleAssign
  split
  case isTrue =>
    refine ⟨fun c => hnone _, hwaits _ rfl, ?_⟩
    intro c h
    dsimp only at h
    rw [habsent] at h
    cases h
  case isFalse =>
    cases failed with
    | none =>
      refine ⟨?_, hwaits _ rfl, fun c h => by cases h⟩
      intro c hc
      rcases mem_claims.1 hc with h | h | h
      · cases h
      · exact hnone _ (mem_claims.2 (.inr (.inl h)))
      · exact hnone _ (mem_claims.2 (.inr (.inr h)))
    | some err =>
      refine ⟨?_, hwaits _ rfl, fun c h => by cases h⟩
      intro c hc
      rcases mem_claims.1 hc with h | h | h
      · exact hnone _ (mem_claims.2 (.inl h))
      · have hrefusal : TaskEvent.outcome (refusal l.ref err) = some ⟨.exited, 127⟩ := if_pos (by simpa [refusal] using herr)
        rw [Reader.claim, hrefusal] at h
        cases h
      · exact hnone _ (mem_claims.2 (.inr (.inr h)))

/-- A finished attempt is not spoken of as unknown. -/
theorem Honest.no_unknown (hh : Honest l) (hknown : l.record.gone = false) (c : Int) : ⟨.unknown, c⟩ ∉ claims l := by
  intro hc
  rw [(hh.unknown c hc).1] at hknown
  cases hknown

theorem evict_settled (hh : Honest l) (hok : Answerable l .evict) (hstep : l.step .evict = some l') : Settled l' := by
  simp only [Link.step] at hstep
  split at hstep
  case h_1 code hfinished =>
    cases hstep
    have hknown : l.record.gone = false := by
      rw [hfinished]
      rfl
    refine ⟨?_, fun c _ => hok.1⟩
    intro hexit
    exact ⟨fun c => hh.no_unknown hknown c, fun _ => hok.2 hexit⟩
  case h_2 => cases hstep

theorem finish_settled (hh : Honest l) {code : Int} (hstep : l.step (.finish code) = some l') : Settled l' := by
  obtain ⟨hrun, hnext⟩ := Option.ite_none_right_eq_some.1 hstep
  cases hnext
  refine ⟨?_, fun c h => by cases h⟩
  intro hexit
  rcases exitKnown_iff.1 hexit with ⟨c, hc⟩ | hphase
  · exact absurd hc (hh.silent hrun _)
  · exact absurd hphase (hh.not_exited (by rw [hrun]; rfl))

theorem poll_settled (hh : Honest l) (hs : Settled l) (hstep : l.step .poll = some l') : Settled l' := by
  obtain ⟨hpolling, rfl | ⟨hended, rfl⟩⟩ := poll_cases hstep
  · exact hs
  · -- the runner knows the attempt when `watchExit` asks for the last time
    have hknown : l.record.gone = false := by
      cases hr : l.record with
      | running => exact absurd hr hended
      | finished c => rfl
      | absent =>
        rw [hh.watch (.inl hr)] at hpolling
        cases hpolling
      | refused =>
        rw [hh.watch (.inr hr)] at hpolling
        cases hpolling
      | swept c => exact absurd hpolling (hs.swept c hr)
    refine ⟨?_, fun c _ h => by cases h⟩
    intro hexit
    refine ⟨?_, ?_⟩
    · intro c hc
      rcases seen_claims hc with h | h
      · rw [Record.gone, ← h] at hknown
        cases hknown
      · exact hh.no_unknown hknown c h
    · intro hgone
      rw [hknown] at hgone
      cases hgone

theorem probed_settled (hh : Honest l) (hs : Settled l) (hstep : l.step .probed = some l') : Settled l' := by
  obtain ⟨-, hwaits, hended, -, rfl⟩ := probed_cases hh hstep
  have hs₁ := relays_took.settled hs
  have hsaid := fun st (hst : st ∈ claims l.took.answerProbe) => answer_claims (l := l.took) hended hst
  have hentry : l.took.answerProbe.entry = l.entry := by
    rw [answerProbe_frame]
    rfl
  have hrecord : l.took.answerProbe.record = l.record := by
    rw [answerProbe_frame]
    rfl
  constructor
  · intro hexit
    cases hknown : l.record.gone with
    | false =>
      refine ⟨?_, ?_⟩
      · intro c hc
        rcases hsaid _ hc with h | h
        · change _ = l.record.probe at h
          rw [Record.gone, ← h] at hknown
          cases hknown
        · exact hh.no_unknown hknown c (relays_took.claims _ h)
      · intro hgone
        rw [hrecord, hknown] at hgone
        cases hgone
    | true =>
      -- the probe was there, so no exit is known
      have hnot : exitKnown l ≠ true := by
        intro h
        have := (hs.apart h).2 hknown
        rw [hwaits] at this
        cases this
      refine absurd ?_ hnot
      rw [exitKnown_iff] at hexit ⊢
      rcases hexit with ⟨c, hc⟩ | hphase
      · rcases hsaid _ hc with h | h
        · change _ = l.record.probe at h
          rw [Record.gone, ← h] at hknown
          cases hknown
        · exact .inl ⟨c, relays_took.claims _ h⟩
      · rw [hentry] at hphase
        exact .inr hphase
  · intro c hswept
    rw [hrecord] at hswept
    rw [answerProbe_frame]
    exact hs₁.swept c hswept

theorem reconnect_settled (hs : Settled l) (hstep : l.step .reconnect = some l') : Settled l' := by
  obtain ⟨rfl, hsaid⟩ := reconnect_cases hstep
  refine ⟨?_, hs.swept⟩
  intro hexit
  have hbefore : exitKnown l = true := by
    rw [exitKnown_iff] at hexit ⊢
    rcases hexit with ⟨c, hc⟩ | hphase
    · exact .inl ⟨c, hsaid _ hc⟩
    · exact .inr hphase
  refine ⟨fun c hc => (hs.apart hbefore).1 c (hsaid _ hc), ?_⟩
  intro _
  -- the new stream has not brought anything
  by_contra hwaits
  rw [Bool.not_eq_false, probeWaits_iff] at hwaits
  obtain ⟨w, ref, hw, hmem⟩ := hwaits
  simp only [Link.current, List.length_append, List.length_singleton, Nat.add_sub_cancel] at hw
  rw [List.getElem?_append_right le_rfl, Nat.sub_self] at hw
  cases hw
  cases hmem

theorem hello_settled (hs : Settled l) {k : Nat} {room : Bool} (hok : Answerable l (.hello k room))
    (hstep : l.step (.hello k room) = some l') : Settled l' := by
  obtain ⟨w, hw, -, -, hrecord, hwatch, -, ⟨hphase, -⟩, -, hlength, hwires⟩ := hello_cases hstep
  have hsaid := fun st (hst : st ∈ claims l') => hello_claims hstep hst
  constructor
  · intro hexit
    have hbefore : exitKnown l = true := by
      rw [exitKnown_iff] at hexit ⊢
      rw [hphase] at hexit
      rcases hexit with ⟨c, hc⟩ | hrecorded
      · exact .inl ⟨c, hsaid _ hc⟩
      · exact .inr hrecorded
    obtain ⟨hnone, hquiet⟩ := hs.apart hbefore
    refine ⟨fun c hc => hnone c (hsaid _ hc), ?_⟩
    intro hgone
    rw [hrecord] at hgone
    by_contra hwaits
    rw [Bool.not_eq_false, probeWaits_iff, Link.current, hlength] at hwaits
    obtain ⟨w', ref, hw', hmem⟩ := hwaits
    obtain ⟨w₀, hw₀, -, -, -, -, hprobes⟩ := hwires _ w' hw'
    rcases hprobes ref hmem with hold | ⟨hj, hrun, hunlisted⟩
    · have hwaited : probeWaits l = true := probeWaits_iff.2 ⟨w₀, ref, hw₀, hold⟩
      rw [hquiet hgone] at hwaited
      cases hwaited
    · -- the Hello asks about an attempt that the worker does not know
      rw [hj, hw] at hw₀
      cases hw₀
      have hno := hok (by rw [hw, Option.any_some, hunlisted]; rfl) hrun hgone
      rw [exitKnown, hno, Bool.false_or, decide_eq_true_eq, hrun] at hbefore
      cases hbefore
  · intro c hswept
    rw [hrecord] at hswept
    rw [hwatch]
    exact hs.swept c hswept

theorem record_settled (hs : Settled l) {k : Nat} {now : Time} (hstep : l.step (.record k now) = some l') : Settled l' := by
  obtain ⟨ev, l₁, hsaid, hr, rfl, -⟩ := record_cases hstep
  have hs₁ := hr.settled hs
  refine ⟨?_, hs₁.swept⟩
  intro hexit
  have hbefore : exitKnown l = true := by
    rw [exitKnown_iff] at hexit ⊢
    rcases hexit with ⟨c, hc⟩ | hphase
    · exact .inl ⟨c, hr.claims _ hc⟩
    · dsimp only at hphase
      have hreport := (onEvent_report l.entry ev now).2
      cases hout : TaskEvent.outcome ev with
      | none =>
        rw [hout] at hreport
        exact .inr (hreport.1.symm.trans hphase)
      | some st =>
        rw [hout] at hreport
        obtain ⟨phase, c⟩ := st
        cases phase with
        | exited => exact .inl ⟨c, hsaid _ hout⟩
        | running =>
          rw [hreport.1] at hphase
          cases hphase
        | unknown =>
          rw [hreport.1] at hphase
          cases hphase
  obtain ⟨hnone, hquiet⟩ := hs.apart hbefore
  refine ⟨fun c hc => hnone c (hr.claims _ hc), ?_⟩
  intro hgone
  dsimp only at hgone
  rw [hr.record] at hgone
  by_contra hwaits
  rw [Bool.not_eq_false] at hwaits
  have : probeWaits l = true := hr.waits hwaits
  rw [hquiet hgone] at this
  cases this

theorem markLost_settled (hs : Settled l) (hstep : l.step .markLost = some l') : Settled l' := by
  obtain ⟨-, hnext⟩ := Option.ite_none_right_eq_some.1 hstep
  cases hnext
  exact ⟨hs.apart, hs.swept⟩

theorem step_settled (hh : Honest l) (hs : Settled l) {e : LinkEvent} (hok : Answerable l e) (hstep : l.step e = some l') :
    Settled l' := by
  cases he : LinkEvent.decides e with
  | false => exact (step_relays hh he hstep).settled hs
  | true =>
    cases e with
    | assign failed head opened =>
      obtain ⟨hnone, hquiet, hkept⟩ := assign_unasked hh hstep
      exact ⟨fun _ => ⟨hnone, fun _ => hquiet⟩, fun c h => absurd h (hkept c)⟩
    | finish code => exact finish_settled hh hstep
    | evict => exact evict_settled hh hok hstep
    | poll => exact poll_settled hh hs hstep
    | probed => exact probed_settled hh hs hstep
    | reconnect => exact reconnect_settled hs hstep
    | hello k room => exact hello_settled hs hok hstep
    | record k now => exact record_settled hs hstep
    | markLost => exact markLost_settled hs hstep
    | _ => cases he

/-- While no answer can come that the attempt is not known, a recorded exit stays. -/
theorem step_final (hh : Honest l) (hs : Settled l) (hexited : l.entry.phase = .exited) {e : LinkEvent}
    (hstep : l.step e = some l') : l'.entry.phase = .exited ∧ l'.entry.probe = l.entry.probe := by
  have hsame : l'.entry.phase = l.entry.phase → l'.entry.exitCode = l.entry.exitCode → l'.entry.lost = l.entry.lost →
      l'.entry.phase = .exited ∧ l'.entry.probe = l.entry.probe := by
    intro hphase hcode hlost
    refine ⟨hphase.trans hexited, ?_⟩
    rw [RefState.probe, RefState.probe, hphase, hcode, hlost]
  cases he : LinkEvent.decides e with
  | false =>
    obtain ⟨hphase, hcode, hlost⟩ := (step_relays hh he hstep).report
    exact hsame hphase hcode hlost
  | true =>
    cases e with
    | assign failed head opened =>
      obtain ⟨-, hnext⟩ := Option.ite_none_right_eq_some.1 hstep
      cases hnext
      have hentry : (l.handleAssign failed head opened).entry = l.entry := by
        unfold Link.handleAssign
        split
        · rfl
        · cases failed <;> rfl
      rw [hentry]
      exact ⟨hexited, rfl⟩
    | finish code =>
      obtain ⟨-, hnext⟩ := Option.ite_none_right_eq_some.1 hstep
      cases hnext
      exact ⟨hexited, rfl⟩
    | evict =>
      simp only [Link.step] at hstep
      split at hstep
      · cases hstep
        exact ⟨hexited, rfl⟩
      · cases hstep
    | poll =>
      obtain ⟨-, rfl | ⟨-, rfl⟩⟩ := poll_cases hstep
      · exact ⟨hexited, rfl⟩
      · exact ⟨hexited, rfl⟩
    | probed =>
      obtain ⟨-, -, -, -, rfl⟩ := probed_cases hh hstep
      rw [answerProbe_frame]
      exact ⟨hexited, rfl⟩
    | reconnect =>
      obtain ⟨rfl, -⟩ := reconnect_cases hstep
      exact ⟨hexited, rfl⟩
    | hello k room =>
      obtain ⟨-, -, -, -, -, -, -, -, hentry, -⟩ := hello_cases hstep
      rw [hentry (by rw [hexited]; decide)]
      exact ⟨hexited, rfl⟩
    | record k now =>
      obtain ⟨ev, l₁, hsaid, -, rfl, -⟩ := record_cases hstep
      obtain ⟨hlost, hreport⟩ := onEvent_report l.entry ev now
      cases hout : TaskEvent.outcome ev with
      | none =>
        rw [hout] at hreport
        exact hsame hreport.1 hreport.2 hlost
      | some st =>
        rw [hout] at hreport
        obtain ⟨phase, c⟩ := st
        cases phase with
        | exited =>
          -- every exit that is reported has the code of the record
          have hcode := hh.exited c (hsaid _ hout)
          rw [hh.entry hexited] at hcode
          exact hsame (hreport.1.trans hexited.symm) (hreport.2.trans (Option.some.inj hcode).symm) hlost
        | running => exact absurd (hsaid _ hout) (hh.running c)
        | unknown => exact absurd (hsaid _ hout) ((hs.apart (exitKnown_iff.2 (.inr hexited))).1 c)
    | markLost =>
      obtain ⟨hrun, -⟩ := Option.ite_none_right_eq_some.1 hstep
      rw [hexited] at hrun
      cases hrun
    | _ => cases he

end Steps

/-- How the hub comes to track an attempt. -/
inductive Begins : Link → Prop where
  | launched (spec : Hub.Spec) (workerID : String) : Begins (Link.launched spec workerID)
  | adopted (ref : String) (entry : RefState) (tr : RefTrack) (spool : Bytes) (outFile : Option Bytes)
      (hrunning : entry.phase = .running) (hkept : entry.lost = false) : Begins (Link.adopted ref entry tr spool outFile)

theorem Begins.wires {l : Link} (hl : Begins l) : ∃ w, l.wires = [w] ∧ w.greeted = true ∧ w.down = [] ∧ w.handling = none := by
  cases hl <;> exact ⟨_, rfl, rfl, rfl, rfl⟩

theorem Begins.running {l : Link} (hl : Begins l) : l.entry.phase = .running := by
  cases hl with
  | launched spec workerID => rfl
  | adopted ref entry tr spool outFile hrunning hkept => exact hrunning

theorem Begins.silent {l : Link} (hl : Begins l) (st : Status) : st ∉ claims l := by
  intro hst
  cases hl <;> cases hst

theorem Begins.honest {l : Link} (hl : Begins l) : Honest l := by
  obtain ⟨w₀, hwires, hgreeted, hdown, -⟩ := hl.wires
  have hrun := hl.running
  have honly : ∀ (k : Nat) (w : Wire), l.wires[k]? = some w → k = 0 ∧ w = w₀ := by
    intro k w hw
    rw [hwires, List.getElem?_singleton] at hw
    obtain ⟨hk, hw⟩ := Option.ite_none_right_eq_some.1 hw
    exact ⟨hk, (Option.some.inj hw).symm⟩
  refine ⟨?_, fun c hc => absurd hc (hl.silent _), fun c => hl.silent _, fun c hc => absurd hc (hl.silent _), ?_,
    ⟨w₀, by rw [hwires]; rfl, hgreeted⟩, ?_, ?_, ?_⟩
  · intro h
    cases hl with
    | launched spec workerID => rfl
    | adopted ref entry tr spool outFile hrunning hkept => cases h
  · intro h
    rw [hrun] at h
    cases h
  · intro k w ref hw hmem
    rw [(honly k w hw).2, hdown] at hmem
    cases hmem
  · intro k w hw hk
    rw [(honly k w hw).1] at hk
    exact absurd hk (lt_irrefl 0)
  · cases hl with
    | launched spec workerID => exact fun _ => rfl
    | adopted ref entry tr spool outFile hrunning hkept => rintro (h | h) <;> cases h

theorem Begins.settled {l : Link} (hl : Begins l) : Settled l := by
  have hrun := hl.running
  constructor
  · intro hexit
    rcases exitKnown_iff.1 hexit with ⟨c, hc⟩ | hphase
    · exact absurd hc (hl.silent _)
    · rw [hrun] at hphase
      cases hphase
  · intro c hswept
    cases hl <;> cases hswept

theorem reaches_honest {l₀ l : Link} {ok : Link → LinkEvent → Prop} (hl₀ : Begins l₀) (hrun : Reaches Link.step ok l₀ l) :
    Honest l :=
  hrun.keeps hl₀.honest (fun _ _ _ hh _ hstep => step_honest hh hstep)

/-- In a run that keeps to `Answerable`, the first exit that the hub records is
what its `Probe` reports from then on. -/
theorem outcome_final (l₀ : Link) (hl₀ : Begins l₀) (l : Link) (hrun : Reaches Link.step Answerable l₀ l)
    (hexited : l.entry.phase = .exited) (l' : Link) (hlater : Reaches Link.step Answerable l l') :
    l'.entry.probe = l.entry.probe := by
  have hboth : (fun l => Honest l ∧ Settled l) l := by
    apply hrun.keeps
    · exact ⟨hl₀.honest, hl₀.settled⟩
    · intro _ _ _ hi hok hstep
      exact ⟨step_honest hi.1 hstep, step_settled hi.1 hi.2 hok hstep⟩
  have hfinal : (fun l' => (Honest l' ∧ Settled l') ∧ l'.entry.phase = .exited ∧ l'.entry.probe = l.entry.probe) l' := by
    apply hlater.keeps
    · exact ⟨hboth, hexited, rfl⟩
    · rintro a e b ⟨⟨hh, hs⟩, hphase, hprobe⟩ hok hstep
      obtain ⟨hphase', hprobe'⟩ := step_final hh hs hphase hstep
      exact ⟨⟨step_honest hh hstep, step_settled hh hs hok hstep⟩, hphase', hprobe'.trans hprobe⟩
  exact hfinal.2.2

/-- An attempt that exits; its worker comes back and reports the exit once more. -/
theorem outcome_final_twice : ∃ l l' : Link, l.entry.probe = ⟨.exited, 3⟩ ∧ l'.entry.probe = ⟨.exited, 3⟩ ∧
    l'.wires.length = 2 := by
  obtain ⟨l, hrun, hfacts⟩ := play_any Link.step Answerable (Link.launched remoteTask "w")
    [.assign none [] true, .finish 3, .poll, .mark, .readOut true, .report true, .reconnect, .hello 1 true, .receive 0,
      .openOutput 0 true, .record 0 5]
    (fun l => l.entry.probe = ⟨.exited, 3⟩ ∧ l.entry.phase = .exited ∧
      (play Link.step Answerable l [.probed, .lookUp, .readAnswer true, .reply true, .receive 1, .openOutput 1 true,
        .record 1 6]).any (fun l' => l'.wires.length = 2)) (by decide +kernel)
  simp only [decide_eq_true_eq] at hfacts
  obtain ⟨hprobe, hexited, hlater⟩ := hfacts
  obtain ⟨l', hrun', hcount⟩ := play_any Link.step Answerable l _ _ hlater
  refine ⟨l, l', hprobe, ?_, by simpa using hcount⟩
  rw [outcome_final _ (.launched remoteTask "w") l hrun hexited l' hrun', hprobe]

/-- A launch fails, and its report is still under way when the worker has come
back and is asked about the attempt: the answer takes the exit back. -/
theorem outcome_taken_back : ¬ ∀ l₀ l l', Begins l₀ → Reaches Link.step anyEvent l₀ l → l.entry.phase = .exited →
    Reaches Link.step anyEvent l l' → l'.entry.probe = l.entry.probe := by
  intro hfinal
  obtain ⟨l, hrun, hfacts⟩ := play_any Link.step anyEvent (Link.launched remoteTask "w")
    [.assign (some "executable not found") [] true, .reply true, .reconnect, .hello 1 true, .receive 0,
      .openOutput 0 true, .record 0 5]
    (fun l => l.entry.probe = ⟨.exited, 127⟩ ∧ l.entry.phase = .exited ∧
      (play Link.step anyEvent l [.probed, .reply true, .receive 1, .openOutput 1 true, .record 1 6]).any
        (fun l' => l'.entry.probe = ⟨.unknown, 127⟩)) (by decide +kernel)
  simp only [decide_eq_true_eq] at hfacts
  obtain ⟨hprobe, hexited, hlater⟩ := hfacts
  obtain ⟨l', hrun', hprobe'⟩ := play_any Link.step anyEvent l _ _ hlater
  have hequal := hfinal _ l l' (.launched remoteTask "w") hrun hexited hrun'
  rw [of_decide_eq_true hprobe', hprobe] at hequal
  cases hequal

end Cronova.Properties
