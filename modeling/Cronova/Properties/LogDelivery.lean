import Cronova.Remote.Link

/-! The log of a remote attempt: whatever the order of chunks, acknowledgements,
rewinds and reconnects, the hub's file holds a prefix of the spool, and the spool
goes only when the hub has all of it. -/
namespace Cronova.Properties
open Cronova.Model Cronova.Concurrency Cronova.Remote

section Chunk
variable {rs : RefState} {c : LogChunk} {spool : Bytes}

/-- A slice that reaches beyond the mark continues it, without its overlap. -/
theorem slice_rest (hslice : c.SliceOf spool) (hstart : c.offset ≤ rs.logHW) :
    c.data.drop (rs.logHW - c.offset).toNat =
      (spool.drop rs.logHW).take (c.data.drop (rs.logHW - c.offset).toNat).length := by
  obtain ⟨hpos, hin, hdata⟩ := hslice
  have hlength : (c.data.drop (rs.logHW - c.offset).toNat).length = c.data.length - (rs.logHW - c.offset).toNat :=
    List.length_drop
  have hoffset : c.offset.toNat + (rs.logHW - c.offset).toNat = rs.logHW := by omega
  calc c.data.drop (rs.logHW - c.offset).toNat
      = ((spool.drop c.offset.toNat).take c.data.length).drop (rs.logHW - c.offset).toNat := by rw [← hdata]
    _ = ((spool.drop c.offset.toNat).drop (rs.logHW - c.offset).toNat).take
          (c.data.length - (rs.logHW - c.offset).toNat) := List.drop_take ..
    _ = (spool.drop rs.logHW).take (c.data.drop (rs.logHW - c.offset).toNat).length := by
          rw [List.drop_drop, hoffset, hlength]

/-- What a chunk can do: it changes no more than whether the file is open, or it
starts at or before the mark, reaches beyond it, and its new bytes are appended. -/
theorem onChunk_cases (rs : RefState) (c : LogChunk) (disk : RefState.Disk) :
    ((rs.onChunk c disk).appended = [] ∧ (rs.onChunk c disk).state.logHW = rs.logHW ∧
      ∀ offset rewind, (rs.onChunk c disk).ack = some (offset, rewind) → offset = rs.logHW) ∨
    (c.offset ≤ rs.logHW ∧ rs.logHW - c.offset ≤ c.data.length ∧
      (rs.onChunk c disk).appended = c.data.drop (rs.logHW - c.offset).toNat ∧
      (rs.onChunk c disk).state.logHW = rs.logHW + (rs.onChunk c disk).appended.length ∧
      (rs.onChunk c disk).ack = some ((rs.onChunk c disk).state.logHW, false)) := by
  have hsame : ∀ (rewind : Bool) offset rewind', some (rs.logHW, rewind) = some (offset, rewind') → offset = rs.logHW := by
    intro rewind offset rewind' hack
    cases hack
    rfl
  unfold RefState.onChunk
  dsimp only
  split
  case isTrue => exact .inl ⟨rfl, rfl, hsame false⟩
  case isFalse hnew =>
    split
    case isTrue => exact .inl ⟨rfl, rfl, hsame true⟩
    case isFalse hgap =>
      split
      case isTrue => exact .inl ⟨rfl, rfl, fun _ _ hack => by cases hack⟩
      case isFalse =>
        -- an end-of-file chunk closes the file, which moves no mark
        have hdata : (if c.offset < (rs.logHW : Int) then c.data.drop (rs.logHW - c.offset).toNat else c.data) =
            c.data.drop (rs.logHW - c.offset).toNat := by
          split
          · rfl
          · rw [show (rs.logHW - c.offset).toNat = 0 by omega, List.drop_zero]
        rw [hdata]
        have hreach : rs.logHW - c.offset ≤ c.data.length := by omega
        by_cases hpath : rs.logPath = ""
        · by_cases hwrites : rs.logOpen = true ∧ disk.writes = true
          · right
            refine ⟨by omega, hreach, ?_, ?_, ?_⟩ <;> cases c.eof <;> simp [hpath, hwrites, RefState.closeLog]
          · left
            refine ⟨?_, ?_, ?_⟩ <;> cases c.eof <;> simp_all [RefState.closeLog]
        · cases hwrites : disk.writes
          · left
            refine ⟨?_, ?_, ?_⟩ <;> cases c.eof <;> simp_all [RefState.closeLog]
          · right
            refine ⟨by omega, hreach, ?_, ?_, ?_⟩ <;> cases c.eof <;> simp [hpath, RefState.closeLog]

/-- What a slice of the spool does to a record whose file holds the spool up to
its mark: the mark moves by what is appended, which is the spool's next bytes,
and every acknowledgement names the mark. -/
theorem onChunk_exact (disk : RefState.Disk) (hslice : c.SliceOf spool) (hbound : rs.logHW ≤ spool.length) :
    (rs.onChunk c disk).state.logHW = rs.logHW + (rs.onChunk c disk).appended.length ∧
      rs.logHW + (rs.onChunk c disk).appended.length ≤ spool.length ∧
      (rs.onChunk c disk).appended = (spool.drop rs.logHW).take (rs.onChunk c disk).appended.length ∧
      ∀ offset rewind, (rs.onChunk c disk).ack = some (offset, rewind) → offset = (rs.onChunk c disk).state.logHW := by
  rcases onChunk_cases rs c disk with ⟨hnone, hmark, hack⟩ | ⟨hstart, hreach, hnew, hmark, hack⟩
  · rw [hnone, hmark]
    exact ⟨rfl, hbound, rfl, hack⟩
  · refine ⟨hmark, ?_, ?_, ?_⟩
    · rw [hnew, List.length_drop]
      obtain ⟨-, hin, -⟩ := hslice
      omega
    · rw [hnew]
      exact slice_rest hslice hstart
    · intro offset rewind hsent
      rw [hack] at hsent
      cases hsent
      rfl

end Chunk

section Wires
variable {l : Link} {k j : Nat} {f : Wire → Wire} {w' : Wire}

/-- A stream after an update of one of them. -/
theorem onWire_wire (hw' : (l.onWire k f).wires[j]? = some w') :
    ∃ w, l.wires[j]? = some w ∧ (j = k ∧ w' = f w ∨ j ≠ k ∧ w' = w) := by
  rw [Link.onWire] at hw'
  dsimp only at hw'
  by_cases hkj : k = j
  · subst hkj
    rw [List.getElem?_modify_eq] at hw'
    obtain ⟨w, hw, rfl⟩ := Option.map_eq_some_iff.1 hw'
    exact ⟨w, hw, .inl ⟨rfl, rfl⟩⟩
  · rw [List.getElem?_modify_ne _ _ hkj] at hw'
    exact ⟨w', hw', .inr ⟨Ne.symm hkj, rfl⟩⟩

theorem push_wire {ev : TaskEvent} {sent : Bool} (hw' : (l.push ev sent).wires[j]? = some w') :
    ∃ w, l.wires[j]? = some w ∧ (w' = w ∨ j = l.current ∧ w' = { w with up := w.up ++ [ev] }) := by
  unfold Link.push at hw'
  split at hw'
  · obtain ⟨w, hw, ⟨hj, rfl⟩ | ⟨-, rfl⟩⟩ := onWire_wire hw'
    · exact ⟨w, hw, .inr ⟨hj, rfl⟩⟩
    · exact ⟨w', hw, .inl rfl⟩
  · exact ⟨w', hw', .inl rfl⟩

theorem push_frame {ev : TaskEvent} {sent : Bool} : l.push ev sent = { l with wires := (l.push ev sent).wires } := by
  unfold Link.push
  split <;> rfl

end Wires

/-- What the log depends on. -/
structure Exact (l : Link) : Prop where
  fresh : l.assigned = true → l.record = .absent ∧ l.track = none ∧ l.spool = [] ∧ l.spooled = false
  appended : l.appended = l.spool.take l.entry.logHW
  bound : l.entry.logHW ≤ l.spool.length
  acks : ∀ (k : Nat) (w : Wire), l.wires[k]? = some w → ∀ a, ServerMessage.logAck a ∈ w.down → a.offset ≤ l.entry.logHW
  track : ∀ tr, l.track = some tr → tr.ackOff ≤ l.entry.logHW
  ended : ∀ tr, l.track = some tr → tr.exited = true → l.record ≠ .running
  watch : ∀ st, l.watch = .seen st → l.record ≠ .running

/-- Nothing acknowledged comes to the messages for the worker. -/
def NoAck (w w' : Wire) : Prop :=
  w'.down = w.down ∨ w'.down = w.down.tail ∨ ∃ ref, w'.down = w.down ++ [.probe ref]

/-- The step does nothing to the log. -/
structure Unlogged (l l' : Link) : Prop where
  assigned : l'.assigned = l.assigned
  absent : l.record = .absent → l'.record = .absent
  running : l'.record = .running → l.record = .running
  spool : l'.spool = l.spool
  spooled : l'.spooled = l.spooled
  track : l'.track = l.track
  mark : l'.entry.logHW = l.entry.logHW
  appended : l'.appended = l.appended
  watch : ∀ st, l'.watch = .seen st → l.watch = .seen st ∨ l'.record ≠ .running
  wires : ∀ (k : Nat) (w' : Wire), l'.wires[k]? = some w' → w'.down = [] ∨ ∃ w, l.wires[k]? = some w ∧ NoAck w w'

theorem NoAck.mem {w w' : Wire} (h : NoAck w w') {a : LogAck} (ha : ServerMessage.logAck a ∈ w'.down) :
    ServerMessage.logAck a ∈ w.down := by
  rcases h with h | h | ⟨ref, h⟩
  · rwa [h] at ha
  · rw [h] at ha
    exact List.mem_of_mem_tail ha
  · rw [h] at ha
    simpa using ha

/-- What is new on a stream is no acknowledgement. -/
theorem NoAck.sent {w w' : Wire} (h : NoAck w w') {sent : List ServerMessage} (hsent : w'.down = w.down ++ sent)
    (a : LogAck) : ServerMessage.logAck a ∉ sent := by
  intro ha
  rcases h with h | h | ⟨ref, h⟩
  · rw [h, List.self_eq_append_right] at hsent
    rw [hsent] at ha
    cases ha
  · have hlength := congrArg List.length hsent
    rw [h, List.length_append, List.length_tail] at hlength
    have : sent = [] := List.eq_nil_of_length_eq_zero (by omega)
    rw [this] at ha
    cases ha
  · rw [h, List.append_cancel_left_eq] at hsent
    subst hsent
    simp at ha

theorem Unlogged.exact {l l' : Link} (hq : Unlogged l l') (hx : Exact l) : Exact l' := by
  constructor
  · intro hassigned
    rw [hq.assigned] at hassigned
    obtain ⟨hrecord, htrack, hspool, hspooled⟩ := hx.fresh hassigned
    exact ⟨hq.absent hrecord, hq.track.trans htrack, hq.spool.trans hspool, hq.spooled.trans hspooled⟩
  · rw [hq.appended, hq.spool, hq.mark]
    exact hx.appended
  · rw [hq.spool, hq.mark]
    exact hx.bound
  · intro k w' hw' a ha
    rw [hq.mark]
    rcases hq.wires k w' hw' with hnil | ⟨w, hw, hno⟩
    · rw [hnil] at ha
      cases ha
    · exact hx.acks k w hw a (hno.mem ha)
  · intro tr htr
    rw [hq.track] at htr
    rw [hq.mark]
    exact hx.track tr htr
  · intro tr htr hexited hrun
    rw [hq.track] at htr
    exact hx.ended tr htr hexited (hq.running hrun)
  · intro st hst hrun
    rcases hq.watch st hst with h | h
    · exact hx.watch st h (hq.running hrun)
    · exact h hrun

/-- The events that have to do with the log. -/
def LinkEvent.ofLog : LinkEvent → Bool
  | .assign .. | .log _ | .mark | .acked | .chunk .. => true
  | _ => false

section Unlogged
variable {l l' : Link}

theorem Unlogged.refl (l : Link) : Unlogged l l :=
  ⟨rfl, id, id, rfl, rfl, rfl, rfl, rfl, fun _ => .inl, fun _ w' hw' => .inr ⟨w', hw', .inl rfl⟩⟩

theorem quiet_onWire {k : Nat} {f : Wire → Wire} (hf : ∀ w, NoAck w (f w)) : Unlogged l (l.onWire k f) := by
  refine ⟨rfl, id, id, rfl, rfl, rfl, rfl, rfl, fun _ => .inl, ?_⟩
  intro j w' hw'
  obtain ⟨w, hw, ⟨-, rfl⟩ | ⟨-, rfl⟩⟩ := onWire_wire hw'
  · exact .inr ⟨w, hw, hf w⟩
  · exact .inr ⟨w', hw, .inl rfl⟩

theorem quiet_push {ev : TaskEvent} {sent : Bool} : Unlogged l (l.push ev sent) := by
  unfold Link.push
  split
  · exact quiet_onWire (fun _ => .inl rfl)
  · exact .refl l

/-- Two quiet steps, one of them away from the streams. -/
theorem Unlogged.trans {l'' : Link} (a : Unlogged l l') (b : Unlogged l' l'') (hwires : l'.wires = l.wires ∨ l''.wires = l'.wires) :
    Unlogged l l'' := by
  refine ⟨b.assigned.trans a.assigned, fun h => b.absent (a.absent h), fun h => a.running (b.running h),
    b.spool.trans a.spool, b.spooled.trans a.spooled, b.track.trans a.track, b.mark.trans a.mark,
    b.appended.trans a.appended, ?_, ?_⟩
  · intro st hst
    rcases b.watch st hst with h | h
    · rcases a.watch st h with h | h
      · exact .inl h
      · exact .inr (fun hrun => h (b.running hrun))
    · exact .inr h
  · intro k w' hw'
    rcases hwires with hsame | hsame
    · have hb := b.wires k w' hw'
      rwa [hsame] at hb
    · rw [hsame] at hw'
      exact a.wires k w' hw'

/-- The worker's goroutines have gone on, and the streams are as they were. -/
theorem quiet_local {watch : Watch} (reader : Reader) (hwatch : ∀ st, watch ≠ .seen st) :
    Unlogged l { l with watch := watch, reader := reader } :=
  ⟨rfl, id, id, rfl, rfl, rfl, rfl, rfl, fun st h => absurd h (hwatch st), fun _ w' hw' => .inr ⟨w', hw', .inl rfl⟩⟩

theorem quiet_reader (reader : Reader) : Unlogged l { l with reader := reader } :=
  ⟨rfl, id, id, rfl, rfl, rfl, rfl, rfl, fun _ => .inl, fun _ w' hw' => .inr ⟨w', hw', .inl rfl⟩⟩

/-- A handler of the hub has gone on. -/
theorem quiet_handler {k : Nat} {f : Wire → Wire} {entry : RefState} (output : Option Bytes) (hf : ∀ w, NoAck w (f w))
    (hmark : entry.logHW = l.entry.logHW) : Unlogged l { l.onWire k f with entry := entry, output := output } :=
  ⟨rfl, id, id, rfl, rfl, rfl, hmark, rfl, fun _ => .inl, (quiet_onWire hf).wires⟩

theorem onEvent_mark (rs : RefState) (ev : TaskEvent) (now : Time) : (rs.onEvent ev now).logHW = rs.logHW := by
  unfold RefState.onEvent
  dsimp only
  split <;> split <;> rfl

theorem quiet_answerProbe : Unlogged l l.answerProbe := by
  unfold Link.answerProbe
  split <;> exact quiet_reader _

theorem answerProbe_wires : l.answerProbe.wires = l.wires := by
  unfold Link.answerProbe
  split <;> rfl

theorem step_quiet {e : LinkEvent} (he : LinkEvent.ofLog e = false) (hstep : l.step e = some l') : Unlogged l l' := by
  cases e with
  | assign | log | mark | acked | chunk => cases he
  | emit data =>
    obtain ⟨-, hnext⟩ := Option.ite_none_right_eq_some.1 hstep
    cases hnext
    exact ⟨rfl, id, id, rfl, rfl, rfl, rfl, rfl, fun _ => .inl, fun _ w' hw' => .inr ⟨w', hw', .inl rfl⟩⟩
  | finish code =>
    obtain ⟨hrun, hnext⟩ := Option.ite_none_right_eq_some.1 hstep
    cases hnext
    refine ⟨rfl, ?_, ?_, rfl, rfl, rfl, rfl, rfl, fun _ => .inl, fun _ w' hw' => .inr ⟨w', hw', .inl rfl⟩⟩
    · intro habsent
      rw [hrun] at habsent
      cases habsent
    · intro h
      cases h
  | evict =>
    simp only [Link.step] at hstep
    split at hstep
    case h_1 code hfinished =>
      cases hstep
      refine ⟨rfl, ?_, ?_, rfl, rfl, rfl, rfl, rfl, fun _ => .inl, fun _ w' hw' => .inr ⟨w', hw', .inl rfl⟩⟩
      · intro habsent
        rw [hfinished] at habsent
        cases habsent
      · intro h
        cases h
    case h_2 => cases hstep
  | poll =>
    simp only [Link.step] at hstep
    split at hstep
    case h_1 hpolling =>
      split at hstep
      case isTrue =>
        cases hstep
        exact .refl l
      case isFalse hended =>
        cases hstep
        exact ⟨rfl, id, id, rfl, rfl, rfl, rfl, rfl, fun _ _ => .inr hended, fun _ w' hw' => .inr ⟨w', hw', .inl rfl⟩⟩
    case h_2 => cases hstep
  | readOut readable =>
    simp only [Link.step] at hstep
    split at hstep
    · cases hstep
      exact quiet_local _ (fun _ h => by cases h)
    · cases hstep
  | report sent =>
    simp only [Link.step] at hstep
    split at hstep
    · cases hstep
      exact (quiet_local l.reader (fun _ h => by cases h)).trans quiet_push (.inl rfl)
    · cases hstep
  | probed =>
    simp only [Link.step] at hstep
    split at hstep
    · cases hstep
      exact (quiet_onWire (fun _ => .inr (.inl rfl))).trans quiet_answerProbe (.inr answerProbe_wires)
    · cases hstep
  | lookUp =>
    simp only [Link.step] at hstep
    split at hstep
    · cases hstep
      exact quiet_reader _
    · cases hstep
  | readAnswer readable =>
    simp only [Link.step] at hstep
    split at hstep
    · cases hstep
      exact quiet_reader _
    · cases hstep
  | reply sent =>
    simp only [Link.step] at hstep
    split at hstep
    · cases hstep
      exact (quiet_reader .idle).trans quiet_push (.inl rfl)
    · cases hstep
  | reconnect =>
    obtain ⟨-, hnext⟩ := Option.ite_none_right_eq_some.1 hstep
    cases hnext
    refine ⟨rfl, id, id, rfl, rfl, rfl, rfl, rfl, fun _ => .inl, ?_⟩
    intro k w' hw'
    by_cases hk : k < l.wires.length
    · rw [List.getElem?_append_left hk] at hw'
      exact .inr ⟨w', hw', .inl rfl⟩
    · rw [List.getElem?_append_right (by omega)] at hw'
      have hnew := List.mem_of_getElem? hw'
      rw [List.mem_singleton] at hnew
      subst hnew
      exact .inl rfl
  | cut k n =>
    obtain ⟨-, hnext⟩ := Option.ite_none_right_eq_some.1 hstep
    cases hnext
    exact quiet_onWire (fun _ => .inl rfl)
  | hello k room =>
    simp only [Link.step] at hstep
    split at hstep
    · obtain ⟨-, hnext⟩ := Option.ite_none_right_eq_some.1 hstep
      cases hnext
      refine quiet_handler l.output ?_ ?_
      · intro w
        unfold NoAck
        split
        · exact .inr (.inr ⟨l.ref, rfl⟩)
        · exact .inl rfl
      · split <;> rfl
    · cases hstep
  | receive k =>
    simp only [Link.step] at hstep
    split at hstep
    · cases hstep
      exact quiet_onWire (fun _ => .inl rfl)
    · cases hstep
  | openOutput k opened =>
    simp only [Link.step] at hstep
    split at hstep
    · split at hstep
      · cases hstep
        exact quiet_onWire (fun _ => .inl rfl)
      · cases hstep
        exact quiet_handler _ (fun _ => .inl rfl) rfl
    · cases hstep
  | storeOutput k n =>
    simp only [Link.step] at hstep
    split at hstep
    · cases hstep
      exact quiet_handler _ (fun _ => .inl rfl) rfl
    · cases hstep
  | record k now =>
    simp only [Link.step] at hstep
    split at hstep
    · cases hstep
      exact quiet_handler l.output (fun _ => .inl rfl) (onEvent_mark _ _ now)
    · cases hstep
  | markLost =>
    obtain ⟨-, hnext⟩ := Option.ite_none_right_eq_some.1 hstep
    cases hnext
    exact ⟨rfl, id, id, rfl, rfl, rfl, rfl, rfl, fun _ => .inl, fun _ w' hw' => .inr ⟨w', hw', .inl rfl⟩⟩

end Unlogged

section Log
variable {l l' : Link}

/-- Before the Assign is read there is nothing in the spool, and nothing of it at the hub. -/
theorem Exact.unassigned (hx : Exact l) (hassigned : l.assigned = true) : l.entry.logHW = 0 ∧ l.appended = [] := by
  obtain ⟨-, -, hspool, -⟩ := hx.fresh hassigned
  have hbound := hx.bound
  have happended := hx.appended
  rw [hspool] at hbound happended
  exact ⟨Nat.le_zero.1 hbound, happended.trans List.take_nil⟩

theorem assign_exact (hx : Exact l) (hassigned : l.assigned = true) (failed : Option String) (head : Bytes) (opened : Bool) :
    Exact (l.handleAssign failed head opened) := by
  obtain ⟨-, htrack, -⟩ := hx.fresh hassigned
  obtain ⟨hmark, happended⟩ := hx.unassigned hassigned
  have hempty : l.appended = head.take l.entry.logHW := by rw [hmark, happended, List.take_zero]
  have hbound : l.entry.logHW ≤ head.length := by
    rw [hmark]
    exact Nat.zero_le _
  have hnew : ∀ tr : RefTrack, some ({} : RefTrack) = some tr → tr.ackOff ≤ l.entry.logHW ∧ tr.exited = false := by
    intro tr htr
    cases htr
    exact ⟨Int.natCast_nonneg _, rfl⟩
  unfold Link.handleAssign
  rw [htrack, if_neg (by decide)]
  cases failed with
  | none =>
    refine ⟨(fun h => by cases h), hempty, hbound, hx.acks, fun tr htr => (hnew tr htr).1, ?_, fun _ h => by cases h⟩
    intro tr htr hexited
    rw [(hnew tr htr).2] at hexited
    cases hexited
  | some err =>
    refine ⟨(fun h => by cases h), hempty, hbound, hx.acks, fun tr htr => (hnew tr htr).1, ?_, fun _ _ h => by cases h⟩
    intro tr htr hexited
    rw [(hnew tr htr).2] at hexited
    cases hexited

theorem log_exact_step (hx : Exact l) (hrun : l.record = .running) (data : Bytes) :
    Exact { l with spool := l.spool ++ data } := by
  refine ⟨?_, ?_, ?_, hx.acks, hx.track, hx.ended, hx.watch⟩
  · intro hassigned
    obtain ⟨hrecord, -⟩ := hx.fresh hassigned
    rw [hrun] at hrecord
    cases hrecord
  · dsimp only
    rw [List.take_append_of_le_length hx.bound]
    exact hx.appended
  · dsimp only
    rw [List.length_append]
    exact Nat.le_add_right_of_le hx.bound

theorem onAck_bound {tr : RefTrack} {ack : LogAck} {n : Nat} (htr : tr.ackOff ≤ n) (hack : ack.offset ≤ n) :
    (tr.onAck ack).ackOff ≤ n ∧ (tr.onAck ack).exited = tr.exited := by
  unfold RefTrack.onAck
  split
  · exact ⟨hack, rfl⟩
  · split
    · exact ⟨hack, rfl⟩
    · exact ⟨htr, rfl⟩

theorem took_wire {k : Nat} {w' : Wire} (hw' : l.took.wires[k]? = some w') : ∃ w, l.wires[k]? = some w ∧ NoAck w w' := by
  obtain ⟨w, hw, ⟨-, rfl⟩ | ⟨-, rfl⟩⟩ := onWire_wire hw'
  · exact ⟨w, hw, .inr (.inl rfl)⟩
  · exact ⟨w', hw, .inl rfl⟩

/-- What the worker reads was on a stream. -/
theorem incoming_mem {m : ServerMessage} (hm : l.incoming = some m) :
    ∃ w, l.wires[l.current]? = some w ∧ m ∈ w.down := by
  obtain ⟨w, hw, hhead⟩ := Option.bind_eq_some_iff.1 hm
  exact ⟨w, hw, List.mem_of_head? hhead⟩

theorem took_exact (hx : Exact l) : Exact l.took :=
  (quiet_onWire (fun _ => .inr (.inl rfl))).exact hx

theorem handleAck_exact (hx : Exact l) {ack : LogAck} (hack : ack.offset ≤ l.entry.logHW) : Exact (l.handleAck ack) := by
  unfold Link.handleAck
  cases htr : l.track with
  | none => exact hx
  | some tr =>
    have hfresh : l.assigned ≠ true := by
      intro hassigned
      obtain ⟨-, hnone, -⟩ := hx.fresh hassigned
      rw [htr] at hnone
      cases hnone
    obtain ⟨hoff, hexited⟩ := onAck_bound (hx.track tr htr) hack
    dsimp only
    generalize (tr.onAck ack).collectable _ = collected
    cases collected
    rotate_left
    · exact ⟨fun h => absurd h hfresh, hx.appended, hx.bound, hx.acks, (fun _ h => by cases h), (fun _ h => by cases h), hx.watch⟩
    · refine ⟨fun h => absurd h hfresh, hx.appended, hx.bound, hx.acks, ?_, ?_, hx.watch⟩
      · intro tr' htr'
        cases htr'
        exact hoff
      · intro tr' htr' h
        cases htr'
        rw [hexited] at h
        exact hx.ended tr htr h

theorem handleAck_spooled (hx : Exact l) {ack : LogAck} (hack : ack.offset ≤ l.entry.logHW) (hthere : l.spooled = true)
    (hgone : (l.handleAck ack).spooled = false) :
    l.track.any (·.exited) = true ∧ l.record ≠ .running ∧ l.appended = l.spool := by
  unfold Link.handleAck at hgone
  cases htr : l.track with
  | none =>
    rw [htr, hthere] at hgone
    cases hgone
  | some tr =>
    rw [htr] at hgone
    dsimp only at hgone
    obtain ⟨hoff, hexited⟩ := onAck_bound (hx.track tr htr) hack
    by_cases hcollect : (tr.onAck ack).collectable (if l.spooled then some l.spool.length else none) = true
    · rw [RefTrack.collectable, hthere, if_pos rfl, Bool.and_eq_true, Option.any_some, decide_eq_true_eq, hexited] at hcollect
      obtain ⟨hended, hsize⟩ := hcollect
      refine ⟨hended, hx.ended tr htr hended, ?_⟩
      rw [hx.appended, List.take_of_length_le]
      omega
    · rw [if_neg hcollect, hthere] at hgone
      cases hgone

theorem mark_exact (hx : Exact l) (hstep : l.step .mark = some l') :
    Exact l' ∧ l'.spool = l.spool ∧ l'.spooled = l.spooled ∧ l'.entry = l.entry ∧ l'.wires = l.wires := by
  simp only [Link.step] at hstep
  split at hstep
  case h_1 st hseen =>
    cases hstep
    have hended := hx.watch st hseen
    refine ⟨⟨?_, hx.appended, hx.bound, hx.acks, ?_, fun _ _ _ => hended, fun _ h => by cases h⟩, rfl, rfl, rfl, rfl⟩
    · intro hassigned
      obtain ⟨hrecord, htrack, hspool⟩ := hx.fresh hassigned
      refine ⟨hrecord, ?_, hspool⟩
      rw [htrack]
      rfl
    · intro tr' htr'
      obtain ⟨tr, htr, rfl⟩ := Option.map_eq_some_iff.1 htr'
      exact hx.track tr htr
  case h_2 => cases hstep

/-- What a chunk does to the rest of the link. -/
theorem handleChunk_frame (l : Link) (k : Nat) (c : LogChunk) (disk : RefState.Disk) (room : Bool) :
    (l.handleChunk k c disk room).entry = (l.entry.onChunk c disk).state ∧
      (l.handleChunk k c disk room).appended = l.appended ++ (l.entry.onChunk c disk).appended ∧
      (l.handleChunk k c disk room).spool = l.spool ∧ (l.handleChunk k c disk room).spooled = l.spooled ∧
      (l.handleChunk k c disk room).assigned = l.assigned ∧ (l.handleChunk k c disk room).record = l.record ∧
      (l.handleChunk k c disk room).track = l.track ∧ (l.handleChunk k c disk room).watch = l.watch := by
  unfold Link.handleChunk
  dsimp only
  split
  · split
    · exact ⟨rfl, rfl, rfl, rfl, rfl, rfl, rfl, rfl⟩
    · exact ⟨rfl, rfl, rfl, rfl, rfl, rfl, rfl, rfl⟩
  · exact ⟨rfl, rfl, rfl, rfl, rfl, rfl, rfl, rfl⟩

/-- A stream after a chunk: as it was, or with an acknowledgement that is the chunk's. -/
theorem handleChunk_wire {k j : Nat} {c : LogChunk} {disk : RefState.Disk} {room : Bool} {w' : Wire}
    (hw' : (l.handleChunk k c disk room).wires[j]? = some w') : ∃ w, l.wires[j]? = some w ∧
      (w' = w ∨ ∃ offset rewind, (l.entry.onChunk c disk).ack = some (offset, rewind) ∧
        w'.down = w.down ++ [.logAck ⟨l.ref, offset, rewind⟩]) := by
  unfold Link.handleChunk at hw'
  dsimp only at hw'
  split at hw'
  case h_1 offset rewind hack =>
    split at hw'
    · obtain ⟨w, hw, ⟨-, rfl⟩ | ⟨-, rfl⟩⟩ := onWire_wire hw'
      · exact ⟨w, hw, .inr ⟨offset, rewind, hack, rfl⟩⟩
      · exact ⟨w', hw, .inl rfl⟩
    · exact ⟨w', hw', .inl rfl⟩
  case h_2 => exact ⟨w', hw', .inl rfl⟩

theorem handleChunk_exact (hx : Exact l) {k : Nat} {c : LogChunk} {disk : RefState.Disk} {room : Bool}
    (hslice : c.SliceOf l.spool) : Exact (l.handleChunk k c disk room) := by
  obtain ⟨hentry, happended, hspool, hspooled, hassigned, hrecord, htrack, hwatch⟩ := handleChunk_frame l k c disk room
  obtain ⟨hmark, hbound, hnew, hacks⟩ := onChunk_exact disk hslice hx.bound
  have hmono : l.entry.logHW ≤ (l.entry.onChunk c disk).state.logHW := by omega
  constructor
  · rw [hassigned, hrecord, htrack, hspool, hspooled]
    exact hx.fresh
  · rw [happended, hspool, hentry, hmark, List.take_add, ← hnew, hx.appended]
  · rw [hspool, hentry, hmark]
    exact hbound
  · intro j w' hw' a ha
    rw [hentry]
    obtain ⟨w, hw, rfl | ⟨offset, rewind, hack, hdown⟩⟩ := handleChunk_wire hw'
    · have := hx.acks j w' hw a ha
      omega
    · rw [hdown, List.mem_append, List.mem_singleton] at ha
      rcases ha with ha | ha
      · have := hx.acks j w hw a ha
        omega
      · cases ha
        exact Int.ofNat_le.2 (hacks offset rewind hack).le
  · intro tr htr
    rw [htrack] at htr
    rw [hentry]
    have := hx.track tr htr
    omega
  · rw [htrack, hrecord]
    exact hx.ended
  · rw [hwatch, hrecord]
    exact hx.watch

/-- What a step may do: the mark does not go down, what is acknowledged is the
mark, and the spool goes only when it is complete and the hub has it. -/
structure Delivers (l l' : Link) : Prop where
  mark : l.entry.logHW ≤ l'.entry.logHW
  acks : ∀ (k : Nat) (w w' : Wire) (sent : List ServerMessage), l.wires[k]? = some w → l'.wires[k]? = some w' →
    w'.down = w.down ++ sent → ∀ a, ServerMessage.logAck a ∈ sent → a.offset = l'.entry.logHW
  spool : l.spooled = true → l'.spooled = false →
    l.track.any (·.exited) = true ∧ l.record ≠ .running ∧ l.appended = l.spool

/-- The streams lose messages at most, or gain probes. -/
theorem delivers_of_wires (hmark : l'.entry.logHW = l.entry.logHW)
    (hwires : ∀ (k : Nat) (w' : Wire), l'.wires[k]? = some w' → w'.down = [] ∨ ∃ w, l.wires[k]? = some w ∧ NoAck w w')
    (hspool : l.spooled = true → l'.spooled = false →
      l.track.any (·.exited) = true ∧ l.record ≠ .running ∧ l.appended = l.spool) : Delivers l l' := by
  refine ⟨hmark.ge, ?_, hspool⟩
  intro k w w' sent hw hw' hsent a ha
  rcases hwires k w' hw' with hnil | ⟨w₀, hw₀, hno⟩
  · rw [hnil, List.nil_eq, List.append_eq_nil_iff] at hsent
    rw [hsent.2] at ha
    cases ha
  · rw [hw] at hw₀
    cases hw₀
    exact absurd ha (hno.sent hsent a)

theorem step_exact (hx : Exact l) {e : LinkEvent} (hstep : l.step e = some l') : Exact l' ∧ Delivers l l' := by
  cases he : LinkEvent.ofLog e with
  | false =>
    have hq := step_quiet he hstep
    refine ⟨hq.exact hx, delivers_of_wires hq.mark hq.wires ?_⟩
    intro hthere hgone
    rw [hq.spooled, hthere] at hgone
    cases hgone
  | true =>
    cases e with
    | assign failed head opened =>
      obtain ⟨⟨hassigned, -⟩, hnext⟩ := Option.ite_none_right_eq_some.1 hstep
      cases hnext
      obtain ⟨-, htrack, -, hspooled⟩ := hx.fresh hassigned
      have hsame : (l.handleAssign failed head opened).entry = l.entry ∧ (l.handleAssign failed head opened).wires = l.wires := by
        unfold Link.handleAssign
        rw [htrack, if_neg (by decide)]
        cases failed <;> exact ⟨rfl, rfl⟩
      refine ⟨assign_exact hx hassigned failed head opened, delivers_of_wires (by rw [hsame.1]) ?_ ?_⟩
      · intro k w' hw'
        rw [hsame.2] at hw'
        exact .inr ⟨w', hw', .inl rfl⟩
      · intro hthere
        rw [hspooled] at hthere
        cases hthere
    | log data =>
      obtain ⟨hrun, hnext⟩ := Option.ite_none_right_eq_some.1 hstep
      cases hnext
      refine ⟨log_exact_step hx hrun data, delivers_of_wires rfl (fun _ w' hw' => .inr ⟨w', hw', .inl rfl⟩) ?_⟩
      intro hthere hgone
      dsimp only at hgone
      rw [hthere] at hgone
      cases hgone
    | mark =>
      obtain ⟨hx', -, hspooled, hentry, hwires⟩ := mark_exact hx hstep
      refine ⟨hx', delivers_of_wires (by rw [hentry]) ?_ ?_⟩
      · intro k w' hw'
        rw [hwires] at hw'
        exact .inr ⟨w', hw', .inl rfl⟩
      · intro hthere hgone
        rw [hspooled, hthere] at hgone
        cases hgone
    | acked =>
      simp only [Link.step] at hstep
      split at hstep
      case h_1 ack _ hincoming =>
        cases hstep
        obtain ⟨w, hw, hmem⟩ := incoming_mem hincoming
        have hack := hx.acks l.current w hw ack hmem
        have hsame : (l.took.handleAck ack).entry = l.entry ∧ (l.took.handleAck ack).wires = l.took.wires := by
          unfold Link.handleAck
          split
          · dsimp only
            generalize RefTrack.collectable _ _ = collected
            cases collected <;> exact ⟨rfl, rfl⟩
          · exact ⟨rfl, rfl⟩
        refine ⟨handleAck_exact (took_exact hx) hack, delivers_of_wires (by rw [hsame.1]) ?_ ?_⟩
        · intro k w' hw'
          rw [hsame.2] at hw'
          exact .inr (took_wire hw')
        · intro hthere hgone
          exact handleAck_spooled (l := l.took) (took_exact hx) hack hthere hgone
      case h_2 => cases hstep
    | chunk k c disk room =>
      simp only [Link.step] at hstep
      split at hstep
      case h_1 w hw =>
        obtain ⟨⟨-, -, -, hslice⟩, hnext⟩ := Option.ite_none_right_eq_some.1 hstep
        cases hnext
        obtain ⟨hentry, -, -, hspooled, -⟩ := handleChunk_frame l k c disk room
        obtain ⟨hmark, -, -, hacks⟩ := onChunk_exact disk hslice hx.bound
        refine ⟨handleChunk_exact hx hslice, ?_, ?_, ?_⟩
        · rw [hentry]
          omega
        · intro j w w' sent hw hw' hsent a ha
          obtain ⟨w₀, hw₀, rfl | ⟨offset, rewind, hack, hdown⟩⟩ := handleChunk_wire hw'
          · rw [hw] at hw₀
            cases hw₀
            rw [List.self_eq_append_right] at hsent
            rw [hsent] at ha
            cases ha
          · rw [hw] at hw₀
            cases hw₀
            rw [hdown, List.append_cancel_left_eq] at hsent
            subst hsent
            rw [List.mem_singleton] at ha
            cases ha
            rw [hentry, hacks offset rewind hack]
        · intro hthere hgone
          rw [hspooled, hthere] at hgone
          cases hgone
      case h_2 => cases hstep
    | _ => cases he

theorem launched_exact (spec : Hub.Spec) (workerID : String) : Exact (Link.launched spec workerID) := by
  refine ⟨fun _ => ⟨rfl, rfl, rfl, rfl⟩, rfl, le_rfl, ?_, (fun _ h => by cases h), (fun _ h => by cases h), fun _ h => by cases h⟩
  intro k w hw a ha
  have hmem := List.mem_of_getElem? hw
  rw [Link.launched, List.mem_singleton] at hmem
  subst hmem
  cases ha

end Log

/-- Whatever happens after a launch, the hub's file holds the spool up to the
mark; the mark never goes down and is what every acknowledgement names; and the
spool goes only when the attempt is marked exited and the hub has all of it. -/
theorem log_delivered (spec : Hub.Spec) (workerID : String) (l : Link)
    (hrun : Reaches Link.step anyEvent (Link.launched spec workerID) l) :
    l.appended = l.spool.take l.entry.logHW ∧ l.entry.logHW ≤ l.spool.length ∧
      ∀ e l', l.step e = some l' → Delivers l l' := by
  have hx : Exact l := by
    apply hrun.keeps
    · exact launched_exact spec workerID
    · intro _ _ _ hx _ hstep
      exact (step_exact hx hstep).1
  exact ⟨hx.appended, hx.bound, fun e l' hstep => (step_exact hx hstep).2⟩

def remoteTask : Hub.Spec := { assign := { ref := "run/task/1" }, logPath := "task.log" }

/-- A gap, its rewind, and the two chunks of the log one over the other. -/
theorem log_delivered_gap : ∃ l : Link, l.entry.logHW = 3 ∧ l.appended = l.spool.take 3 := by
  obtain ⟨l, hrun, hfacts⟩ := play_any Link.step anyEvent (Link.launched remoteTask "w")
    [.assign none [1, 2] true, .log [3], .chunk 0 { ref := "run/task/1", offset := 1, data := [2, 3] } {} true,
      .chunk 0 { ref := "run/task/1", offset := 0, data := [1, 2] } {} true, .acked,
      .chunk 0 { ref := "run/task/1", offset := 1, data := [2, 3], eof := true } {} true]
    (fun l => l.entry.logHW = 3) (by decide +kernel)
  have hmark : l.entry.logHW = 3 := by simpa using hfacts
  have hdelivered := (log_delivered remoteTask "w" l hrun).1
  rw [hmark] at hdelivered
  exact ⟨l, hmark, hdelivered⟩

end Cronova.Properties
