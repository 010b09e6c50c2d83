import Cronova.Properties.FinalOutcome

/-! The output of a remote attempt: it travels with the reports of the exit, and
is in the scheduler's file before the exit is recorded, as long as the worker
still has it when a report is made. -/
namespace Cronova.Properties
open Cronova.Model Cronova.Concurrency Cronova.Remote

def Watch.report : Watch → Option TaskEvent
  | .ready ev => some ev
  | .off | .polling | .seen _ | .marked _ _ | .done => none

def Reader.report : Reader → Option TaskEvent
  | .replying ev => some ev
  | .idle | .asked _ | .lookedUp _ _ => none

/-- The reports that are made and not recorded. -/
def reports (l : Link) : List TaskEvent :=
  (Watch.report l.watch).toList ++ (Reader.report l.reader).toList ++ l.wires.flatMap Wire.events

/-- The output that a report of the exit should carry. -/
def payload (l : Link) : Bytes := if l.wrote.length ≤ maxOutput then l.wrote else []

/-- Whether the track was found for a report of the exit that is about to read
the output. -/
def Watch.found : Watch → Option Bool
  | .marked ⟨.exited, _⟩ tracked => some tracked
  | _ => none

def Reader.found : Reader → Option Bool
  | .lookedUp _ tracked => some tracked
  | .idle | .asked _ | .replying _ => none

/-- The output, if there is one to report, can be read: the track was found, the
file is there, and reading it succeeds. -/
def Readable (l : Link) (found : Option Bool) (readable : Bool) : Prop :=
  found = none ∨ payload l = [] ∨ found = some true ∧ l.outFile.isSome = true ∧ readable = true

instance (l : Link) (found : Option Bool) (readable : Bool) : Decidable (Readable l found readable) :=
  inferInstanceAs (Decidable (_ ∨ _))

/-- A report of the exit finds the output, and the hub can write it to its file. -/
def Preserves (l : Link) : LinkEvent → Prop
  | .readOut readable => Readable l (Watch.found l.watch) readable
  | .readAnswer readable => Readable l (Reader.found l.reader) readable
  | .openOutput _ opened => payload l = [] ∨ l.entry.outputPath ≠ "" ∧ opened = true
  | .storeOutput _ n => (payload l).length ≤ n
  | _ => True

instance (l : Link) : (e : LinkEvent) → Decidable (Preserves l e)
  | .readOut readable => inferInstanceAs (Decidable (Readable l _ readable))
  | .readAnswer readable => inferInstanceAs (Decidable (Readable l _ readable))
  | .openOutput _ _ => inferInstanceAs (Decidable (_ ∨ _))
  | .storeOutput _ _ => inferInstanceAs (Decidable (_ ≤ _))
  | .assign .. | .log _ | .emit _ | .finish _ | .evict | .poll | .mark | .report _ | .probed | .lookUp | .reply _ | .acked
  | .reconnect | .cut .. | .hello .. | .receive _ | .record .. | .chunk .. | .markLost => isTrue trivial

/-- A handler is between the opening and the writing of the output file. -/
def Writing (l : Link) : Prop :=
  ∃ (k : Nat) (w : Wire) (ev : TaskEvent), l.wires[k]? = some w ∧ w.handling = some (.truncated ev)

/-- A report carries the output or nothing, and one of the exit carries it. -/
structure Truthful (l : Link) (ev : TaskEvent) : Prop where
  outcome : (TaskEvent.outcome ev).isSome = true
  output : ev.output = [] ∨ ev.output = payload l
  exited : ∀ c, TaskEvent.outcome ev = some ⟨.exited, c⟩ → ev.output = payload l

structure Outputs (l : Link) : Prop where
  fits : ∀ ev ∈ reports l, Truthful l ev
  source : ∀ b, l.outFile = some b → b = l.wrote
  unwritten : l.record = .absent ∨ l.record = .refused → l.wrote = []
  early : l.record.code = none → l.output = none
  file : l.output = none ∨ l.output = some [] ∨ l.output = some (payload l)
  truncated : ∀ (k : Nat) (w : Wire) ev, l.wires[k]? = some w → w.handling = some (.truncated ev) →
    payload l ≠ [] ∧ ev.output = payload l
  stored : payload l ≠ [] → (l.entry.phase = .exited ∨ ∃ (k : Nat) (w : Wire) (ev : TaskEvent) (c : Int),
    l.wires[k]? = some w ∧ w.handling = some (.stored ev) ∧ TaskEvent.outcome ev = some ⟨.exited, c⟩) →
      l.output = some (payload l) ∨ Writing l

section Reports
variable {l l' l'' : Link} {ev : TaskEvent}

theorem mem_reports : ev ∈ reports l ↔ Watch.report l.watch = some ev ∨ Reader.report l.reader = some ev ∨
    ∃ (k : Nat) (w : Wire), l.wires[k]? = some w ∧ ev ∈ Wire.events w := by
  simp only [reports, List.mem_append, Option.mem_toList, Option.mem_def, List.mem_flatMap, or_assoc]
  refine or_congr_right (or_congr_right ?_)
  constructor
  · rintro ⟨w, hw, hev⟩
    obtain ⟨k, hk⟩ := List.mem_iff_getElem?.1 hw
    exact ⟨k, w, hk, hev⟩
  · rintro ⟨k, w, hw, hev⟩
    exact ⟨w, List.mem_of_getElem? hw, hev⟩

/-- What a report says is said. -/
theorem claims_of_report (hev : ev ∈ reports l) {st : Status} (hst : TaskEvent.outcome ev = some st) : st ∈ claims l := by
  rcases mem_reports.1 hev with h | h | ⟨k, w, hw, h⟩
  · refine mem_claims.2 (.inl ?_)
    cases hwatch : l.watch <;> rw [hwatch] at h <;> cases h
    exact hst
  · refine mem_claims.2 (.inr (.inl ?_))
    cases hreader : l.reader <;> rw [hreader] at h <;> cases h
    exact hst
  · exact mem_claims.2 (.inr (.inr ⟨k, w, hw, List.mem_filterMap.2 ⟨ev, h, hst⟩⟩))

theorem event_mem {w : Wire} {handling : Handling} {k : Nat} (hw : l.wires[k]? = some w) (hh : w.handling = some handling) :
    handling.event ∈ reports l := by
  refine mem_reports.2 (.inr (.inr ⟨k, w, hw, List.mem_append_left _ ?_⟩))
  rw [hh]
  exact List.mem_singleton_self _

/-- The step makes no file and no record; a report that it makes carries what it should. -/
structure StillHas (l l' : Link) : Prop where
  wrote : l'.wrote = l.wrote
  outFile : ∀ b, l'.outFile = some b → l.outFile = some b
  code : l'.record.code = none → l.record.code = none
  unknown : l'.record = .absent ∨ l'.record = .refused → l.record = .absent ∨ l.record = .refused
  reports : ∀ ev ∈ reports l', ev ∈ reports l ∨ Truthful l ev
  output : l'.output = l.output
  phase : l'.entry.phase = .exited → l.entry.phase = .exited
  handling : ∀ (k : Nat) (w' : Wire), l'.wires[k]? = some w' → ∀ handling, w'.handling = some handling →
    (∃ ev, handling = .found ev) ∨ ∃ w, l.wires[k]? = some w ∧ w.handling = some handling
  writing : Writing l → Writing l'

theorem StillHas.payload (hk : StillHas l l') : payload l' = payload l := by
  rw [Properties.payload, Properties.payload, hk.wrote]

theorem StillHas.fits (hk : StillHas l l') (hf : Truthful l ev) : Truthful l' ev := by
  refine ⟨hf.outcome, ?_, ?_⟩
  · rw [hk.payload]
    exact hf.output
  · rw [hk.payload]
    exact hf.exited

theorem StillHas.outputs (hk : StillHas l l') (ho : Outputs l) : Outputs l' := by
  constructor
  · intro ev hev
    rcases hk.reports ev hev with h | h
    · exact hk.fits (ho.fits ev h)
    · exact hk.fits h
  · intro b hb
    rw [hk.wrote]
    exact ho.source b (hk.outFile b hb)
  · intro h
    rw [hk.wrote]
    exact ho.unwritten (hk.unknown h)
  · intro h
    rw [hk.output]
    exact ho.early (hk.code h)
  · rw [hk.output, hk.payload]
    exact ho.file
  · intro k w' ev hw' hev
    rw [hk.payload]
    rcases hk.handling k w' hw' _ hev with ⟨ev', h⟩ | ⟨w, hw, h⟩
    · cases h
    · exact ho.truncated k w ev hw h
  · intro hsome hexit
    rw [hk.payload] at hsome ⊢
    rw [hk.output]
    have hbefore : l.output = some (Properties.payload l) ∨ Writing l := by
      refine ho.stored hsome ?_
      rcases hexit with hphase | ⟨k, w', ev, c, hw', hev, hout⟩
      · exact .inl (hk.phase hphase)
      · rcases hk.handling k w' hw' _ hev with ⟨ev', h⟩ | ⟨w, hw, h⟩
        · cases h
        · exact .inr ⟨k, w, ev, c, hw, h, hout⟩
    exact hbefore.imp_right hk.writing

theorem StillHas.refl (l : Link) : StillHas l l :=
  ⟨rfl, fun _ => id, id, id, fun _ => .inl, rfl, id, fun _ w' hw' _ h => .inr ⟨w', hw', h⟩, id⟩

theorem StillHas.trans (a : StillHas l l') (b : StillHas l' l'') : StillHas l l'' := by
  refine ⟨b.wrote.trans a.wrote, fun x hx => a.outFile x (b.outFile x hx), fun h => a.code (b.code h),
    fun h => a.unknown (b.unknown h), ?_, b.output.trans a.output, fun h => a.phase (b.phase h), ?_,
    fun h => b.writing (a.writing h)⟩
  · intro ev hev
    rcases b.reports ev hev with h | h
    · exact a.reports ev h
    · refine .inr ⟨h.outcome, ?_, ?_⟩
      · rw [← a.payload]
        exact h.output
      · rw [← a.payload]
        exact h.exited
  · intro k w'' hw'' handling hh
    rcases b.handling k w'' hw'' handling hh with h | ⟨w', hw', h⟩
    · exact .inl h
    · exact a.handling k w' hw' handling h

/-- The worker's goroutines go on; what they report anew carries what it should. -/
theorem keeps_local {watch : Watch} {reader : Reader} (track : Option RefTrack)
    (hwatch : ∀ ev, Watch.report watch = some ev → ev ∈ reports l ∨ Truthful l ev)
    (hreader : ∀ ev, Reader.report reader = some ev → ev ∈ reports l ∨ Truthful l ev) :
    StillHas l { l with watch := watch, reader := reader, track := track } := by
  refine ⟨rfl, fun _ => id, id, id, ?_, rfl, id, fun _ w' hw' _ h => .inr ⟨w', hw', h⟩, id⟩
  intro ev hev
  rcases mem_reports.1 hev with h | h | h
  · exact hwatch ev h
  · exact hreader ev h
  · exact .inl (mem_reports.2 (.inr (.inr h)))

/-- A stream that goes on without an output. -/
structure Passes (w w' : Wire) : Prop where
  events : ∀ ev, ev ∈ Wire.events w' → ev ∈ Wire.events w
  handling : ∀ handling, w'.handling = some handling → (∃ ev, handling = .found ev) ∨ w.handling = some handling
  truncated : ∀ ev, w.handling = some (.truncated ev) → w'.handling = some (.truncated ev)

theorem keeps_onWire {k : Nat} {f : Wire → Wire} (hf : ∀ w, l.wires[k]? = some w → Passes w (f w)) :
    StillHas l (l.onWire k f) := by
  refine ⟨rfl, fun _ => id, id, id, ?_, rfl, id, ?_, ?_⟩
  · intro ev hev
    left
    rcases mem_reports.1 hev with h | h | ⟨j, w', hw', h⟩
    · exact mem_reports.2 (.inl h)
    · exact mem_reports.2 (.inr (.inl h))
    · obtain ⟨w, hw, ⟨rfl, rfl⟩ | ⟨-, rfl⟩⟩ := onWire_wire hw'
      · exact mem_reports.2 (.inr (.inr ⟨j, w, hw, (hf w hw).events ev h⟩))
      · exact mem_reports.2 (.inr (.inr ⟨j, w', hw, h⟩))
  · intro j w' hw' handling hh
    obtain ⟨w, hw, ⟨rfl, rfl⟩ | ⟨-, rfl⟩⟩ := onWire_wire hw'
    · rcases (hf w hw).handling handling hh with h | h
      · exact .inl h
      · exact .inr ⟨w, hw, h⟩
    · exact .inr ⟨w', hw, hh⟩
  · rintro ⟨j, w, ev, hw, hev⟩
    by_cases hj : k = j
    · subst hj
      refine ⟨k, f w, ev, ?_, (hf w hw).truncated ev hev⟩
      rw [Link.onWire]
      dsimp only
      rw [List.getElem?_modify_eq, hw]
      rfl
    · refine ⟨j, w, ev, ?_, hev⟩
      rw [Link.onWire]
      dsimp only
      rw [List.getElem?_modify_ne _ _ hj]
      exact hw

/-- A report that is made gets onto the current stream. -/
theorem keeps_push (sent : Bool) (hmade : ev ∈ reports l) : StillHas l (l.push ev sent) := by
  unfold Link.push
  split
  case isFalse => exact .refl l
  case isTrue =>
    refine ⟨rfl, fun _ => id, id, id, ?_, rfl, id, ?_, ?_⟩
    · intro ev' hev'
      left
      rcases mem_reports.1 hev' with h | h | ⟨j, w', hw', h⟩
      · exact mem_reports.2 (.inl h)
      · exact mem_reports.2 (.inr (.inl h))
      · obtain ⟨w, hw, ⟨rfl, rfl⟩ | ⟨-, rfl⟩⟩ := onWire_wire hw'
        · rcases List.mem_append.1 h with h | h
          · exact mem_reports.2 (.inr (.inr ⟨_, w, hw, List.mem_append_left _ h⟩))
          · rcases List.mem_append.1 h with h | h
            · exact mem_reports.2 (.inr (.inr ⟨_, w, hw, List.mem_append_right _ h⟩))
            · rw [List.mem_singleton] at h
              subst h
              exact hmade
        · exact mem_reports.2 (.inr (.inr ⟨j, w', hw, h⟩))
    · intro j w' hw' handling hh
      obtain ⟨w, hw, ⟨-, rfl⟩ | ⟨-, rfl⟩⟩ := onWire_wire hw'
      · exact .inr ⟨w, hw, hh⟩
      · exact .inr ⟨w', hw, hh⟩
    · rintro ⟨j, w, ev', hw, hev'⟩
      have hlt : j < (l.onWire l.current (fun w => { w with up := w.up ++ [ev] })).wires.length := by
        rw [onWire_length]
        exact (List.getElem?_eq_some_iff.1 hw).1
      obtain ⟨w₀, hw₀, hcase⟩ := onWire_wire (List.getElem?_eq_getElem hlt)
      rw [hw] at hw₀
      cases hw₀
      refine ⟨j, _, ev', List.getElem?_eq_getElem hlt, ?_⟩
      rcases hcase with ⟨-, heq⟩ | ⟨-, heq⟩
      · rw [heq]
        exact hev'
      · rw [heq]
        exact hev'

end Reports

/-- The events that change the output or its file, or record. -/
def LinkEvent.moves : LinkEvent → Bool
  | .emit _ | .openOutput .. | .storeOutput .. | .record .. => true
  | _ => false

section Steps
variable {l l' : Link}

/-- What a report carries comes from the file. -/
theorem reported_fits (ho : Outputs l) (tracked readable : Bool) :
    (if tracked then reported l.outFile readable else []) = [] ∨
      (if tracked then reported l.outFile readable else []) = payload l := by
  cases tracked with
  | false => exact .inl rfl
  | true =>
    cases hb : l.outFile with
    | none => exact .inl rfl
    | some b =>
      have hsame := ho.source b hb
      subst hsame
      simp only [reported, payload, if_true]
      by_cases hsize : l.wrote.length ≤ maxOutput
      · cases readable with
        | false => exact .inl rfl
        | true =>
          right
          rw [if_pos ⟨rfl, hsize⟩, if_pos hsize]
      · left
        rw [if_neg (fun h => hsize h.2)]

theorem reported_found (ho : Outputs l) {tracked readable : Bool} (hr : Readable l (some tracked) readable) :
    (if tracked then reported l.outFile readable else []) = payload l := by
  rcases hr with h | hempty | ⟨htracked, hfile, hreadable⟩
  · cases h
  · rcases reported_fits ho tracked readable with h | h
    · rw [h, hempty]
    · exact h
  · cases htracked
    subst hreadable
    obtain ⟨b, hb⟩ := Option.isSome_iff_exists.1 hfile
    have hsame := ho.source b hb
    subst hsame
    rw [hb, if_pos rfl, reported, payload]
    simp only [true_and]

theorem exitEvent_output (ref : String) (st : Status) (output : Bytes) : (exitEvent ref st output).output = output := rfl

/-- A report of `watchExit`, or of an answered probe, carries what it should. -/
theorem exitEvent_fits (ho : Outputs l) {st : Status} (hended : st.phase ≠ .running) {tracked readable : Bool}
    (hr : st.phase = .exited → Readable l (some tracked) readable) :
    Truthful l (exitEvent l.ref st (if tracked then reported l.outFile readable else [])) := by
  refine ⟨?_, ?_, ?_⟩
  · rw [outcome_exitEvent hended]
    rfl
  · rw [exitEvent_output]
    exact reported_fits ho tracked readable
  · intro c hc
    rw [outcome_exitEvent hended] at hc
    rw [exitEvent_output]
    exact reported_found ho (hr (congrArg Status.phase (Option.some.inj hc)))

theorem keeps_ack {ack : LogAck} : StillHas l (l.handleAck ack) := by
  unfold Link.handleAck
  split
  · dsimp only
    generalize RefTrack.collectable _ _ = collected
    cases collected
    · exact keeps_local _ (fun ev h => .inl (mem_reports.2 (.inl h))) (fun ev h => .inl (mem_reports.2 (.inr (.inl h))))
    · exact ⟨rfl, (fun _ h => by cases h), id, id, fun _ => .inl, rfl, id, fun _ w' hw' _ h => .inr ⟨w', hw', h⟩, id⟩
  · exact .refl l

theorem keeps_took : StillHas l l.took := by
  refine keeps_onWire ?_
  intro w _
  exact ⟨fun _ => id, fun _ => .inr, fun _ => id⟩

theorem keeps_chunk {k : Nat} {c : LogChunk} {disk : RefState.Disk} {room : Bool} : StillHas l (l.handleChunk k c disk room) := by
  have hentry : StillHas l { l with entry := (l.entry.onChunk c disk).state,
                                    appended := l.appended ++ (l.entry.onChunk c disk).appended } := by
    refine ⟨rfl, fun _ => id, id, id, fun _ => .inl, rfl, ?_, fun _ w' hw' _ h => .inr ⟨w', hw', h⟩, id⟩
    intro hphase
    exact (onChunk_report l.entry c disk).1.symm.trans hphase
  unfold Link.handleChunk
  dsimp only
  split
  · split
    · refine hentry.trans (keeps_onWire ?_)
      intro w _
      exact ⟨fun _ => id, fun _ => .inr, fun _ => id⟩
    · exact hentry
  · exact hentry

theorem keeps_greet {k : Nat} {w : Wire} {room : Bool} : StillHas l (l.greet k w room) := by
  have hwire : StillHas l { l.greet k w room with entry := l.entry } :=
    keeps_onWire (fun _ _ => ⟨fun _ => id, fun _ => .inr, fun _ => id⟩)
  refine hwire.trans ⟨rfl, fun _ => id, id, id, fun _ => .inl, rfl, ?_, fun _ w' hw' _ h => .inr ⟨w', hw', h⟩, id⟩
  intro hphase
  unfold Link.greet at hphase
  dsimp only at hphase
  split at hphase
  · exact hphase
  · exact hphase

theorem assign_keeps (ho : Outputs l) (habsent : l.record = .absent) {failed : Option String} {head : Bytes} {opened : Bool}
    (herr : failed ≠ some "") : StillHas l (l.handleAssign failed head opened) := by
  have hwrote := ho.unwritten (.inl habsent)
  have hcode : l.record.code = none := by
    rw [habsent]
    rfl
  have hwires : ∀ (k : Nat) (w' : Wire), l.wires[k]? = some w' → ∀ handling, w'.handling = some handling →
      (∃ ev, handling = .found ev) ∨ ∃ w, l.wires[k]? = some w ∧ w.handling = some handling :=
    fun _ w' hw' _ h => .inr ⟨w', hw', h⟩
  unfold Link.handleAssign
  split
  case isTrue => exact ⟨rfl, fun _ => id, id, id, fun _ => .inl, rfl, id, hwires, id⟩
  case isFalse =>
    cases failed with
    | none =>
      refine ⟨rfl, fun _ => id, fun _ => hcode, fun _ => .inl habsent, ?_, rfl, id, hwires, id⟩
      intro ev hev
      left
      rcases mem_reports.1 hev with h | h | h
      · cases h
      · exact mem_reports.2 (.inr (.inl h))
      · exact mem_reports.2 (.inr (.inr h))
    | some err =>
      refine ⟨rfl, fun _ => id, fun _ => hcode, fun _ => .inl habsent, ?_, rfl, id, hwires, id⟩
      intro ev hev
      rcases mem_reports.1 hev with h | h | h
      · exact .inl (mem_reports.2 (.inl h))
      · -- the report of the failed launch: the task has written nothing
        right
        have hsaid : TaskEvent.outcome (refusal l.ref err) = some ⟨.exited, 127⟩ := if_pos (by simpa [refusal] using herr)
        have hnothing : payload l = [] := by
          rw [payload, hwrote]
          rfl
        cases h
        refine ⟨?_, .inl rfl, ?_⟩
        · rw [hsaid]
          rfl
        · intro _ _
          rw [hnothing]
          rfl
      · exact .inl (mem_reports.2 (.inr (.inr h)))

theorem step_keeps (hh : Honest l) (ho : Outputs l) {e : LinkEvent} (he : LinkEvent.moves e = false) (hok : Preserves l e)
    (hstep : l.step e = some l') : StillHas l l' := by
  have hwatching : ∀ ev, Watch.report l.watch = some ev → ev ∈ reports l ∨ Truthful l ev :=
    fun ev h => .inl (mem_reports.2 (.inl h))
  have hreading : ∀ ev, Reader.report l.reader = some ev → ev ∈ reports l ∨ Truthful l ev :=
    fun ev h => .inl (mem_reports.2 (.inr (.inl h)))
  have hwires : ∀ (k : Nat) (w' : Wire), l.wires[k]? = some w' → ∀ handling, w'.handling = some handling →
      (∃ ev, handling = .found ev) ∨ ∃ w, l.wires[k]? = some w ∧ w.handling = some handling :=
    fun _ w' hw' _ h => .inr ⟨w', hw', h⟩
  cases e with
  | emit | openOutput | storeOutput | record => cases he
  | assign failed head opened =>
    obtain ⟨⟨hassigned, -, -, herr⟩, hnext⟩ := Option.ite_none_right_eq_some.1 hstep
    cases hnext
    exact assign_keeps ho (hh.assigned hassigned) herr
  | log data =>
    obtain ⟨-, hnext⟩ := Option.ite_none_right_eq_some.1 hstep
    cases hnext
    exact ⟨rfl, fun _ => id, id, id, fun _ => .inl, rfl, id, hwires, id⟩
  | finish code =>
    obtain ⟨-, hnext⟩ := Option.ite_none_right_eq_some.1 hstep
    cases hnext
    refine ⟨rfl, fun _ => id, (fun h => by cases h), ?_, fun _ => .inl, rfl, id, hwires, id⟩
    rintro (h | h) <;> cases h
  | evict =>
    simp only [Link.step] at hstep
    split at hstep
    · cases hstep
      refine ⟨rfl, fun _ => id, (fun h => by cases h), ?_, fun _ => .inl, rfl, id, hwires, id⟩
      rintro (h | h) <;> cases h
    · cases hstep
  | poll =>
    obtain ⟨-, rfl | ⟨-, rfl⟩⟩ := poll_cases hstep
    · exact .refl l'
    · exact keeps_local l.track (fun ev h => by cases h) hreading
  | mark =>
    simp only [Link.step] at hstep
    split at hstep
    · cases hstep
      exact keeps_local _ (fun ev h => by cases h) hreading
    · cases hstep
  | readOut readable =>
    simp only [Link.step] at hstep
    split at hstep
    case h_1 st tracked hmarked =>
      cases hstep
      have hsaid : st ∈ claims l := mem_claims.2 (.inl (by rw [hmarked]; rfl))
      obtain ⟨phase, c⟩ := st
      refine keeps_local l.track ?_ hreading
      intro ev hev
      right
      cases hev
      refine exitEvent_fits ho ?_ ?_
      · rintro rfl
        exact hh.running c hsaid
      · rintro rfl
        rw [Preserves, hmarked] at hok
        exact hok
    case h_2 => cases hstep
  | report sent =>
    simp only [Link.step] at hstep
    split at hstep
    case h_1 ev hready =>
      cases hstep
      have hmade : ev ∈ reports l := mem_reports.2 (.inl (by rw [hready]; rfl))
      have hwatch : ({ l with watch := .done } : Link).push ev sent = { l.push ev sent with watch := .done } := by
        unfold Link.push
        split <;> rfl
      rw [hwatch]
      refine (keeps_push sent hmade).trans (keeps_local (l.push ev sent).track ?_ ?_)
      · intro ev' h
        cases h
      · exact fun ev' h => .inl (mem_reports.2 (.inr (.inl h)))
    case h_2 => cases hstep
  | probed =>
    obtain ⟨-, -, hended, -, rfl⟩ := probed_cases hh hstep
    refine keeps_took.trans ?_
    have hanswer : ∀ ev, Reader.report l.took.answerProbe.reader = some ev → ev ∈ reports l.took ∨ Truthful l.took ev := by
      intro ev hev
      have hrecord : l.took.record = l.record := rfl
      unfold Link.answerProbe at hev
      rw [hrecord] at hev
      cases hr : l.record with
      | running => exact absurd hr hended
      | finished c =>
        rw [hr] at hev
        cases hev
      | absent | refused | swept =>
        rw [hr] at hev
        cases hev
        refine .inr ⟨rfl, .inl rfl, ?_⟩
        intro c hc
        cases hc
    rw [answerProbe_frame]
    exact keeps_local l.took.track (fun ev h => .inl (mem_reports.2 (.inl h))) hanswer
  | lookUp =>
    simp only [Link.step] at hstep
    split at hstep
    · cases hstep
      exact keeps_local l.track hwatching (fun ev h => by cases h)
    · cases hstep
  | readAnswer readable =>
    simp only [Link.step] at hstep
    split at hstep
    case h_1 code tracked hlooked =>
      cases hstep
      refine keeps_local l.track hwatching ?_
      intro ev hev
      right
      cases hev
      refine exitEvent_fits ho (by simp) ?_
      intro _
      rw [Preserves, hlooked] at hok
      exact hok
    case h_2 => cases hstep
  | reply sent =>
    simp only [Link.step] at hstep
    split at hstep
    case h_1 ev hreplying =>
      cases hstep
      have hmade : ev ∈ reports l := mem_reports.2 (.inr (.inl (by rw [hreplying]; rfl)))
      have hreader : ({ l with reader := .idle } : Link).push ev sent = { l.push ev sent with reader := .idle } := by
        unfold Link.push
        split <;> rfl
      rw [hreader]
      refine (keeps_push sent hmade).trans (keeps_local (l.push ev sent).track ?_ ?_)
      · exact fun ev' h => .inl (mem_reports.2 (.inl h))
      · intro ev' h
        cases h
    case h_2 => cases hstep
  | acked =>
    simp only [Link.step] at hstep
    split at hstep
    · cases hstep
      exact keeps_took.trans keeps_ack
    · cases hstep
  | reconnect =>
    obtain ⟨-, hnext⟩ := Option.ite_none_right_eq_some.1 hstep
    cases hnext
    refine ⟨rfl, fun _ => id, id, id, ?_, rfl, id, ?_, ?_⟩
    · intro ev hev
      left
      simpa [reports, Wire.events] using hev
    · intro k w' hw' handling hh'
      rcases new_wire hw' with hold | ⟨-, rfl⟩
      · exact .inr ⟨w', hold, hh'⟩
      · cases hh'
    · rintro ⟨k, w, ev, hw, hev⟩
      exact ⟨k, w, ev, (List.getElem?_append_left (List.getElem?_eq_some_iff.1 hw).1).trans hw, hev⟩
  | cut k n =>
    obtain ⟨-, hnext⟩ := Option.ite_none_right_eq_some.1 hstep
    cases hnext
    refine keeps_onWire ?_
    intro w _
    refine ⟨?_, fun _ => .inr, fun _ => id⟩
    intro ev hev
    rcases List.mem_append.1 hev with h | h
    · exact List.mem_append_left _ h
    · exact List.mem_append_right _ (List.mem_of_mem_take h)
  | hello k room =>
    simp only [Link.step] at hstep
    split at hstep
    · obtain ⟨-, hnext⟩ := Option.ite_none_right_eq_some.1 hstep
      cases hnext
      exact keeps_greet
    · cases hstep
  | receive k =>
    simp only [Link.step] at hstep
    split at hstep
    case h_1 listed down ev rest hk =>
      cases hstep
      refine keeps_onWire ?_
      intro w hw
      rw [hk] at hw
      cases hw
      refine ⟨fun _ => id, ?_, fun _ h => by cases h⟩
      intro handling hh'
      cases hh'
      exact .inl ⟨ev, rfl⟩
    case h_2 => cases hstep
  | chunk k c disk room =>
    simp only [Link.step] at hstep
    split at hstep
    · obtain ⟨-, hnext⟩ := Option.ite_none_right_eq_some.1 hstep
      cases hnext
      exact keeps_chunk
    · cases hstep
  | markLost =>
    obtain ⟨-, hnext⟩ := Option.ite_none_right_eq_some.1 hstep
    cases hnext
    exact ⟨rfl, fun _ => id, id, id, fun _ => .inl, rfl, id, hwires, id⟩

/-- A running attempt is not reported. -/
theorem Outputs.unreported (ho : Outputs l) (hh : Honest l) (hrun : l.record = .running) (ev : TaskEvent) :
    ev ∉ reports l := by
  intro hev
  obtain ⟨st, hst⟩ := Option.isSome_iff_exists.1 (ho.fits ev hev).outcome
  exact hh.silent hrun st (claims_of_report hev hst)

/-- An output is reported of attempts only that have come to an end. -/
theorem Outputs.ended (ho : Outputs l) (hh : Honest l) {ev : TaskEvent} (hev : ev ∈ reports l) (hsome : payload l ≠ []) :
    l.record.code ≠ none := by
  have hwrote : l.wrote ≠ [] := by
    intro hnone
    rw [payload, hnone] at hsome
    exact hsome rfl
  intro hcode
  cases hr : l.record with
  | running => exact ho.unreported hh hr ev hev
  | absent => exact hwrote (ho.unwritten (.inl hr))
  | refused => exact hwrote (ho.unwritten (.inr hr))
  | finished c =>
    rw [hr] at hcode
    cases hcode
  | swept c =>
    rw [hr] at hcode
    cases hcode

theorem emit_outputs (hh : Honest l) (ho : Outputs l) {data : Bytes} (hstep : l.step (.emit data) = some l') :
    Outputs l' := by
  obtain ⟨hrun, hnext⟩ := Option.ite_none_right_eq_some.1 hstep
  cases hnext
  have hnone := ho.unreported hh hrun
  have hempty : l.output = none := ho.early (by rw [hrun]; rfl)
  refine ⟨fun ev hev => absurd hev (hnone ev), ?_, ?_, fun _ => hempty, .inl hempty, ?_, ?_⟩
  · intro b hb
    exact (Option.some.inj hb).symm
  · rintro (h | h) <;> rw [hrun] at h <;> cases h
  · intro k w ev hw hev
    exact absurd (event_mem hw hev) (hnone ev)
  · rintro - (hphase | ⟨k, w, ev, c, hw, hev, -⟩)
    · exact absurd hphase (hh.not_exited (by rw [hrun]; rfl))
    · exact absurd (event_mem hw hev) (hnone ev)

/-- The stream of a handler before and after it went on. -/
theorem handling_wire {k j : Nat} {before after : Handling} {w' : Wire} (hk : l.wires[k]?.bind (·.handling) = some before)
    (hw' : (l.onWire k (fun w => { w with handling := some after })).wires[j]? = some w') :
    ∃ w, l.wires[j]? = some w ∧ w'.up = w.up ∧
      (j = k ∧ w.handling = some before ∧ w'.handling = some after ∨ j ≠ k ∧ w' = w) := by
  obtain ⟨w, hw, ⟨rfl, rfl⟩ | ⟨hj, rfl⟩⟩ := onWire_wire hw'
  · rw [hw, Option.bind_some] at hk
    exact ⟨w, hw, rfl, .inl ⟨rfl, hk, rfl⟩⟩
  · exact ⟨w', hw, rfl, .inr ⟨hj, rfl⟩⟩

/-- The reports stay when a handler goes on with its own. -/
theorem handling_reports {k : Nat} {before : Handling} (after : Handling) (hk : l.wires[k]?.bind (·.handling) = some before)
    (hevent : after.event = before.event) {ev : TaskEvent}
    (hev : ev ∈ reports (l.onWire k (fun w => { w with handling := some after }))) : ev ∈ reports l := by
  rcases mem_reports.1 hev with h | h | ⟨j, w', hw', h⟩
  · exact mem_reports.2 (.inl h)
  · exact mem_reports.2 (.inr (.inl h))
  · obtain ⟨w, hw, hup, ⟨-, hbefore, hafter⟩ | ⟨-, rfl⟩⟩ := handling_wire hk hw'
    · refine mem_reports.2 (.inr (.inr ⟨j, w, hw, ?_⟩))
      simp only [Wire.events, hafter, hbefore, hup, Option.map_some, Option.toList_some, hevent] at h ⊢
      exact h
    · exact mem_reports.2 (.inr (.inr ⟨j, w', hw, h⟩))

theorem handled_report {k : Nat} {handling : Handling} (hk : l.wires[k]?.bind (·.handling) = some handling) :
    handling.event ∈ reports l := by
  obtain ⟨w, hw, hh⟩ := Option.bind_eq_some_iff.1 hk
  exact event_mem hw hh

theorem writing_stays {k : Nat} {before after : Handling} (hk : l.wires[k]?.bind (·.handling) = some before)
    (hbefore : ∀ ev, before ≠ .truncated ev) (hw : Writing l) :
    Writing (l.onWire k (fun w => { w with handling := some after })) := by
  obtain ⟨j, w, ev, hw, hev⟩ := hw
  refine ⟨j, w, ev, ?_, hev⟩
  rw [Link.onWire]
  dsimp only
  rw [List.getElem?_modify_ne]
  · exact hw
  · rintro rfl
    rw [hw, Option.bind_some, hev] at hk
    exact hbefore ev (Option.some.inj hk).symm

theorem openOutput_outputs (hh : Honest l) (ho : Outputs l) {k : Nat} {opened : Bool} (hok : Preserves l (.openOutput k opened))
    (hstep : l.step (.openOutput k opened) = some l') : Outputs l' := by
  simp only [Link.step] at hstep
  split at hstep
  case h_2 => cases hstep
  case h_1 ev hfound =>
    have hev := handled_report hfound
    have hfit := ho.fits ev hev
    split at hstep
    case isTrue hskip =>
      cases hstep
      refine ⟨fun ev' h => ?_, ho.source, ho.unwritten, ho.early, ho.file, ?_, ?_⟩
      · have hold := ho.fits ev' (handling_reports (.stored ev) hfound rfl h)
        exact ⟨hold.outcome, hold.output, hold.exited⟩
      · intro j w' ev' hw' hev'
        obtain ⟨w, hw, -, ⟨-, -, hafter⟩ | ⟨-, rfl⟩⟩ := handling_wire hfound hw'
        · rw [hev'] at hafter
          cases hafter
        · exact ho.truncated j w' ev' hw hev'
      · intro hsome hexit
        have hbefore : l.output = some (payload l) ∨ Writing l := by
          refine ho.stored hsome ?_
          rcases hexit with hphase | ⟨j, w', ev', c, hw', hev', hout⟩
          · exact .inl hphase
          · obtain ⟨w, hw, -, ⟨-, -, hafter⟩ | ⟨-, rfl⟩⟩ := handling_wire hfound hw'
            · -- the handler has not skipped an output
              rw [hev'] at hafter
              cases hafter
              have houtput := hfit.exited c hout
              rcases hok with hempty | ⟨hpath, hopened⟩
              · exact absurd hempty hsome
              · rcases hskip with h | h | h
                · exact absurd (houtput.symm.trans h) hsome
                · exact absurd h hpath
                · rw [hopened] at h
                  cases h
            · exact .inr ⟨j, w', ev', c, hw, hev', hout⟩
        exact hbefore.imp_right (writing_stays hfound (fun _ h => by cases h))
    case isFalse hwrite =>
      cases hstep
      push Not at hwrite
      have houtput : ev.output = payload l := hfit.output.resolve_left hwrite.1
      have hsome : payload l ≠ [] := by
        rw [← houtput]
        exact hwrite.1
      have hwriting : Writing (l.onWire k (fun w => { w with handling := some (.truncated ev) })) := by
        obtain ⟨w, hw, -⟩ := Option.bind_eq_some_iff.1 hfound
        refine ⟨k, { w with handling := some (.truncated ev) }, ev, ?_, rfl⟩
        rw [Link.onWire]
        dsimp only
        rw [List.getElem?_modify_eq, hw]
        rfl
      refine ⟨fun ev' h => ?_, ho.source, ho.unwritten, fun h => absurd h (ho.ended hh hev hsome), .inr (.inl rfl), ?_,
        fun _ _ => .inr hwriting⟩
      · have hold := ho.fits ev' (handling_reports (l := l) (.truncated ev) hfound rfl h)
        exact ⟨hold.outcome, hold.output, hold.exited⟩
      · intro j w' ev' hw' hev'
        obtain ⟨w, hw, -, ⟨-, -, hafter⟩ | ⟨-, rfl⟩⟩ := handling_wire hfound hw'
        · rw [hev'] at hafter
          cases hafter
          exact ⟨hsome, houtput⟩
        · exact ho.truncated j w' ev' hw hev'

/-- Written at its full length, the output is what the file holds. -/
theorem overwrite_full {data old : Bytes} {n : Nat} (hfull : data.length ≤ n) (hold : old.length ≤ data.length) :
    Link.overwrite (data.take n) old = data := by
  rw [Link.overwrite, List.take_of_length_le hfull, List.drop_eq_nil_iff.2 hold, List.append_nil]

theorem storeOutput_outputs (hh : Honest l) (ho : Outputs l) {k n : Nat} (hok : Preserves l (.storeOutput k n))
    (hstep : l.step (.storeOutput k n) = some l') : Outputs l' := by
  simp only [Link.step] at hstep
  split at hstep
  case h_2 => cases hstep
  case h_1 ev htruncated =>
    cases hstep
    have hev := handled_report htruncated
    obtain ⟨w₀, hw₀, hh₀⟩ := Option.bind_eq_some_iff.1 htruncated
    obtain ⟨hsome, houtput⟩ := ho.truncated k w₀ ev hw₀ hh₀
    have hold : (l.output.getD []).length ≤ (payload l).length := by
      rcases ho.file with h | h | h <;> rw [h] <;> simp
    have hwritten : Link.overwrite (ev.output.take n) (l.output.getD []) = payload l := by
      rw [houtput]
      exact overwrite_full hok hold
    refine ⟨fun ev' h => ?_, ho.source, ho.unwritten, fun h => absurd h (ho.ended hh hev hsome), ?_, ?_, ?_⟩
    · have hfit := ho.fits ev' (handling_reports (l := l) (.stored ev) htruncated rfl h)
      exact ⟨hfit.outcome, hfit.output, hfit.exited⟩
    · exact .inr (.inr (congrArg some hwritten))
    · intro j w' ev' hw' hev'
      obtain ⟨w, hw, -, ⟨-, -, hafter⟩ | ⟨-, rfl⟩⟩ := handling_wire htruncated hw'
      · rw [hev'] at hafter
        cases hafter
      · exact ho.truncated j w' ev' hw hev'
    · exact fun _ _ => .inl (congrArg some hwritten)

theorem record_outputs (ho : Outputs l) {k : Nat} {now : Time} (hstep : l.step (.record k now) = some l') : Outputs l' := by
  simp only [Link.step] at hstep
  split at hstep
  case h_2 => cases hstep
  case h_1 ev hstored =>
    cases hstep
    obtain ⟨w, hw, hhandling⟩ := Option.bind_eq_some_iff.1 hstored
    have hkeeps : StillHas l (l.onWire k (fun w => { w with handling := none })) := by
      refine keeps_onWire ?_
      intro w' hw'
      rw [hw] at hw'
      cases hw'
      refine ⟨fun ev' h => List.mem_append_right _ h, (fun _ h => by cases h), ?_⟩
      intro ev' h
      rw [hhandling] at h
      cases h
    have ho₁ := hkeeps.outputs ho
    have hfits : ∀ ev' ∈ reports (l.onWire k (fun w => { w with handling := none })),
        Truthful { l.onWire k (fun w => { w with handling := none }) with entry := l.entry.onEvent ev now } ev' := by
      intro ev' h
      have hfit := ho₁.fits ev' h
      exact ⟨hfit.outcome, hfit.output, hfit.exited⟩
    refine ⟨hfits, ho₁.source, ho₁.unwritten, ho₁.early, ho₁.file, ho₁.truncated, ?_⟩
    intro hsome hexit
    rcases hexit with hphase | hother
    · -- an exit that is recorded now was stored
      have hbefore : l.entry.phase = .exited ∨ ∃ c, TaskEvent.outcome ev = some ⟨.exited, c⟩ := by
        dsimp only at hphase
        have hreport := (onEvent_report l.entry ev now).2
        cases hout : TaskEvent.outcome ev with
        | none =>
          rw [hout] at hreport
          exact .inl (hreport.1.symm.trans hphase)
        | some st =>
          rw [hout] at hreport
          obtain ⟨phase, c⟩ := st
          cases phase with
          | exited => exact .inr ⟨c, rfl⟩
          | running =>
            rw [hreport.1] at hphase
            cases hphase
          | unknown =>
            rw [hreport.1] at hphase
            cases hphase
      have hfile : l.output = some (payload l) ∨ Writing l := by
        refine ho.stored hsome ?_
        rcases hbefore with h | ⟨c, hout⟩
        · exact .inl h
        · exact .inr ⟨k, w, ev, c, hw, hhandling, hout⟩
      exact hfile.imp_right hkeeps.writing
    · exact ho₁.stored hsome (.inr hother)

theorem step_outputs (hh : Honest l) (ho : Outputs l) {e : LinkEvent} (hok : Preserves l e) (hstep : l.step e = some l') :
    Outputs l' := by
  cases he : LinkEvent.moves e with
  | false => exact (step_keeps hh ho he hok hstep).outputs ho
  | true =>
    cases e with
    | emit data => exact emit_outputs hh ho hstep
    | openOutput k opened => exact openOutput_outputs hh ho hok hstep
    | storeOutput k n => exact storeOutput_outputs hh ho hok hstep
    | record k now => exact record_outputs ho hstep
    | _ => cases he

end Steps

theorem Begins.outputs {l : Link} (hl : Begins l) : Outputs l := by
  obtain ⟨w₀, hwires, -, -, hfree⟩ := hl.wires
  have hrun := hl.running
  have hidle : ∀ (k : Nat) (w : Wire), l.wires[k]? = some w → w.handling = none := by
    intro k w hw
    have hmem := List.mem_of_getElem? hw
    rw [hwires, List.mem_singleton] at hmem
    rw [hmem, hfree]
  have hnone : ∀ ev, ev ∉ reports l := by
    intro ev hev
    cases hl <;> cases hev
  refine ⟨fun ev hev => absurd hev (hnone ev), ?_, ?_, ?_, ?_, ?_, ?_⟩
  · intro b hb
    cases hl with
    | launched spec workerID => cases hb
    | adopted ref entry tr spool outFile hrunning hkept =>
      change outFile = some b at hb
      subst hb
      rfl
  · intro h
    cases hl with
    | launched spec workerID => rfl
    | adopted ref entry tr spool outFile hrunning hkept => rcases h with h | h <;> cases h
  · intro _
    cases hl <;> rfl
  · left
    cases hl <;> rfl
  · intro k w ev hw hev
    rw [hidle k w hw] at hev
    cases hev
  · rintro - (hphase | ⟨k, w, ev, c, hw, hev, -⟩)
    · rw [hrun] at hphase
      cases hphase
    · rw [hidle k w hw] at hev
      cases hev

/-- In a run that keeps to `Preserves`, an attempt that the hub's `Probe` reports
as exited has its output in the scheduler's file, unless a second report is just
being written. -/
theorem output_kept (l₀ : Link) (hl₀ : Begins l₀) (l : Link) (hrun : Reaches Link.step Preserves l₀ l)
    (hexited : l.entry.probe.phase = .exited) (hsize : l.wrote.length ≤ maxOutput) (hquiet : ¬ Writing l) :
    l.output.getD [] = l.wrote := by
  have hboth : (fun l => Honest l ∧ Outputs l) l := by
    apply hrun.keeps
    · exact ⟨hl₀.honest, hl₀.outputs⟩
    · intro _ _ _ hi hok hstep
      exact ⟨step_honest hi.1 hstep, step_outputs hi.1 hi.2 hok hstep⟩
  have hpayload : payload l = l.wrote := if_pos hsize
  have hphase : l.entry.phase = .exited := by
    unfold RefState.probe at hexited
    split at hexited
    · cases hexited
    · exact hexited
  by_cases hempty : l.wrote = []
  · rcases hboth.2.file with h | h | h
    · rw [h, hempty]
      rfl
    · rw [h, hempty]
      rfl
    · rw [h, hpayload]
      rfl
  · rcases hboth.2.stored (by rw [hpayload]; exact hempty) (.inl hphase) with h | h
    · rw [h, hpayload]
      rfl
    · exact absurd h hquiet

def outputTask : Hub.Spec :=
  { assign := { ref := "run/task/1", env := [("CRONOVA_OUTPUT", "task.log.out1.json")] }, logPath := "task.log" }

private def kept : Handling → Bool
  | .stored _ => true
  | _ => false

/-- The exit is reported twice, by `watchExit` and to a probe; the file is written twice. -/
theorem output_kept_twice : ∃ l : Link, l.entry.probe = ⟨.exited, 0⟩ ∧ l.wrote = [123, 125] ∧ l.output.getD [] = [123, 125] := by
  obtain ⟨l, hrun, hfacts⟩ := play_any Link.step Preserves (Link.launched outputTask "w")
    [.assign none [] true, .emit [123, 125], .finish 0, .poll, .mark, .readOut true, .report true, .reconnect, .hello 1 true,
      .receive 0, .openOutput 0 true, .storeOutput 0 2, .probed, .lookUp, .readAnswer true, .reply true, .receive 1,
      .record 0 5, .openOutput 1 true, .storeOutput 1 2]
    (fun l => l.entry.probe = ⟨.exited, 0⟩ ∧ l.wrote = [123, 125] ∧
      l.wires.all (fun w => w.handling.all kept)) (by decide +kernel)
  simp only [decide_eq_true_eq] at hfacts
  obtain ⟨hprobe, hwrote, hstored⟩ := hfacts
  have hquiet : ¬ Writing l := by
    rintro ⟨k, w, ev, hw, hev⟩
    have hall := List.all_eq_true.1 hstored w (List.mem_of_getElem? hw)
    rw [hev] at hall
    cases hall
  refine ⟨l, hprobe, hwrote, ?_⟩
  rw [← hwrote]
  exact output_kept _ (.launched outputTask "w") l hrun (by rw [hprobe]) (by rw [hwrote]; decide) hquiet

/-- All of the log is acknowledged when `watchExit` marks the exit: the next
acknowledgement collects the output before it is read. -/
theorem output_lost : ¬ ∀ l₀ l, Begins l₀ → Reaches Link.step anyEvent l₀ l → l.entry.probe = ⟨.exited, 0⟩ →
    l.wrote.length ≤ maxOutput → l.output.getD [] = l.wrote := by
  intro hkept
  obtain ⟨l, hrun, hfacts⟩ := play_any Link.step anyEvent (Link.launched outputTask "w")
    [.assign none [36] true, .chunk 0 { ref := "run/task/1", offset := 0, data := [36] } {} true, .emit [123, 125],
      .finish 0, .poll, .mark, .acked, .readOut true, .report true, .receive 0, .openOutput 0 true, .record 0 5]
    (fun l => l.entry.probe = ⟨.exited, 0⟩ ∧ l.wrote = [123, 125] ∧ l.output = none) (by decide +kernel)
  simp only [decide_eq_true_eq] at hfacts
  obtain ⟨hprobe, hwrote, hnone⟩ := hfacts
  have hequal := hkept _ l (.launched outputTask "w") hrun hprobe (by rw [hwrote]; decide)
  rw [hnone, hwrote] at hequal
  cases hequal

end Cronova.Properties
