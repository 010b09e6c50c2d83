import Cronova.Remote.Feed
import Mathlib.Data.Set.Finite.Lattice

/-! Whether the log of an attempt gets to the hub. Every chunk that continues the hub's copy
is taken when the hub has a file for it; the worker then sends no byte for ever, and
collects an attempt that has exited. -/
namespace Cronova.Properties.Intake
open Cronova.Concurrency Cronova.Remote

/-! ### What a chunk does to the mark -/

/-- The mark after a chunk that could be written. -/
def extend (mark : Nat) (c : LogChunk) : Nat :=
  if c.offset ≤ mark then max mark (c.offset + c.data.length).toNat else mark

/-- The mark after the chunks in flight. -/
def reach (mark : Nat) : List LogChunk → Nat
  | [] => mark
  | c :: cs => reach (extend mark c) cs

/-- How many of the chunks in flight start beyond the mark that they find. -/
def gaps (mark : Nat) : List LogChunk → Nat
  | [] => 0
  | c :: cs => (if (mark : Int) < c.offset then 1 else 0) + gaps (extend mark c) cs

section Mark
variable {mark : Nat} {c : LogChunk} {cs : List LogChunk}

theorem reach_append : reach mark (cs ++ [c]) = extend (reach mark cs) c := by
  induction cs generalizing mark with
  | nil => rfl
  | cons d cs ih => exact ih

theorem gaps_append : gaps mark (cs ++ [c]) = gaps mark cs + if (reach mark cs : Int) < c.offset then 1 else 0 := by
  induction cs generalizing mark with
  | nil => exact Nat.add_comm _ 0
  | cons d cs ih =>
    rw [List.cons_append, gaps, gaps, reach, ih, Nat.add_assoc]

theorem le_extend : mark ≤ extend mark c := by
  unfold extend
  split
  · exact Nat.le_max_left _ _
  · exact Nat.le_refl _

theorem le_reach : mark ≤ reach mark cs := by
  induction cs generalizing mark with
  | nil => exact Nat.le_refl _
  | cons c cs ih => exact Nat.le_trans le_extend ih

/-- A chunk that could be written moves the mark to its end, or is answered with a
rewind. -/
theorem onChunk_extend {rs : RefState} (hpath : rs.logPath ≠ "") (c : LogChunk) :
    (rs.onChunk c {}).state.logHW = extend rs.logHW c ∧ (rs.onChunk c {}).state.logPath = rs.logPath ∧
      (rs.onChunk c {}).ack = some (extend rs.logHW c, decide ((rs.logHW : Int) < c.offset)) := by
  unfold RefState.onChunk extend
  dsimp only
  split
  case isTrue hold =>
    have hmark : max rs.logHW (c.offset + c.data.length).toNat = rs.logHW := by omega
    rw [if_pos (show c.offset ≤ rs.logHW by omega), hmark, decide_eq_false (by omega)]
    exact ⟨rfl, rfl, rfl⟩
  case isFalse hnew =>
    split
    case isTrue hgap =>
      rw [if_neg (show ¬ c.offset ≤ rs.logHW by omega), decide_eq_true hgap]
      exact ⟨rfl, rfl, rfl⟩
    case isFalse hgap =>
      have hdata : rs.logHW + (if c.offset < (rs.logHW : Int) then c.data.drop (rs.logHW - c.offset).toNat else c.data).length =
          max rs.logHW (c.offset + c.data.length).toNat := by
        split
        · rw [List.length_drop]
          omega
        · omega
      rw [if_neg (fun hfail => by cases hfail.2.2), if_pos (show c.offset ≤ rs.logHW by omega), decide_eq_false hgap, ← hdata]
      cases c.eof <;> simp [RefState.closeLog]

end Mark

/-! ### Sessions -/

/-- The hub's mark after what is in flight. -/
def reached (f : Feed) : Nat := reach f.entry.logHW f.up

/-- How many rewinds the hub has sent or is going to send for what is in flight, and the
one that the pump has not followed yet. -/
def owed (f : Feed) : Nat :=
  gaps f.entry.logHW f.up + (f.down.countP (·.rewind)) + (if f.track.rewind then 1 else 0)

/-- The file system accepts what is written, the acknowledgement of the last chunk finds
room, and the pump returns only when the hub is going to have the whole spool. -/
def Orderly (f : Feed) : FeedEvent → Prop
  | .chunk disk room => disk = {} ∧ ∀ c ∈ f.up.head?, c.eof = true → room = true
  | .settle => f.track.exited = true → f.spool.length ≤ f.sendOff ∧ f.sendOff ≤ reached f
  | _ => True

/-- The pump sends the byte at a position. -/
def Sends (q : Nat) (f : Feed) (e : FeedEvent) : Prop :=
  e = .offer ∧ ∃ data atEOF, f.phase = .holding data atEOF ∧ f.sendOff ≤ q ∧ q < f.sendOff + data.length

/-- What a session of a worker that follows acknowledgements and rewinds comes to. -/
structure Progresses (f : Feed) : Prop where
  /-- A chunk that continues the hub's copy is taken to its end. -/
  advances : ∀ g, Reaches Feed.step Orderly f g → ∀ c : LogChunk, c.offset ≤ g.entry.logHW →
    g.entry.logHW < c.offset + c.data.length → ((g.entry.onChunk c {}).state.logHW : Int) = c.offset + c.data.length
  /-- No byte is sent for ever. -/
  finite : ∀ x : Execution Feed.step, x.state 0 = f → (∀ n, Orderly (x.state n) (x.event n)) →
    ∀ q, {n | Sends q (x.state n) (x.event n)}.Finite
  /-- An attempt that has exited is collected at last. -/
  collects : ∀ g, Reaches Feed.step Orderly f g → g.track.exited = true →
    Inevitable Feed.step Orderly (fun f => f.collected = true) g

/-- What every session keeps. -/
structure Kept (f : Feed) : Prop where
  path : f.entry.logPath ≠ ""
  acks : ∀ ack ∈ f.down, ack.offset ≤ f.entry.logHW
  flag : f.track.rewind = true → f.track.ackOff ≤ f.entry.logHW
  eof : f.eofSent = true → f.track.exited = true
  returned : f.phase = .returned → f.track.exited = true
  held : ∀ data atEOF, f.phase = .holding data atEOF →
    data ≠ [] ∧ f.sendOff + data.length ≤ f.spool.length ∧ (atEOF = false → data.length = chunkSize)

section Steps
variable {f f' : Feed} {e : FeedEvent}

theorem collectable_of {tr : RefTrack} {size : Nat} : tr.collectable (some size) = (tr.exited && decide ((size : Int) ≤ tr.ackOff)) := rfl

theorem onAck_exited (tr : RefTrack) (ack : LogAck) : (tr.onAck ack).exited = tr.exited := by
  unfold RefTrack.onAck
  split
  · rfl
  · split <;> rfl

/-- What the hub does to a session when it takes the next chunk. -/
theorem handleChunk_eq (hpath : f.entry.logPath ≠ "") (c : LogChunk) (rest : List LogChunk) (room : Bool) :
    ∃ rs : RefState, rs.logPath = f.entry.logPath ∧ rs.logHW = extend f.entry.logHW c ∧
      f.handleChunk c rest {} room =
        { f with
          entry := rs, up := rest
          down := f.down ++ (if room then [⟨f.ref, extend f.entry.logHW c, decide ((f.entry.logHW : Int) < c.offset)⟩] else []) } := by
  obtain ⟨hmark, hsame, hack⟩ := onChunk_extend hpath c
  refine ⟨(f.entry.onChunk c {}).state, hsame, hmark, ?_⟩
  unfold Feed.handleChunk
  dsimp only
  rw [hack]

theorem Kept.step (hkept : Kept f) (hok : Orderly f e) (hstep : f.step e = some f') : Kept f' := by
  obtain ⟨hpath, hacks, hflag, heof, hreturned, hheld⟩ := hkept
  cases e with
  | log data =>
    obtain ⟨hrun, hnext⟩ := Option.ite_none_right_eq_some.1 hstep
    cases hnext
    refine ⟨hpath, hacks, hflag, heof, hreturned, fun d a hphase => ?_⟩
    obtain ⟨hne, hin, hfull⟩ := hheld d a hphase
    exact ⟨hne, by dsimp only; rw [List.length_append]; omega, hfull⟩
  | mark code =>
    obtain ⟨-, hnext⟩ := Option.ite_none_right_eq_some.1 hstep
    cases hnext
    exact ⟨hpath, hacks, hflag, fun _ => rfl, fun _ => rfl, hheld⟩
  | check =>
    simp only [Feed.step] at hstep
    split at hstep
    · cases hstep
      unfold Feed.check
      split
      · exact ⟨hpath, hacks, nofun, nofun, nofun, nofun⟩
      · exact ⟨hpath, hacks, hflag, heof, nofun, nofun⟩
    · cases hstep
  | read =>
    simp only [Feed.step] at hstep
    split at hstep
    · cases hstep
      unfold Feed.read
      split
      · exact ⟨hpath, hacks, hflag, heof, nofun, nofun⟩
      · dsimp only
        split
        · rename_i hdata
          refine ⟨hpath, hacks, hflag, heof, nofun, fun d a hphase => ?_⟩
          cases hphase
          have hlen : ((f.spool.drop f.sendOff).take chunkSize).length = min chunkSize (f.spool.length - f.sendOff) := by
            rw [List.length_take, List.length_drop]
          have hpos : 0 < ((f.spool.drop f.sendOff).take chunkSize).length := List.length_pos_iff.2 hdata
          refine ⟨hdata, by dsimp only; omega, fun hfull => ?_⟩
          have hnot := of_decide_eq_false hfull
          omega
        · exact ⟨hpath, hacks, hflag, heof, nofun, nofun⟩
    · cases hstep
  | offer =>
    simp only [Feed.step] at hstep
    split at hstep
    · cases hstep
      refine ⟨hpath, hacks, hflag, fun hsent => ?_, nofun, nofun⟩
      exact (Bool.and_eq_true _ _ ▸ hsent : _ ∧ _).1
    · cases hstep
  | settle =>
    simp only [Feed.step] at hstep
    split at hstep
    · cases hstep
      unfold Feed.settle
      split
      · rename_i hexited
        split
        · exact ⟨hpath, hacks, hflag, heof, fun _ => hexited, nofun⟩
        · exact ⟨hpath, hacks, hflag, fun _ => hexited, fun _ => hexited, nofun⟩
      · exact ⟨hpath, hacks, hflag, heof, nofun, nofun⟩
    · cases hstep
  | chunk disk room =>
    simp only [Feed.step] at hstep
    split at hstep
    · rename_i c rest hup
      cases hstep
      obtain ⟨rfl, -⟩ := hok
      obtain ⟨rs, hsame, hmark, heq⟩ := handleChunk_eq hpath c rest room
      have hle : f.entry.logHW ≤ rs.logHW := hmark ▸ le_extend
      rw [heq]
      refine ⟨hsame ▸ hpath, fun ack hack => ?_, fun hset => ?_, heof, hreturned, hheld⟩
      · dsimp only
        rcases List.mem_append.1 hack with hold | hnew
        · have := hacks ack hold
          omega
        · split at hnew
          · rw [List.mem_singleton.1 hnew, hmark]
          · cases hnew
      · dsimp only
        have := hflag hset
        omega
    · cases hstep
  | acked =>
    simp only [Feed.step] at hstep
    split at hstep
    · rename_i ack rest hdown
      cases hstep
      rw [hdown] at hacks
      have hrest : ∀ a ∈ rest, a.offset ≤ f.entry.logHW := fun a ha => hacks a (List.mem_cons_of_mem _ ha)
      unfold Feed.handleAck
      split
      · exact ⟨hpath, hrest, hflag, heof, hreturned, hheld⟩
      · refine ⟨hpath, hrest, fun hset => ?_, fun hsent => ?_, fun hret => ?_, hheld⟩
        · have hle := hacks ack List.mem_cons_self
          dsimp only at hset ⊢
          unfold RefTrack.onAck at hset ⊢
          split
          · exact hle
          · rename_i hplain
            rw [if_neg hplain] at hset
            split
            · exact hle
            · rename_i hless
              rw [if_neg hless] at hset
              exact hflag hset
        · dsimp only
          rw [onAck_exited]
          exact heof hsent
        · dsimp only
          rw [onAck_exited]
          exact hreturned hret
    · cases hstep

/-! #### Rewinds -/

/-- The pump goes back. -/
def Rewinds (f : Feed) (e : FeedEvent) : Prop := e = .check ∧ f.phase = .top ∧ f.track.rewind = true

/-- What the pump has still to send of the spool. -/
def rest (f : Feed) : Nat := (f.spool.length - f.sendOff) + if f.eofSent then 0 else 1

/-- What a step does to the rewinds that are owed. -/
structure Owes (f : Feed) (e : FeedEvent) (f' : Feed) : Prop where
  /-- The pump that has gone back is not ahead of the hub. -/
  back : Rewinds f e → owed f' + 1 = owed f ∧ f'.sendOff ≤ reached f'
  mark : reached f ≤ reached f'
  /-- Without going back the cursor moves forward. -/
  forward : ¬ Rewinds f e → f.sendOff ≤ f'.sendOff
  /-- A pump that is not ahead of the hub comes to no gap. -/
  even : ¬ Rewinds f e → f.sendOff ≤ reached f → owed f' ≤ owed f ∧ f'.sendOff ≤ reached f'
  /-- A pump that is ahead comes to one gap for each chunk. -/
  ahead : ¬ Rewinds f e → reached f < f.sendOff → f.track.exited = true →
    owed f' ≤ owed f ∧ rest f' ≤ rest f ∨ owed f' ≤ owed f + 1 ∧ rest f' + 1 ≤ rest f

theorem reached_append {c : LogChunk} : reach f.entry.logHW (f.up ++ [c]) = extend (reached f) c := reach_append

theorem countP_rewind (acks : List LogAck) (ack : LogAck) :
    (acks ++ [ack]).countP (·.rewind) = acks.countP (·.rewind) + if ack.rewind then 1 else 0 := by
  rw [List.countP_append, List.countP_cons, List.countP_nil, Nat.zero_add]

/-- A chunk from the cursor of the pump. -/
theorem extend_at {mark off : Nat} {ref : String} {data : Bytes} {eof : Bool} :
    extend mark ⟨ref, off, data, eof⟩ = if off ≤ mark then max mark (off + data.length) else mark := by
  unfold extend
  simp only [Int.ofNat_le]
  split
  · rw [← Int.natCast_add, Int.toNat_natCast]
  · rfl

/-- The pump sends a chunk from its cursor, and goes on behind it. -/
theorem owes_send (data : Bytes) (eof : Bool) (hfresh : ¬ Rewinds f e)
    (hentry : f'.entry = f.entry) (htrack : f'.track = f.track) (hdown : f'.down = f.down)
    (hup : f'.up = f.up ++ [⟨f.ref, f.sendOff, data, eof⟩]) (hcursor : f'.sendOff = f.sendOff + data.length)
    (hrest : f.track.exited = true → reached f < f.sendOff → rest f' + 1 ≤ rest f) : Owes f e f' := by
  have hreach : reached f' = if f.sendOff ≤ reached f then max (reached f) (f.sendOff + data.length) else reached f := by
    rw [reached, hentry, hup, reached_append, extend_at]
  have howed : owed f' = owed f + if reached f < f.sendOff then 1 else 0 := by
    have hgaps : gaps f.entry.logHW (f.up ++ [⟨f.ref, f.sendOff, data, eof⟩]) = _ := gaps_append
    simp only [Int.ofNat_lt] at hgaps
    rw [owed, owed, hentry, htrack, hdown, hup, hgaps]
    change _ + (if reached f < f.sendOff then 1 else 0) + _ + _ = _
    omega
  refine ⟨fun h => absurd h hfresh, ?_, fun _ => ?_, fun _ heven => ?_, fun _ hahead hexited => ?_⟩
  · rw [hreach]
    split
    · exact Nat.le_max_left _ _
    · exact Nat.le_refl _
  · omega
  · rw [hreach, howed, if_pos heven, if_neg (by omega), hcursor]
    exact ⟨Nat.le_refl _, Nat.le_max_right _ _⟩
  · rw [howed, if_pos hahead]
    exact .inr ⟨Nat.le_refl _, hrest hexited hahead⟩

/-- A step that moves neither the cursor nor the marks. -/
theorem owes_still (hfresh : ¬ Rewinds f e) (hreach : reached f' = reached f) (howed : owed f' ≤ owed f)
    (hcursor : f'.sendOff = f.sendOff) (hrest : f.track.exited = true → rest f' ≤ rest f) : Owes f e f' := by
  refine ⟨fun h => absurd h hfresh, hreach.ge, fun _ => hcursor.ge, fun _ heven => ?_, fun _ _ hexited => ?_⟩
  · rw [hreach, hcursor]
    exact ⟨howed, heven⟩
  · exact .inl ⟨howed, hrest hexited⟩

/-- What is sent of the spool of an attempt that has exited is not left. -/
theorem rest_offer (hkept : Kept f) {data : Bytes} {atEOF : Bool} (hphase : f.phase = .holding data atEOF)
    (hexited : f.track.exited = true) : rest (f.offer data atEOF) + 1 ≤ rest f := by
  obtain ⟨hne, hin, hfull⟩ := hkept.held data atEOF hphase
  have hpos : 0 < data.length := List.length_pos_iff.2 hne
  unfold rest Feed.offer
  dsimp only
  rw [hexited, Bool.true_and]
  cases atEOF with
  | true =>
    rw [if_pos rfl]
    omega
  | false =>
    have hlen := hfull rfl
    unfold chunkSize at hlen
    rw [if_neg (by decide)]
    omega

theorem step_owes (hkept : Kept f) (hok : Orderly f e) (hstep : f.step e = some f') : Owes f e f' := by
  cases e with
  | log data =>
    obtain ⟨hrun, hnext⟩ := Option.ite_none_right_eq_some.1 hstep
    cases hnext
    exact owes_still nofun rfl (Nat.le_refl _) rfl (fun hexited => by rw [hrun] at hexited; cases hexited)
  | mark code =>
    obtain ⟨-, hnext⟩ := Option.ite_none_right_eq_some.1 hstep
    cases hnext
    exact owes_still nofun rfl (Nat.le_refl _) rfl (fun _ => Nat.le_refl _)
  | check =>
    simp only [Feed.step] at hstep
    split at hstep
    · rename_i hphase
      cases hstep
      unfold Feed.check
      split
      · rename_i hflag
        have hle := hkept.flag hflag
        have hfresh : ¬ ¬ Rewinds f .check := not_not.2 ⟨rfl, hphase, hflag⟩
        have hreach : f.entry.logHW ≤ reached f := le_reach
        refine ⟨fun _ => ⟨?_, ?_⟩, Nat.le_refl _, fun h => absurd h hfresh, fun h => absurd h hfresh, fun h => absurd h hfresh⟩
        · unfold owed
          rw [if_pos hflag]
          rfl
        · change f.track.ackOff.toNat ≤ reached f
          omega
      · rename_i hflag
        exact owes_still (fun h => hflag h.2.2) rfl (Nat.le_refl _) rfl (fun _ => Nat.le_refl _)
    · cases hstep
  | read =>
    simp only [Feed.step] at hstep
    split at hstep
    · cases hstep
      unfold Feed.read
      split
      · exact owes_still nofun rfl (Nat.le_refl _) rfl (fun _ => Nat.le_refl _)
      · exact owes_still nofun rfl (Nat.le_refl _) rfl (fun _ => Nat.le_refl _)
    · cases hstep
  | offer =>
    simp only [Feed.step] at hstep
    split at hstep
    · rename_i data atEOF hphase
      cases hstep
      refine owes_send _ _ nofun rfl rfl rfl rfl rfl (fun hexited _ => ?_)
      exact rest_offer hkept hphase hexited
    · cases hstep
  | settle =>
    simp only [Feed.step] at hstep
    split at hstep
    · cases hstep
      unfold Feed.settle
      split
      · rename_i hexited
        split
        · exact owes_still nofun rfl (Nat.le_refl _) rfl (fun _ => Nat.le_refl _)
        · refine owes_send [] true nofun rfl rfl rfl rfl rfl (fun _ hahead => ?_)
          have hcursor := (hok hexited).2
          omega
      · exact owes_still nofun rfl (Nat.le_refl _) rfl (fun _ => Nat.le_refl _)
    · cases hstep
  | chunk disk room =>
    simp only [Feed.step] at hstep
    split at hstep
    · rename_i c others hup
      cases hstep
      obtain ⟨rfl, -⟩ := hok
      obtain ⟨rs, -, hmark, heq⟩ := handleChunk_eq hkept.path c others room
      rw [heq]
      refine owes_still nofun ?_ ?_ rfl (fun _ => Nat.le_refl _)
      · unfold reached
        dsimp only
        rw [hmark, hup]
        rfl
      · unfold owed
        dsimp only
        rw [hmark, hup, gaps]
        cases room with
        | true =>
          rw [if_pos rfl, countP_rewind]
          simp only [decide_eq_true_eq]
          omega
        | false =>
          rw [if_neg (by decide), List.append_nil]
          omega
    · cases hstep
  | acked =>
    simp only [Feed.step] at hstep
    split at hstep
    · rename_i ack others hdown
      cases hstep
      have hflag : (if (f.track.onAck ack).rewind then 1 else 0) ≤ (if ack.rewind then 1 else 0) + if f.track.rewind then 1 else 0 := by
        unfold RefTrack.onAck
        split
        · rw [if_pos rfl]
          exact Nat.le_add_right _ _
        · split
          · exact Nat.le_add_left _ _
          · exact Nat.le_add_left _ _
      unfold Feed.handleAck
      split
      · refine owes_still nofun rfl ?_ rfl (fun _ => Nat.le_refl _)
        unfold owed
        dsimp only
        rw [hdown, List.countP_cons]
        omega
      · refine owes_still nofun rfl ?_ rfl (fun _ => Nat.le_refl _)
        unfold owed
        dsimp only
        rw [hdown, List.countP_cons]
        omega
    · cases hstep

/-! #### The end of a session -/

/-- The last chunk of the spool is in flight, or its answer is, or the worker has read it. -/
def Answering (f : Feed) : Prop :=
  (∃ c, f.up.getLast? = some c ∧ c.eof = true ∧ c.offset + c.data.length = f.sendOff) ∨
  (f.up = [] ∧ ∃ ack, f.down.getLast? = some ack ∧
    (ack.rewind = true ∧ f.entry.logHW < f.sendOff ∨ ack.rewind = false ∧ f.sendOff ≤ ack.offset)) ∨
  (f.up = [] ∧ f.down = [] ∧
    (f.collected = true ∨ f.track.rewind = true ∧ f.entry.logHW < f.sendOff ∨ f.sendOff < f.spool.length))

structure Closing (f : Feed) : Prop where
  answering : f.eofSent = true → Answering f
  returned : f.phase = .returned → f.eofSent = true ∧ f.spool.length ≤ f.sendOff ∧ f.sendOff ≤ reached f

theorem getLast?_of_cons {α : Type} {a b : α} {l : List α} (h : (a :: l).getLast? = some b) : l = [] ∧ a = b ∨ l.getLast? = some b := by
  cases l with
  | nil => exact .inl ⟨rfl, Option.some.inj h⟩
  | cons c l => exact .inr (by rwa [List.getLast?_cons_cons] at h)

theorem answering_chunk (hpath : f.entry.logPath ≠ "") {c : LogChunk} {others : List LogChunk} {room : Bool} (hup : f.up = c :: others)
    (hroom : c.eof = true → room = true) (hanswering : Answering f) : Answering (f.handleChunk c others {} room) := by
  obtain ⟨rs, -, hmark, heq⟩ := handleChunk_eq hpath c others room
  rw [heq]
  rcases hanswering with ⟨last, hlast, heof, hend⟩ | ⟨hnone, -⟩ | ⟨hnone, -⟩
  · rw [hup] at hlast
    rcases getLast?_of_cons hlast with ⟨hempty, rfl⟩ | hlast
    · -- the last chunk has come to the hub
      right
      left
      refine ⟨hempty, ⟨f.ref, extend f.entry.logHW c, decide ((f.entry.logHW : Int) < c.offset)⟩, ?_, ?_⟩
      · dsimp only
        rw [hroom heof, if_pos rfl, List.getLast?_concat]
      · dsimp only
        rw [hmark]
        unfold extend
        by_cases hgap : (f.entry.logHW : Int) < c.offset
        · left
          rw [if_neg (not_le.2 hgap)]
          exact ⟨decide_eq_true hgap, by omega⟩
        · right
          rw [if_pos (not_lt.1 hgap)]
          exact ⟨decide_eq_false hgap, by omega⟩
    · exact .inl ⟨last, hlast, heof, hend⟩
  · rw [hup] at hnone
    cases hnone
  · rw [hup] at hnone
    cases hnone

theorem answering_ack {ack : LogAck} {others : List LogAck} (hdown : f.down = ack :: others) (hexited : f.track.exited = true)
    (hanswering : Answering f) : Answering (f.handleAck ack others) := by
  unfold Feed.handleAck
  rcases hanswering with ⟨last, hlast, heof, hend⟩ | ⟨hnone, last, hlast, hanswer⟩ | ⟨-, hnone, -⟩
  · split
    · exact .inl ⟨last, hlast, heof, hend⟩
    · exact .inl ⟨last, hlast, heof, hend⟩
  · rw [hdown] at hlast
    rcases getLast?_of_cons hlast with ⟨rfl, rfl⟩ | hlast
    · -- the worker reads the answer
      right
      right
      split
      · rename_i hcollected
        exact ⟨hnone, rfl, .inl hcollected⟩
      · refine ⟨hnone, rfl, ?_⟩
        dsimp only
        rcases hanswer with ⟨hrewind, hless⟩ | ⟨hrewind, hle⟩
        · right
          left
          refine ⟨?_, hless⟩
          rw [RefTrack.onAck, if_pos hrewind]
        · have hack : ack.offset ≤ (f.track.onAck ack).ackOff := by
            rw [RefTrack.onAck, if_neg (by rw [hrewind]; decide)]
            split
            · exact le_rfl
            · omega
          rw [collectable_of, onAck_exited, hexited, Bool.true_and, decide_eq_true_eq]
          omega
    · right
      left
      split
      · exact ⟨hnone, last, hlast, hanswer⟩
      · exact ⟨hnone, last, hlast, hanswer⟩
  · rw [hdown] at hnone
    cases hnone

theorem Closing.step (hclosing : Closing f) (hkept : Kept f) (hok : Orderly f e) (hstep : f.step e = some f') : Closing f' := by
  have hmark := (step_owes hkept hok hstep).mark
  obtain ⟨hanswering, hreturned⟩ := hclosing
  cases e with
  | log data =>
    obtain ⟨hrun, hnext⟩ := Option.ite_none_right_eq_some.1 hstep
    cases hnext
    refine ⟨fun hsent => ?_, fun hret => ?_⟩
    · have hexited := hkept.eof hsent
      rw [hrun] at hexited
      cases hexited
    · have hexited := hkept.returned hret
      rw [hrun] at hexited
      cases hexited
  | mark code =>
    obtain ⟨-, hnext⟩ := Option.ite_none_right_eq_some.1 hstep
    cases hnext
    exact ⟨hanswering, hreturned⟩
  | check =>
    simp only [Feed.step] at hstep
    split at hstep
    · cases hstep
      unfold Feed.check
      split
      · exact ⟨nofun, nofun⟩
      · exact ⟨hanswering, nofun⟩
    · cases hstep
  | read =>
    simp only [Feed.step] at hstep
    split at hstep
    · cases hstep
      unfold Feed.read
      split
      · exact ⟨hanswering, nofun⟩
      · refine ⟨hanswering, fun hret => ?_⟩
        dsimp only at hret
        split at hret
        · cases hret
        · cases hret
    · cases hstep
  | offer =>
    simp only [Feed.step] at hstep
    split at hstep
    · rename_i data atEOF hphase
      cases hstep
      refine ⟨fun hsent => ?_, nofun⟩
      exact .inl ⟨⟨f.ref, f.sendOff, data, f.track.exited && atEOF⟩, List.getLast?_concat, hsent, rfl⟩
    · cases hstep
  | settle =>
    simp only [Feed.step] at hstep
    split at hstep
    · cases hstep
      unfold Feed.settle at hmark ⊢
      split at hmark
      · rename_i hexited
        obtain ⟨hwhole, hcursor⟩ := hok hexited
        rw [if_pos hexited]
        split at hmark
        · rename_i hsent
          rw [if_pos hsent]
          exact ⟨hanswering, fun _ => ⟨hsent, hwhole, hcursor⟩⟩
        · rename_i hsent
          rw [if_neg hsent]
          refine ⟨fun _ => ?_, fun _ => ⟨rfl, hwhole, Nat.le_trans hcursor hmark⟩⟩
          exact .inl ⟨⟨f.ref, f.sendOff, [], true⟩, List.getLast?_concat, rfl, by simp⟩
      · rename_i hrun
        rw [if_neg hrun]
        exact ⟨hanswering, nofun⟩
    · cases hstep
  | chunk disk room =>
    simp only [Feed.step] at hstep
    split at hstep
    · rename_i c others hup
      cases hstep
      obtain ⟨rfl, hroom⟩ := hok
      rw [hup] at hroom
      refine ⟨fun hsent => answering_chunk hkept.path hup (hroom c rfl) (hanswering hsent), fun hret => ?_⟩
      obtain ⟨hsent, hwhole, hcursor⟩ := hreturned hret
      exact ⟨hsent, hwhole, Nat.le_trans hcursor hmark⟩
    · cases hstep
  | acked =>
    simp only [Feed.step] at hstep
    split at hstep
    · rename_i ack others hdown
      cases hstep
      have hkeep : (f.handleAck ack others).eofSent = f.eofSent ∧ (f.handleAck ack others).phase = f.phase ∧
          (f.handleAck ack others).spool = f.spool ∧ (f.handleAck ack others).sendOff = f.sendOff := by
        unfold Feed.handleAck
        split
        · exact ⟨rfl, rfl, rfl, rfl⟩
        · exact ⟨rfl, rfl, rfl, rfl⟩
      obtain ⟨hkeepeof, hkeepphase, hkeepspool, hkeepcursor⟩ := hkeep
      refine ⟨fun hsent => ?_, fun hret => ?_⟩
      · rw [hkeepeof] at hsent
        exact answering_ack hdown (hkept.eof hsent) (hanswering hsent)
      · rw [hkeepphase] at hret
        obtain ⟨hsent, hwhole, hcursor⟩ := hreturned hret
        rw [hkeepeof, hkeepspool, hkeepcursor]
        exact ⟨hsent, hwhole, Nat.le_trans hcursor hmark⟩
    · cases hstep

/-- How far the pump is from the end of its round. -/
def stage : PumpPhase → Nat
  | .top => 3
  | .checked => 2
  | .holding .. | .blank => 1
  | .returned => 0

/-- What is to do in a session that has no rewind any more. -/
def work (f : Feed) : Nat := 8 * rest f + 2 * f.up.length + f.down.length + stage f.phase

theorem exited_step (hexited : f.track.exited = true) (hstep : f.step e = some f') : f'.track.exited = true := by
  cases e with
  | log data =>
    obtain ⟨hrun, -⟩ := Option.ite_none_right_eq_some.1 hstep
    rw [hexited] at hrun
    cases hrun
  | mark code =>
    obtain ⟨-, hnext⟩ := Option.ite_none_right_eq_some.1 hstep
    cases hnext
    rfl
  | check =>
    simp only [Feed.step] at hstep
    split at hstep
    · cases hstep
      unfold Feed.check
      split
      · exact hexited
      · exact hexited
    · cases hstep
  | read =>
    simp only [Feed.step] at hstep
    split at hstep
    · cases hstep
      unfold Feed.read
      split
      · exact hexited
      · exact hexited
    · cases hstep
  | offer =>
    simp only [Feed.step] at hstep
    split at hstep
    · cases hstep
      exact hexited
    · cases hstep
  | settle =>
    simp only [Feed.step] at hstep
    split at hstep
    · cases hstep
      unfold Feed.settle
      rw [if_pos hexited]
      split
      · exact hexited
      · exact hexited
    · cases hstep
  | chunk disk room =>
    simp only [Feed.step] at hstep
    split at hstep
    · cases hstep
      exact hexited
    · cases hstep
  | acked =>
    simp only [Feed.step] at hstep
    split at hstep
    · cases hstep
      unfold Feed.handleAck
      split
      · exact hexited
      · exact (onAck_exited _ _).trans hexited
    · cases hstep

theorem work_step (hkept : Kept f) (hok : Orderly f e) (hexited : f.track.exited = true) (hopen : f.collected = false)
    (hfresh : ¬ Rewinds f e) (hstep : f.step e = some f') : work f' < work f := by
  cases e with
  | log data =>
    obtain ⟨hrun, -⟩ := Option.ite_none_right_eq_some.1 hstep
    rw [hexited] at hrun
    cases hrun
  | mark code =>
    obtain ⟨hrun, -⟩ := Option.ite_none_right_eq_some.1 hstep
    rw [hexited] at hrun
    cases hrun
  | check =>
    simp only [Feed.step] at hstep
    split at hstep
    · rename_i hphase
      cases hstep
      unfold Feed.check
      split
      · rename_i hflag
        exact absurd ⟨rfl, hphase, hflag⟩ hfresh
      · unfold work
        rw [hphase]
        exact Nat.add_lt_add_left (show 2 < 3 by decide) _
    · cases hstep
  | read =>
    simp only [Feed.step] at hstep
    split at hstep
    · rename_i hphase
      cases hstep
      unfold Feed.read
      rw [hopen, if_neg (by decide)]
      unfold work
      rw [hphase]
      dsimp only
      split
      · exact Nat.add_lt_add_left (show 1 < 2 by decide) _
      · exact Nat.add_lt_add_left (show 1 < 2 by decide) _
    · cases hstep
  | offer =>
    simp only [Feed.step] at hstep
    split at hstep
    · rename_i data atEOF hphase
      cases hstep
      have hrest := rest_offer hkept hphase hexited
      have hup : (f.offer data atEOF).up.length = f.up.length + 1 := List.length_append
      have hdown : (f.offer data atEOF).down = f.down := rfl
      have hstage : stage (f.offer data atEOF).phase = 3 := rfl
      unfold work
      rw [hup, hdown, hstage, hphase, stage]
      omega
    · cases hstep
  | settle =>
    simp only [Feed.step] at hstep
    split at hstep
    · rename_i hphase
      cases hstep
      unfold Feed.settle
      rw [if_pos hexited]
      split
      · unfold work
        rw [hphase]
        exact Nat.add_lt_add_left (show 0 < 1 by decide) _
      · rename_i hsent
        unfold work rest
        dsimp only
        rw [hphase, if_neg hsent, if_pos rfl, List.length_append, stage, stage, List.length_singleton]
        omega
    · cases hstep
  | chunk disk room =>
    simp only [Feed.step] at hstep
    split at hstep
    · rename_i c others hup
      cases hstep
      obtain ⟨rfl, -⟩ := hok
      obtain ⟨rs, -, -, heq⟩ := handleChunk_eq hkept.path c others room
      have hsent : ∀ ack : LogAck, (if room = true then [ack] else []).length ≤ 1 := by
        intro ack
        split
        · exact Nat.le_refl _
        · exact Nat.zero_le _
      have hsent := hsent ⟨f.ref, extend f.entry.logHW c, decide ((f.entry.logHW : Int) < c.offset)⟩
      rw [heq]
      unfold work rest
      dsimp only
      rw [hup, List.length_append, List.length_cons]
      omega
    · cases hstep
  | acked =>
    simp only [Feed.step] at hstep
    split at hstep
    · rename_i ack others hdown
      cases hstep
      unfold Feed.handleAck
      rw [hopen, if_neg (by decide)]
      unfold work rest
      dsimp only
      rw [hdown, List.length_cons]
      omega
    · cases hstep

/-- While an attempt that has exited is not collected, something can happen. -/
theorem enabled (hclosing : Closing f) (hopen : f.collected = false) : ∃ e, (f.step e).isSome := by
  cases hup : f.up with
  | cons c others => exact ⟨.chunk {} true, by simp only [Feed.step, hup]; rfl⟩
  | nil =>
    cases hdown : f.down with
    | cons ack others => exact ⟨.acked, by simp only [Feed.step, hdown]; rfl⟩
    | nil =>
      cases hphase : f.phase with
      | top => exact ⟨.check, by simp only [Feed.step, hphase]; rfl⟩
      | checked => exact ⟨.read, by simp only [Feed.step, hphase]; rfl⟩
      | holding data atEOF => exact ⟨.offer, by simp only [Feed.step, hphase]; rfl⟩
      | blank => exact ⟨.settle, by simp only [Feed.step, hphase]; rfl⟩
      | returned =>
        -- the answer to the last chunk has collected the attempt
        obtain ⟨hsent, hwhole, hcursor⟩ := hclosing.returned hphase
        have hreach : reached f = f.entry.logHW := by rw [reached, hup]; rfl
        rcases hclosing.answering hsent with ⟨c, hlast, -⟩ | ⟨-, ack, hlast, -⟩ | ⟨-, -, hend⟩
        · rw [hup] at hlast
          cases hlast
        · rw [hdown] at hlast
          cases hlast
        · rcases hend with hcollected | ⟨-, hless⟩ | hless
          · rw [hopen] at hcollected
            cases hcollected
          · omega
          · omega

/-- The rewinds, and the chunks that can still bring one. -/
def pending (f : Feed) : Nat := owed f + if reached f < f.sendOff then rest f else 0

theorem collected_at_last (hkept : Kept f) (hclosing : Closing f) (hexited : f.track.exited = true) :
    Inevitable Feed.step Orderly (fun f => f.collected = true) f := by
  have henabled : ∀ g, Kept g ∧ Closing g ∧ g.track.exited = true → ¬ g.collected = true → ∃ e, (Feed.step g e).isSome := by
    rintro g ⟨-, hclosing, -⟩ hopen
    exact enabled hclosing (by simpa using hopen)
  refine inevitable_of_measure (Prod.Lex.instIsWellFounded (r := (· < ·)) (s := (· < ·))).wf (fun f => (pending f, work f))
    henabled ?_ ⟨hkept, hclosing, hexited⟩
  rintro g e g' ⟨hkept, hclosing, hexited⟩ hopen hok hstep
  refine ⟨⟨hkept.step hok hstep, hclosing.step hkept hok hstep, exited_step hexited hstep⟩, ?_⟩
  have howes := step_owes hkept hok hstep
  by_cases hback : Rewinds g e
  · left
    obtain ⟨hdown, heven⟩ := howes.back hback
    unfold pending
    rw [if_neg (by omega)]
    omega
  · have hpending : pending g' ≤ pending g := by
      unfold pending
      by_cases heven : g.sendOff ≤ reached g
      · obtain ⟨hdown, heven'⟩ := howes.even hback heven
        rw [if_neg (by omega), if_neg (by omega)]
        exact hdown
      · have hahead := howes.ahead hback (by omega) hexited
        rw [if_pos (show reached g < g.sendOff by omega)]
        split
        · omega
        · omega
    have hwork := work_step hkept hok hexited (by simpa using hopen) hback hstep
    rcases Nat.lt_or_eq_of_le hpending with hless | hsame
    · exact .left _ _ hless
    · rw [hsame]
      exact .right _ hwork

end Steps

/-! ### Runs -/

section Runs
variable {f : Feed}

theorem sends_finite (x : Execution Feed.step) (hkept : Kept (x.state 0)) (hok : ∀ n, Orderly (x.state n) (x.event n)) (q : Nat) :
    {n | Sends q (x.state n) (x.event n)}.Finite := by
  have hkept : ∀ n, Kept (x.state n) := by
    intro n
    induction n with
    | zero => exact hkept
    | succ n ih => exact ih.step (hok n) (x.next n)
  have howes : ∀ n, Owes (x.state n) (x.event n) (x.state (n + 1)) := fun n => step_owes (hkept n) (hok n) (x.next n)
  -- the pump goes back finitely often
  have hback : {n | Rewinds (x.state n) (x.event n)}.Finite := by
    by_cases hsome : ∃ n, Rewinds (x.state n) (x.event n)
    · obtain ⟨n, hn⟩ := hsome
      have heven : ∀ k, (x.state (n + 1 + k)).sendOff ≤ reached (x.state (n + 1 + k)) := by
        intro k
        induction k with
        | zero => exact ((howes n).back hn).2
        | succ k ih =>
          by_cases hagain : Rewinds (x.state (n + 1 + k)) (x.event (n + 1 + k))
          · exact ((howes _).back hagain).2
          · exact ((howes _).even hagain ih).2
      refine x.finite_of_measure owed (n := n + 1) (fun m hm => ?_)
      have hm' := heven (m - (n + 1))
      rw [show n + 1 + (m - (n + 1)) = m by omega] at hm'
      by_cases hagain : Rewinds (x.state m) (x.event m)
      · have hdown := ((howes m).back hagain).1
        exact ⟨by omega, fun _ => by omega⟩
      · exact ⟨((howes m).even hagain hm').1, fun h => absurd h hagain⟩
    · push Not at hsome
      exact Set.finite_empty.subset (fun n hn => hsome n hn)
  obtain ⟨N, hN⟩ := hback.bddAbove
  -- from then on the cursor only moves forward
  refine x.finite_of_measure (fun f => if q < f.sendOff then 0 else 1) (n := N + 1) (fun m hm => ?_)
  have hfresh : ¬ Rewinds (x.state m) (x.event m) := fun h => absurd (hN h) (by omega)
  have hforward := (howes m).forward hfresh
  refine ⟨?_, ?_⟩
  · split
    · exact Nat.zero_le _
    · rw [if_neg (by omega)]
  · rintro ⟨hoffer, data, atEOF, hphase, hfrom, hto⟩
    have hnext := x.next m
    rw [hoffer] at hnext
    simp only [Feed.step, hphase] at hnext
    have hcursor : (x.state (m + 1)).sendOff = (x.state m).sendOff + data.length := by
      rw [← Option.some.inj hnext]
      rfl
    rw [if_pos (by omega), if_neg (by omega)]
    exact Nat.zero_lt_one

theorem kept_start (ref : String) {rs : Entry} (ackOff : Nat) (exited : Bool) (spool : Bytes) (hpath : rs.val.logPath ≠ "") :
    Kept (Feed.start ref rs ackOff exited spool) ∧ Closing (Feed.start ref rs ackOff exited spool) :=
  ⟨⟨hpath, nofun, nofun, nofun, nofun, nofun⟩, ⟨nofun, nofun⟩⟩

/-- The log of a ref progresses in every session exactly when the hub has a path for its
log file. -/
theorem intake_progresses_iff (ref : String) (rs : Entry) :
    (∀ ackOff exited spool, Progresses (Feed.start ref rs ackOff exited spool)) ↔ rs.val.logPath ≠ "" := by
  constructor
  · intro hprogress hpath
    -- a chunk of one byte at the mark is not taken
    have hclosed : rs.val.logOpen = false := by
      by_contra hopen
      exact rs.property (Bool.not_eq_false _ ▸ hopen) hpath
    have hmoved := (hprogress 0 false []).advances _ (.start _) ⟨ref, rs.val.logHW, [0], false⟩ le_rfl (Int.lt_succ _)
    have hstill : (rs.val.onChunk ⟨ref, rs.val.logHW, [0], false⟩ {}).state.logHW = rs.val.logHW := by
      unfold RefState.onChunk
      simp [hpath, hclosed]
    change ((rs.val.onChunk ⟨ref, rs.val.logHW, [0], false⟩ {}).state.logHW : Int) = (rs.val.logHW : Int) + 1 at hmoved
    rw [hstill] at hmoved
    omega
  · intro hpath ackOff exited spool
    obtain ⟨hkept, hclosing⟩ := kept_start ref ackOff exited spool hpath
    have hall : ∀ g, Reaches Feed.step Orderly (Feed.start ref rs ackOff exited spool) g → Kept g ∧ Closing g := by
      intro g hreach
      have hstep : ∀ a e b, Kept a ∧ Closing a → Orderly a e → Feed.step a e = some b → Kept b ∧ Closing b := by
        rintro a e b ⟨hkept, hclosing⟩ hok hstep
        exact ⟨hkept.step hok hstep, hclosing.step hkept hok hstep⟩
      exact hreach.keeps ⟨hkept, hclosing⟩ hstep
    refine ⟨fun g hreach c hfrom hto => ?_, fun x hstart hok q => ?_, fun g hreach hexited => ?_⟩
    · rw [(onChunk_extend (hall g hreach).1.path c).1, extend, if_pos hfrom]
      omega
    · exact sends_finite x (hstart ▸ hkept) hok q
    · exact collected_at_last (hall g hreach).1 (hall g hreach).2 hexited

end Runs

/-- A ref that was adopted although its run has no row for it. -/
def orphan : Entry := ⟨adopted "w" "t" "d__event_1/t/1" 1 (some []) (fun _ => some 0), nofun⟩

/-- The hub acknowledges its log without taking it: the worker has sent everything, and
nothing can happen any more. -/
theorem intake_stuck :
    (orphan.val.onChunk ⟨"d__event_1/t/1", 0, [7], true⟩ {}).state.logHW = 0 ∧
      (orphan.val.onChunk ⟨"d__event_1/t/1", 0, [7], true⟩ {}).ack = some (0, false) ∧
      (∃ g, Reaches Feed.step anyEvent (Feed.start "d__event_1/t/1" orphan 0 true [7]) g ∧
        g.collected = false ∧ g.entry.logHW = 0 ∧ ∀ e, g.step e = none) ∧
      ¬ Progresses (Feed.start "d__event_1/t/1" orphan 0 true [7]) := by
  refine ⟨by decide +kernel, by decide +kernel, ?_, fun hprogress => ?_⟩
  · have hplay : (play Feed.step anyEvent (Feed.start "d__event_1/t/1" orphan 0 true [7])
        [.check, .read, .offer, .chunk {} true, .acked, .check, .read, .settle]).any
          (fun g => g.collected = false ∧ g.entry.logHW = 0 ∧ g.track.exited = true ∧ g.phase = .returned ∧ g.up = [] ∧ g.down = []) = true := by
      decide +kernel
    obtain ⟨g, hreach, hg⟩ := play_any _ _ _ _ _ hplay
    obtain ⟨hopen, hmark, hexited, hphase, hup, hdown⟩ := of_decide_eq_true hg
    refine ⟨g, hreach, hopen, hmark, fun e => ?_⟩
    cases e <;> simp [Feed.step, hexited, hphase, hup, hdown]
  · have hmoved := hprogress.advances _ (.start _) ⟨"d__event_1/t/1", 0, [7], true⟩ (by decide) (by decide)
    exact absurd hmoved (by decide +kernel)

end Cronova.Properties.Intake
