import Cronova.Api.LogStream

/-! The live log of a task shows every line once: what is sent does not depend on how the
log was written while the stream ran, or on when it was read. -/
namespace Cronova.Properties.LogStream
open Cronova.Text Cronova.Api.LogStream

variable {s : Stream} {seen next whole : Bytes} {holds : Nat → Bytes}

/-! ### One drain -/

theorem chunk_pos : 0 < sseLineChunkBytes := by decide

/-- Within a line both loops of a drain take off what is full. -/
theorem longPieces_feed {line : Bytes} (hline : newline ∉ line) :
    Stream.longPieces line = Lines.feed sseLineChunkBytes newline [] line := by
  induction line using Stream.longPieces.induct with
  | case1 line hlong ih =>
    unfold Stream.longPieces
    rw [if_pos hlong, Lines.feed_long chunk_pos hline hlong, ih (fun h => hline (List.mem_of_mem_drop h))]
  | case2 line hshort =>
    unfold Stream.longPieces
    rw [if_neg hshort, Lines.feed_fits hline (by rw [List.length_nil]; omega), List.nil_append]

/-- The lines of a buffer, and the pieces of what is behind them. -/
def split (buf : Bytes) : List Bytes × Bytes :=
  ((Stream.completeLines buf).1 ++ (Stream.longPieces (Stream.completeLines buf).2).1, (Stream.longPieces (Stream.completeLines buf).2).2)

theorem split_feed (buf : Bytes) : split buf = Lines.feed sseLineChunkBytes newline [] buf := by
  induction buf using Stream.completeLines.induct with
  | case1 buf hmem ih =>
    obtain ⟨line, rest, rfl, hline⟩ := List.eq_append_cons_of_mem hmem
    have hindex : (line ++ newline :: rest).idxOf newline = line.length := by
      rw [List.idxOf_append_of_notMem hline, List.idxOf_cons_self, Nat.add_zero]
    have htake : (line ++ newline :: rest).take line.length = line := List.take_left
    have hdrop : (line ++ newline :: rest).drop (line.length + 1) = rest := by
      rw [← List.drop_drop, List.drop_left]
      rfl
    rw [hindex, hdrop] at ih
    rw [Lines.feed_line, ← ih, ← longPieces_feed hline]
    unfold split
    rw [Stream.completeLines, if_pos hmem, hindex, htake, hdrop]
    simp only [List.append_assoc, List.cons_append]
  | case2 buf hmem =>
    unfold split
    rw [Stream.completeLines, if_neg hmem, ← longPieces_feed hmem]
    rfl

theorem sendLines_eq (final : Bool) (s : Stream) :
    s.sendLines final = { s with
      lineBuf := if final then [] else (split s.lineBuf).2,
      sent := s.sent ++ ((split s.lineBuf).1 ++ (if final ∧ (split s.lineBuf).2 ≠ [] then [(split s.lineBuf).2] else [])).map emit } := by
  unfold Stream.sendLines split
  dsimp only
  by_cases hfinal : final = true
  · by_cases hrest : (Stream.longPieces (Stream.completeLines s.lineBuf).2).2 = []
    · rw [if_neg (fun h => h.2 hrest), if_pos hfinal, if_neg (fun h => h.2 hrest), hrest]
      simp
    · rw [if_pos ⟨hfinal, hrest⟩, if_pos hfinal, if_pos ⟨hfinal, hrest⟩]
      simp
  · rw [if_neg (fun h => hfinal h.1), if_neg hfinal, if_neg (fun h => hfinal h.1)]
    simp

/-- What is read goes on from where the last read ended. -/
theorem readNew_spec (i remaining : Nat) (s : Stream) (hholds : ∀ i, holds i <+: next) (hoffset : s.offset ≤ next.length) :
    ∃ chunk, Stream.readNew holds i remaining s = { s with offset := s.offset + chunk.length, lineBuf := s.lineBuf ++ chunk } ∧
      next.take s.offset ++ chunk <+: next := by
  induction i, remaining, s using Stream.readNew.induct holds with
  | case1 i remaining s hnone =>
    refine ⟨[], ?_, ?_⟩
    · rw [Stream.readNew, dif_pos hnone]
      simp
    · rw [List.append_nil]
      exact List.take_prefix _ _
  | case2 i remaining s hsome chunk ih =>
    have hfirst : next.take s.offset ++ chunk <+: next := by
      obtain ⟨later, hlater⟩ := hholds i
      have hlength : s.offset ≤ (holds i).length := by
        by_contra hshort
        rw [List.drop_eq_nil_of_le (by omega), List.take_nil] at hsome
        exact hsome rfl
      have htake : next.take s.offset = (holds i).take s.offset := by
        rw [← hlater, List.take_append_of_le_length hlength]
      rw [htake]
      refine List.IsPrefix.trans ?_ (hholds i)
      conv_rhs => rw [← List.take_append_drop s.offset (holds i)]
      exact (List.prefix_append_right_inj _).mpr (List.take_prefix _ _)
    have hnow : (next.take s.offset ++ chunk).length = s.offset + chunk.length := by
      rw [List.length_append, List.length_take, Nat.min_eq_left hoffset]
    have hfits : s.offset + chunk.length ≤ next.length := by
      rw [← hnow]
      exact hfirst.length_le
    obtain ⟨more, hmore, hrest⟩ := ih hfits
    refine ⟨chunk ++ more, ?_, ?_⟩
    · rw [Stream.readNew, dif_neg hsome]
      refine hmore.trans ?_
      simp [Nat.add_assoc]
    · dsimp only at hrest
      rw [← hnow, ← List.prefix_iff_eq_take.mp hfirst, List.append_assoc] at hrest
      exact hrest

/-- When there is not too much of it, all of a file is read that does not grow. -/
theorem readNew_all (i remaining : Nat) (s : Stream) (hfew : whole.length ≤ s.offset + remaining) :
    whole.length ≤ (Stream.readNew (fun _ => whole) i remaining s).offset := by
  induction i, remaining, s using Stream.readNew.induct (fun _ => whole) with
  | case1 i remaining s hnone =>
    rw [Stream.readNew, dif_pos hnone]
    have hempty := congrArg List.length hnone
    rw [List.length_take, List.length_drop, List.length_nil] at hempty
    unfold readBytes at hempty
    omega
  | case2 i remaining s hsome chunk ih =>
    rw [Stream.readNew, dif_neg hsome]
    refine ih ?_
    dsimp only
    omega

/-! ### All drains -/

/-- What has been sent and kept is what the text that has been read gives. -/
structure Reads (seen : Bytes) (s : Stream) : Prop where
  fits : s.offset ≤ seen.length
  sent : s.sent = (split (seen.take s.offset)).1.map emit
  rest : s.lineBuf = (split (seen.take s.offset)).2

theorem Reads.grow (h : Reads seen s) (hseen : seen <+: next) : Reads next s := by
  obtain ⟨more, rfl⟩ := hseen
  have htake : (seen ++ more).take s.offset = seen.take s.offset := List.take_append_of_le_length h.fits
  constructor
  · rw [List.length_append]
    exact Nat.le_add_right_of_le h.fits
  · rw [htake]
    exact h.sent
  · rw [htake]
    exact h.rest

theorem reads_start {size : Option Nat} (hsize : ∀ n ∈ size, n ≤ sseInitialTailBytes) : Reads [] (start size) := by
  have hstart : start size = {} := by
    cases size with
    | none => rfl
    | some n => exact if_neg (Nat.not_lt.mpr (hsize n rfl))
  have hnothing : split [] = ([], []) := by
    rw [split_feed]
    rfl
  rw [hstart]
  constructor
  · exact Nat.zero_le _
  · rw [List.take_nil, hnothing]
    rfl
  · rw [List.take_nil, hnothing]

/-- A file that has not shrunk and has not grown too much is read from where the last
drain ended. -/
theorem follow_eq {size : Option Nat} (hsize : ∀ n ∈ size, s.offset ≤ n ∧ n ≤ s.offset + sseInitialTailBytes) :
    s.follow size = s := by
  cases size with
  | none => rfl
  | some n =>
    have hgrown := hsize n rfl
    change (if n < s.offset then _ else _) = _
    rw [if_neg (by omega), if_neg (by omega)]

/-- What a drain reads is split as if it had been there when the last one came. -/
theorem drain_spec (final : Bool) (size : Option Nat) (hs : Reads next s) (hholds : ∀ i, holds i <+: next)
    (hsize : ∀ n ∈ size, s.offset ≤ n ∧ n ≤ s.offset + sseInitialTailBytes) :
    ∃ later, later = (Stream.readNew holds 0 sseReadPerDrain s).offset ∧ later ≤ next.length ∧
      s.drain final (.file size holds) =
        { offset := later, lineBuf := if final then [] else (split (next.take later)).2,
          sent := ((split (next.take later)).1 ++
            (if final ∧ (split (next.take later)).2 ≠ [] then [(split (next.take later)).2] else [])).map emit } := by
  obtain ⟨chunk, hread, hfirst⟩ := readNew_spec 0 sseReadPerDrain s hholds hs.fits
  have hnow : (next.take s.offset ++ chunk).length = s.offset + chunk.length := by
    rw [List.length_append, List.length_take, Nat.min_eq_left hs.fits]
  have htake : next.take (s.offset + chunk.length) = next.take s.offset ++ chunk := by
    rw [← hnow, ← List.prefix_iff_eq_take.mp hfirst]
  have hsplit : split (next.take s.offset ++ chunk) =
      ((split (next.take s.offset)).1 ++ (split (s.lineBuf ++ chunk)).1, (split (s.lineBuf ++ chunk)).2) := by
    rw [hs.rest]
    simp only [split_feed]
    rw [Lines.feed_append, Lines.feed_again chunk_pos]
  refine ⟨s.offset + chunk.length, by rw [hread], ?_, ?_⟩
  · rw [← hnow]
    exact hfirst.length_le
  · change Stream.sendLines final (Stream.readNew holds 0 sseReadPerDrain (s.follow size)) = _
    rw [follow_eq hsize, hread, sendLines_eq, htake, hsplit]
    dsimp only
    rw [hs.sent, List.append_assoc, List.map_append, List.map_append, List.map_append]

/-- The looks at an append-only log, of which `seen` has been there already: no drain finds
more new bytes than it can read. A file that cannot be opened is left for the next drain. -/
inductive Appended : Stream → Bytes → List Look → Bytes → Prop where
  | nil {s : Stream} {seen : Bytes} : Appended s seen [] seen
  | missing {s : Stream} {seen later : Bytes} {looks : List Look} : Appended s seen looks later → Appended s seen (.missing :: looks) later
  | file {s : Stream} {seen next later : Bytes} {size : Option Nat} {holds : Nat → Bytes} {looks : List Look} :
      (∀ i, seen <+: holds i ∧ holds i <+: next) → (∀ n ∈ size, seen.length ≤ n ∧ n ≤ next.length) →
      seen <+: next → next.length ≤ s.offset + sseInitialTailBytes →
      Appended (s.drain false (.file size holds)) next looks later → Appended s seen (.file size holds :: looks) later

/-- What the last drain finds of a log that is complete. -/
def Look.Complete (whole : Bytes) : Look → Prop
  | .missing => whole = []
  | .file size holds => (∀ n ∈ size, n = whole.length) ∧ ∀ i, holds i = whole

theorem reads_drains {looks : List Look} {later : Bytes} (hs : Reads seen s) (hlooks : Appended s seen looks later) :
    Reads later (looks.foldl (Stream.drain false) s) := by
  induction hlooks with
  | nil => exact hs
  | missing _ ih => exact ih hs
  | @file s seen next later size holds looks hholds hsize hseen hfew _ ih =>
    have hgrown := hs.grow hseen
    obtain ⟨offset, -, hfits, hdrain⟩ := drain_spec false size hgrown (fun i => (hholds i).2) (by
      intro n hn
      have hn := hsize n hn
      have hoffset := hs.fits
      omega)
    refine ih ?_
    rw [hdrain]
    constructor
    · exact hfits
    · simp
    · rfl

/-- The lines that are sent are those of the whole log, cut into pieces, however the log has
come in and been read. -/
theorem streamLog_lines (size : Option Nat) (looks : List Look) (last : Look) (seen whole : Bytes)
    (hsize : ∀ n ∈ size, n ≤ sseInitialTailBytes) (hlooks : Appended (start size) [] looks seen) (hseen : seen <+: whole)
    (hfew : whole.length ≤ (looks.foldl (Stream.drain false) (start size)).offset + sseInitialTailBytes)
    (hlast : Look.Complete whole last) :
    streamLog size looks last = (Lines.cut sseLineChunkBytes newline whole).map emit ++ [.done] := by
  have hs := (reads_drains (reads_start hsize) hlooks).grow hseen
  unfold streamLog
  generalize looks.foldl (Stream.drain false) (start size) = s at hs hfew
  cases last with
  | missing =>
    cases hlast
    have hsent := hs.sent
    rw [List.take_nil, split_feed] at hsent
    change s.sent ++ [.done] = _
    rw [hsent, Lines.feed_cut chunk_pos]
    rfl
  | file size holds =>
    obtain ⟨hsame, hholds⟩ := hlast
    obtain rfl : holds = fun _ => whole := funext hholds
    obtain ⟨offset, hoffset, hfits, hdrain⟩ := drain_spec true size hs (fun _ => List.prefix_refl whole) (by
      intro n hn
      have hoffset := hs.fits
      rw [hsame n hn]
      omega)
    have hall := readNew_all 0 sseReadPerDrain s hfew
    have htake : whole.take offset = whole := by
      rw [List.take_of_length_le (by omega)]
    rw [hdrain, htake, Lines.feed_cut chunk_pos, split_feed]
    dsimp only
    simp only [true_and, ite_not]

/-- The log is not there at first. The second line has not ended when the task does. -/
theorem streamLog_lines_example :
    streamLog none [.missing, .file (some 2) (fun _ => [97, 98])] (.file (some 5) (fun _ => [97, 98, 10, 99, 13])) =
      (Lines.cut sseLineChunkBytes newline [97, 98, 10, 99, 13]).map emit ++ [.done] :=
  streamLog_lines none _ _ [97, 98] [97, 98, 10, 99, 13] (by intro n hn; cases hn)
    (.missing (.file (fun _ => ⟨List.nil_prefix, List.prefix_refl _⟩) (by decide) List.nil_prefix (by decide) .nil))
    (by decide) (Nat.le_trans (by decide : 5 ≤ sseInitialTailBytes) (Nat.le_add_left _ _)) ⟨by decide, fun _ => rfl⟩

end Cronova.Properties.LogStream
