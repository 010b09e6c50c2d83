import Mathlib.Data.List.Basic

/-! Text in lines, and long lines in pieces: cut when all of it is there, or element by
element as it comes in. -/
namespace Cronova.Text.Lines

section Pieces
variable {α : Type*} {k : Nat} {line : List α}

/-- A line in pieces of `k` elements, of which the last may be shorter. The empty line is
one piece. -/
def pieces (k : Nat) (line : List α) : List (List α) :=
  (List.range (max 1 ((line.length + k - 1) / k))).map (fun i => (line.drop (i * k)).take k)

theorem pieces_fits (hlength : line.length ≤ k) (hk : 0 < k) : pieces k line = [line] := by
  have hone : max 1 ((line.length + k - 1) / k) = 1 := by
    have hless : (line.length + k - 1) / k < 2 := (Nat.div_lt_iff_lt_mul hk).mpr (by omega)
    omega
  unfold pieces
  rw [hone, List.range_one, List.map_singleton, Nat.zero_mul, List.drop_zero, List.take_of_length_le hlength]

theorem pieces_long (hlong : k < line.length) (hk : 0 < k) : pieces k line = line.take k :: pieces k (line.drop k) := by
  have hcount : max 1 ((line.length + k - 1) / k) = max 1 (((line.drop k).length + k - 1) / k) + 1 := by
    have hfull : line.length + k - 1 = line.length - 1 + k := by omega
    have hdrop : (line.drop k).length + k - 1 = line.length - 1 := by
      rw [List.length_drop]
      omega
    have hsome : 1 ≤ (line.length - 1) / k := (Nat.one_le_div_iff hk).mpr (by omega)
    rw [hfull, hdrop, Nat.add_div_right _ hk]
    omega
  have hnext : ∀ i, (line.drop ((i + 1) * k)).take k = ((line.drop k).drop (i * k)).take k := by
    intro i
    rw [List.drop_drop, Nat.succ_mul, Nat.add_comm]
  unfold pieces
  rw [hcount, List.range_succ_eq_map, List.map_cons, List.map_map, Nat.zero_mul, List.drop_zero]
  exact congrArg (line.take k :: ·) (List.map_congr_left (fun i _ => hnext i))

end Pieces

section Cut
variable {α : Type*} [DecidableEq α] (k : Nat) (nl : α)

/-- The pieces of every line that has an end, and of what is behind the last of them. -/
def cut (text : List α) : List (List α) :=
  let lines := text.splitOn nl
  lines.dropLast.flatMap (pieces k) ++ (if lines.getLastD [] = [] then [] else pieces k (lines.getLastD []))

/-- One element after the other. `cur` is the piece that is being filled; a full one is given
out when there is more of its line. The last piece is returned as well. -/
def feed : List α → List α → List (List α) × List α
  | cur, [] => ([], cur)
  | cur, b :: bs =>
    if b = nl then (cur :: (feed [] bs).1, (feed [] bs).2)
    else if cur.length = k then (cur :: (feed [b] bs).1, (feed [b] bs).2)
    else feed (cur ++ [b]) bs

/-- What comes in later goes on from the piece that is being filled. -/
theorem feed_append (cur a b : List α) :
    feed k nl cur (a ++ b) = ((feed k nl cur a).1 ++ (feed k nl (feed k nl cur a).2 b).1, (feed k nl (feed k nl cur a).2 b).2) := by
  induction a generalizing cur with
  | nil => rfl
  | cons c a ih =>
    simp only [List.cons_append, feed]
    split
    · rw [ih]
      rfl
    · split
      · rw [ih]
        rfl
      · exact ih _

variable {k} {nl} {cur line rest text : List α}

theorem feed_fits (hline : nl ∉ line) (hlength : cur.length + line.length ≤ k) : feed k nl cur line = ([], cur ++ line) := by
  induction line generalizing cur with
  | nil => rw [List.append_nil]; rfl
  | cons b line ih =>
    rw [List.mem_cons, not_or] at hline
    rw [List.length_cons] at hlength
    unfold feed
    rw [if_neg (Ne.symm hline.1), if_neg (by omega), ih hline.2 (by rw [List.length_append, List.length_singleton]; omega),
      List.append_assoc, List.singleton_append]

/-- The piece that is being filled has no newline, and is not too long. -/
theorem feed_filling (hk : 0 < k) (hcur : nl ∉ cur) (hlength : cur.length ≤ k) :
    nl ∉ (feed k nl cur text).2 ∧ (feed k nl cur text).2.length ≤ k := by
  induction text generalizing cur with
  | nil => exact ⟨hcur, hlength⟩
  | cons b text ih =>
    unfold feed
    split
    · exact ih List.not_mem_nil (Nat.zero_le k)
    · rename_i hb
      split
      · exact ih (fun h => hb (List.mem_singleton.mp h).symm) hk
      · rename_i hroom
        refine ih ?_ ?_
        · rw [List.mem_append, List.mem_singleton, not_or]
          exact ⟨hcur, Ne.symm hb⟩
        · rw [List.length_append, List.length_singleton]
          omega

/-- A piece that is being filled is what comes of it. -/
theorem feed_again (hk : 0 < k) (text more : List α) :
    feed k nl [] ((feed k nl [] text).2 ++ more) = feed k nl (feed k nl [] text).2 more := by
  obtain ⟨hnl, hlength⟩ : nl ∉ (feed k nl [] text).2 ∧ (feed k nl [] text).2.length ≤ k :=
    feed_filling hk List.not_mem_nil (Nat.zero_le k)
  rw [feed_append, feed_fits hnl (by rw [List.length_nil]; omega)]
  rfl

/-- The first piece of a long line is full. -/
theorem feed_long (hk : 0 < k) (hline : nl ∉ line) (hlong : k < line.length) :
    feed k nl [] line = (line.take k :: (feed k nl [] (line.drop k)).1, (feed k nl [] (line.drop k)).2) := by
  have hfront : feed k nl [] (line.take k) = ([], line.take k) :=
    feed_fits (fun h => hline (List.mem_of_mem_take h)) (by rw [List.length_nil, List.length_take]; omega)
  have hfull : (line.take k).length = k := by
    rw [List.length_take]
    omega
  obtain ⟨b, bs, hback⟩ := List.exists_cons_of_length_pos (l := line.drop k) (by rw [List.length_drop]; omega)
  have hb : b ≠ nl := by
    rintro rfl
    exact hline (List.mem_of_mem_drop (hback ▸ List.mem_cons_self))
  conv_lhs => rw [← List.take_append_drop k line]
  rw [feed_append, hfront, hback]
  simp only [feed, hfull, if_neg hb, if_true, List.length_nil, List.nil_append]
  rw [if_neg (by omega)]

/-- A line ends, and the next one starts with nothing. -/
theorem feed_line (line rest : List α) : feed k nl [] (line ++ nl :: rest) =
    ((feed k nl [] line).1 ++ (feed k nl [] line).2 :: (feed k nl [] rest).1, (feed k nl [] rest).2) := by
  rw [feed_append]
  simp only [feed, if_true]

theorem feed_nonempty (hline : nl ∉ line) (hne : cur ≠ [] ∨ line ≠ []) : (feed k nl cur line).2 ≠ [] := by
  induction line generalizing cur with
  | nil => exact hne.resolve_right (fun h => h rfl)
  | cons b line ih =>
    rw [List.mem_cons, not_or] at hline
    unfold feed
    rw [if_neg (Ne.symm hline.1)]
    split
    · exact ih hline.2 (.inl (List.cons_ne_nil _ _))
    · exact ih hline.2 (.inl (by simp))

/-! ### Both ways agree -/

/-- Within a line. -/
theorem feed_pieces (hk : 0 < k) (hline : nl ∉ line) : (feed k nl [] line).1 ++ [(feed k nl [] line).2] = pieces k line := by
  induction hn : line.length using Nat.strongRecOn generalizing line with
  | ind n ih =>
    by_cases hlong : k < line.length
    · have hback := ih (line.drop k).length (by rw [List.length_drop]; omega) (fun h => hline (List.mem_of_mem_drop h)) rfl
      rw [feed_long hk hline hlong, pieces_long hlong hk, ← hback]
      rfl
    · rw [feed_fits hline (by rw [List.length_nil]; omega), pieces_fits (by omega) hk]
      rfl

/-- Across the lines. -/
theorem feed_cut (hk : 0 < k) (text : List α) :
    cut k nl text = (feed k nl [] text).1 ++ (if (feed k nl [] text).2 = [] then [] else [(feed k nl [] text).2]) := by
  induction hn : text.length using Nat.strongRecOn generalizing text with
  | ind n ih =>
    by_cases hmem : nl ∈ text
    · obtain ⟨line, rest, rfl, hline⟩ := List.eq_append_cons_of_mem hmem
      have hlines := List.splitOn_append_cons_self_of_not_mem hline rest
      have hback := ih rest.length (by simp at hn; omega) rest rfl
      obtain ⟨l, ls, hrest⟩ := List.exists_cons_of_ne_nil (List.splitOn_ne_nil nl rest)
      unfold cut at hback ⊢
      rw [hrest] at hback hlines
      rw [hlines, feed_line]
      dsimp only at hback ⊢
      rw [List.dropLast_cons_cons, List.flatMap_cons, ← feed_pieces hk hline]
      simp only [List.append_assoc, List.cons_append, List.nil_append]
      rw [← hback]
      rfl
    · have hpieces := feed_pieces hk hmem
      unfold cut
      rw [List.splitOn_eq_singleton hmem]
      change ([] : List (List α)) ++ (if text = [] then [] else pieces k text) = _
      by_cases hempty : text = []
      · subst hempty
        rfl
      · rw [if_neg hempty, if_neg (feed_nonempty hmem (.inr hempty)), hpieces, List.nil_append]

example : cut 2 '/' "abcd//efg".toList = ["ab".toList, "cd".toList, [], "ef".toList, "g".toList] := by decide

end Cut

end Cronova.Text.Lines
