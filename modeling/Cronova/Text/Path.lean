import Mathlib.Data.List.Infix
import Mathlib.Logic.Function.Iterate

/-! Slash-separated paths: the places they denote in a tree of directories, and the lexical
operations on them. -/
namespace Cronova.Text.Path

/-- What can be the name of a directory entry. -/
def Proper (part : List Char) : Prop :=
  part ≠ [] ∧ part ≠ ['.'] ∧ part ≠ ['.', '.'] ∧ '/' ∉ part

instance : DecidablePred Proper := fun part =>
  inferInstanceAs (Decidable (part ≠ [] ∧ part ≠ ['.'] ∧ part ≠ ['.', '.'] ∧ '/' ∉ part))

abbrev Name := { part : List Char // Proper part }

/-- The names on the way from the root, or from some directory. -/
abbrev Place := List Name

def isAbs (p : List Char) : Bool := p.head? = some '/'

/-- Where one part of a path leads to from a directory. -/
def enter (place : Place) (part : List Char) : Place :=
  if h : Proper part then place ++ [⟨part, h⟩] else if part = ['.', '.'] then place.dropLast else place

/-- The place that a path denotes. -/
def resolve (cwd : Place) (p : List Char) : Place :=
  (p.splitOn '/').foldl enter (if isAbs p then [] else cwd)

/-- The relative path down to a place. -/
def spell (place : Place) : List Char := List.intercalate ['/'] (place.map Subtype.val)

/-! ### Reduced paths -/

/-- Where a path starts: at the root, or some directories above the working directory. -/
inductive Start where
  | root
  | above (n : Nat)
deriving DecidableEq

def Start.up : Start → Start
  | root => root
  | above n => above (n + 1)

def Start.place (cwd : Place) : Start → Place
  | root => []
  | above n => List.dropLast^[n] cwd

def Start.parts : Start → List (List Char)
  | root => []
  | above n => List.replicate n ['.', '.']

/-- A path of which nothing can be left out. -/
structure Reduced where
  start : Start
  down : Place

namespace Reduced

def add (r : Reduced) (part : List Char) : Reduced :=
  if h : Proper part then { r with down := r.down ++ [⟨part, h⟩] }
  else if part = ['.', '.'] then
    if r.down = [] then { r with start := r.start.up } else { r with down := r.down.dropLast }
  else r

def place (cwd : Place) (r : Reduced) : Place := r.start.place cwd ++ r.down

def parts (r : Reduced) : List (List Char) := r.start.parts ++ r.down.map Subtype.val

def text (r : Reduced) : List Char :=
  (if r.start = .root then ['/'] else []) ++ List.intercalate ['/'] r.parts

end Reduced

def reduce (p : List Char) : Reduced :=
  (p.splitOn '/').foldl Reduced.add ⟨if isAbs p then .root else .above 0, []⟩

/-- The shortest path to the same place. -/
def clean (p : List Char) : List Char :=
  if (reduce p).text = [] then ['.'] else (reduce p).text

/-- Two paths as one, cleaned. An empty path does not count. -/
def join (a b : List Char) : List Char :=
  if a ≠ [] then clean (a ++ '/' :: b) else if b ≠ [] then clean b else []

/-- All but the last element, cleaned. -/
def dir (p : List Char) : List Char := clean (p.reverse.dropWhile (· ≠ '/')).reverse

/-- The last element. -/
def base (p : List Char) : List Char :=
  if p = [] then ['.'] else
    let last := ((p.reverse.dropWhile (· = '/')).takeWhile (· ≠ '/')).reverse
    if last = [] then ['/'] else last

/-- The last element from its last dot on. -/
def ext (p : List Char) : List Char :=
  let last := p.reverse.takeWhile (· ≠ '/')
  if '.' ∈ last then '.' :: (last.takeWhile (· ≠ '.')).reverse else []

/-- What is left of two lists behind what they start with in common. -/
def dropShared {α : Type*} [DecidableEq α] : List α → List α → List α × List α
  | a :: as, b :: bs => if a = b then dropShared as bs else (a :: as, b :: bs)
  | as, bs => (as, bs)

/-- The parts of a path from `base` to `targ`, if this is known without the working directory. -/
def rel (base targ : List Char) : Option (List (List Char)) :=
  let b := reduce base
  let t := reduce targ
  if (b.start = .root) ≠ (t.start = .root) then none
  else
    let rest := dropShared b.parts t.parts
    if rest.1.head? = some ['.', '.'] then none else some (List.replicate rest.1.length ['.', '.'] ++ rest.2)

/-! ### What paths denote -/

variable {cwd place : Place} {a b p part s : List Char} {r : Reduced} {start : Start} {n : Name}

theorem mem_of_mem_splitOn {c : Char} (h : part ∈ p.splitOn '/') (hc : c ∈ part) : c ∈ p := by
  induction p generalizing part with
  | nil =>
    rw [List.splitOn_nil, List.mem_singleton] at h
    rw [h] at hc
    exact hc
  | cons d p ih =>
    rw [List.splitOn_cons_eq_if_modifyHead] at h
    obtain ⟨t, ts, hts⟩ := List.exists_cons_of_ne_nil (List.splitOn_ne_nil '/' p)
    rw [hts] at h ih
    split at h
    · rcases List.mem_cons.mp h with rfl | h
      · exact absurd hc List.not_mem_nil
      · exact List.mem_cons_of_mem d (ih h hc)
    · rw [List.modifyHead_cons, List.mem_cons] at h
      rcases h with rfl | h
      · rcases List.mem_cons.mp hc with rfl | hc
        · exact List.mem_cons_self
        · exact List.mem_cons_of_mem d (ih List.mem_cons_self hc)
      · exact List.mem_cons_of_mem d (ih (List.mem_cons_of_mem t h) hc)

theorem splitOn_append (a b : List Char) : (a ++ '/' :: b).splitOn '/' = a.splitOn '/' ++ b.splitOn '/' :=
  List.splitOn_append_cons_self a b

theorem place_up : start.up.place cwd = (start.place cwd).dropLast := by
  cases start with
  | root => rfl
  | above n => exact Function.iterate_succ_apply' _ _ _

/-- One more part leads on from the place that the path denotes. -/
theorem place_add (r : Reduced) (part : List Char) : (r.add part).place cwd = enter (r.place cwd) part := by
  unfold Reduced.add enter
  split
  · exact (List.append_assoc _ _ _).symm
  · split
    · split
      · rename_i hdown
        unfold Reduced.place
        rw [hdown, List.append_nil, List.append_nil, place_up]
      · rename_i hdown
        exact (List.dropLast_append_of_ne_nil hdown).symm
    · rfl

theorem resolve_reduce (cwd : Place) (p : List Char) : resolve cwd p = (reduce p).place cwd := by
  have hfold : ∀ (parts : List (List Char)) (r : Reduced),
      (parts.foldl Reduced.add r).place cwd = parts.foldl enter (r.place cwd) := by
    intro parts
    induction parts with
    | nil => exact fun _ => rfl
    | cons part parts ih =>
      intro r
      rw [List.foldl_cons, List.foldl_cons, ih, place_add]
  unfold resolve reduce
  rw [hfold]
  unfold Reduced.place
  split
  · rfl
  · rw [List.append_nil]
    rfl

/-! ### Reduced paths as text -/

theorem foldl_names (r : Reduced) (names : Place) :
    (names.map Subtype.val).foldl Reduced.add r = { r with down := r.down ++ names } := by
  induction names generalizing r with
  | nil => rw [List.append_nil]; rfl
  | cons n names ih =>
    rw [List.map_cons, List.foldl_cons, ih]
    unfold Reduced.add
    rw [dif_pos n.property, List.append_assoc]
    rfl

theorem foldl_dots (m n : Nat) : (List.replicate n ['.', '.']).foldl Reduced.add ⟨.above m, []⟩ = ⟨.above (m + n), []⟩ := by
  induction n generalizing m with
  | zero => rfl
  | succ n ih =>
    have hup : Reduced.add ⟨.above m, []⟩ ['.', '.'] = ⟨.above (m + 1), []⟩ := rfl
    rw [List.replicate_succ, List.foldl_cons, hup, ih, Nat.add_assoc, Nat.add_comm 1 n]

theorem foldl_parts (r : Reduced) : r.parts.foldl Reduced.add ⟨if r.start = .root then .root else .above 0, []⟩ = r := by
  unfold Reduced.parts
  rw [List.foldl_append]
  obtain ⟨start, down⟩ := r
  cases start with
  | root => exact foldl_names _ _
  | above n =>
    change (down.map Subtype.val).foldl Reduced.add ((List.replicate n ['.', '.']).foldl Reduced.add ⟨.above 0, []⟩) = _
    rw [foldl_dots, foldl_names, Nat.zero_add]
    rfl

theorem mem_parts (h : part ∈ r.parts) : part ≠ [] ∧ '/' ∉ part := by
  unfold Reduced.parts at h
  rw [List.mem_append] at h
  rcases h with h | h
  · cases hstart : r.start with
    | root =>
      rw [hstart] at h
      exact absurd h List.not_mem_nil
    | above n =>
      rw [hstart] at h
      rw [List.eq_of_mem_replicate h]
      decide
  · obtain ⟨n, -, rfl⟩ := List.mem_map.mp h
    exact ⟨n.property.1, n.property.2.2.2⟩

theorem splitOn_parts (h : r.parts ≠ []) : (List.intercalate ['/'] r.parts).splitOn '/' = r.parts :=
  List.splitOn_intercalate '/' (fun _ hpart => (mem_parts hpart).2) h

theorem isAbs_parts (r : Reduced) : isAbs (List.intercalate ['/'] r.parts) = false := by
  have hmem : ∀ part ∈ r.parts, part ≠ [] ∧ '/' ∉ part := fun _ => mem_parts
  cases hparts : r.parts with
  | nil => rfl
  | cons part parts =>
    rw [hparts] at hmem
    obtain ⟨hne, hslash⟩ := hmem part List.mem_cons_self
    obtain ⟨c, cs, rfl⟩ := List.exists_cons_of_ne_nil hne
    have hc : c ≠ '/' := fun h => hslash (h ▸ List.mem_cons_self)
    cases parts <;> exact decide_eq_false (fun h => hc (Option.some.inj h))

theorem parts_eq_nil (hstart : r.start ≠ .root) (h : r.text = []) : r.parts = [] := by
  unfold Reduced.text at h
  rw [if_neg hstart, List.nil_append] at h
  by_contra hparts
  have hsplit := splitOn_parts hparts
  rw [h, List.splitOn_nil] at hsplit
  have hmem : [] ∈ r.parts := hsplit ▸ List.mem_singleton_self []
  exact (mem_parts hmem).1 rfl

theorem reduce_text (r : Reduced) : reduce (if r.text = [] then ['.'] else r.text) = r := by
  have hfold := foldl_parts r
  by_cases hstart : r.start = .root
  · rw [if_pos hstart] at hfold
    have htext : r.text = [] ++ '/' :: List.intercalate ['/'] r.parts := by
      unfold Reduced.text
      rw [if_pos hstart]
      rfl
    rw [if_neg (by rw [htext]; exact List.cons_ne_nil _ _)]
    unfold reduce
    rw [htext, splitOn_append, List.foldl_append]
    change ((List.intercalate ['/'] r.parts).splitOn '/').foldl Reduced.add ⟨.root, []⟩ = r
    by_cases hparts : r.parts = []
    · rw [hparts] at hfold ⊢
      exact hfold
    · rw [splitOn_parts hparts]
      exact hfold
  · rw [if_neg hstart] at hfold
    by_cases htext : r.text = []
    · rw [parts_eq_nil hstart htext] at hfold
      rw [if_pos htext]
      exact hfold
    · rw [if_neg htext]
      unfold Reduced.text at htext ⊢
      rw [if_neg hstart, List.nil_append] at htext ⊢
      unfold reduce
      rw [isAbs_parts, splitOn_parts (fun hparts => htext (by rw [hparts]; rfl))]
      exact hfold

@[simp] theorem reduce_clean (p : List Char) : reduce (clean p) = reduce p := reduce_text (reduce p)

theorem clean_ne_nil (p : List Char) : clean p ≠ [] := by
  unfold clean
  split
  · exact List.cons_ne_nil _ _
  · assumption

/-- Cleaning a path leaves what it denotes. -/
theorem resolve_clean (cwd : Place) (p : List Char) : resolve cwd (clean p) = resolve cwd p := by
  rw [resolve_reduce, resolve_reduce, reduce_clean]

theorem reduce_append (ha : a ≠ []) (b : List Char) : reduce (a ++ '/' :: b) = (b.splitOn '/').foldl Reduced.add (reduce a) := by
  have habs : isAbs (a ++ '/' :: b) = isAbs a := by
    obtain ⟨c, cs, rfl⟩ := List.exists_cons_of_ne_nil ha
    rfl
  unfold reduce
  rw [habs, splitOn_append, List.foldl_append]

/-- The names that lead down are parts of the path. -/
theorem mem_down (h : n ∈ (reduce p).down) : n.val ∈ p.splitOn '/' := by
  have hfold : ∀ (parts : List (List Char)) (r : Reduced), n ∈ (parts.foldl Reduced.add r).down → n ∈ r.down ∨ n.val ∈ parts := by
    intro parts
    induction parts with
    | nil => exact fun _ h => .inl h
    | cons part parts ih =>
      intro r hmem
      rcases ih _ hmem with hadd | hpart
      · unfold Reduced.add at hadd
        split at hadd
        · rcases List.mem_append.mp hadd with hdown | hnew
          · exact .inl hdown
          · rw [List.mem_singleton.mp hnew]
            exact .inr List.mem_cons_self
        · split at hadd
          · split at hadd
            · exact .inl hadd
            · exact .inl (List.mem_of_mem_dropLast hadd)
          · exact .inl hadd
      · exact .inr (List.mem_cons_of_mem _ hpart)
  unfold reduce at h
  rcases hfold _ _ h with hnil | hpart
  · exact absurd hnil List.not_mem_nil
  · exact hpart

/-! ### Places spelled as paths -/

theorem splitOn_spell (h : place ≠ []) : (spell place).splitOn '/' = place.map Subtype.val := by
  have hparts : (⟨.above 0, place⟩ : Reduced).parts ≠ [] := fun hnil => h (List.map_eq_nil_iff.mp hnil)
  exact splitOn_parts hparts

theorem reduce_spell (place : Place) : reduce (spell place) = ⟨.above 0, place⟩ := by
  by_cases hplace : place = []
  · rw [hplace]
    rfl
  · unfold reduce
    rw [splitOn_spell hplace, show isAbs (spell place) = false from isAbs_parts ⟨.above 0, place⟩]
    exact foldl_names _ _

theorem spell_eq_nil : spell place = [] ↔ place = [] := by
  constructor
  · intro h
    have hreduce := reduce_spell place
    rw [h] at hreduce
    exact (congrArg Reduced.down hreduce).symm
  · intro h
    rw [h]
    rfl

theorem reduce_join_spell (root : List Char) (place : Place) :
    reduce (join root (spell place)) = { reduce root with down := (reduce root).down ++ place } := by
  unfold join
  split
  · rename_i hroot
    rw [reduce_clean, reduce_append hroot]
    by_cases hplace : place = []
    · rw [hplace, List.append_nil]
      rfl
    · rw [splitOn_spell hplace, foldl_names]
  · rename_i hroot
    rw [not_not.mp hroot]
    split
    · rw [reduce_clean, reduce_spell]
      rfl
    · rename_i hspell
      rw [spell_eq_nil.mp (not_not.mp hspell)]
      rfl

/-- A path down from a directory stays below it. -/
theorem resolve_join (cwd : Place) (root : List Char) (place : Place) :
    resolve cwd (join root (spell place)) = resolve cwd root ++ place := by
  rw [resolve_reduce, resolve_reduce, reduce_join_spell]
  exact (List.append_assoc _ _ _).symm

/-! ### The last element -/

theorem intercalate_snoc {parts : List (List Char)} (hparts : parts ≠ []) (s : List Char) :
    List.intercalate ['/'] (parts ++ [s]) = List.intercalate ['/'] parts ++ '/' :: s := by
  induction parts with
  | nil => exact absurd rfl hparts
  | cons part parts ih =>
    cases parts with
    | nil => simp
    | cons next parts =>
      rw [List.cons_append, List.cons_append, List.intercalate_cons_cons, ← List.cons_append, ih (List.cons_ne_nil _ _),
        List.intercalate_cons_cons, List.append_assoc _ _ ('/' :: s)]

/-- A path up to its last name ends with a slash, and is the path of the directory. -/
theorem text_snoc (start : Start) (place : Place) (n : Name) : ∃ lead, (⟨start, place ++ [n]⟩ : Reduced).text = lead ++ n.val ∧
    (lead = [] ∨ ∃ a, lead = a ++ ['/']) ∧ reduce lead = ⟨start, place⟩ := by
  have hsnoc : (⟨start, place ++ [n]⟩ : Reduced).parts = (⟨start, place⟩ : Reduced).parts ++ [n.val] := by
    unfold Reduced.parts
    rw [List.map_append, List.map_singleton, List.append_assoc]
  have hread := reduce_text ⟨start, place⟩
  by_cases hparts : (⟨start, place⟩ : Reduced).parts = []
  · have hname : (⟨start, place ++ [n]⟩ : Reduced).text = (⟨start, place⟩ : Reduced).text ++ n.val := by
      unfold Reduced.text
      rw [hsnoc, hparts, List.nil_append, List.intercalate_singleton, List.intercalate_nil, List.append_nil]
    cases start with
    | root =>
      have htext : (⟨.root, place⟩ : Reduced).text = ['/'] := by
        unfold Reduced.text
        rw [hparts]
        rfl
      rw [htext] at hread hname
      exact ⟨['/'], hname, .inr ⟨[], rfl⟩, hread⟩
    | above k =>
      have htext : (⟨.above k, place⟩ : Reduced).text = [] := by
        unfold Reduced.text
        rw [hparts]
        rfl
      rw [htext] at hread hname
      exact ⟨[], hname, .inl rfl, hread⟩
  · have htext : (⟨start, place⟩ : Reduced).text ≠ [] := by
      intro h
      unfold Reduced.text at h
      rw [List.append_eq_nil_iff] at h
      have hsplit := splitOn_parts hparts
      rw [h.2, List.splitOn_nil] at hsplit
      have hmem : [] ∈ (⟨start, place⟩ : Reduced).parts := hsplit ▸ List.mem_singleton_self []
      exact (mem_parts hmem).1 rfl
    rw [if_neg htext] at hread
    refine ⟨(⟨start, place⟩ : Reduced).text ++ ['/'], ?_, .inr ⟨_, rfl⟩, ?_⟩
    · unfold Reduced.text
      rw [hsnoc, intercalate_snoc hparts, List.append_assoc, List.append_assoc]
      rfl
    · rw [reduce_append htext, hread]
      rfl

theorem dir_append {lead : List Char} (hlead : lead = [] ∨ ∃ a, lead = a ++ ['/']) (hs : '/' ∉ s) : dir (lead ++ s) = clean lead := by
  unfold dir
  rw [List.reverse_append, List.dropWhile_append_of_pos]
  · rcases hlead with rfl | ⟨a, rfl⟩
    · rfl
    · rw [List.reverse_append, List.reverse_singleton, List.singleton_append, List.dropWhile_cons_of_neg (by simp),
        List.reverse_cons, List.reverse_reverse]
  · intro c hc
    rw [decide_eq_true_eq]
    intro h
    exact hs (h ▸ List.mem_reverse.mp hc)

theorem base_append {lead : List Char} (hlead : lead = [] ∨ ∃ a, lead = a ++ ['/']) (hs : '/' ∉ s) (hne : s ≠ []) :
    base (lead ++ s) = s := by
  have hkeep : (lead ++ s).reverse.dropWhile (· = '/') = s.reverse ++ lead.reverse := by
    obtain ⟨c, cs, hlast⟩ := List.exists_cons_of_ne_nil (mt List.reverse_eq_nil_iff.mp hne)
    have hc : c ≠ '/' := by
      intro h
      have hmem : c ∈ s.reverse := hlast ▸ List.mem_cons_self
      exact hs (h ▸ List.mem_reverse.mp hmem)
    rw [List.reverse_append, hlast, List.cons_append, List.dropWhile_cons_of_neg (by rw [decide_eq_true_eq]; exact hc)]
  have hlast : (s.reverse ++ lead.reverse).takeWhile (· ≠ '/') = s.reverse := by
    rw [List.takeWhile_append_of_pos]
    · rcases hlead with rfl | ⟨a, rfl⟩
      · exact List.append_nil _
      · rw [List.reverse_append, List.reverse_singleton, List.singleton_append, List.takeWhile_cons_of_neg (by simp), List.append_nil]
    · intro c hc
      rw [decide_eq_true_eq]
      intro h
      exact hs (h ▸ List.mem_reverse.mp hc)
  unfold base
  rw [if_neg (List.append_ne_nil_of_right_ne_nil _ hne), hkeep, hlast, List.reverse_reverse]
  exact if_neg hne

theorem clean_snoc (h : reduce p = ⟨start, place ++ [n]⟩) :
    ∃ lead, clean p = lead ++ n.val ∧ (lead = [] ∨ ∃ a, lead = a ++ ['/']) ∧ reduce lead = ⟨start, place⟩ := by
  obtain ⟨lead, htext, hlead, hread⟩ := text_snoc start place n
  unfold clean
  rw [h, htext, if_neg (List.append_ne_nil_of_right_ne_nil _ n.property.1)]
  exact ⟨lead, rfl, hlead, hread⟩

theorem join_spell (root : List Char) (h : place ≠ []) : ∃ p, join root (spell place) = clean p := by
  unfold join
  split
  · exact ⟨_, rfl⟩
  · rw [if_pos (fun hnil => h (spell_eq_nil.mp hnil))]
    exact ⟨_, rfl⟩

theorem join_snoc (root : List Char) (place : Place) (n : Name) : ∃ lead, join root (spell (place ++ [n])) = lead ++ n.val ∧
    (lead = [] ∨ ∃ a, lead = a ++ ['/']) ∧ reduce lead = { reduce root with down := (reduce root).down ++ place } := by
  have hreduce := reduce_join_spell root (place ++ [n])
  obtain ⟨p, hp⟩ := join_spell root (List.append_ne_nil_of_right_ne_nil place (List.cons_ne_nil n []))
  rw [hp] at hreduce ⊢
  rw [reduce_clean, ← List.append_assoc] at hreduce
  exact clean_snoc hreduce

theorem resolve_dir_join (cwd : Place) (root : List Char) (place : Place) (n : Name) :
    resolve cwd (dir (join root (spell (place ++ [n])))) = resolve cwd root ++ place := by
  obtain ⟨lead, hjoin, hlead, hread⟩ := join_snoc root place n
  rw [hjoin, dir_append hlead n.property.2.2.2, resolve_clean, resolve_reduce, hread, resolve_reduce]
  exact (List.append_assoc _ _ _).symm

theorem base_join (root : List Char) (place : Place) (n : Name) : base (join root (spell (place ++ [n]))) = n.val := by
  obtain ⟨lead, hjoin, hlead, -⟩ := join_snoc root place n
  rw [hjoin]
  exact base_append hlead n.property.2.2.2 n.property.1

/-! ### Relative paths -/

theorem start_add (h : r.start ≠ .root) (part : List Char) : (r.add part).start ≠ .root := by
  unfold Reduced.add
  split
  · exact h
  · split
    · split
      · cases hstart : r.start with
        | root => exact absurd hstart h
        | above n => exact Start.noConfusion
      · exact h
    · exact h

theorem start_reduce (h : isAbs p = false) : ∃ n, (reduce p).start = .above n := by
  have hfold : ∀ (parts : List (List Char)) (r : Reduced), r.start ≠ .root → (parts.foldl Reduced.add r).start ≠ .root := by
    intro parts
    induction parts with
    | nil => exact fun _ h => h
    | cons part parts ih => exact fun r h => ih _ (start_add h part)
  have hstart : (reduce p).start ≠ .root := by
    unfold reduce
    rw [h]
    exact hfold _ _ Start.noConfusion
  cases hcase : (reduce p).start with
  | root => exact absurd hcase hstart
  | above n => exact ⟨n, rfl⟩

theorem clean_spell (h : place ≠ []) : clean (spell place) = spell place := by
  have htext : (⟨.above 0, place⟩ : Reduced).text = spell place := rfl
  unfold clean
  rw [reduce_spell, htext, if_neg (fun hnil => h (spell_eq_nil.mp hnil))]

/-- A relative path stays where it is, leads up, or leads down to a place. -/
theorem clean_cases (h : isAbs p = false) : clean p = ['.'] ∨ clean p = ['.', '.'] ∨ ['.', '.', '/'] <+: clean p ∨
    ∃ place, place ≠ [] ∧ reduce p = ⟨.above 0, place⟩ ∧ clean p = spell place := by
  obtain ⟨k, hstart⟩ := start_reduce h
  obtain ⟨place, hreduce⟩ : ∃ place, reduce p = ⟨.above k, place⟩ := ⟨(reduce p).down, by rw [← hstart]⟩
  cases k with
  | zero =>
    by_cases hplace : place = []
    · left
      unfold clean
      rw [hreduce, hplace]
      rfl
    · right; right; right
      have hclean := clean_spell hplace
      unfold clean at hclean ⊢
      rw [reduce_spell] at hclean
      rw [hreduce]
      exact ⟨place, hplace, rfl, hclean⟩
  | succ k =>
    have htext : clean p = List.intercalate ['/'] (['.', '.'] :: (List.replicate k ['.', '.'] ++ place.map Subtype.val)) := by
      have hparts : (⟨.above (k + 1), place⟩ : Reduced).parts = ['.', '.'] :: (List.replicate k ['.', '.'] ++ place.map Subtype.val) := rfl
      unfold clean
      rw [hreduce]
      unfold Reduced.text
      rw [hparts, if_neg (fun hroot => Start.noConfusion hroot), List.nil_append, if_neg]
      intro hnil
      have hsplit := splitOn_parts (r := ⟨.above (k + 1), place⟩) (by rw [hparts]; exact List.cons_ne_nil _ _)
      rw [hparts, hnil] at hsplit
      exact absurd (List.cons.inj hsplit).1 (List.cons_ne_nil _ _).symm
    right
    rw [htext]
    cases hrest : List.replicate k ['.', '.'] ++ place.map Subtype.val with
    | nil => exact .inl rfl
    | cons part parts =>
      right; left
      rw [List.intercalate_cons_cons]
      exact List.prefix_append _ _

theorem spell_ne (h : place ≠ []) : spell place ≠ ['.'] ∧ spell place ≠ ['.', '.'] ∧ ¬ ['.', '.', '/'] <+: spell place := by
  have hsplit := splitOn_spell h
  obtain ⟨n, names, rfl⟩ := List.exists_cons_of_ne_nil h
  have hfirst : ∀ parts, (spell (n :: names)).splitOn '/' = ['.', '.'] :: parts → False := by
    intro parts hparts
    rw [hsplit] at hparts
    exact n.property.2.2.1 (List.cons.inj hparts).1
  refine ⟨?_, ?_, ?_⟩
  · intro hdot
    rw [hdot] at hsplit
    exact n.property.2.1 (List.cons.inj hsplit).1.symm
  · intro hdots
    refine hfirst [] ?_
    rw [hdots]
    rfl
  · rintro ⟨rest, hrest⟩
    refine hfirst (rest.splitOn '/') ?_
    rw [← hrest]
    exact splitOn_append ['.', '.'] rest

/-! ### From one path to another -/

theorem dropShared_append {α : Type*} [DecidableEq α] (as bs : List α) : dropShared as (as ++ bs) = ([], bs) := by
  induction as with
  | nil => cases bs <;> rfl
  | cons a as ih =>
    rw [List.cons_append, dropShared, if_pos rfl]
    exact ih

theorem rel_join (root : List Char) (place : Place) : rel root (join root (spell place)) = some (place.map Subtype.val) := by
  have hparts : (reduce (join root (spell place))).parts = (reduce root).parts ++ place.map Subtype.val := by
    rw [reduce_join_spell]
    unfold Reduced.parts
    rw [List.map_append, List.append_assoc]
  have hstart : (reduce (join root (spell place))).start = (reduce root).start := by rw [reduce_join_spell]
  simp only [rel, hparts, hstart, dropShared_append]
  simp

theorem resolve_join_dot (cwd : Place) {dir : List Char} (hdir : dir ≠ []) : resolve cwd (join dir ['.']) = resolve cwd dir := by
  unfold join
  rw [if_pos hdir, resolve_clean, resolve_reduce, reduce_append hdir, resolve_reduce]
  rfl

/-- The path of an entry of a directory. -/
def inside (dir name : List Char) : List Char :=
  if dir.getLast? = some '/' then dir ++ name else dir ++ '/' :: name

theorem inside_ne_nil {dir : List Char} (hdir : dir ≠ []) (name : List Char) : inside dir name ≠ [] := by
  unfold inside
  split
  · exact List.append_ne_nil_of_left_ne_nil hdir name
  · exact List.append_ne_nil_of_left_ne_nil hdir _

theorem resolve_inside (cwd : Place) {dir : List Char} (hdir : dir ≠ []) (n : Name) :
    resolve cwd (inside dir n.val) = resolve cwd dir ++ [n] := by
  have henter : ∀ place : Place, enter place n.val = place ++ [n] := fun place => dif_pos n.property
  have hsplit : n.val.splitOn '/' = [n.val] := List.splitOn_eq_singleton n.property.2.2.2
  unfold inside
  split
  · rename_i hlast
    obtain ⟨a, rfl⟩ := List.getLast?_eq_some_iff.mp hlast
    have habs : isAbs (a ++ '/' :: n.val) = isAbs (a ++ ['/']) := by cases a <;> rfl
    unfold resolve
    rw [List.append_assoc, List.singleton_append, splitOn_append, splitOn_append, habs, hsplit, List.foldl_append, List.foldl_append]
    exact henter _
  · have habs : isAbs (dir ++ '/' :: n.val) = isAbs dir := by
      obtain ⟨c, cs, rfl⟩ := List.exists_cons_of_ne_nil hdir
      rfl
    unfold resolve
    rw [splitOn_append, habs, hsplit, List.foldl_append]
    exact henter _

end Cronova.Text.Path
