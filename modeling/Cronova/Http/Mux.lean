import Mathlib.Data.List.Infix
import Mathlib.Tactic.Common

/-! Escaped request paths, their segments, and the patterns a request mux matches
the segments with. -/
namespace Cronova.Http

/-- A text of bytes. A character stands for the byte of its number. -/
abbrev Bytes := List Char

/-! ### Escapes -/

def hexValue (c : Char) : Option Nat :=
  if '0' ≤ c ∧ c ≤ '9' then some (c.toNat - 48)
  else if 'a' ≤ c ∧ c ≤ 'f' then some (c.toNat - 87)
  else if 'A' ≤ c ∧ c ≤ 'F' then some (c.toNat - 55)
  else none

/-- A text with its percent escapes replaced. Not every text can be unescaped. -/
def pathUnescape : Bytes → Option Bytes
  | [] => some []
  | '%' :: a :: b :: rest => do
    let high ← hexValue a
    let low ← hexValue b
    let rest ← pathUnescape rest
    return Char.ofNat (16 * high + low) :: rest
  | c :: rest => if c = '%' then none else (pathUnescape rest).map (c :: ·)

/-- A segment is read unescaped where that is possible. -/
def unescaped (s : Bytes) : Bytes := (pathUnescape s).getD s

theorem pathUnescape_cons_slash (b : Bytes) : pathUnescape ('/' :: b) = (pathUnescape b).map ('/' :: ·) := by
  rw [pathUnescape, if_neg (by decide)]
  simp

/-- A slash is never part of an escape. -/
theorem pathUnescape_slash (a b : Bytes) :
    pathUnescape (a ++ '/' :: b) = (pathUnescape a).bind (fun x => (pathUnescape b).map (fun y => x ++ '/' :: y)) := by
  have hslash : hexValue '/' = none := by decide
  fun_induction pathUnescape a with
  | case1 => exact pathUnescape_cons_slash b
  | case2 x y rest ih =>
    simp only [List.cons_append, pathUnescape, ih]
    cases hexValue x <;> cases hexValue y <;> cases pathUnescape rest <;> cases pathUnescape b <;> rfl
  | case3 rest hshort =>
    match rest with
    | [] => cases b <;> simp [pathUnescape, hslash]
    | [x] => cases hx : hexValue x <;> simp [pathUnescape, hslash, hx]
    | x :: y :: rest => exact absurd rfl (hshort x y rest rfl)
  | case4 c rest hlong hc ih =>
    have hother : ∀ x y t, c :: (rest ++ '/' :: b) ≠ '%' :: x :: y :: t := by
      intro x y t h
      exact hc (List.cons.inj h).1
    rw [List.cons_append, pathUnescape, if_neg hc, ih]
    · cases pathUnescape rest <;> cases pathUnescape b <;> rfl
    · simpa using hother

/-! ### Segments -/

/-- The path of some segments. -/
def joined (segs : List Bytes) : Bytes := segs.flatMap ('/' :: ·)

@[simp] theorem joined_nil : joined [] = [] := rfl

@[simp] theorem joined_cons (s : Bytes) (segs : List Bytes) : joined (s :: segs) = '/' :: (s ++ joined segs) := rfl

theorem joined_append (front back : List Bytes) : joined (front ++ back) = joined front ++ joined back := List.flatMap_append

theorem joined_splitOn (rest : Bytes) : joined (rest.splitOn '/') = '/' :: rest := by
  have hcons : ∀ (s : Bytes) (segs : List Bytes), joined (s :: segs) = '/' :: List.intercalate ['/'] (s :: segs) := by
    intro s segs
    induction segs generalizing s with
    | nil => simp
    | cons s' segs ih => rw [joined_cons, ih, List.intercalate_cons_cons]; simp
  cases hsplit : rest.splitOn '/' with
  | nil => exact absurd hsplit (List.splitOn_ne_nil _ _)
  | cons s segs => rw [hcons, ← hsplit, List.intercalate_splitOn]

/-- Unescaping a path unescapes its segments. -/
theorem pathUnescape_joined {segs : List Bytes} {path : Bytes} (h : pathUnescape (joined segs) = some path) :
    path = joined (segs.map unescaped) := by
  induction segs generalizing path with
  | nil =>
    cases h
    rfl
  | cons s segs ih =>
    rw [joined_cons, pathUnescape_cons_slash, Option.map_eq_some_iff] at h
    obtain ⟨rest, hrest, rfl⟩ := h
    cases segs with
    | nil =>
      rw [joined_nil, List.append_nil] at hrest
      simp [unescaped, hrest]
    | cons s' segs =>
      rw [joined_cons, pathUnescape_slash, Option.bind_eq_some_iff] at hrest
      obtain ⟨x, hx, hrest⟩ := hrest
      obtain ⟨y, hy, rfl⟩ := Option.map_eq_some_iff.mp hrest
      have htail := ih (show pathUnescape (joined (s' :: segs)) = some ('/' :: y) by rw [joined_cons, pathUnescape_cons_slash, hy, Option.map_some])
      rw [List.map_cons, joined_cons, ← htail, unescaped, hx, Option.getD_some]

/-- A path starts with two texts only if it starts with two such segments. -/
theorem append_slash_prefix {a b s : Bytes} {segs : List Bytes} (ha : '/' ∉ a) (hs : '/' ∉ s)
    (h : a ++ '/' :: b <+: s ++ joined segs) : a = s ∧ '/' :: b <+: joined segs := by
  induction a generalizing s with
  | nil =>
    cases s with
    | nil => exact ⟨rfl, h⟩
    | cons c s =>
      rw [List.nil_append, List.cons_append, List.cons_prefix_cons] at h
      exact absurd (h.1 ▸ List.mem_cons_self) hs
  | cons c a ih =>
    cases s with
    | nil =>
      cases segs with
      | nil => simp at h
      | cons s' segs =>
        rw [List.cons_append, List.nil_append, joined_cons, List.cons_prefix_cons] at h
        exact absurd (h.1 ▸ List.mem_cons_self) ha
    | cons d s =>
      rw [List.cons_append, List.cons_append, List.cons_prefix_cons] at h
      obtain ⟨rfl, h⟩ := h
      obtain ⟨rfl, hrest⟩ := ih (fun hmem => ha (List.mem_cons_of_mem _ hmem)) (fun hmem => hs (List.mem_cons_of_mem _ hmem)) h
      exact ⟨rfl, hrest⟩

/-- What a path ends with, its last segment is or ends with. -/
theorem slash_suffix_iff {k : Bytes} (hk : '/' ∉ k) (front x : Bytes) :
    '/' :: k <:+ front ++ '/' :: x ↔ x = k ∨ '/' :: k <:+ x := by
  constructor
  · intro h
    rcases List.suffix_or_suffix_of_suffix h (List.suffix_append front ('/' :: x)) with hshort | hlong
    · rcases List.suffix_cons_iff.mp hshort with heq | hx
      · exact .inl (List.cons.inj heq).2.symm
      · exact .inr hx
    · rcases List.suffix_cons_iff.mp hlong with heq | hx
      · exact .inl (List.cons.inj heq).2
      · exact absurd (hx.subset List.mem_cons_self) hk
  · rintro (rfl | h)
    · exact List.suffix_append _ _
    · exact h.trans ((List.suffix_cons _ _).trans (List.suffix_append _ _))

/-! ### Patterns -/

/-- A segment of a pattern. -/
inductive Seg where
  | lit (text : Bytes)
  | wild
  /-- Everything that is left. -/
  | rest
  deriving DecidableEq, Repr

abbrev Pattern := List Seg

variable {H : Type}

/-- The patterns that go on after a literal segment, and after a wildcard. -/
def afterLit (s : Bytes) (patterns : List (Pattern × H)) : List (Pattern × H) :=
  patterns.filterMap (fun
    | (.lit text :: p, h) => if text = s then some (p, h) else none
    | _ => none)

def afterWild (patterns : List (Pattern × H)) : List (Pattern × H) :=
  patterns.filterMap (fun
    | (.wild :: p, h) => some (p, h)
    | _ => none)

/-- What the patterns select for a path and the values of their wildcards: a
literal before a wildcard, a wildcard before all that is left. A path that ends
with a slash has an empty last segment, which no wildcard matches. -/
def matchPath (patterns : List (Pattern × H)) : (segs : List Bytes) → Option (H × List Bytes)
  | [] => (patterns.find? (fun p => p.1 = [])).map (fun p => (p.2, []))
  | s :: segs =>
    ((matchPath (afterLit s patterns) segs).or
        (if s = [] then none else (matchPath (afterWild patterns) segs).map (fun p => (p.1, s :: p.2)))).or
      ((patterns.find? (fun p => p.1 = [.rest])).map (fun p => (p.2, [(joined (s :: segs)).tail])))

/-- A pattern fits a path, with these values of its wildcards. -/
inductive Fits : Pattern → List Bytes → List Bytes → Prop where
  | nil : Fits [] [] []
  | lit {s : Bytes} {p : Pattern} {segs values : List Bytes} : Fits p segs values → Fits (.lit s :: p) (s :: segs) values
  | wild {s : Bytes} {p : Pattern} {segs values : List Bytes} : s ≠ [] → Fits p segs values → Fits (.wild :: p) (s :: segs) (s :: values)
  | rest {s : Bytes} {segs : List Bytes} : Fits [.rest] (s :: segs) [(joined (s :: segs)).tail]

theorem mem_afterLit {s : Bytes} {patterns : List (Pattern × H)} {p : Pattern} {h : H} :
    (p, h) ∈ afterLit s patterns ↔ (.lit s :: p, h) ∈ patterns := by
  rw [afterLit, List.mem_filterMap]
  constructor
  · rintro ⟨⟨q, g⟩, hmem, heq⟩
    split at heq
    · rename_i hq
      cases hq
      split at heq
      · rename_i htext
        cases heq
        exact htext ▸ hmem
      · cases heq
    · cases heq
  · intro hmem
    exact ⟨_, hmem, if_pos rfl⟩

theorem mem_afterWild {patterns : List (Pattern × H)} {p : Pattern} {h : H} :
    (p, h) ∈ afterWild patterns ↔ (.wild :: p, h) ∈ patterns := by
  rw [afterWild, List.mem_filterMap]
  constructor
  · rintro ⟨⟨q, g⟩, hmem, heq⟩
    split at heq
    · rename_i hq
      cases hq
      cases heq
      exact hmem
    · cases heq
  · intro hmem
    exact ⟨_, hmem, rfl⟩

@[simp] theorem matchPath_none (segs : List Bytes) : matchPath ([] : List (Pattern × H)) segs = none := by
  induction segs with
  | nil => rfl
  | cons s segs ih => simp [matchPath, afterLit, afterWild, ih]

/-- A literal segment is tried first. -/
theorem matchPath_literal {patterns : List (Pattern × H)} {s : Bytes} {segs : List Bytes} {r : H × List Bytes}
    (h : matchPath (afterLit s patterns) segs = some r) : matchPath patterns (s :: segs) = some r := by
  rw [matchPath, h, Option.some_or, Option.some_or]

/-- Whatever is selected belongs to a pattern that fits. -/
theorem matchPath_fits {patterns : List (Pattern × H)} {segs values : List Bytes} {h : H}
    (hmatch : matchPath patterns segs = some (h, values)) : ∃ p, (p, h) ∈ patterns ∧ Fits p segs values := by
  induction segs generalizing patterns values with
  | nil =>
    obtain ⟨⟨p, g⟩, hfind, heq⟩ := Option.map_eq_some_iff.mp hmatch
    cases heq
    have hp : p = [] := by simpa using List.find?_some hfind
    subst hp
    exact ⟨[], List.mem_of_find?_eq_some hfind, .nil⟩
  | cons s segs ih =>
    rw [matchPath, Option.or_eq_some_iff, Option.or_eq_some_iff] at hmatch
    rcases hmatch with (hlit | ⟨_, hwild⟩) | ⟨_, hrest⟩
    · obtain ⟨p, hmem, hfits⟩ := ih hlit
      exact ⟨_, mem_afterLit.mp hmem, .lit hfits⟩
    · split at hwild
      · cases hwild
      · rename_i hs
        obtain ⟨⟨g, vs⟩, hinner, heq⟩ := Option.map_eq_some_iff.mp hwild
        cases heq
        obtain ⟨p, hmem, hfits⟩ := ih hinner
        exact ⟨_, mem_afterWild.mp hmem, .wild hs hfits⟩
    · obtain ⟨⟨p, g⟩, hfind, heq⟩ := Option.map_eq_some_iff.mp hrest
      cases heq
      have hp : p = [.rest] := by simpa using List.find?_some hfind
      subst hp
      exact ⟨_, List.mem_of_find?_eq_some hfind, .rest⟩

/-- Where a pattern fits, something is selected. -/
theorem matchPath_complete {patterns : List (Pattern × H)} {p : Pattern} {segs values : List Bytes} {h : H} (hmem : (p, h) ∈ patterns)
    (hfits : Fits p segs values) : ∃ r, matchPath patterns segs = some r := by
  induction hfits generalizing patterns with
  | nil =>
    obtain ⟨q, hq⟩ : ∃ q, patterns.find? (fun p => p.1 = []) = some q :=
      Option.isSome_iff_exists.1 (List.find?_isSome.2 ⟨_, hmem, decide_eq_true rfl⟩)
    exact ⟨_, by rw [matchPath, hq, Option.map_some]⟩
  | @lit s p segs values _ ih =>
    obtain ⟨r, hr⟩ := ih (mem_afterLit.2 hmem)
    exact ⟨r, matchPath_literal hr⟩
  | @wild s p segs values hs _ ih =>
    obtain ⟨r, hr⟩ := ih (mem_afterWild.2 hmem)
    rw [matchPath, if_neg hs, hr, Option.map_some]
    cases matchPath (afterLit s patterns) segs with
    | none => exact ⟨_, rfl⟩
    | some r' => exact ⟨_, rfl⟩
  | @rest s segs =>
    obtain ⟨q, hq⟩ : ∃ q, patterns.find? (fun p => p.1 = [.rest]) = some q :=
      Option.isSome_iff_exists.1 (List.find?_isSome.2 ⟨_, hmem, decide_eq_true rfl⟩)
    rw [matchPath, hq, Option.map_some]
    cases (matchPath (afterLit s patterns) segs).or
        (if s = [] then none else (matchPath (afterWild patterns) segs).map (fun p => (p.1, s :: p.2))) with
    | none => exact ⟨_, rfl⟩
    | some r' => exact ⟨_, rfl⟩

/-- Some path may fit both patterns. -/
def overlaps : Pattern → Pattern → Bool
  | [], [] => true
  | .rest :: _, _ :: _ => true
  | _ :: _, .rest :: _ => true
  | .lit a :: p, .lit b :: q => a = b && overlaps p q
  | _ :: p, _ :: q => overlaps p q
  | _, _ => false

theorem Fits.overlaps {p q : Pattern} {segs v w : List Bytes} (hp : Fits p segs v) (hq : Fits q segs w) : Http.overlaps p q = true := by
  induction hp generalizing q w with
  | nil =>
    cases hq
    rfl
  | @lit s p segs values _ ih =>
    cases hq with
    | lit hq => rw [Http.overlaps, decide_eq_true rfl, ih hq, Bool.and_self]
    | wild hs hq => exact ih hq
    | rest => rfl
  | @wild s p segs values _ _ ih =>
    cases hq with
    | lit hq => exact ih hq
    | wild hs hq => exact ih hq
    | rest => rfl
  | rest =>
    cases hq with
    | lit hq => rfl
    | wild hs hq => rfl
    | rest => rfl

theorem Fits.values_eq {p : Pattern} {segs v w : List Bytes} (hv : Fits p segs v) (hw : Fits p segs w) : v = w := by
  induction hv generalizing w with
  | nil =>
    cases hw
    rfl
  | lit _ ih =>
    cases hw with
    | lit hw => exact ih hw
  | wild _ _ ih =>
    cases hw with
    | wild _ hw => rw [ih hw]
  | rest =>
    cases hw
    rfl

/-- Where the other patterns do not overlap it, a pattern that fits is selected. -/
theorem matchPath_of_alone {patterns : List (Pattern × H)} {p : Pattern} {segs values : List Bytes} {h : H} (hmem : (p, h) ∈ patterns)
    (hfits : Fits p segs values) (halone : ∀ q g, (q, g) ∈ patterns → overlaps p q = true → q = p ∧ g = h) :
    matchPath patterns segs = some (h, values) := by
  obtain ⟨⟨g, w⟩, hr⟩ := matchPath_complete hmem hfits
  obtain ⟨q, hq, hqfits⟩ := matchPath_fits hr
  obtain ⟨rfl, rfl⟩ := halone q g hq (hfits.overlaps hqfits)
  rw [hr, hqfits.values_eq hfits]

end Cronova.Http
