import Cronova.Http.Mux
import Cronova.Text.Replacing

/-! Path templates: the values of the placeholders in braces are escaped and put in their
places, one name after the other. -/
namespace Cronova.Http
open Cronova.Text.Replacing

/-! ### Escaping a segment -/

/-- What stays as it is in a path segment. -/
def plainByte (c : Char) : Bool := c.isAlphanum || "-_.~$&+:=@".toList.contains c

def upperHex (n : ℕ) : Char := Char.ofNat (if n < 10 then 48 + n else 55 + n)

def escapeByte (c : Char) : Bytes := if plainByte c then [c] else ['%', upperHex (c.toNat / 16), upperHex (c.toNat % 16)]

def pathEscape (s : Bytes) : Bytes := s.flatMap escapeByte

theorem pathUnescape_cons {c : Char} (hc : c ≠ '%') (b : Bytes) : pathUnescape (c :: b) = (pathUnescape b).map (c :: ·) := by
  have hother : ∀ x y t, c :: b ≠ '%' :: x :: y :: t := by
    intro x y t h
    exact hc (List.cons.inj h).1
  rw [pathUnescape, if_neg hc]
  simpa using hother

theorem hexValue_upperHex {n : ℕ} (h : n < 16) : hexValue (upperHex n) = some n := by
  have hall : ∀ n < 16, hexValue (upperHex n) = some n := by decide +kernel
  exact hall n h

theorem plainByte_ne {c : Char} (h : plainByte c = true) : c ≠ '%' ∧ c ≠ '/' ∧ c ≠ '{' := by
  refine ⟨?_, ?_, ?_⟩
  · rintro rfl
    revert h
    decide
  · rintro rfl
    revert h
    decide
  · rintro rfl
    revert h
    decide

/-- A segment of bytes comes back from its escape. -/
theorem pathUnescape_pathEscape {s : Bytes} (h : ∀ c ∈ s, c.toNat < 256) : pathUnescape (pathEscape s) = some s := by
  induction s with
  | nil => rfl
  | cons c s ih =>
    have hrest := ih (fun x hx => h x (List.mem_cons_of_mem _ hx))
    have hc := h c List.mem_cons_self
    rw [pathEscape, List.flatMap_cons, escapeByte]
    split
    case isTrue hplain =>
      rw [List.singleton_append, pathUnescape_cons (plainByte_ne hplain).1]
      change (pathUnescape (pathEscape s)).map _ = _
      rw [hrest, Option.map_some]
    case isFalse =>
      have hhigh : hexValue (upperHex (c.toNat / 16)) = some (c.toNat / 16) := hexValue_upperHex (by omega)
      have hlow : hexValue (upperHex (c.toNat % 16)) = some (c.toNat % 16) := hexValue_upperHex (by omega)
      have hbyte : Char.ofNat (16 * (c.toNat / 16) + c.toNat % 16) = c := by
        rw [Nat.div_add_mod, Char.ofNat_toNat]
      change pathUnescape ('%' :: _ :: _ :: pathEscape s) = _
      rw [pathUnescape, hhigh, hlow, hrest]
      change some (Char.ofNat _ :: s) = _
      rw [hbyte]

theorem upperHex_ne {n : ℕ} (h : n < 16) : upperHex n ≠ '/' ∧ upperHex n ≠ '{' := by
  have hall : ∀ n < 16, upperHex n ≠ '/' ∧ upperHex n ≠ '{' := by decide +kernel
  exact hall n h

/-- An escape has neither a slash nor a brace. -/
theorem pathEscape_free {s : Bytes} (h : ∀ c ∈ s, c.toNat < 256) : '/' ∉ pathEscape s ∧ '{' ∉ pathEscape s := by
  have hall : ∀ x ∈ pathEscape s, x ≠ '/' ∧ x ≠ '{' := by
    intro x hx
    obtain ⟨c, hc, hx⟩ := List.mem_flatMap.1 hx
    have hbyte := h c hc
    rw [escapeByte] at hx
    split at hx
    case isTrue hplain =>
      rw [List.mem_singleton] at hx
      subst hx
      exact (plainByte_ne hplain).2
    case isFalse =>
      simp only [List.mem_cons, List.not_mem_nil, or_false] at hx
      rcases hx with rfl | rfl | rfl
      · decide
      · exact upperHex_ne (by omega)
      · exact upperHex_ne (by omega)
  exact ⟨fun hmem => (hall _ hmem).1 rfl, fun hmem => (hall _ hmem).2 rfl⟩

/-! ### Placeholders -/

/-- A piece of a template. -/
inductive Piece where
  | text (s : Bytes)
  | slot (name : Bytes)
  deriving DecidableEq

def braced (name : Bytes) : Bytes := '{' :: (name ++ ['}'])

namespace Piece

def render : Piece → Bytes
  | .text s => s
  | .slot name => braced name

/-- No brace but those of the placeholders. -/
def Proper : Piece → Prop
  | .text s => '{' ∉ s
  | .slot name => '{' ∉ name ∧ '}' ∉ name

instance : (p : Piece) → Decidable p.Proper
  | .text s => inferInstanceAs (Decidable ('{' ∉ s))
  | .slot name => inferInstanceAs (Decidable ('{' ∉ name ∧ '}' ∉ name))

def fill (name value : Bytes) : Piece → Piece
  | .text s => .text s
  | .slot n => if n = name then .text value else .slot n

end Piece

def renderAll (ps : List Piece) : Bytes := ps.flatMap Piece.render

section Fill
variable {name value s : Bytes} {ps : List Piece}

theorem replaceFrom_skip (old new a b : Bytes) : replaceFrom old new a.length (a ++ b) = replaceFrom old new 0 b := by
  induction a with
  | nil => rfl
  | cons c a ih => exact ih

theorem replaceAll_text (hs : '{' ∉ s) (rest : Bytes) :
    replaceAll (braced name) value (s ++ rest) = s ++ replaceAll (braced name) value rest := by
  induction s with
  | nil => rfl
  | cons c s ih =>
    have hhead : ¬ braced name <+: c :: (s ++ rest) := by
      intro h
      exact hs ((List.cons_prefix_cons.1 h).1 ▸ List.mem_cons_self)
    change (if braced name <+: c :: (s ++ rest) then _ else c :: replaceAll (braced name) value (s ++ rest)) = _
    rw [if_neg hhead, ih (fun hmem => hs (List.mem_cons_of_mem _ hmem)), List.cons_append]

theorem replaceAll_same (rest : Bytes) :
    replaceAll (braced name) value (braced name ++ rest) = value ++ replaceAll (braced name) value rest := by
  have hprefix : braced name <+: '{' :: (name ++ ['}'] ++ rest) := ⟨rest, rfl⟩
  change (if braced name <+: '{' :: (name ++ ['}'] ++ rest) then
    value ++ replaceFrom (braced name) value ((name ++ ['}']).length) (name ++ ['}'] ++ rest) else _) = _
  rw [if_pos hprefix, replaceFrom_skip]
  rfl

/-- A braced name begins with another only if they are the same. -/
theorem braced_unique {n rest : Bytes} (hname : '}' ∉ name) (hn : '}' ∉ n) (h : braced name <+: braced n ++ rest) : name = n := by
  have h' : name ++ ['}'] <+: n ++ '}' :: rest := by
    have hbelow : name ++ ['}'] <+: n ++ ['}'] ++ rest := (List.cons_prefix_cons.1 h).2
    rwa [List.append_assoc, List.singleton_append] at hbelow
  clear h
  induction name generalizing n with
  | nil =>
    cases n with
    | nil => rfl
    | cons c n =>
      have hc := (List.cons_prefix_cons.1 h').1
      exact absurd (hc ▸ List.mem_cons_self) hn
  | cons d name ih =>
    cases n with
    | nil =>
      have hd := (List.cons_prefix_cons.1 h').1
      exact absurd (hd ▸ List.mem_cons_self) hname
    | cons c n =>
      obtain ⟨rfl, hrest⟩ := List.cons_prefix_cons.1 h'
      rw [ih (fun hmem => hname (List.mem_cons_of_mem _ hmem)) (fun hmem => hn (List.mem_cons_of_mem _ hmem)) hrest]

theorem replaceAll_other {n : Bytes} (hname : '}' ∉ name) (hn : '{' ∉ n ∧ '}' ∉ n) (hne : n ≠ name) (rest : Bytes) :
    replaceAll (braced name) value (braced n ++ rest) = braced n ++ replaceAll (braced name) value rest := by
  have hhead : ¬ braced name <+: '{' :: (n ++ ['}'] ++ rest) := fun h => hne (braced_unique hname hn.2 h).symm
  have hfree : '{' ∉ n ++ ['}'] := by
    rw [List.mem_append, List.mem_singleton]
    rintro (hmem | hbrace)
    · exact hn.1 hmem
    · exact absurd hbrace (by decide)
  change (if braced name <+: '{' :: (n ++ ['}'] ++ rest) then _ else '{' :: replaceAll (braced name) value (n ++ ['}'] ++ rest)) = _
  rw [if_neg hhead, replaceAll_text hfree]
  rfl

/-- Replacing a name in the text of a template fills its placeholders. -/
theorem replaceAll_render (hps : ∀ p ∈ ps, p.Proper) (hname : '}' ∉ name) :
    replaceAll (braced name) value (renderAll ps) = renderAll (ps.map (Piece.fill name value)) := by
  induction ps with
  | nil => rfl
  | cons p ps ih =>
    have hrest := ih (fun q hq => hps q (List.mem_cons_of_mem _ hq))
    have hp := hps p List.mem_cons_self
    change replaceAll _ _ (p.render ++ renderAll ps) = (p.fill name value).render ++ renderAll (ps.map _)
    rw [← hrest]
    cases p with
    | text s => exact replaceAll_text hp _
    | slot n =>
      by_cases hsame : n = name
      · subst hsame
        rw [Piece.fill, if_pos rfl]
        exact replaceAll_same _
      · rw [Piece.fill, if_neg hsame]
        exact replaceAll_other hname hp hsame _

end Fill

/-! ### All names -/

/-- The names and values as they come, one after the other. -/
def expand (params : List (Bytes × Bytes)) (template : Bytes) : Bytes :=
  params.foldl (fun path p => replaceAll (braced p.1) (pathEscape p.2) path) template

namespace Piece

/-- What stands in the place of a piece at last. -/
def filled (params : List (Bytes × Bytes)) : Piece → Piece
  | .text s => .text s
  | .slot name =>
    match params.lookup name with
    | some value => .text (pathEscape value)
    | none => .slot name

end Piece

/-- Bytes, under names without braces. -/
def Plain (params : List (Bytes × Bytes)) : Prop := ∀ p ∈ params, '}' ∉ p.1 ∧ ∀ c ∈ p.2, c.toNat < 256

theorem filled_cons (name value : Bytes) (params : List (Bytes × Bytes)) (p : Piece) :
    (p.fill name (pathEscape value)).filled params = p.filled ((name, value) :: params) := by
  cases p with
  | text s => rfl
  | slot n =>
    rw [Piece.fill, Piece.filled, List.lookup_cons]
    by_cases h : n = name
    · subst h
      rw [if_pos rfl, beq_self_eq_true]
      rfl
    · rw [if_neg h, beq_false_of_ne h]
      rfl

theorem expand_render {params : List (Bytes × Bytes)} (hparams : Plain params) {ps : List Piece} (hps : ∀ p ∈ ps, p.Proper) :
    expand params (renderAll ps) = renderAll (ps.map (Piece.filled params)) := by
  induction params generalizing ps with
  | nil =>
    have hid : ∀ p : Piece, p.filled [] = p := by
      intro p
      cases p with
      | text s => rfl
      | slot name => rfl
    rw [List.map_congr_left (fun p _ => hid p), List.map_id']
    rfl
  | cons kv params ih =>
    obtain ⟨name, value⟩ := kv
    obtain ⟨hname, hvalue⟩ := hparams _ List.mem_cons_self
    have hnext : ∀ p ∈ ps.map (Piece.fill name (pathEscape value)), p.Proper := by
      intro p hp
      obtain ⟨q, hq, rfl⟩ := List.mem_map.1 hp
      have hproper := hps q hq
      cases q with
      | text s => exact hproper
      | slot n =>
        rw [Piece.fill]
        split
        · exact (pathEscape_free hvalue).2
        · exact hproper
    have hstep : expand ((name, value) :: params) (renderAll ps) =
        expand params (renderAll (ps.map (Piece.fill name (pathEscape value)))) := by
      rw [← replaceAll_render hps hname]
      rfl
    rw [hstep, ih (fun p hp => hparams p (List.mem_cons_of_mem _ hp)) hnext, List.map_map]
    congr 1
    apply List.map_congr_left
    intro p _
    exact filled_cons name value params p

end Cronova.Http
