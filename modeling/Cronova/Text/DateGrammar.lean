import Cronova.Text.DateTmpl
import Cronova.Text.Trimming

/-! The date-expression grammar apart from the calendar: what a suffix says, and what
that does to an instant. -/
namespace Cronova.Text.DateTmpl
open Cronova.Model

/-! ### What a suffix says -/

inductive OffsetUnit where
  | days | weeks | months | hours
  deriving DecidableEq, Repr

/-- One signed offset as it is written. -/
structure Offset where
  unit : OffsetUnit
  n : Int
  deriving DecidableEq, Repr

inductive Anchor where
  | monthStart | monthEnd | weekStart | weekEnd
  deriving DecidableEq, Repr

def readUnit (unit : String) : Option OffsetUnit :=
  if unit = "d" then some .days
  else if unit = "w" then some .weeks
  else if unit = "mo" then some .months
  else if unit = "h" then some .hours
  else none

def readAnchor (name : String) : Option Anchor :=
  if name = "month_start" then some .monthStart
  else if name = "month_end" then some .monthEnd
  else if name = "week_start" then some .weekStart
  else if name = "week_end" then some .weekEnd
  else none

/-- A unit ends at a blank or at the next sign. -/
def isStop (c : Char) : Bool := c = ' ' || c = '\t' || c = '+' || c = '-'

def readOffset : List Char → Option (Offset × List Char)
  | [] => none
  | c :: cs =>
    if c = '+' ∨ c = '-' then
      let s := trimSpaceChars cs
      let digits := s.takeWhile Char.isDigit
      if digits = [] then none
      else
        match atoi digits with
        | none => none
        | some n =>
          let s := s.dropWhile Char.isDigit
          (readUnit (String.ofList (s.takeWhile (!isStop ·)))).map
            (fun unit => (⟨unit, if c = '-' then -n else n⟩, s.dropWhile (!isStop ·)))
    else none

def readOffsets : (fuel : Nat) → List Char → Option (List Offset)
  | fuel, s =>
    match trimSpaceChars s, fuel with
    | [], _ => some []
    | _ :: _, 0 => none
    | c :: cs, fuel + 1 =>
      match readOffset (c :: cs) with
      | none => none
      | some (o, rest) => (readOffsets fuel rest).map (o :: ·)

/-- A character of the name of an anchor. -/
def inName (c : Char) : Bool := c = '_' || ('a' ≤ c && c ≤ 'z')

def readSuffix (s : List Char) : Option (Option Anchor × List Offset) :=
  match s with
  | '.' :: after =>
    let rest := after.dropWhile inName
    match readAnchor (String.ofList (after.takeWhile inName)) with
    | none => none
    | some a => (readOffsets rest.length rest).map (fun os => (some a, os))
  | cs => (readOffsets cs.length cs).map (fun os => (none, os))

/-! ### What it does -/

def Anchor.apply (z : Zone) (t : Time) : Anchor → Time
  | .monthStart => z.midnight (z.date t).1 (z.date t).2.1 1
  | .monthEnd => z.addDate (z.midnight (z.date t).1 (z.date t).2.1 1) 0 1 (-1)
  | .weekStart => z.addDate (z.midnight (z.date t).1 (z.date t).2.1 (z.date t).2.2) 0 0 (-((z.weekday t + 6) % 7))
  | .weekEnd => z.addDate (z.midnight (z.date t).1 (z.date t).2.1 (z.date t).2.2) 0 0 (6 - (z.weekday t + 6) % 7)

def Offset.apply (z : Zone) (t : Time) (o : Offset) : Time :=
  match o.unit with
  | .days => z.addDate t 0 0 o.n
  | .weeks => z.addDate t 0 0 (int64 (7 * o.n))
  | .months => z.addDate t 0 o.n 0
  | .hours => addDuration t (int64 (o.n * (3600 * second)))

def applyAll (z : Zone) (t : Time) (os : List Offset) : Time := os.foldl (Offset.apply z) t

def anchored (z : Zone) (t : Time) : Option Anchor → Time
  | none => t
  | some a => a.apply z t

theorem applyAnchor_eq (z : Zone) (t : Time) (name : String) : applyAnchor z t name = (readAnchor name).map (Anchor.apply z t) := by
  have hone : ∀ (c : Prop) [Decidable c] (x : Time) (a : Anchor) (rest : Option Time) (others : Option Anchor),
      a.apply z t = x → rest = others.map (Anchor.apply z t) →
        (if c then some x else rest) = (if c then some a else others).map (Anchor.apply z t) := by
    intro c _ x a rest others hx hrest
    split
    · rw [Option.map_some, hx]
    · exact hrest
  exact hone _ _ _ _ _ rfl (hone _ _ _ _ _ rfl (hone _ _ _ _ _ rfl (hone _ _ _ _ _ rfl rfl)))

theorem readUnit_apply (z : Zone) (t : Time) (n : Int) (rest : List Char) (unit : String) :
    (if unit = "d" then some (z.addDate t 0 0 n, rest)
      else if unit = "w" then some (z.addDate t 0 0 (int64 (7 * n)), rest)
      else if unit = "mo" then some (z.addDate t 0 n 0, rest)
      else if unit = "h" then some (addDuration t (int64 (n * (3600 * second))), rest)
      else none) = (readUnit unit).map (fun unit => (Offset.apply z t ⟨unit, n⟩, rest)) := by
  unfold readUnit
  split
  · rfl
  · split
    · rfl
    · split
      · rfl
      · split <;> rfl

theorem applyOffset_eq (z : Zone) (t : Time) (s : List Char) :
    applyOffset z t s = (readOffset s).map (fun p => (p.1.apply z t, p.2)) := by
  cases s with
  | nil => rfl
  | cons c cs =>
    simp only [applyOffset, readOffset]
    by_cases hsign : c = '+' ∨ c = '-'
    · rw [if_pos hsign, if_pos hsign]
      by_cases hdigits : (trimSpaceChars cs).takeWhile Char.isDigit = []
      · rw [if_pos hdigits, if_pos hdigits]
        rfl
      · rw [if_neg hdigits, if_neg hdigits]
        cases atoi ((trimSpaceChars cs).takeWhile Char.isDigit) with
        | none => rfl
        | some n =>
          dsimp only
          rw [readUnit_apply, Option.map_map]
          rfl
    · rw [if_neg hsign, if_neg hsign]
      rfl

theorem applyOffsets_eq (z : Zone) (fuel : Nat) (t : Time) (s : List Char) :
    applyOffsets z fuel t s = (readOffsets fuel s).map (applyAll z t) := by
  induction fuel generalizing t s with
  | zero =>
    unfold applyOffsets readOffsets
    cases trimSpaceChars s <;> rfl
  | succ fuel ih =>
    unfold applyOffsets readOffsets
    cases trimSpaceChars s with
    | nil => rfl
    | cons c cs =>
      simp only [applyOffset_eq]
      cases readOffset (c :: cs) with
      | none => rfl
      | some p =>
        simp only [Option.map_some, ih, Option.map_map]
        rfl

/-- An instant is shifted by what the suffix says. -/
theorem shift_eq (z : Zone) (t : Time) (suffix : String) :
    shift z t suffix = (readSuffix suffix.toList).map (fun r => applyAll z (anchored z t r.1) r.2) := by
  unfold shift readSuffix
  generalize suffix.toList = cs
  split
  · rename_i after
    have hname : (fun c : Char => decide (c = '_') || decide ('a' ≤ c) && decide (c ≤ 'z')) = inName := rfl
    simp only [applyAnchor_eq, hname]
    cases readAnchor (String.ofList (after.takeWhile inName)) with
    | none => rfl
    | some a =>
      simp only [Option.map_some, applyOffsets_eq, Option.map_map]
      rfl
  · simp only [applyOffsets_eq, Option.map_map]
    rfl

/-! ### The written form -/

section Written
variable {s w rest : List Char} {os : List Offset}

def Spaces (s : List Char) : Prop := ∀ c ∈ s, isSpace c = true

/-- The white space of the text is spaces and tabs. -/
def Plain (s : List Char) : Prop := ∀ c ∈ s, isSpace c = true → c = ' ' ∨ c = '\t'

instance (s : List Char) : Decidable (Spaces s) := List.decidableBAll _ s

instance (s : List Char) : Decidable (Plain s) := List.decidableBAll _ s

/-- Nothing comes, or a blank or a sign. -/
def Stops (s : List Char) : Prop := Trimming.Begins (!isStop ·) s

/-- Offsets as they are written, with white space before and after the signs. -/
inductive Written : List Char → List Offset → Prop where
  | nothing {w : List Char} : Spaces w → Written w []
  | offset {w v digits name rest : List Char} {sign : Char} {unit : OffsetUnit} {n : Int} {os : List Offset} :
      Spaces w → (sign = '+' ∨ sign = '-') → Spaces v → digits ≠ [] → (∀ c ∈ digits, c.isDigit = true) → atoi digits = some n →
      readUnit (String.ofList name) = some unit → Stops rest → Written rest os →
      Written (w ++ sign :: (v ++ (digits ++ (name ++ rest)))) (⟨unit, if sign = '-' then -n else n⟩ :: os)

theorem Spaces.append {v : List Char} (hw : Spaces w) (hv : Spaces v) : Spaces (w ++ v) := by
  intro c hc
  rcases List.mem_append.mp hc with h | h
  · exact hw c h
  · exact hv c h

theorem Written.after (h : Written s os) (hw : Spaces w) : Written (w ++ s) os := by
  cases h with
  | nothing hs => exact .nothing (hw.append hs)
  | offset hv hsign hgap hne hdigits hn hunit hstops hrest =>
    rw [← List.append_assoc]
    exact .offset (hw.append hv) hsign hgap hne hdigits hn hunit hstops hrest

theorem stops_blank {c : Char} (h : c = ' ' ∨ c = '\t') (s : List Char) : Stops (c :: s) := by
  unfold Stops
  rw [Trimming.begins_cons]
  rcases h with rfl | rfl <;> rfl

/-- What may follow offsets: more of them behind a blank, or nothing but blanks. -/
theorem Written.append {b : List Char} {more : List Offset} (ha : Written s os) (hb : Written b more) (hstops : Stops b) :
    Written (s ++ b) (os ++ more) := by
  induction ha with
  | nothing hs => exact hb.after hs
  | offset hw hsign hgap hne hdigits hn hunit hrest _ ih =>
    simp only [List.append_assoc, List.cons_append]
    exact .offset hw hsign hgap hne hdigits hn hunit (Trimming.begins_append hrest hstops) ih

/-- The name of a unit is neither digits nor blanks nor signs. -/
theorem readUnit_name {name : List Char} {unit : OffsetUnit} (h : readUnit (String.ofList name) = some unit) :
    name ≠ [] ∧ ∀ c ∈ name, c.isDigit = false ∧ isSpace c = false ∧ isStop c = false := by
  have hname : name ∈ [['d'], ['w'], ['m', 'o'], ['h']] := by
    have hlist : ∀ {text : String}, String.ofList name = text → name = text.toList := by
      intro text htext
      rw [← htext, String.toList_ofList]
    unfold readUnit at h
    split at h
    · rename_i htext
      rw [hlist htext]
      decide
    · split at h
      · rename_i htext
        rw [hlist htext]
        decide
      · split at h
        · rename_i htext
          rw [hlist htext]
          decide
        · split at h
          · rename_i htext
            rw [hlist htext]
            decide
          · cases h
  have hnames : ∀ name ∈ [['d'], ['w'], ['m', 'o'], ['h']],
      name ≠ [] ∧ name.all (fun c => !c.isDigit && !isSpace c && !isStop c) = true := by decide
  obtain ⟨hne, hall⟩ := hnames name hname
  refine ⟨hne, fun c hc => ?_⟩
  simpa [and_assoc] using List.all_eq_true.mp hall c hc

theorem digit_not_space {c : Char} (h : c.isDigit = true) : isSpace c = false := by
  unfold Char.isDigit at h
  unfold isSpace
  simp only [Bool.and_eq_true, decide_eq_true_eq, UInt32.le_iff_toNat_le] at h
  have hlow : 48 ≤ c.toNat := h.1
  have hhigh : c.toNat ≤ 57 := h.2
  simp only [Bool.or_eq_false_iff, Bool.and_eq_false_iff, decide_eq_false_iff_not, beq_eq_false_iff_ne]
  omega

/-- The text from the first offset on, without the white space at its end. -/
def tail (s : List Char) : List Char := s.rdropWhile isSpace

theorem trimSpaceChars_tail (s : List Char) : trimSpaceChars (tail s) = trimSpaceChars s := by
  change ((s.rdropWhile isSpace).dropWhile isSpace).rdropWhile isSpace = (s.dropWhile isSpace).rdropWhile isSpace
  rw [← Trimming.rdropWhile_dropWhile, List.rdropWhile_idempotent, Trimming.rdropWhile_dropWhile]

/-- Trimming keeps what stands between white space and the end of a name. -/
theorem trimSpaceChars_named {core : List Char} {c : Char} (hw : Spaces w) (hfirst : Trimming.Begins isSpace (core ++ [c]))
    (hlast : isSpace c = false) (rest : List Char) :
    trimSpaceChars (w ++ (core ++ c :: rest)) = core ++ c :: tail rest := by
  change ((w ++ (core ++ c :: rest)).dropWhile isSpace).rdropWhile isSpace = _
  have hbegins : Trimming.Begins isSpace (core ++ c :: rest) := by
    cases core with
    | nil => exact Trimming.begins_cons.mpr hlast
    | cons d core => exact hfirst
  rw [(Trimming.takeWhile_run hw hbegins).2, Trimming.rdropWhile_barrier hlast]
  rfl

theorem stops_tail (h : Stops rest) : Stops (tail rest) := by
  obtain ⟨back, hback⟩ := List.rdropWhile_prefix isSpace (l := rest)
  intro c hc
  refine h c ?_
  rw [← hback]
  change c ∈ ((tail rest) ++ back).head?
  cases htail : tail rest with
  | nil =>
    rw [htail] at hc
    cases hc
  | cons d s =>
    rw [htail] at hc
    exact hc

/-- One offset is read as it is written. -/
theorem readOffset_written {v digits name : List Char} {sign : Char} {unit : OffsetUnit} {n : Int} (hsign : sign = '+' ∨ sign = '-')
    (hgap : Spaces v) (hne : digits ≠ []) (hdigits : ∀ c ∈ digits, c.isDigit = true) (hn : atoi digits = some n)
    (hunit : readUnit (String.ofList name) = some unit) (hstops : Stops (tail rest)) :
    readOffset (sign :: (v ++ (digits ++ (name ++ rest)))) = some (⟨unit, if sign = '-' then -n else n⟩, tail rest) := by
  obtain ⟨hname, hletters⟩ := readUnit_name hunit
  obtain ⟨front, last, rfl⟩ := List.eq_nil_or_concat name |>.resolve_left hname
  have htrim : trimSpaceChars (v ++ (digits ++ (front.concat last ++ rest))) = digits ++ (front.concat last ++ tail rest) := by
    obtain ⟨d, ds, rfl⟩ := List.exists_cons_of_ne_nil hne
    have hbegins : Trimming.Begins isSpace ((d :: ds ++ front) ++ [last]) :=
      Trimming.begins_cons.mpr (digit_not_space (hdigits d List.mem_cons_self))
    have hlast : isSpace last = false := (hletters last (by simp)).2.1
    have hnamed := trimSpaceChars_named hgap hbegins hlast rest
    simpa only [List.concat_eq_append, List.append_assoc, List.singleton_append] using hnamed
  have hrun := @Trimming.takeWhile_run _ _ digits (front.concat last ++ tail rest) hdigits (by
    intro c hc
    cases hfront : front.concat last with
    | nil => exact absurd hfront hname
    | cons d s =>
      rw [hfront] at hc
      cases hc
      exact (hletters c (by rw [hfront]; exact List.mem_cons_self)).1)
  have hnamerun := @Trimming.takeWhile_run _ (!isStop ·) (front.concat last) (tail rest)
    (fun c hc => by simp [(hletters c hc).2.2]) hstops
  simp only [readOffset]
  rw [if_pos hsign, htrim, hrun.1, if_neg hne, hn]
  simp only [hrun.2, hnamerun.1, hnamerun.2, hunit, Option.map_some]

theorem readOffsets_tail (fuel : Nat) (s : List Char) : readOffsets fuel (tail s) = readOffsets fuel s := by
  cases fuel with
  | zero =>
    unfold readOffsets
    rw [trimSpaceChars_tail]
  | succ fuel =>
    unfold readOffsets
    rw [trimSpaceChars_tail]

theorem trimSpaceChars_spaces (h : Spaces s) : trimSpaceChars s = [] := by
  change (s.dropWhile isSpace).rdropWhile isSpace = []
  rw [List.dropWhile_eq_nil_iff.mpr h, List.rdropWhile_nil]

theorem spaces_of_trimSpaceChars (h : trimSpaceChars s = []) : Spaces s := by
  obtain ⟨front, back, hs, hfront, hback⟩ := Trimming.trim_split (p := isSpace) s
  change s = front ++ trimSpaceChars s ++ back at hs
  rw [h, List.append_nil] at hs
  rw [hs]
  exact Spaces.append hfront hback

/-- The parts of an offset that is read. -/
theorem readOffset_cases {sign : Char} {cs : List Char} {o : Offset} (h : readOffset (sign :: cs) = some (o, rest)) :
    ∃ v digits name gap unit n, o = ⟨unit, if sign = '-' then -n else n⟩ ∧ cs = v ++ (digits ++ (name ++ (rest ++ gap))) ∧
      (sign = '+' ∨ sign = '-') ∧ Spaces v ∧ Spaces gap ∧ digits ≠ [] ∧ (∀ c ∈ digits, c.isDigit = true) ∧
        atoi digits = some n ∧ readUnit (String.ofList name) = some unit ∧ Stops rest := by
  obtain ⟨front, back, hcs, hfront, hback⟩ := Trimming.trim_split (p := isSpace) cs
  change cs = front ++ trimSpaceChars cs ++ back at hcs
  simp only [readOffset] at h
  split at h
  · rename_i hsign
    split at h
    · cases h
    · rename_i hne
      split at h
      · cases h
      · rename_i n hn
        obtain ⟨unit, hunit, heq⟩ := Option.map_eq_some_iff.mp h
        simp only [Prod.mk.injEq] at heq
        obtain ⟨rfl, rfl⟩ := heq
        refine ⟨front, _, _, back, unit, n, rfl, ?_, hsign, hfront, hback, hne, fun c hc => List.mem_takeWhile_imp hc, hn, hunit,
          Trimming.begins_dropWhile _⟩
        conv_lhs => rw [hcs]
        rw [← List.append_assoc (List.takeWhile _ (List.dropWhile Char.isDigit _)), List.takeWhile_append_dropWhile,
          ← List.append_assoc (List.takeWhile _ _), List.takeWhile_append_dropWhile, List.append_assoc]
  · cases h

/-- Whatever is written is read. -/
theorem readOffsets_written (h : Written s os) {fuel : Nat} (hfuel : s.length ≤ fuel) : readOffsets fuel s = some os := by
  induction h generalizing fuel with
  | nothing hs =>
    unfold readOffsets
    rw [trimSpaceChars_spaces hs]
  | @offset w v digits name rest sign unit n os hw hsign hgap hne hdigits hn hunit hstops hrest ih =>
    obtain ⟨fuel, rfl⟩ : ∃ m, fuel = m + 1 := ⟨fuel - 1, by simp at hfuel; omega⟩
    have hless : rest.length ≤ fuel := by
      simp only [List.length_append, List.length_cons] at hfuel
      omega
    have htrim : trimSpaceChars (w ++ sign :: (v ++ (digits ++ (name ++ rest)))) = sign :: (v ++ (digits ++ (name ++ tail rest))) := by
      obtain ⟨hname, hletters⟩ := readUnit_name hunit
      obtain ⟨front, last, rfl⟩ := List.eq_nil_or_concat name |>.resolve_left hname
      have hbegins : Trimming.Begins isSpace ((sign :: (v ++ digits ++ front)) ++ [last]) := by
        refine Trimming.begins_cons.mpr ?_
        rcases hsign with rfl | rfl <;> rfl
      have hlast : isSpace last = false := (hletters last (by simp)).2.1
      have hnamed := trimSpaceChars_named hw hbegins hlast rest
      simpa only [List.concat_eq_append, List.append_assoc, List.singleton_append, List.cons_append, List.nil_append] using hnamed
    have hread := readOffset_written hsign hgap hne hdigits hn hunit (stops_tail (stops_tail hstops))
    have hagain : tail (tail rest) = tail rest := List.rdropWhile_idempotent isSpace rest
    unfold readOffsets
    rw [htrim]
    dsimp only
    rw [hread]
    dsimp only
    rw [hagain, readOffsets_tail, ih hless, Option.map_some]

theorem Plain.of_subset {t : List Char} (h : Plain s) (hsub : t ⊆ s) : Plain t := fun c hc => h c (hsub hc)

theorem written_spaces (hs : Plain s) (hspaces : Spaces s) : Stops s := by
  cases s with
  | nil => exact Trimming.begins_nil
  | cons c s => exact stops_blank (hs c List.mem_cons_self (hspaces c List.mem_cons_self)) s

/-- What is read is written so, if the white space is plain. -/
theorem written_of_readOffsets {fuel : Nat} (hplain : Plain s) (h : readOffsets fuel s = some os) : Written s os := by
  induction fuel generalizing s os with
  | zero =>
    unfold readOffsets at h
    cases htrim : trimSpaceChars s with
    | nil =>
      rw [htrim] at h
      cases h
      exact .nothing (spaces_of_trimSpaceChars htrim)
    | cons c cs =>
      rw [htrim] at h
      cases h
  | succ fuel ih =>
    unfold readOffsets at h
    cases htrim : trimSpaceChars s with
    | nil =>
      rw [htrim] at h
      cases h
      exact .nothing (spaces_of_trimSpaceChars htrim)
    | cons sign cs =>
      rw [htrim] at h
      dsimp only at h
      cases hread : readOffset (sign :: cs) with
      | none =>
        rw [hread] at h
        cases h
      | some p =>
        obtain ⟨o, rest⟩ := p
        rw [hread] at h
        obtain ⟨more, hmore, rfl⟩ := Option.map_eq_some_iff.mp h
        obtain ⟨front, back, hs, hfront, hback⟩ := Trimming.trim_split (p := isSpace) s
        change s = front ++ trimSpaceChars s ++ back at hs
        rw [htrim] at hs
        obtain ⟨v, digits, name, gap, unit, n, rfl, hcs, hsign, hv, hgap, hne, hdigits, hn, hunit, hstops⟩ := readOffset_cases hread
        have htext : s = front ++ sign :: (v ++ (digits ++ (name ++ (rest ++ (gap ++ back))))) := by
          rw [hs, hcs]
          simp
        have hsub : rest ++ (gap ++ back) ⊆ s := by
          rw [htext]
          intro c hc
          simp only [List.mem_append, List.mem_cons] at hc ⊢
          tauto
        have hpad : Spaces (gap ++ back) := hgap.append hback
        have hplainPad : Plain (gap ++ back) := hplain.of_subset (fun c hc => hsub (List.mem_append_right _ hc))
        have hrest := ih (hplain.of_subset (fun c hc => hsub (List.mem_append_left _ hc))) hmore
        have hlonger := hrest.append (.nothing hpad) (written_spaces hplainPad hpad)
        rw [List.append_nil] at hlonger
        rw [htext]
        exact .offset hfront hsign hv hne hdigits hn hunit
          (Trimming.begins_append hstops (written_spaces hplainPad hpad)) hlonger

end Written

end Cronova.Text.DateTmpl
