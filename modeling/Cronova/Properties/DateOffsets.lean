import Cronova.Parser.Canonical
import Cronova.Text.DateGrammar

/-! What date expressions are accepted, how they compose, and which offsets are exact.
A suffix is read without looking at the instant; what was read is then applied from
left to right. Hours and weeks are multiplied in 64 bits, and nothing checks the
product. -/
namespace Cronova.Properties.DateOffsets
open Cronova.Model Cronova.Text Cronova.Text.DateTmpl

variable {z : Zone} {t t' : Time} {s rest : List Char} {r : Option Time}

/-! ### Acceptance -/

theorem shift_isSome (z : Zone) (t : Time) (suffix : String) : (shift z t suffix).isSome = (readSuffix suffix.toList).isSome := by
  rw [shift_eq, Option.isSome_map]

/-- The loop over the offsets of a suffix, as long as it takes. -/
inductive Loop (z : Zone) : Time → List Char → Option Time → Prop where
  | finished {t : Time} {s : List Char} : trimSpaceChars s = [] → Loop z t s (some t)
  | refused {t : Time} {s cs : List Char} {c : Char} : trimSpaceChars s = c :: cs → applyOffset z t (c :: cs) = none → Loop z t s none
  | next {t t' : Time} {s cs rest : List Char} {c : Char} {r : Option Time} : trimSpaceChars s = c :: cs →
      applyOffset z t (c :: cs) = some (t', rest) → Loop z t' rest r → Loop z t s r

/-- The anchor, if there is one, and then the loop. -/
def Shifts (z : Zone) (t : Time) (suffix : String) (r : Option Time) : Prop :=
  match suffix.toList with
  | '.' :: after =>
    match applyAnchor z t (String.ofList (after.takeWhile inName)) with
    | none => r = none
    | some t => Loop z t (after.dropWhile inName) r
  | cs => Loop z t cs r

/-- The loop has one result at most. -/
theorem Loop.unique {r' : Option Time} (h : Loop z t s r) (h' : Loop z t s r') : r = r' := by
  induction h with
  | finished htrim =>
    cases h' with
    | finished => rfl
    | refused htrim' | next htrim' =>
      rw [htrim] at htrim'
      cases htrim'
  | refused htrim happly =>
    cases h' with
    | finished htrim' =>
      rw [htrim] at htrim'
      cases htrim'
    | refused => rfl
    | next htrim' happly' =>
      rw [htrim] at htrim'
      cases htrim'
      rw [happly] at happly'
      cases happly'
  | next htrim happly _ ih =>
    cases h' with
    | finished htrim' =>
      rw [htrim] at htrim'
      cases htrim'
    | refused htrim' happly' =>
      rw [htrim] at htrim'
      cases htrim'
      rw [happly] at happly'
      cases happly'
    | next htrim' happly' hrest =>
      rw [htrim] at htrim'
      cases htrim'
      rw [happly] at happly'
      cases happly'
      exact ih hrest

/-- The loop ends: every round takes a token off the text. -/
theorem loop_applyOffsets {fuel : Nat} (hfuel : s.length ≤ fuel) : Loop z t s (applyOffsets z fuel t s) := by
  induction fuel generalizing t s with
  | zero =>
    have hnil : s = [] := List.eq_nil_of_length_eq_zero (by omega)
    subst hnil
    exact .finished rfl
  | succ fuel ih =>
    have hlength := trimSpaceChars_length_le s
    unfold applyOffsets
    cases htrim : trimSpaceChars s with
    | nil => exact .finished htrim
    | cons c cs =>
      rw [htrim] at hlength
      dsimp only
      cases happly : applyOffset z t (c :: cs) with
      | none => exact .refused htrim happly
      | some p =>
        obtain ⟨t', rest⟩ := p
        have hless := applyOffset_length_lt happly
        exact .next htrim happly (ih (by omega))

theorem shifts_offsets {suffix : String} (h : suffix.toList.head? ≠ some '.') : Shifts z t suffix r ↔ Loop z t suffix.toList r := by
  unfold Shifts
  split
  · rename_i heq
    rw [heq] at h
    exact absurd rfl h
  · rfl

theorem shift_offsets {suffix : String} (h : suffix.toList.head? ≠ some '.') :
    shift z t suffix = applyOffsets z suffix.toList.length t suffix.toList := by
  unfold shift
  split
  · rename_i heq
    rw [heq] at h
    exact absurd rfl h
  · rfl

theorem loop_iff : Loop z t s r ↔ applyOffsets z s.length t s = r := by
  constructor
  · intro h
    exact (loop_applyOffsets (Nat.le_refl _)).unique h
  · intro h
    rw [← h]
    exact loop_applyOffsets (Nat.le_refl _)

/-- The unbounded loop of a suffix comes to an end, with the result of the bounded one. -/
theorem shifts_iff (z : Zone) (t : Time) (suffix : String) (r : Option Time) : Shifts z t suffix r ↔ shift z t suffix = r := by
  by_cases hdot : suffix.toList.head? = some '.'
  · obtain ⟨after, hafter⟩ := List.head?_eq_some_iff.mp hdot
    unfold Shifts shift
    rw [hafter]
    change (match applyAnchor z t (String.ofList (after.takeWhile inName)) with
      | none => r = none
      | some t => Loop z t (after.dropWhile inName) r) ↔ (match applyAnchor z t (String.ofList (after.takeWhile inName)) with
      | none => none
      | some t => applyOffsets z (after.dropWhile inName).length t (after.dropWhile inName)) = r
    cases applyAnchor z t (String.ofList (after.takeWhile inName)) with
    | none => exact eq_comm
    | some t => exact loop_iff
  · rw [shifts_offsets hdot, shift_offsets hdot]
    exact loop_iff

/-! ### Composition -/

/-- No white space but spaces and tabs. -/
def PlainText (s : String) : Prop := Plain s.toList

/-- The text has no anchor. -/
def OffsetsOnly (s : String) : Prop := s.toList.head? ≠ some '.'

theorem readOffsets_append {a b : List Char} {xs ys : List Offset} {n m : Nat} (ha : Plain a) (hb : Plain b)
    (hxs : readOffsets n a = some xs) (hys : readOffsets m b = some ys) :
    readOffsets (a ++ ' ' :: b).length (a ++ ' ' :: b) = some (xs ++ ys) := by
  have hfront := written_of_readOffsets ha hxs
  have hback := written_of_readOffsets hb hys
  have hspace : Spaces [' '] := by decide
  exact readOffsets_written (hfront.append (hback.after hspace) (stops_blank (.inl rfl) b)) (Nat.le_refl _)

theorem readSuffix_offsets {cs : List Char} (h : cs.head? ≠ some '.') :
    readSuffix cs = (readOffsets cs.length cs).map (fun os => (none, os)) := by
  unfold readSuffix
  split
  · exact absurd rfl h
  · rfl

/-- What is said by two suffixes, one after the other. -/
theorem readSuffix_append {a b : List Char} {anchor : Option Anchor} {xs ys : List Offset} (ha : Plain a) (hb : Plain b)
    (hxs : readSuffix a = some (anchor, xs)) (hys : readOffsets b.length b = some ys) :
    readSuffix (a ++ ' ' :: b) = some (anchor, xs ++ ys) := by
  by_cases hdot : a.head? = some '.'
  · obtain ⟨after, rfl⟩ := List.head?_eq_some_iff.mp hdot
    obtain ⟨htake, hdrop⟩ := Trimming.takeWhile_barrier (p := inName) (a := ' ') rfl after b
    simp only [readSuffix] at hxs
    rw [List.cons_append]
    simp only [readSuffix, htake, hdrop]
    cases hanchor : readAnchor (String.ofList (after.takeWhile inName)) with
    | none =>
      rw [hanchor] at hxs
      cases hxs
    | some found =>
      rw [hanchor] at hxs
      obtain ⟨os, hos, heq⟩ := Option.map_eq_some_iff.mp hxs
      cases heq
      have hplain : Plain (after.dropWhile inName) :=
        ha.of_subset (fun c hc => List.mem_cons_of_mem _ ((List.dropWhile_suffix inName).subset hc))
      dsimp only
      rw [readOffsets_append hplain hb hos hys, Option.map_some]
  · rw [readSuffix_offsets hdot] at hxs
    obtain ⟨os, hos, heq⟩ := Option.map_eq_some_iff.mp hxs
    cases heq
    have hboth : (a ++ ' ' :: b).head? ≠ some '.' := by
      cases a with
      | nil => simp
      | cons c a => exact hdot
    rw [readSuffix_offsets hboth, readOffsets_append ha hb hos hys, Option.map_some]

theorem shift_append {a b : String} (ha : PlainText a) (hb : PlainText b) (honly : OffsetsOnly b) (hfirst : shift z t a = some t')
    (hsecond : (shift z t' b).isSome) : shift z t (a ++ " " ++ b) = shift z t' b := by
  rw [shift_eq] at hfirst
  obtain ⟨⟨anchor, xs⟩, hxs, heq⟩ := Option.map_eq_some_iff.mp hfirst
  dsimp only at heq
  rw [shift_isSome, readSuffix_offsets honly, Option.isSome_map] at hsecond
  obtain ⟨ys, hys⟩ := Option.isSome_iff_exists.mp hsecond
  have htext : (a ++ " " ++ b).toList = a.toList ++ ' ' :: b.toList := by
    rw [String.toList_append, String.toList_append, List.append_assoc]
    rfl
  rw [shift_eq, htext, readSuffix_append ha hb hxs hys, shift_eq, readSuffix_offsets honly, hys]
  simp only [Option.map_some, applyAll, anchored, List.foldl_append]
  rw [← heq]
  rfl

/-- Whether a suffix is accepted does not depend on the instant or the zone, so that
what the parser has accepted never fails at run time. Every suffix comes to a result.
Offsets behind an accepted suffix go on from where it ends. -/
theorem shift_compositional :
    (∀ (utc z₁ z₂ : Zone) (t₁ t₂ : Time) (s : String), (shift z₁ t₁ s).isSome = (shift z₂ t₂ s).isSome ∧
      validOffset utc s = (shift z₁ t₁ s).isSome) ∧
    (∀ (env : Parser.Env) (y : Parser.DagYAML) (task : Parser.TaskYAML) (dep : Parser.DependsOnDagYAML) (d : DependsOnDag),
      Parser.parseDependsOnDag env y task dep = .ok d → ∀ (z : Zone) (t : Time), shift z t d.offset ≠ none) ∧
    (∀ (z : Zone) (t : Time) (s : String) (r : Option Time), Shifts z t s r ↔ shift z t s = r) ∧
    ∀ (z : Zone) (t t' : Time) (a b : String), PlainText a → PlainText b → OffsetsOnly b → shift z t a = some t' →
      (shift z t' b).isSome → shift z t (a ++ " " ++ b) = shift z t' b := by
  refine ⟨fun utc z₁ z₂ t₁ t₂ s => ⟨?_, ?_⟩, fun env y task dep d hd z t => ?_, shifts_iff, fun _ _ _ _ _ => shift_append⟩
  · rw [shift_isSome, shift_isSome]
  · unfold validOffset
    rw [shift_isSome, shift_isSome]
  · obtain ⟨-, -, hvalid, -, -, hd⟩ := Parser.parseDependsOnDag_iff.mp hd
    rw [← Option.isSome_iff_ne_none, shift_isSome, hd]
    unfold validOffset at hvalid
    rw [shift_isSome] at hvalid
    exact hvalid

/-- An instant that is out of range comes back at the other end. -/
def wrapped (x : Int) : Int := Int.bmod (x + 62135596800000000000) 18446744073709551616000000000 - 62135596800000000000

/-- A zone without a calendar of months: every day has 24 hours. -/
def dayZone : Zone where
  date _ := (1970, 1, 1)
  weekday _ := 4
  midnight _ _ d := (d - 1) * (24 * 3600 * second)
  addDate t _ _ days := wrapped (t + days * (24 * 3600 * second))

/-- ` - 1d +2h`, an anchor, and ` + 3w`. -/
theorem shift_compositional_example :
    shift dayZone 0 (".month_start -1d +2h" ++ " " ++ "+ 3w") =
      shift dayZone (-22 * 3600 * second) "+ 3w" :=
  shift_compositional.2.2.2 dayZone 0 (-22 * 3600 * second) ".month_start -1d +2h" "+ 3w"
    (by unfold PlainText; decide +kernel) (by unfold PlainText; decide +kernel) (by unfold OffsetsOnly; decide +kernel)
    (by decide +kernel) (by decide +kernel)

/-! ### Exactness -/

def hour : Int := 3600 * second

/-- The instant is one that a time can hold. -/
def Held (t : Time) : Prop := minTime ≤ t ∧ t < endTime

/-- An instant moved by a number of calendar days, which are 24 hours long up to what
the offset of the zone changes. `addDate` does this as long as the result can be held. -/
structure CalendarDays (z : Zone) where
  move : Time → Int → Time
  near : ∀ t n, t + n * (24 * hour) - 48 * hour ≤ move t n ∧ move t n ≤ t + n * (24 * hour) + 48 * hour
  exact : ∀ t n, int64 n = n → Held (move t n) → z.addDate t 0 0 n = move t n
  held : ∀ t n, Held (z.addDate t 0 0 n)

/-- The amount of an offset, with its sign. -/
def signed (sign : Char) (n : Int) : Int := if sign = '-' then -n else n

theorem int64_eq_self_iff {x : Int} : int64 x = x ↔ -2 ^ 63 ≤ x ∧ x < 2 ^ 63 := by
  rw [int64, Int.bmod_def]
  constructor
  · intro h
    split at h <;> omega
  · rintro ⟨hlow, hhigh⟩
    split <;> omega

theorem int64_range (x : Int) : -2 ^ 63 ≤ int64 x ∧ int64 x < 2 ^ 63 := by
  rw [int64, Int.bmod_def]
  split <;> omega

/-- Between two instants that can be held there are not many days. -/
theorem held_days {t x n : Int} (ht : minTime ≤ t ∧ t < endTime) (hx : minTime ≤ x ∧ x < endTime)
    (hnear : t + n * (24 * hour) - 48 * hour ≤ x ∧ x ≤ t + n * (24 * hour) + 48 * hour) : int64 n = n := by
  rw [int64_eq_self_iff]
  rw [minTime_eq, endTime_eq] at ht hx
  rw [show hour = 3600000000000 from rfl] at hnear
  omega

/-- A number of days is added exactly if the result can be held. -/
theorem addDate_exact_iff (c : CalendarDays z) (ht : Held t) (n : Int) :
    z.addDate t 0 0 (int64 n) = c.move t n ↔ Held (c.move t n) := by
  constructor
  · intro h
    rw [← h]
    exact c.held t (int64 n)
  · intro h
    have hfits := held_days ht h (c.near t n)
    rw [hfits, c.exact t n hfits h]

/-- A duration is added exactly if the result can be held. -/
theorem addDuration_exact {t d : Int} (h : minTime ≤ t + d ∧ t + d < endTime) : addDuration t d = t + d := by
  unfold addDuration
  rw [if_neg (Int.not_le.mpr h.2), if_neg (Int.not_lt.mpr h.1)]

/-- What a sum is cut to stays in the first or the last seconds. -/
theorem addDuration_cases (t d : Int) : (minTime ≤ t + d ∧ t + d < endTime) ∨
    (endTime ≤ t + d ∧ endTime - second ≤ addDuration t d ∧ addDuration t d < endTime) ∨
    (t + d < minTime ∧ minTime ≤ addDuration t d ∧ addDuration t d < minTime + 2 * second) := by
  have hlow := Int.emod_nonneg (t + d) (b := second) (by decide)
  have hhigh := Int.emod_lt_of_pos (t + d) (b := second) (by decide)
  have hsecond : second = 1000000000 := rfl
  by_cases hend : endTime ≤ t + d
  · have hcut : addDuration t d = endTime - second + (t + d) % second := if_pos hend
    rw [hcut]
    exact .inr (.inl ⟨hend, by omega, by omega⟩)
  · by_cases hmin : t + d < minTime
    · have hcut : addDuration t d = minTime + second + (t + d) % second := (if_neg hend).trans (if_pos hmin)
      rw [hcut]
      exact .inr (.inr ⟨hmin, by omega, by omega⟩)
    · exact .inl ⟨by omega, by omega⟩

theorem addDuration_held (t d : Int) : minTime ≤ addDuration t d ∧ addDuration t d < endTime := by
  have hmin := minTime_eq
  have hend := endTime_eq
  have hsecond : second = 1000000000 := rfl
  obtain hin | hcut | hcut := addDuration_cases t d
  · rw [addDuration_exact hin]
    exact hin
  · omega
  · omega

/-- Hours are added exactly if their product fits and the result can be held. -/
theorem addHours_exact_iff {t : Int} (d : Int) (ht : minTime ≤ t ∧ t < endTime) :
    addDuration t (int64 d) = t + d ↔ int64 d = d ∧ minTime ≤ t + d ∧ t + d < endTime := by
  constructor
  · intro h
    have hheld := addDuration_held t (int64 d)
    have hrange := int64_range d
    have hsecond : second = 1000000000 := rfl
    have hcases := addDuration_cases t (int64 d)
    refine ⟨?_, by omega, by omega⟩
    obtain hin | hcut | hcut := hcases
    · rw [addDuration_exact hin] at h
      omega
    · -- the result is in the last second, and so the product is small
      rw [int64_eq_self_iff]
      omega
    · rw [int64_eq_self_iff]
      omega
  · rintro ⟨hfits, hheld⟩
    rw [hfits, addDuration_exact hheld]

theorem applyOffset_written {v digits name : List Char} {sign : Char} {unit : OffsetUnit} {n : Int} (z : Zone) (t : Time)
    (hsign : sign = '+' ∨ sign = '-') (hgap : Spaces v) (hne : digits ≠ []) (hdigits : ∀ c ∈ digits, c.isDigit = true)
    (hn : atoi digits = some n) (hunit : readUnit (String.ofList name) = some unit) (hstops : Stops (tail rest)) :
    applyOffset z t (sign :: (v ++ (digits ++ (name ++ rest)))) = some (Offset.apply z t ⟨unit, signed sign n⟩, tail rest) := by
  rw [applyOffset_eq, readOffset_written hsign hgap hne hdigits hn hunit hstops]
  rfl

/-- An offset that is accepted has this form. -/
theorem applyOffset_accepted (h : applyOffset z t s = some (t', rest)) :
    ∃ sign gap digits name after unit n, s = sign :: (gap ++ (digits ++ (name ++ after))) ∧ (sign = '+' ∨ sign = '-') ∧ Spaces gap ∧
      digits ≠ [] ∧ (∀ c ∈ digits, c.isDigit = true) ∧ atoi digits = some n ∧ readUnit (String.ofList name) = some unit ∧
        Stops (tail after) ∧ t' = Offset.apply z t ⟨unit, signed sign n⟩ := by
  rw [applyOffset_eq] at h
  obtain ⟨⟨o, rest'⟩, hread, heq⟩ := Option.map_eq_some_iff.mp h
  rw [Prod.mk.injEq] at heq
  obtain ⟨hout, rfl⟩ := heq
  cases s with
  | nil => cases hread
  | cons sign cs =>
    obtain ⟨gap, digits, name, back, unit, n, rfl, hcs, hsign, hgap, hback, hne, hdigits, hn, hunit, hstops⟩ := readOffset_cases hread
    have htail : tail (rest' ++ back) = tail rest' := by
      unfold tail List.rdropWhile
      rw [List.reverse_append, List.dropWhile_append_of_pos (fun c hc => hback c (List.mem_reverse.mp hc))]
    refine ⟨sign, gap, digits, name, rest' ++ back, unit, n, by rw [hcs], hsign, hgap, hne, hdigits, hn, hunit, ?_, hout.symm⟩
    rw [htail]
    exact stops_tail hstops

theorem atoi_range {digits : List Char} {n : Int} (h : atoi digits = some n) : 0 ≤ n ∧ n < 2 ^ 63 := by
  simp only [atoi] at h
  split at h
  · rename_i hlt
    cases h
    omega
  · cases h

/-- An offset of hours is exact exactly up to 2562047 of them, and one of weeks as long as
the day it leads to can be held. -/
theorem applyOffset_exact_iff (z : Zone) (c : CalendarDays z) (t : Time) (sign : Char) (gap digits rest : List Char) (n : Int)
    (ht : Held t) (hsign : sign = '+' ∨ sign = '-') (hgap : Spaces gap) (hne : digits ≠ [])
    (hdigits : ∀ c ∈ digits, c.isDigit = true) (hn : atoi digits = some n) (hstops : Stops (tail rest)) :
    (applyOffset z t (sign :: (gap ++ (digits ++ (['h'] ++ rest)))) = some (t + signed sign n * hour, tail rest) ↔
      n ≤ 2562047 ∧ Held (t + signed sign n * hour)) ∧
    (applyOffset z t (sign :: (gap ++ (digits ++ (['w'] ++ rest)))) = some (c.move t (7 * signed sign n), tail rest) ↔
      Held (c.move t (7 * signed sign n))) := by
  obtain ⟨hlow, hhigh⟩ := atoi_range hn
  constructor
  · rw [applyOffset_written z t hsign hgap hne hdigits hn (show readUnit (String.ofList ['h']) = some .hours by decide) hstops]
    have hexact := addHours_exact_iff (signed sign n * hour) ht
    have hfits : int64 (signed sign n * hour) = signed sign n * hour ↔ n ≤ 2562047 := by
      rw [int64_eq_self_iff]
      unfold signed hour second
      split <;> omega
    rw [Option.some.injEq, Prod.mk.injEq, and_iff_left rfl]
    rw [hfits] at hexact
    exact hexact
  · rw [applyOffset_written z t hsign hgap hne hdigits hn (show readUnit (String.ofList ['w']) = some .weeks by decide) hstops]
    rw [Option.some.injEq, Prod.mk.injEq, and_iff_left rfl]
    exact addDate_exact_iff c ht (7 * signed sign n)

theorem wrapped_held (x : Int) : minTime ≤ wrapped x ∧ wrapped x < endTime := by
  have hlow := Int.le_bmod (x := x + 62135596800000000000) (m := 18446744073709551616000000000) (by decide)
  have hhigh := Int.bmod_lt (x := x + 62135596800000000000) (m := 18446744073709551616000000000) (by decide)
  rw [minTime_eq, endTime_eq]
  unfold wrapped
  omega

theorem wrapped_self {x : Int} (h : minTime ≤ x ∧ x < endTime) : wrapped x = x := by
  rw [minTime_eq, endTime_eq] at h
  unfold wrapped
  rw [Int.bmod_def]
  split <;> omega

/-- Days of 24 hours. -/
def dayZoneDays : CalendarDays dayZone where
  move t n := t + n * (24 * 3600 * second)
  near := by
    have hnear : ∀ x n : Int, x + n * (24 * hour) - 48 * hour ≤ x + n * (24 * 3600 * second) ∧
        x + n * (24 * 3600 * second) ≤ x + n * (24 * hour) + 48 * hour := by
      intro x n
      rw [show (24 * 3600 * second : Int) = 24 * hour from rfl]
      have hpos : (0 : Int) ≤ 48 * hour := by decide
      exact ⟨by omega, by omega⟩
    exact hnear
  exact _ _ _ h := wrapped_self h
  held _ _ := wrapped_held _

theorem applyOffset_exact_iff_day :
    (applyOffset dayZone 0 "- 24h".toList = some (0 + signed '-' 24 * hour, tail []) ↔ (24 : Int) ≤ 2562047 ∧ Held (0 + signed '-' 24 * hour)) ∧
    (applyOffset dayZone 0 "- 24w".toList = some (dayZoneDays.move 0 (7 * signed '-' 24), tail []) ↔
      Held (dayZoneDays.move 0 (7 * signed '-' 24))) :=
  applyOffset_exact_iff dayZone dayZoneDays 0 '-' [' '] ['2', '4'] [] 24 (by unfold Held; decide) (.inr rfl)
    (by decide) nofun (List.all_eq_true.mp rfl) (by decide) Trimming.begins_nil

/-- `+2562048h` leads almost three hundred years back. -/
theorem applyOffset_not_exact : ¬ ∀ (z : Zone) (_ : CalendarDays z) (t : Time) (digits : List Char) (n : Int), Held t → digits ≠ [] →
    (∀ c ∈ digits, c.isDigit = true) → atoi digits = some n →
      applyOffset z t ('+' :: (digits ++ ['h'])) = some (t + n * hour, []) := by
  intro h
  have hexact := h dayZone dayZoneDays 0 "2562048".toList 2562048 (by unfold Held; decide) (by decide) (List.all_eq_true.mp rfl) (by decide)
  have hwrong : applyOffset dayZone 0 ('+' :: ("2562048".toList ++ ['h'])) = some (-9223371273709551616, []) := by decide +kernel
  rw [hwrong] at hexact
  exact absurd hexact (by decide)

end Cronova.Properties.DateOffsets
