import Cronova.Text.Strings
import Cronova.Model.Types

/-! The date-expression grammar of templates and cross-DAG offsets: an optional
anchor, then signed offsets applied from left to right, then a format. -/
namespace Cronova.Text
open Cronova.Model

/-- Calendar arithmetic of one time zone, as the standard library provides it. -/
structure Zone where
  /-- year, month and day of an instant. -/
  date : Time → Int × Int × Int
  /-- day of the week of an instant, Sunday being 0. -/
  weekday : Time → Int
  /-- midnight of a (possibly out of range) calendar day. -/
  midnight : Int → Int → Int → Time
  /-- an instant moved by years, months and days. -/
  addDate : Time → Int → Int → Int → Time

/-- A time zone with the wall clock of an instant: hour, minute and second, and
its RFC 3339 text. -/
structure Calendar extends Zone where
  clock : Time → Int × Int × Int
  rfc3339 : Time → String

namespace DateTmpl

/-- An instant counts its seconds from the year 1, in 64 bits. -/
def minTime : Int := zeroTime - 2 ^ 63 * second

/-- The first instant that is too late. -/
def endTime : Int := zeroTime + 2 ^ 63 * second

theorem minTime_eq : minTime = -9223372098990372608000000000 := rfl

theorem endTime_eq : endTime = 9223371974719179008000000000 := rfl

/-- The seconds stop at the ends of the range; what is below a second is kept. -/
def addDuration (t d : Int) : Int :=
  let sum := t + d
  if endTime ≤ sum then endTime - second + sum % second
  else if sum < minTime then minTime + second + sum % second
  else sum

def applyAnchor (z : Zone) (t : Time) (name : String) : Option Time :=
  let (y, m, d) := z.date t
  if name = "month_start" then some (z.midnight y m 1)
  else if name = "month_end" then some (z.addDate (z.midnight y m 1) 0 1 (-1))
  else if name = "week_start" then some (z.addDate (z.midnight y m d) 0 0 (-((z.weekday t + 6) % 7)))
  else if name = "week_end" then some (z.addDate (z.midnight y m d) 0 0 (6 - (z.weekday t + 6) % 7))
  else none

/-- The value of a run of decimal digits, refused beyond a 64-bit integer. -/
def atoi (digits : List Char) : Option Int :=
  let n : Nat := digits.foldl (fun n c => 10 * n + (c.toNat - 48)) 0
  if n < 2 ^ 63 then some (n : Int) else none

/-- Consume one leading `±N<unit>` token and return the remainder. -/
def applyOffset (z : Zone) (t : Time) : List Char → Option (Time × List Char)
  | [] => none
  | c :: cs =>
    if c = '+' ∨ c = '-' then
      let s := trimSpaceChars cs
      let digits := s.takeWhile Char.isDigit
      if digits = [] then none
      else
        match atoi digits with
        | none => none
        | some n =>
          let n := if c = '-' then -n else n
          let s := s.dropWhile Char.isDigit
          let stop (c : Char) : Bool := c = ' ' || c = '\t' || c = '+' || c = '-'
          let unit := String.ofList (s.takeWhile (!stop ·))
          let rest := s.dropWhile (!stop ·)
          if unit = "d" then some (z.addDate t 0 0 n, rest)
          else if unit = "w" then some (z.addDate t 0 0 (int64 (7 * n)), rest)
          else if unit = "mo" then some (z.addDate t 0 n 0, rest)
          else if unit = "h" then some (addDuration t (int64 (n * (3600 * second))), rest)
          else none
    else none

/-- Apply offset tokens until the text is used up. A token is never empty, so
the length of the text bounds the number of tokens. -/
def applyOffsets (z : Zone) : (fuel : Nat) → Time → List Char → Option Time
  | fuel, t, s =>
    match trimSpaceChars s, fuel with
    | [], _ => some t
    | _ :: _, 0 => none
    | c :: cs, fuel + 1 =>
      match applyOffset z t (c :: cs) with
      | none => none
      | some (t, rest) => applyOffsets z fuel t rest

/-- Apply an anchor/offset suffix to an instant. -/
def shift (z : Zone) (t : Time) (suffix : String) : Option Time :=
  match suffix.toList with
  | '.' :: after =>
    let inName (c : Char) : Bool := c = '_' || ('a' ≤ c && c ≤ 'z')
    let rest := after.dropWhile inName
    match applyAnchor z t (String.ofList (after.takeWhile inName)) with
    | none => none
    | some t => applyOffsets z rest.length t rest
  | cs => applyOffsets z cs.length t cs

/-- Whether a suffix parses, tried at the epoch. -/
def validOffset (utc : Zone) (suffix : String) : Bool := (shift utc 0 suffix).isSome

def pad2 (n : Int) : List Char := (if n < 10 then "0" ++ toString n else toString n).toList

/-- `2006-01-02` -/
def dateOnly (c : Calendar) (t : Time) : String :=
  let (y, m, d) := c.date t
  let year := toString y.natAbs
  let year := String.ofList (List.replicate (4 - year.length) '0') ++ year
  (if y < 0 then "-" else "") ++ year ++ "-" ++ String.ofList (pad2 m) ++ "-" ++ String.ofList (pad2 d)

/-- Render an instant through a format; an unknown token rejects the whole. -/
def formatStrftime (c : Calendar) (t : Time) : List Char → Option (List Char)
  | [] => some []
  | '%' :: token :: f =>
    let (y, m, d) := c.date t
    let (hour, minute, sec) := c.clock t
    let text : Option (List Char) := match token with
      | 'Y' => some (toString y).toList
      | 'y' => some (pad2 (Int.tmod y 100))
      | 'm' => some (pad2 m)
      | 'd' => some (pad2 d)
      | 'H' => some (pad2 hour)
      | 'M' => some (pad2 minute)
      | 'S' => some (pad2 sec)
      | '%' => some ['%']
      | _ => none
    text.bind (fun text => (formatStrftime c t f).map (text ++ ·))
  | ch :: f => if ch = '%' then none else (formatStrftime c t f).map (ch :: ·)

/-- Split an expression from its format at the first bar. -/
def cutFormat (s : String) : String × Option (List Char) :=
  let expr := s.toList.takeWhile (· ≠ '|')
  let trimmed := (expr.reverse.dropWhile (fun c => c = ' ' || c = '\t')).reverse
  (String.ofList trimmed, match s.toList.dropWhile (· ≠ '|') with
    | [] => none
    | _ :: format => some (trimSpaceChars format))

/-- Evaluate a full expression and render it. -/
def eval (c : Calendar) (t : Time) (expr : String) : Option String := do
  let (rest, isDatetime) ← match cutPrefix expr "logical_datetime" with
    | some rest => some (rest, true)
    | none => (cutPrefix expr "logical_date").map (fun rest => (rest, false))
  let (suffix, format) := cutFormat rest
  let shifted ← shift c.toZone t suffix
  match format with
  | some f => (formatStrftime c shifted f).map String.ofList
  | none => some (if isDatetime then c.rfc3339 shifted else dateOnly c shifted)

theorem trimSpaceChars_length_le (cs : List Char) : (trimSpaceChars cs).length ≤ cs.length := by
  have h₁ := (List.dropWhile_suffix (l := cs) isSpace).length_le
  have h₂ := (List.dropWhile_suffix (l := (cs.dropWhile isSpace).reverse) isSpace).length_le
  simp only [List.length_reverse] at h₂
  simp only [trimSpaceChars, List.length_reverse]
  omega

/-- A token is used up by what follows its sign. -/
theorem applyOffset_length_lt {z : Zone} {t t' : Time} {s rest : List Char}
    (h : applyOffset z t s = some (t', rest)) : rest.length < s.length := by
  cases s with
  | nil => cases h
  | cons c cs =>
    have htrim := trimSpaceChars_length_le cs
    have hdigits := (List.dropWhile_suffix (l := trimSpaceChars cs) Char.isDigit).length_le
    have hrest : ∀ p : Char → Bool, (((trimSpaceChars cs).dropWhile Char.isDigit).dropWhile p).length ≤ cs.length := by
      intro p
      have := (List.dropWhile_suffix (l := (trimSpaceChars cs).dropWhile Char.isDigit) p).length_le
      omega
    simp only [applyOffset] at h
    split at h
    · split at h
      · cases h
      · split at h
        · cases h
        · simp only [List.length_cons, Nat.lt_succ_iff]
          split at h
          · cases h; exact hrest _
          · split at h
            · cases h; exact hrest _
            · split at h
              · cases h; exact hrest _
              · split at h
                · cases h; exact hrest _
                · cases h
    · cases h

/-- The length of the text is enough fuel: more fuel changes nothing. -/
theorem applyOffsets_fuel (z : Zone) (fuel more : Nat) (t : Time) (s : List Char)
    (hs : s.length ≤ fuel) (hmore : fuel ≤ more) : applyOffsets z more t s = applyOffsets z fuel t s := by
  induction fuel generalizing more t s with
  | zero =>
    have hnil : s = [] := List.eq_nil_of_length_eq_zero (by omega)
    subst hnil
    unfold applyOffsets
    rfl
  | succ fuel ih =>
    obtain ⟨more, rfl⟩ : ∃ m, more = m + 1 := ⟨more - 1, by omega⟩
    have htrim := trimSpaceChars_length_le s
    unfold applyOffsets
    cases hcs : trimSpaceChars s with
    | nil => rfl
    | cons c cs =>
      rw [hcs] at htrim
      simp only
      split
      · rfl
      · rename_i t' rest happly
        have := applyOffset_length_lt happly
        simp only [List.length_cons] at this htrim
        exact ih more t' rest (by omega) (by omega)

end DateTmpl
end Cronova.Text
