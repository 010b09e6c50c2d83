import Cronova.Scheduler.Calendar
import Cronova.Text.Decimal

/-! The texts that instants are stored as: RFC 3339 in UTC, with the fraction of a second
trimmed, and the reader of such texts. -/
namespace Cronova.Store
open Cronova.Model Cronova.Text
open Cronova.Scheduler (padded civil formatYear formatFraction dayNumber daysIn)

/-- Seconds since the epoch. -/
def seconds (t : Time) : Int := t / second

/-- Nanoseconds within the second. -/
def nanos (t : Time) : Nat := (t % second).toNat

/-- The day, counted from 1 March of the year 0. -/
def dayOf (t : Time) : Int := seconds t / 86400 + 719468

/-- Seconds since midnight. -/
def secondOfDay (t : Time) : Nat := (seconds t % 86400).toNat

def year (t : Time) : Int := (civil (dayOf t)).1

def formatDate (t : Time) : List Char :=
  formatYear (year t) ++ '-' :: padded 2 (civil (dayOf t)).2.1 ++ '-' :: padded 2 (civil (dayOf t)).2.2

def formatClock (t : Time) : List Char :=
  padded 2 (secondOfDay t / 3600) ++ ':' :: padded 2 (secondOfDay t / 60 % 60) ++ ':' :: padded 2 (secondOfDay t % 60)

/-- `2006-01-02T15:04:05.999999999Z` -/
def fmtTime (t : Time) : List Char :=
  formatDate t ++ 'T' :: formatClock t ++ formatFraction (nanos t) ++ ['Z']

/-! Reading -/

/-- `width` digits, of a number from `lo` to `hi`. -/
def readUint (width lo hi : Nat) (s : List Char) : Option (Nat × List Char) :=
  if s.length < width ∨ ¬ (s.take width).all Char.isDigit then none
  else
    let x := Nat.ofDigitChars 10 (s.take width) 0
    if x < lo ∨ hi < x then none else some (x, s.drop width)

def expect (c : Char) : List Char → Option (List Char)
  | [] => none
  | d :: s => if d = c then some s else none

/-- Places after the ninth are dropped. -/
def parseNanoseconds (places : List Char) : Nat :=
  let value := places.take 9
  Nat.ofDigitChars 10 value 0 * 10 ^ (9 - value.length)

/-- The fractional second, where there is one. -/
def readFraction : List Char → Nat × List Char
  | '.' :: s =>
    if (s.takeWhile Char.isDigit).isEmpty then (0, '.' :: s)
    else (parseNanoseconds (s.takeWhile Char.isDigit), s.dropWhile Char.isDigit)
  | s => (0, s)

/-- The offset of the time zone in seconds. -/
def readZone : List Char → Option Int
  | ['Z'] => some 0
  | sign :: s => do
    let (hr, s) ← readUint 2 0 23 s
    let s ← expect ':' s
    let (mm, s) ← readUint 2 0 59 s
    if s ≠ [] then none
    else if sign = '+' then some ((hr * 60 + mm) * 60 : Nat)
    else if sign = '-' then some (-((hr * 60 + mm) * 60 : Nat))
    else none
  | [] => none

def date (year month day hour min sec nsec : Nat) : Time :=
  ((dayNumber year month day - 719468) * 86400 + (hour * 3600 + min * 60 + sec : Nat)) * second + nsec

def parseRFC3339 (s : List Char) : Option Time := do
  let (year, s) ← readUint 4 0 9999 s
  let s ← expect '-' s
  let (month, s) ← readUint 2 1 12 s
  let s ← expect '-' s
  let (day, s) ← readUint 2 1 (daysIn month year) s
  let s ← expect 'T' s
  let (hour, s) ← readUint 2 0 23 s
  let s ← expect ':' s
  let (min, s) ← readUint 2 0 59 s
  let s ← expect ':' s
  let (sec, s) ← readUint 2 0 59 s
  let (nsec, s) := readFraction s
  let offset ← readZone s
  return date year month day hour min sec nsec - offset * second

/-- The texts that are not RFC 3339, such as the defaults of the database, have layouts of
their own. -/
def parseLoose (other : List Char → Option Time) (s : List Char) : Time :=
  (parseRFC3339 s).getD ((other s).getD zeroTime)

/-! What the texts are made of -/

theorem padded_eq_digits {width n : Nat} (hpos : 0 < width) (h : n < 10 ^ width) : padded width n = digits width n := by
  induction width generalizing n with
  | zero => omega
  | succ width ih =>
    have hlist : (toString n).toList = Nat.toDigits 10 n := String.toList_ofList
    rw [padded, hlist]
    by_cases hsmall : n < 10
    · rw [Nat.toDigits_of_lt_base hsmall, digits, Nat.mod_eq_of_lt hsmall, Nat.div_eq_of_lt hsmall]
      have hzeros : digits width 0 = List.replicate width '0' := by
        have := List.eq_replicate_of_mem (digits_zero width)
        rwa [length_digits] at this
      rw [hzeros]
      rfl
    · have hwidth : 0 < width := by
        by_contra hnot
        have hzero : width = 0 := by omega
        subst hzero
        omega
      have hdiv : n / 10 < 10 ^ width := Nat.div_lt_of_lt_mul (by rwa [Nat.pow_succ'] at h)
      have hlist' : (toString (n / 10)).toList = Nat.toDigits 10 (n / 10) := String.toList_ofList
      have hrec := ih hwidth hdiv
      rw [padded, hlist'] at hrec
      rw [Nat.toDigits_of_base_le (by decide) (by omega), digits, ← hrec, List.length_append, List.length_singleton,
        Nat.add_sub_add_right, List.append_assoc]

@[simp] theorem readUint_digits {width lo hi n : Nat} (rest : List Char) (h : n < 10 ^ width) (hlo : lo ≤ n) (hhi : n ≤ hi) :
    readUint width lo hi (digits width n ++ rest) = some (n, rest) := by
  have htake : (digits width n ++ rest).take width = digits width n := List.take_left' (length_digits width n)
  have hdrop : (digits width n ++ rest).drop width = rest := List.drop_left' (length_digits width n)
  have hall : (digits width n).all Char.isDigit = true := List.all_eq_true.mpr (isDigit_digits width n)
  have hlen : ¬ (digits width n ++ rest).length < width := by
    rw [List.length_append, length_digits]
    omega
  rw [readUint, htake, hdrop, hall, ofDigitChars_digits h, if_neg (by simp), if_neg (by omega)]

theorem formatFraction_eq {ns : Nat} (h : ns < 10 ^ 9) :
    formatFraction ns = if ns = 0 then [] else '.' :: places 9 ns := by
  rw [formatFraction, padded_eq_digits (by decide) h]
  rfl

theorem readFraction_formatFraction {ns : Nat} (h : ns < 10 ^ 9) : readFraction (formatFraction ns ++ ['Z']) = (ns, ['Z']) := by
  rw [formatFraction_eq h]
  split
  · rename_i hzero
    rw [hzero]
    rfl
  · rename_i hpos
    have hdigits : ∀ c ∈ places 9 ns, c.isDigit = true := isDigit_places
    have htake : (places 9 ns ++ ['Z']).takeWhile Char.isDigit = places 9 ns := by
      rw [List.takeWhile_append_of_pos hdigits]
      simp
    have hdrop : (places 9 ns ++ ['Z']).dropWhile Char.isDigit = ['Z'] := by
      rw [List.dropWhile_append_of_pos hdigits]
      rfl
    have hne : (places 9 ns).isEmpty = false := by
      rw [List.isEmpty_eq_false_iff]
      exact fun hnil => hpos ((places_eq_nil_iff h).mp hnil)
    have hnine : (places 9 ns).take 9 = places 9 ns := List.take_of_length_le (length_places_le 9 ns)
    rw [List.cons_append, readFraction, htake, hdrop, hne, parseNanoseconds, hnine, ofDigitChars_places h]
    rfl

/-! ### From an instant to its text and back -/

theorem nanos_lt (t : Time) : nanos t < 10 ^ 9 := by
  have hlt := Int.emod_lt_of_pos t (show 0 < second by decide)
  have hnonneg := Int.emod_nonneg t (show second ≠ 0 by decide)
  unfold nanos
  simp only [second] at hlt hnonneg ⊢
  omega

theorem secondOfDay_lt (t : Time) : secondOfDay t < 86400 := by
  unfold secondOfDay
  omega

/-- The years that four digits write. -/
def InRange (t : Time) : Prop := 1 ≤ year t ∧ year t ≤ 9999

instance (t : Time) : Decidable (InRange t) := inferInstanceAs (Decidable (_ ∧ _))

theorem formatDate_eq {t : Time} (h : InRange t) :
    formatDate t = digits 4 (year t).toNat ++ '-' :: digits 2 (civil (dayOf t)).2.1 ++ '-' :: digits 2 (civil (dayOf t)).2.2 := by
  obtain ⟨hmonth, hmonth', hday, hday'⟩ := Scheduler.civil_valid (dayOf t)
  have hdays : daysIn (civil (dayOf t)).2.1 (civil (dayOf t)).1 ≤ 31 := by
    unfold daysIn
    split <;> split <;> omega
  have hyear : ¬ year t < 0 := by
    have := h.1
    omega
  have habs : (year t).natAbs = (year t).toNat := by omega
  have hbound : (year t).toNat < 10 ^ 4 := by
    have := h.2
    omega
  rw [formatDate, formatYear, if_neg hyear, habs, padded_eq_digits (by decide) hbound,
    padded_eq_digits (by decide) (by omega), padded_eq_digits (by decide) (by omega)]

theorem formatClock_eq (t : Time) :
    formatClock t = digits 2 (secondOfDay t / 3600) ++ ':' :: digits 2 (secondOfDay t / 60 % 60) ++
      ':' :: digits 2 (secondOfDay t % 60) := by
  have hlt := secondOfDay_lt t
  rw [formatClock, padded_eq_digits (by decide) (by omega), padded_eq_digits (by decide) (by omega),
    padded_eq_digits (by decide) (by omega)]

/-- The fields of an instant make it up. -/
theorem date_fields {t : Time} (h : InRange t) :
    date (year t).toNat (civil (dayOf t)).2.1 (civil (dayOf t)).2.2 (secondOfDay t / 3600) (secondOfDay t / 60 % 60)
      (secondOfDay t % 60) (nanos t) = t := by
  have hyear : ((year t).toNat : Int) = (civil (dayOf t)).1 := by
    rw [Int.toNat_of_nonneg (by have := h.1; omega), year]
  have hclock : secondOfDay t / 3600 * 3600 + secondOfDay t / 60 % 60 * 60 + secondOfDay t % 60 = secondOfDay t := by omega
  have hsecond : ((secondOfDay t : Nat) : Int) = seconds t % 86400 := by
    unfold secondOfDay
    omega
  have hnanos : ((nanos t : Nat) : Int) = t % second := Int.toNat_of_nonneg (Int.emod_nonneg t (by decide))
  have hday : (dayOf t - 719468) * 86400 + seconds t % 86400 = seconds t := by
    unfold dayOf
    omega
  rw [date, hyear, Scheduler.dayNumber_civil, hclock, hsecond, hday, hnanos, Int.mul_comm]
  exact Int.mul_ediv_add_emod t second

@[simp] theorem expect_cons (c : Char) (s : List Char) : expect c (c :: s) = some s := if_pos rfl

theorem parseRFC3339_fmtTime {t : Time} (h : InRange t) : parseRFC3339 (fmtTime t) = some t := by
  obtain ⟨hmonth, hmonth', hday, hday'⟩ := Scheduler.civil_valid (dayOf t)
  have hdays : daysIn (civil (dayOf t)).2.1 (civil (dayOf t)).1 ≤ 31 := by
    unfold daysIn
    split <;> split <;> omega
  have hyear : ((year t).toNat : Int) = (civil (dayOf t)).1 := by
    rw [Int.toNat_of_nonneg (by have := h.1; omega), year]
  have hbound : (year t).toNat ≤ 9999 := by
    have := h.2
    omega
  have hlt := secondOfDay_lt t
  rw [parseRFC3339, fmtTime, formatDate_eq h, formatClock_eq]
  simp only [List.append_assoc, List.cons_append, Option.bind_eq_bind]
  rw [readUint_digits _ (by omega) (by omega) hbound, Option.bind_some]
  dsimp only
  rw [expect_cons, Option.bind_some, readUint_digits _ (by omega) hmonth hmonth', Option.bind_some]
  dsimp only
  rw [expect_cons, Option.bind_some, hyear, readUint_digits _ (by omega) hday hday', Option.bind_some]
  dsimp only
  rw [expect_cons, Option.bind_some, readUint_digits _ (by omega) (by omega) (by omega), Option.bind_some]
  dsimp only
  rw [expect_cons, Option.bind_some, readUint_digits _ (by omega) (by omega) (by omega), Option.bind_some]
  dsimp only
  rw [expect_cons, Option.bind_some, readUint_digits _ (by omega) (by omega) (by omega), Option.bind_some]
  dsimp only
  rw [readFraction_formatFraction (nanos_lt t), readZone, Option.bind_some, date_fields h, Int.zero_mul, Int.sub_zero]
  rfl

/-- What is stored is read back. -/
theorem parseLoose_fmtTime (other : List Char → Option Time) {t : Time} (h : InRange t) : parseLoose other (fmtTime t) = t := by
  rw [parseLoose, parseRFC3339_fmtTime h]
  rfl

/-! The order of the texts -/

/-- Two instants of one second of which the fraction of the first, as far as it is
written, begins the fraction of the second. -/
def Swapped (t u : Time) : Prop := seconds t = seconds u ∧ places 9 (nanos t) <+: places 9 (nanos u)

instance (t u : Time) : Decidable (Swapped t u) := inferInstanceAs (Decidable (_ ∧ _))

theorem formatDate_lt {t u : Time} (ht : InRange t) (hu : InRange u) (h : dayOf t < dayOf u) (x y : List Char) :
    formatDate t ++ x < formatDate u ++ y := by
  obtain ⟨hmonth, hmonth', hday, hday'⟩ := Scheduler.civil_valid (dayOf t)
  obtain ⟨humonth, humonth', huday, huday'⟩ := Scheduler.civil_valid (dayOf u)
  have hdays : ∀ m y, daysIn m y ≤ 31 := by
    intro m y
    unfold daysIn
    split <;> split <;> omega
  have hle := hdays (civil (dayOf t)).2.1 (civil (dayOf t)).1
  have hule := hdays (civil (dayOf u)).2.1 (civil (dayOf u)).1
  have hlt := Scheduler.civil_lt h
  obtain ⟨hlo, hhi⟩ := ht
  obtain ⟨hulo, huhi⟩ := hu
  rw [formatDate_eq ⟨hlo, hhi⟩, formatDate_eq ⟨hulo, huhi⟩]
  simp only [List.append_assoc, List.cons_append]
  rw [digits_append_lt_iff (by omega) (by omega), List.cons_lt_cons_self, digits_append_lt_iff (by omega) (by omega),
    List.cons_lt_cons_self, digits_append_lt_iff (by omega) (by omega)]
  unfold year at *
  omega

theorem formatClock_lt {t u : Time} (h : secondOfDay t < secondOfDay u) (x y : List Char) :
    formatClock t ++ x < formatClock u ++ y := by
  have ht := secondOfDay_lt t
  have hu := secondOfDay_lt u
  rw [formatClock_eq, formatClock_eq]
  simp only [List.append_assoc, List.cons_append]
  rw [digits_append_lt_iff (by omega) (by omega), List.cons_lt_cons_self, digits_append_lt_iff (by omega) (by omega),
    List.cons_lt_cons_self, digits_append_lt_iff (by omega) (by omega)]
  omega

theorem formatFraction_lt_iff {m n : Nat} (hn : n < 10 ^ 9) (hlt : m < n) :
    formatFraction m ++ ['Z'] < formatFraction n ++ ['Z'] ↔ ¬ places 9 m <+: places 9 n := by
  have hne : n ≠ 0 := by omega
  rw [formatFraction_eq (hlt.trans hn), formatFraction_eq hn, if_neg hne]
  split
  · rename_i hzero
    subst hzero
    have hnil : places 9 0 = [] := (places_eq_nil_iff (by decide)).mpr rfl
    rw [hnil]
    have hmark : ¬ 'Z' < '.' := by decide
    simp [List.cons_lt_cons_iff, hmark]
  · rw [List.cons_append, List.cons_append, List.cons_lt_cons_self]
    exact places_lt_iff hn hlt 'Z' (by decide) [] []

/-- The text of the earlier instant comes first unless the two are swapped. -/
theorem fmtTime_lt_iff {t u : Time} (ht : InRange t) (hu : InRange u) (hlt : t < u) :
    fmtTime t < fmtTime u ↔ ¬ Swapped t u := by
  have hsecond : seconds t ≤ seconds u := Int.ediv_le_ediv (by decide) hlt.le
  have hsplit := Int.mul_ediv_add_emod t second
  have hsplit' := Int.mul_ediv_add_emod u second
  have hnanos : ((nanos t : Nat) : Int) = t % second := Int.toNat_of_nonneg (Int.emod_nonneg t (by decide))
  have hnanos' : ((nanos u : Nat) : Int) = u % second := Int.toNat_of_nonneg (Int.emod_nonneg u (by decide))
  rw [fmtTime, fmtTime, List.append_assoc, List.append_assoc, List.append_assoc, List.append_assoc]
  rcases hsecond.lt_or_eq with hless | hsame
  · have hnot : ¬ Swapped t u := fun h => absurd h.1 hless.ne
    refine iff_of_true ?_ hnot
    have hday : dayOf t ≤ dayOf u := Int.add_le_add_right (Int.ediv_le_ediv (by decide) hless.le) _
    rcases hday.lt_or_eq with hbefore | hsameday
    · exact formatDate_lt ht hu hbefore _ _
    · have hdate : formatDate t = formatDate u := by
        rw [formatDate, formatDate, year, year, hsameday]
      have hclock : secondOfDay t < secondOfDay u := by
        unfold dayOf at hsameday
        unfold secondOfDay
        omega
      rw [hdate, append_lt_append_iff rfl]
      refine .inr ⟨rfl, ?_⟩
      rw [List.cons_append, List.cons_append, List.cons_lt_cons_self]
      exact formatClock_lt hclock _ _
  · have hdate : formatDate t = formatDate u := by
      rw [formatDate, formatDate, year, year, dayOf, dayOf, hsame]
    have hclock : formatClock t = formatClock u := by
      rw [formatClock, formatClock, secondOfDay, secondOfDay, hsame]
    have hfraction : nanos t < nanos u := by
      unfold seconds at hsame
      rw [hsame] at hsplit
      have hmod : t % second < u % second :=
        lt_of_add_lt_add_left (lt_of_eq_of_lt hsplit (lt_of_lt_of_eq hlt hsplit'.symm))
      rw [← hnanos, ← hnanos'] at hmod
      exact Int.ofNat_lt.mp hmod
    rw [hdate, hclock, append_lt_append_iff rfl, List.cons_append, List.cons_append, List.cons_lt_cons_self,
      append_lt_append_iff rfl, formatFraction_lt_iff (nanos_lt u) hfraction, Swapped]
    simp [hsame]

theorem fmtTime_inj {t u : Time} (ht : InRange t) (hu : InRange u) : fmtTime t = fmtTime u ↔ t = u := by
  constructor
  · intro h
    have hread := parseRFC3339_fmtTime ht
    rw [h, parseRFC3339_fmtTime hu] at hread
    exact (Option.some.inj hread).symm
  · exact congrArg _

end Cronova.Store
