import Cronova.Scheduler.RunID
import Mathlib.Algebra.Order.Group.Nat
import Mathlib.Data.Nat.Basic
import Mathlib.Tactic.Common
import Mathlib.Tactic.IntervalCases

/-! The calendar behind the stamps: a civil date determines its day, is a date that the
calendar has, and grows with the day. -/
namespace Cronova.Scheduler

/-- The days of an era of 400 years, its leap days left out. -/
def leapless (doe : Nat) : Nat := doe - doe / 1460 + doe / 36524 - doe / 146096

/-- The first day of a year of the era. -/
def yearStart (y : Nat) : Nat := 365 * y + y / 4 - y / 100 + y / 400

theorem leapless_succ (d : Nat) (h : d < 146096) : leapless d ≤ leapless (d + 1) := by
  have h1 : (d + 1) / 1460 = d / 1460 + if 1460 ∣ d + 1 then 1 else 0 := Nat.succ_div
  have h2 : (d + 1) / 36524 = d / 36524 + if 36524 ∣ d + 1 then 1 else 0 := Nat.succ_div
  have h3 : d / 146096 = 0 := Nat.div_eq_of_lt h
  have hle : d / 1460 ≤ d := Nat.div_le_self d 1460
  by_cases hlast : d = 146095
  · subst hlast
    decide
  · have h4 : (d + 1) / 146096 = 0 := Nat.div_eq_of_lt (by omega)
    rw [leapless, leapless, h1, h2, h3, h4]
    split <;> split <;> omega

theorem leapless_mono {d e : Nat} (h : d ≤ e) (he : e < 146097) : leapless d ≤ leapless e := by
  induction e, h using Nat.le_induction with
  | base => exact Nat.le_refl _
  | succ e hde ih => exact (ih (by omega)).trans (leapless_succ e (by omega))

theorem yearStart_mono {y z : Nat} (h : y ≤ z) : yearStart y ≤ yearStart z := by
  induction z, h using Nat.le_induction with
  | base => exact Nat.le_refl _
  | succ z hyz ih =>
    have hfour : z / 4 ≤ (z + 1) / 4 := Nat.div_le_div_right (Nat.le_succ z)
    have hhundred : (z + 1) / 100 ≤ z / 100 + 1 := by omega
    have hcycle : z / 400 ≤ (z + 1) / 400 := Nat.div_le_div_right (Nat.le_succ z)
    have hsmall : (z + 1) / 100 ≤ 365 * (z + 1) := by omega
    unfold yearStart at ih ⊢
    omega

theorem year_ends : ∀ y < 400, leapless (yearStart y) / 365 = y ∧ leapless (yearStart (y + 1) - 1) / 365 = y ∧
    yearStart y < yearStart (y + 1) ∧ yearStart (y + 1) ≤ yearStart y + 366 := by
  decide +kernel

/-- A day of the era lies in the year that the calendar gives it. -/
theorem yearStart_le {doe : Nat} (h : doe < 146097) :
    leapless doe / 365 < 400 ∧ yearStart (leapless doe / 365) ≤ doe ∧ doe < yearStart (leapless doe / 365 + 1) := by
  have hlt : leapless doe / 365 < 400 := by
    have hle := leapless_mono (show doe ≤ 146096 by omega) (by omega)
    have hlast : leapless 146096 = 145999 := by decide
    omega
  obtain ⟨hstart, -, -, -⟩ := year_ends _ hlt
  refine ⟨hlt, ?_, ?_⟩
  · by_contra hbefore
    -- an earlier day is in an earlier year
    rcases Nat.eq_zero_or_pos (leapless doe / 365) with hzero | hpos
    · rw [hzero] at hbefore
      exact hbefore (Nat.zero_le doe)
    · obtain ⟨-, hend, hstep, -⟩ := year_ends (leapless doe / 365 - 1) (by omega)
      rw [Nat.sub_add_cancel hpos] at hend hstep
      have hbound : yearStart (leapless doe / 365) - 1 < 146097 := by
        have hall : ∀ y < 400, yearStart y < 146097 := by decide +kernel
        have := hall _ hlt
        omega
      have hle := Nat.div_le_div_right (c := 365) (leapless_mono (show doe ≤ yearStart (leapless doe / 365) - 1 by omega) hbound)
      omega
  · by_contra hafter
    obtain ⟨-, -, hstep, -⟩ := year_ends _ hlt
    by_cases hlast : leapless doe / 365 = 399
    · have hend : yearStart (399 + 1) = 146097 := by decide
      rw [hlast] at hafter
      omega
    · obtain ⟨hnext, -, -, -⟩ := year_ends (leapless doe / 365 + 1) (by omega)
      have hle := Nat.div_le_div_right (c := 365) (leapless_mono (show yearStart (leapless doe / 365 + 1) ≤ doe by omega) h)
      omega

/-- A day by its era, the year of the era, the day of that year, counted from 1 March,
and its civil date. -/
structure Dated (day era : Int) (yoe doy : Nat) (y : Int) (m d : Nat) : Prop where
  day_eq : day = 146097 * era + yearStart yoe + doy
  year_lt : yoe < 400
  doy_lt : yearStart yoe + doy < yearStart (yoe + 1)
  month : 12 * y + m = 12 * (yoe + 400 * era) + ((5 * doy + 2) / 153 : Nat) + 3
  month_pos : 1 ≤ m
  month_le : m ≤ 12
  day_of_month : d = doy - (153 * ((5 * doy + 2) / 153) + 2) / 5 + 1

theorem civil_dated (day : Int) :
    ∃ era yoe doy, Dated day era yoe doy (civil day).1 (civil day).2.1 (civil day).2.2 := by
  let era := day / 146097
  let doe := (day % 146097).toNat
  have hnonneg : 0 ≤ day % 146097 := Int.emod_nonneg day (by decide)
  have hlt : day % 146097 < 146097 := Int.emod_lt_of_pos day (by decide)
  have hdoe : doe < 146097 := by omega
  obtain ⟨hyear, hstart, hend⟩ := yearStart_le hdoe
  have hcentury : leapless doe / 365 / 400 = 0 := Nat.div_eq_of_lt hyear
  let yoe := leapless doe / 365
  let doy := doe - (365 * yoe + yoe / 4 - yoe / 100)
  have hdoy : doe = yearStart yoe + doy := by
    have hunfold : yearStart yoe = 365 * yoe + yoe / 4 - yoe / 100 + yoe / 400 := rfl
    have hzero : yoe / 400 = 0 := hcentury
    have hle : yearStart yoe ≤ doe := hstart
    have hdef : doy = doe - (365 * yoe + yoe / 4 - yoe / 100) := rfl
    omega
  have hmonth : (5 * doy + 2) / 153 ≤ 11 := by
    obtain ⟨-, -, -, hlength⟩ := year_ends yoe hyear
    have hend : doe < yearStart (yoe + 1) := hend
    omega
  let mp := (5 * doy + 2) / 153
  let m := if mp < 10 then mp + 3 else mp - 9
  have hm : 1 ≤ m ∧ m ≤ 12 ∧ (m ≤ 2 → m = mp - 9 ∧ 10 ≤ mp) ∧ (¬ m ≤ 2 → m = mp + 3) := by
    have hle : mp ≤ 11 := hmonth
    simp only [m]
    split <;> omega
  obtain ⟨hpos, hle, hearly, hlate⟩ := hm
  refine ⟨era, yoe, doy, ?_, hyear, ?_, ?_, hpos, hle, rfl⟩
  · have hsplit := Int.mul_ediv_add_emod day 146097
    have hcast : ((doe : Nat) : Int) = day % 146097 := Int.toNat_of_nonneg hnonneg
    rw [hdoy] at hcast
    push_cast at hcast
    omega
  · rw [← hdoy]
    exact hend
  · change 12 * (((yoe : Nat) : Int) + era * 400 + (if m ≤ 2 then 1 else 0)) + (m : Nat) = 12 * (yoe + 400 * era) + (mp : Nat) + 3
    split
    · rename_i hm
      obtain ⟨heq, hten⟩ := hearly hm
      omega
    · rename_i hm
      have heq := hlate hm
      omega

theorem Dated.month_index_lt {day day' era era' : Int} {yoe yoe' doy doy' : Nat} {y y' : Int} {m m' d d' : Nat}
    (h : Dated day era yoe doy y m d) (h' : Dated day' era' yoe' doy' y' m' d') (hlt : day < day') :
    12 * y + m < 12 * y' + m' ∨ 12 * y + m = 12 * y' + m' ∧ d < d' := by
  have hin : ∀ {day era : Int} {yoe doy : Nat} {y : Int} {m d : Nat}, Dated day era yoe doy y m d →
      yearStart yoe + doy < 146097 ∧ (5 * doy + 2) / 153 ≤ 11 := by
    intro day era yoe doy y m d h
    obtain ⟨-, -, -, hlength⟩ := year_ends yoe h.year_lt
    have hall : ∀ y < 400, yearStart (y + 1) ≤ 146097 := by decide +kernel
    have hend := hall yoe h.year_lt
    have hdoy := h.doy_lt
    omega
  obtain ⟨hera, hmp⟩ := hin h
  obtain ⟨hera', hmp'⟩ := hin h'
  have hday := h.day_eq
  have hday' := h'.day_eq
  have hindex := h.month
  have hindex' := h'.month
  have hyear := h.year_lt
  have hyear' := h'.year_lt
  have hdate := h.day_of_month
  have hdate' := h'.day_of_month
  rcases Int.lt_trichotomy era era' with hbefore | rfl | hafter
  · left
    omega
  · have hyears : yoe ≤ yoe' := by
      by_contra hgt
      have hstart : yearStart (yoe' + 1) ≤ yearStart yoe := yearStart_mono (by omega)
      have hdoy' := h'.doy_lt
      omega
    rcases Nat.lt_or_eq_of_le hyears with hless | rfl
    · left
      omega
    · have hdays : doy < doy' := by omega
      have hmonths : (5 * doy + 2) / 153 ≤ (5 * doy' + 2) / 153 := Nat.div_le_div_right (by omega)
      rcases Nat.lt_or_eq_of_le hmonths with hless | hsame
      · left
        omega
      · right
        rw [hsame] at hindex hdate
        omega
  · omega

/-- A later day has a later civil date. -/
theorem civil_lt {a b : Int} (h : a < b) :
    (civil a).1 < (civil b).1 ∨ (civil a).1 = (civil b).1 ∧
      ((civil a).2.1 < (civil b).2.1 ∨ (civil a).2.1 = (civil b).2.1 ∧ (civil a).2.2 < (civil b).2.2) := by
  obtain ⟨era, yoe, doy, ha⟩ := civil_dated a
  obtain ⟨era', yoe', doy', hb⟩ := civil_dated b
  have hlt := ha.month_index_lt hb h
  have hpos := ha.month_pos
  have hle := ha.month_le
  have hpos' := hb.month_pos
  have hle' := hb.month_le
  omega

/-! From a civil date to its day -/

/-- The number of a civil day, counted from 1 March of the year 0. -/
def dayNumber (y : Int) (m d : Nat) : Int :=
  let y := if m ≤ 2 then y - 1 else y
  let mp := if m ≤ 2 then m + 9 else m - 3
  365 * y + y / 4 - y / 100 + y / 400 + (((153 * mp + 2) / 5 + d : Nat) : Int) - 1

def isLeap (y : Int) : Bool := y % 4 = 0 && (y % 100 ≠ 0 || y % 400 = 0)

def daysIn (m : Nat) (y : Int) : Nat :=
  if m = 2 then (if isLeap y then 29 else 28) else if m = 4 ∨ m = 6 ∨ m = 9 ∨ m = 11 then 30 else 31

/-- The civil date is counted back to its year, and its month from March. -/
theorem Dated.march {day era : Int} {yoe doy : Nat} {y : Int} {m d : Nat} (h : Dated day era yoe doy y m d) :
    (if m ≤ 2 then y - 1 else y) = yoe + 400 * era ∧ (if m ≤ 2 then m + 9 else m - 3) = (5 * doy + 2) / 153 := by
  obtain ⟨-, -, -, hlength⟩ := year_ends yoe h.year_lt
  have hdoy := h.doy_lt
  have hmonth := h.month
  have hpos := h.month_pos
  have hle := h.month_le
  have hmp : (5 * doy + 2) / 153 ≤ 11 := by omega
  split <;> omega

theorem dayNumber_civil (day : Int) : dayNumber (civil day).1 (civil day).2.1 (civil day).2.2 = day := by
  obtain ⟨era, yoe, doy, h⟩ := civil_dated day
  obtain ⟨hyear, hmonth⟩ := h.march
  have hlt := h.year_lt
  have hdate := h.day_of_month
  have hday := h.day_eq
  unfold dayNumber
  dsimp only
  rw [hyear, hmonth, hdate]
  have hfour : ((yoe : Int) + 400 * era) / 4 = (yoe : Int) / 4 + 100 * era := by omega
  have hhundred : ((yoe : Int) + 400 * era) / 100 = (yoe : Int) / 100 + 4 * era := by omega
  have hcycle : ((yoe : Int) + 400 * era) / 400 = era := by omega
  have hback : (153 * ((5 * doy + 2) / 153) + 2) / 5 + (doy - (153 * ((5 * doy + 2) / 153) + 2) / 5 + 1) = doy + 1 := by omega
  have hstart : ((yearStart yoe : Nat) : Int) = 365 * yoe + (yoe : Int) / 4 - (yoe : Int) / 100 := by
    unfold yearStart
    omega
  rw [hfour, hhundred, hcycle, hback, hday, hstart]
  push_cast
  omega

/-- A year that begins in March has a day more when the February at its end has one. -/
theorem yearStart_leap : ∀ yoe < 400, yearStart (yoe + 1) = yearStart yoe + if isLeap ((yoe : Int) + 1) then 366 else 365 := by
  decide +kernel

theorem isLeap_era (y era : Int) : isLeap (y + 400 * era) = isLeap y := by
  have hfour : (y + 400 * era) % 4 = y % 4 := by omega
  have hhundred : (y + 400 * era) % 100 = y % 100 := by omega
  have hcycle : (y + 400 * era) % 400 = y % 400 := by omega
  rw [isLeap, hfour, hhundred, hcycle, isLeap]

theorem civil_valid (day : Int) :
    1 ≤ (civil day).2.1 ∧ (civil day).2.1 ≤ 12 ∧ 1 ≤ (civil day).2.2 ∧ (civil day).2.2 ≤ daysIn (civil day).2.1 (civil day).1 := by
  obtain ⟨era, yoe, doy, h⟩ := civil_dated day
  obtain ⟨hyear, hmonth⟩ := h.march
  have hdate := h.day_of_month
  refine ⟨h.month_pos, h.month_le, by rw [hdate]; exact Nat.succ_pos _, ?_⟩
  have hpos := h.month_pos
  have hle := h.month_le
  by_cases hfeb : (civil day).2.1 = 2
  · rw [hfeb, if_pos (by decide)] at hyear hmonth
    have hleap := yearStart_leap yoe h.year_lt
    have hdoy := h.doy_lt
    have hy : (civil day).1 = (yoe + 1 : Int) + 400 * era := by omega
    rw [hfeb, daysIn, if_pos rfl, hy, isLeap_era, hdate]
    split
    · rename_i hyes
      rw [if_pos hyes] at hleap
      omega
    · rename_i hno
      rw [if_neg hno] at hleap
      omega
  · rw [daysIn, if_neg hfeb, hdate]
    generalize (civil day).2.1 = m at *
    interval_cases m <;> simp at hmonth hfeb ⊢ <;> omega

end Cronova.Scheduler
