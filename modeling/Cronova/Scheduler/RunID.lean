import Cronova.Model.Types
import Cronova.Text.Strings

/-! Run ids. A scheduled or dependency run is named after its DAG and the UTC
stamp of its logical date, with the fraction of a second trimmed. -/
namespace Cronova.Scheduler
open Cronova.Model Cronova.Text

/-- Decimal digits, padded with zeros to `width`. -/
def padded (width : Nat) (n : Nat) : List Char :=
  let digits := (toString n).toList
  List.replicate (width - digits.length) '0' ++ digits

/-- Year, month and day of a day number counted from 1 March of the year 0, in
the proleptic Gregorian calendar. -/
def civil (day : Int) : Int × Nat × Nat :=
  let era := day / 146097
  let doe := (day % 146097).toNat
  let yoe := (doe - doe / 1460 + doe / 36524 - doe / 146096) / 365
  let doy := doe - (365 * yoe + yoe / 4 - yoe / 100)
  let mp := (5 * doy + 2) / 153
  let d := doy - (153 * mp + 2) / 5 + 1
  let m := if mp < 10 then mp + 3 else mp - 9
  (yoe + era * 400 + (if m ≤ 2 then 1 else 0), m, d)

/-- A year of at least four digits, with a sign when it is negative. -/
def formatYear (y : Int) : List Char := if y < 0 then '-' :: padded 4 y.natAbs else padded 4 y.natAbs

/-- The fraction of a second, without its trailing zeros. -/
def formatFraction (ns : Nat) : List Char :=
  if ns = 0 then [] else '.' :: ((padded 9 ns).reverse.dropWhile (· = '0')).reverse

/-- `20060102T150405.999999999Z` -/
def stamp (t : Time) : List Char :=
  let secs := t / second
  let day := secs / 86400
  let sod := (secs % 86400).toNat
  let (y, m, d) := civil (day + 719468)
  formatYear y ++ padded 2 m ++ padded 2 d ++ ['T'] ++ padded 2 (sod / 3600) ++ padded 2 (sod / 60 % 60) ++
    padded 2 (sod % 60) ++ formatFraction (t % second).toNat ++ ['Z']

def runID (dagID : String) (logical : Time) : String := dagID ++ "__" ++ String.ofList (stamp logical)

def manualRunID (dagID : String) (now : Time) : String := dagID ++ "__manual_" ++ toString now

def backfillRunID (dagID : String) (t : Time) : String := dagID ++ "__backfill_" ++ toString (t / second)

def eventRunID (dagID : String) (eventID : Nat) : String := dagID ++ "__event_" ++ toString eventID

def subRunID (dagID : String) (now : Time) : String := dagID ++ "__sub_" ++ toString now

/-- Decimal digits determine the number. -/
theorem toString_nat_inj {m n : Nat} (h : toString m = toString n) : m = n := by
  have hdigits : Nat.toDigits 10 m = Nat.toDigits 10 n := String.ofList_injective h
  rw [← Nat.ofDigitChars_ten_toDigits (n := m), hdigits, Nat.ofDigitChars_ten_toDigits]

private theorem event_front (dagID : String) (c : Char) (h : (dagID.toList ++ "__event_".toList).getLast? = some c) :
    c.isDigit = false := by
  rw [List.getLast?_append] at h
  have : c = '_' := by simpa using h.symm
  subst this
  decide

theorem eventRunID_inj {dagID dagID' : String} {n n' : Nat} (h : eventRunID dagID n = eventRunID dagID' n') :
    dagID = dagID' ∧ n = n' := by
  have hlist : dagID.toList ++ "__event_".toList ++ (toString n).toList =
      dagID'.toList ++ "__event_".toList ++ (toString n').toList := by
    simpa only [eventRunID, String.toList_append] using congrArg String.toList h
  obtain ⟨hfront, hdigits⟩ := digits_split hlist (digits_nat n) (digits_nat n') (event_front _) (event_front _)
  exact ⟨String.toList_inj.mp (List.append_cancel_right hfront), toString_nat_inj (String.toList_inj.mp hdigits)⟩

/-- The decimal digits of an integer, after its sign. -/
theorem digits_int (n : Int) : ∃ sign ds, (toString n).toList = sign ++ ds ∧ (∀ c ∈ ds, c.isDigit = true) ∧
    (sign = [] ∨ sign = ['-']) := by
  cases n with
  | ofNat m => exact ⟨[], (toString m).toList, rfl, digits_nat m, .inl rfl⟩
  | negSucc m =>
    refine ⟨['-'], (toString m.succ).toList, ?_, digits_nat _, .inr rfl⟩
    change ("-" ++ toString m.succ).toList = _
    rw [String.toList_append]
    rfl

/-- A name stamped with a time is not the name of an event's run. -/
theorem stamped_ne_eventRunID (tag : String) (htag : tag ∈ ["__manual_", "__backfill_", "__sub_"]) (dagID dagID' : String)
    (now : Int) (n : Nat) : dagID ++ tag ++ toString now ≠ eventRunID dagID' n := by
  intro h
  obtain ⟨sign, ds, hnow, hds, hsign⟩ := digits_int now
  have hlist : (dagID.toList ++ tag.toList ++ sign) ++ ds = dagID'.toList ++ "__event_".toList ++ (toString n).toList := by
    have hchars := congrArg String.toList h
    rw [String.toList_append, String.toList_append, hnow, eventRunID, String.toList_append, String.toList_append] at hchars
    rwa [← List.append_assoc] at hchars
  have hfront : ∀ c, (dagID.toList ++ tag.toList ++ sign).getLast? = some c → c.isDigit = false := by
    intro c hc
    rcases hsign with rfl | rfl
    · simp only [List.mem_cons, List.not_mem_nil, or_false] at htag
      rcases htag with rfl | rfl | rfl <;> simp [List.getLast?_append] at hc <;> subst hc <;> decide
    · simp [List.getLast?_append] at hc
      subst hc
      decide
  obtain ⟨heq, -⟩ := digits_split hlist hds (digits_nat n) hfront (event_front _)
  have hrev := congrArg List.reverse heq
  simp only [List.mem_cons, List.not_mem_nil, or_false] at htag
  rcases hsign with rfl | rfl <;> rcases htag with rfl | rfl | rfl <;> simp at hrev

/-- The name of a period's run is not the name of an event's run. -/
theorem runID_ne_eventRunID (dagID dagID' : String) (logical : Time) (n : Nat) : runID dagID logical ≠ eventRunID dagID' n := by
  intro h
  have hchars := congrArg (fun s => s.toList.getLast?) h
  have hz : (runID dagID logical).toList.getLast? = some 'Z' := by
    obtain ⟨front, hfront⟩ : ∃ front, stamp logical = front ++ ['Z'] := ⟨_, rfl⟩
    rw [runID, String.toList_append, String.toList_ofList, hfront, List.getLast?_append, List.getLast?_append]
    rfl
  have hdigit : ∀ c, (eventRunID dagID' n).toList.getLast? = some c → c.isDigit = true := by
    intro c hc
    rw [eventRunID, String.toList_append, List.getLast?_append] at hc
    have hne : (toString n).toList ≠ [] := by
      have hlist : (toString n).toList = Nat.toDigits 10 n := String.toList_ofList
      rw [hlist]
      exact Nat.toDigits_ne_nil
    rw [List.getLast?_eq_some_getLast hne] at hc
    cases hc
    exact digits_nat n _ (List.getLast_mem hne)
  have hbad := hdigit 'Z' (by rw [← h]; exact hz)
  exact absurd hbad (by decide)

-- 2024-02-29 23:59:59.5 UTC
example : runID "etl" 1709251199500000000 = "etl__20240229T235959.5Z" := by decide

end Cronova.Scheduler
