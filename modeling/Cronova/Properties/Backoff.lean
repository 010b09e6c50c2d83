import Cronova.Parser.Canonical
import Cronova.Scheduler.Basics
import Mathlib.Algebra.Order.Ring.Int
import Mathlib.Algebra.Order.Ring.Pow
import Mathlib.Tactic.Ring

/-! The wait before a retry grows by doubling, in 64-bit arithmetic. A product that
leaves the range is noticed only when it comes back below the first wait; one that
comes back between the first wait and the longest allowed one is taken as it is. -/
namespace Cronova.Properties.Backoff
open Cronova.Model Cronova.Parser Cronova.Scheduler

/-- The longest wait, in seconds: a day unless the task says otherwise. -/
def longestWait (t : Task) : Int := if 0 < t.retryDelayMax then t.retryDelayMax else 24 * 3600

/-- The wait with nothing lost: doubled at most twenty times, and cut off. -/
def exactDelay (t : Task) (tries : Nat) : Int := min (t.retryDelay * 2 ^ min (tries - 1) 20) (longestWait t) * second

/-- After `k` doublings the product is in range, or what is left of it is below the
first wait or not below the longest one. -/
def Caught (t : Task) (k : Nat) : Prop :=
  t.retryDelay * second * 2 ^ k < 2 ^ 63 ∨ t.retryDelay * second * 2 ^ k % 2 ^ 64 < t.retryDelay * second ∨
    longestWait t * second ≤ t.retryDelay * second * 2 ^ k % 2 ^ 64

theorem int64_of_range {x : Int} (h : 0 ≤ x) (h' : x < 2 ^ 63) : int64 x = x := by
  have hmod : x % ((2 ^ 64 : Nat) : Int) = x := by omega
  rw [int64, Int.bmod_def, hmod]
  split <;> omega

/-- Machine arithmetic with the check for a small product, against the exact one. -/
theorem saturated_min_iff {base product limit : Int} (hbase : 0 < base) (hle : base ≤ product) (hlimit : limit < 2 ^ 62 - 1) :
    min (if int64 product < base then 2 ^ 62 - 1 else int64 product) limit = min product limit ↔
      product < 2 ^ 63 ∨ product % 2 ^ 64 < base ∨ limit ≤ product % 2 ^ 64 := by
  by_cases hfits : product < 2 ^ 63
  · rw [int64_of_range (by omega) hfits, if_neg (by omega)]
    simp only [hfits, true_or]
  · have hexact : min product limit = limit := by omega
    have hword : int64 product = if product % 2 ^ 64 < 2 ^ 63 then product % 2 ^ 64 else product % 2 ^ 64 - 2 ^ 64 := by
      rw [int64, Int.bmod_def]
      rfl
    have hrange : 0 ≤ product % 2 ^ 64 ∧ product % 2 ^ 64 < 2 ^ 64 := by omega
    rw [hexact, hword]
    generalize product % 2 ^ 64 = left at hrange
    split
    · split
      · omega
      · omega
    · rw [if_pos (by omega)]
      omega

/-- What the parser promises of the two delays. -/
structure Bounded (t : Task) : Prop where
  delay : t.retryDelay ≤ maxDurationSeconds
  max : 0 ≤ t.retryDelayMax ∧ t.retryDelayMax ≤ maxDelaySec

theorem parse_bounded {env : Env} {raw : String} {d : DAG} (h : parse env raw = .ok d) {t : Task} (ht : t ∈ d.tasks) : Bounded t := by
  obtain ⟨-, -, y, -, hy⟩ := parse_iff.mp h
  obtain ⟨entries, -, htasks⟩ := hy.tasks
  obtain ⟨entry, -, seen, n, hentry⟩ := parseTasks_task htasks ht
  obtain ⟨-, ⟨-, hdefault⟩, -⟩ := checkLimits_iff.mp hy.limits
  have hdelay : t.retryDelay = entry.retryDelay.getD y.defaultRetryDelay := congrArg Task.retryDelay hentry.result
  have hmax : t.retryDelayMax = entry.retryDelayMax := congrArg Task.retryDelayMax hentry.result
  refine ⟨?_, by rw [hmax]; exact hentry.retryDelayMax⟩
  rw [hdelay]
  cases hown : entry.retryDelay with
  | none => exact hdefault
  | some delay =>
    have hle := hentry.retryDelay.1
    rw [hown, Option.all_some, decide_eq_true_eq] at hle
    have hmonth : maxDelaySec ≤ maxDurationSeconds := by decide
    exact hle.trans hmonth

section Delay
variable {t : Task}

theorem longestWait_pos (t : Task) : 0 < longestWait t := by
  unfold longestWait
  split <;> omega

theorem longestWait_le (h : Bounded t) : longestWait t ≤ maxDelaySec := by
  have hmax := h.max.2
  have hday : (24 * 3600 : Int) ≤ maxDelaySec := by decide
  unfold longestWait
  split <;> omega

/-- The delay is the smaller of the grown product and the longest wait. -/
theorem retryDelay_eq_min (h : Bounded t) (hexp : t.retryBackoff = .exponential) (hpos : 0 < t.retryDelay) (tries : Nat) :
    retryDelay t tries =
      min (if int64 (t.retryDelay * second * 2 ^ min (tries - 1) 20) < t.retryDelay * second then 2 ^ 62 - 1
        else int64 (t.retryDelay * second * 2 ^ min (tries - 1) 20)) (longestWait t * second) := by
  have hdelay : t.retryDelay ≤ 365 * 24 * 3600 := h.delay
  have hmax : t.retryDelayMax ≤ 30 * 24 * 3600 := h.max.2
  have hmax' := h.max.1
  have hbase : int64 (t.retryDelay * second) = t.retryDelay * second := int64_of_range (by unfold second; omega) (by unfold second; omega)
  have hcap : int64 (t.retryDelayMax * second) = t.retryDelayMax * second := int64_of_range (by unfold second; omega) (by unfold second; omega)
  simp only [retryDelay, hbase, hcap, longestWait, hexp, ne_eq, not_true_eq_false, false_or]
  rw [if_neg (by unfold second; omega)]
  generalize (if int64 (t.retryDelay * second * 2 ^ min (tries - 1) 20) < t.retryDelay * second then 2 ^ 62 - 1
    else int64 (t.retryDelay * second * 2 ^ min (tries - 1) 20) : Int) = grown
  by_cases hown : 0 < t.retryDelayMax
  · simp only [hown, true_and, if_true]
    split <;> omega
  · simp only [hown, false_and, if_false]
    split <;> omega

theorem exactDelay_eq_min (t : Task) (tries : Nat) :
    exactDelay t tries = min (t.retryDelay * second * 2 ^ min (tries - 1) 20) (longestWait t * second) := by
  have hswap : t.retryDelay * second * 2 ^ min (tries - 1) 20 = t.retryDelay * 2 ^ min (tries - 1) 20 * second := by ring
  rw [exactDelay, hswap]
  generalize t.retryDelay * 2 ^ min (tries - 1) 20 = product
  unfold second
  omega

theorem doubled_ge (hpos : 0 < t.retryDelay) (k : Nat) : t.retryDelay * second ≤ t.retryDelay * second * 2 ^ k := by
  have hbase : 0 ≤ t.retryDelay * second := by unfold second; omega
  have hone : (1 : Int) ≤ 2 ^ k := one_le_pow₀ (by decide)
  exact le_mul_of_one_le_right hbase hone

theorem retryDelay_exact_iff (h : Bounded t) (hexp : t.retryBackoff = .exponential) (hpos : 0 < t.retryDelay) (tries : Nat) :
    retryDelay t tries = exactDelay t tries ↔ Caught t (min (tries - 1) 20) := by
  have hlimit : longestWait t * second < 2 ^ 62 - 1 := by
    have hle : longestWait t ≤ 30 * 24 * 3600 := longestWait_le h
    unfold second
    omega
  rw [retryDelay_eq_min h hexp hpos, exactDelay_eq_min]
  exact saturated_min_iff (by unfold second; omega) (doubled_ge hpos _) hlimit

theorem exactDelay_pos (hpos : 0 < t.retryDelay) (tries : Nat) : 0 < exactDelay t tries := by
  have hbase : 0 < t.retryDelay * second := by unfold second; omega
  have hgrown := doubled_ge hpos (min (tries - 1) 20)
  have hlimit := longestWait_pos t
  rw [exactDelay_eq_min]
  unfold second at *
  omega

theorem exactDelay_mono (hpos : 0 < t.retryDelay) {a b : Nat} (hab : a ≤ b) : exactDelay t a ≤ exactDelay t b := by
  have hbase : 0 ≤ t.retryDelay * second := by unfold second; omega
  have hpow : (2 : Int) ^ min (a - 1) 20 ≤ 2 ^ min (b - 1) 20 := pow_le_pow_right₀ (by decide) (by omega)
  have hgrown : t.retryDelay * second * 2 ^ min (a - 1) 20 ≤ t.retryDelay * second * 2 ^ min (b - 1) 20 :=
    mul_le_mul_of_nonneg_left hpow hbase
  rw [exactDelay_eq_min, exactDelay_eq_min]
  exact min_le_min_right _ hgrown

end Delay

/-- The delays of a task are exact, and with that positive and never shorter for a
later try, if and only if every product of the doublings is caught. -/
theorem retryDelay_exact (env : Env) (raw : String) (d : DAG) (t : Task) (hparse : parse env raw = .ok d) (ht : t ∈ d.tasks)
    (hexp : t.retryBackoff = .exponential) (hpos : 0 < t.retryDelay) :
    ((∀ tries, 1 ≤ tries → retryDelay t tries = exactDelay t tries) ∧ (∀ tries, 1 ≤ tries → 0 < retryDelay t tries) ∧
      (∀ a b, 1 ≤ a → a ≤ b → retryDelay t a ≤ retryDelay t b)) ↔ ∀ k, k ≤ 20 → Caught t k := by
  have hbounded := parse_bounded hparse ht
  constructor
  · rintro ⟨hexact, -, -⟩ k hk
    have hcaught := (retryDelay_exact_iff hbounded hexp hpos (k + 1)).mp (hexact (k + 1) (by omega))
    rw [Nat.add_sub_cancel, Nat.min_eq_left hk] at hcaught
    exact hcaught
  · intro hcaught
    have hexact : ∀ tries, retryDelay t tries = exactDelay t tries :=
      fun tries => (retryDelay_exact_iff hbounded hexp hpos tries).mpr (hcaught _ (Nat.min_le_right _ _))
    refine ⟨fun tries _ => hexact tries, ?_, ?_⟩
    · intro tries _
      rw [hexact]
      exact exactDelay_pos hpos tries
    · intro a b _ hab
      rw [hexact, hexact]
      exact exactDelay_mono hpos hab

/-- A first wait of almost five hours, and a month at most. -/
def patientYAML : String :=
  "dag_id: patient\ntasks:\n- \x7bid: poll, command: x, retries: 30, retry_delay: 17593, retry_backoff: exponential, " ++
    "retry_delay_max: 2592000\x7d\n"

def patientDocument (delay : Int) : DagYAML :=
  { dagID := "patient"
    tasks := [{ id := "poll", command := "x", retries := some 30, retryDelay := some delay, retryBackoff := "exponential",
                retryDelayMax := 2592000 }] }

def poll (delay : Int) : Task :=
  { id := "poll", command := "x", retries := 30, retryDelay := delay, retryBackoff := .exponential, retryDelayMax := 2592000 }

def patient (delay : Int) : DAG := { dagID := "patient", definitionYAML := patientYAML, tasks := [poll delay] }

/-- A delay of one minute is caught at every doubling. -/
theorem retryDelay_exact_minute :
    (∀ tries, 1 ≤ tries → retryDelay (poll 60) tries = exactDelay (poll 60) tries) ∧
      (∀ tries, 1 ≤ tries → 0 < retryDelay (poll 60) tries) ∧
      (∀ a b, 1 ≤ a → a ≤ b → retryDelay (poll 60) a ≤ retryDelay (poll 60) b) := by
  refine (retryDelay_exact (.ofDocuments [(patientYAML, patientDocument 60)]) patientYAML (patient 60) (poll 60) (by decide +kernel)
    List.mem_cons_self rfl (by decide)).mpr ?_
  have hfits : ∀ k, k ≤ 20 → (poll 60).retryDelay * second * 2 ^ k < 2 ^ 63 := by decide
  exact fun k hk => .inl (hfits k hk)

/-- After twenty doublings the wait falls back to ten days. -/
theorem retryDelay_wraps :
    parse (.ofDocuments [(patientYAML, patientDocument 17593)]) patientYAML = .ok (patient 17593) ∧
      retryDelay (poll 17593) 21 = 853494290448384 ∧ exactDelay (poll 17593) 21 = 2592000 * second ∧
      retryDelay (poll 17593) 21 < retryDelay (poll 17593) 20 := by
  refine ⟨by decide +kernel, by decide +kernel, by decide +kernel, by decide +kernel⟩

end Cronova.Properties.Backoff
