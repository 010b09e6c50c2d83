import Cronova.Api.RateLimit
import Mathlib.Algebra.Order.Ring.Int
import Mathlib.Algebra.Order.Ring.Basic

/-! Lockouts of the login limiter and the traffic of other keys. A lockout in force stays as it
is. What has been counted of a key whose lockout is over is forgotten when the table is
pruned. -/
namespace Cronova.Properties.RateLimit
open Cronova.Model Cronova.Concurrency Cronova.Api.RateLimit Cronova.Api.RateLimit.LoginLimiter

variable {l : LoginLimiter} {k : String} {now : Time} {keys : List String} {calls : List Call} {c : Call}

/-! ### One key -/

/-- What the table has of one key. -/
abbrev Entry := Option LoginFails

/-- What a call does to the entry of a key, if the table is not pruned. -/
def own (k : String) (e : Entry) : Call → Entry
  | .retryAfter _ _ => e
  | .fail now keys => (keys.filter (· = k)).foldl (fun e _ => some (record k now (e.getD {}))) e
  | .ok keys => if k ∈ keys ∧ isIP k = false then none else e

def Names (k : String) : Call → Prop
  | .retryAfter _ keys => k ∈ keys
  | .fail _ keys => k ∈ keys
  | .ok keys => k ∈ keys

instance (k : String) (c : Call) : Decidable (Names k c) := by
  cases c <;> exact inferInstanceAs (Decidable (k ∈ _))

/-- The call finds a large table and the lockout of the key over. -/
def Forgets (l : LoginLimiter) (k : String) : Call → Prop
  | .fail now _ => loginLimiterSize < l.entries.length ∧ ∃ f, l.lookup k = some f ∧ f.lockedUntil < now
  | _ => False

theorem own_unnamed (e : Entry) (h : ¬ Names k c) : own k e c = e := by
  cases c with
  | retryAfter now keys => rfl
  | fail now keys =>
    have hnone : keys.filter (· = k) = [] := by
      refine List.filter_eq_nil_iff.mpr ?_
      intro key hkey heq
      exact h (of_decide_eq_true heq ▸ hkey)
    simp only [own]
    rw [hnone]
    rfl
  | ok keys => exact if_neg (fun hboth => h hboth.1)

theorem own_named (e : Entry) (calls : List Call) : calls.foldl (own k) e = (calls.filter (Names k ·)).foldl (own k) e := by
  induction calls generalizing e with
  | nil => rfl
  | cons c calls ih =>
    by_cases hc : Names k c
    · rw [List.filter_cons_of_pos (by simpa using hc), List.foldl_cons, List.foldl_cons, ih]
    · rw [List.filter_cons_of_neg (by simpa using hc), List.foldl_cons, own_unnamed e hc, ih]

theorem lookup_fails (l : LoginLimiter) (keys : List String) :
    (keys.foldl (failOne now) l).lookup k = own k (l.lookup k) (.fail now keys) := by
  induction keys generalizing l with
  | nil => rfl
  | cons key keys ih =>
    rw [List.foldl_cons, ih]
    by_cases hkey : key = k
    · subst hkey
      have hinsert : (failOne now l key).lookup key = some (record key now ((l.lookup key).getD {})) := AList.lookup_insert _
      simp only [own]
      rw [hinsert, List.filter_cons_of_pos (by simp), List.foldl_cons]
    · have hinsert : (failOne now l key).lookup k = l.lookup k := AList.lookup_insert_ne (Ne.symm hkey)
      simp only [own]
      rw [hinsert, List.filter_cons_of_neg (by simpa using hkey)]

theorem lookup_ok (l : LoginLimiter) (keys : List String) : (l.ok keys).lookup k = own k (l.lookup k) (.ok keys) := by
  induction keys generalizing l with
  | nil => rfl
  | cons key keys ih =>
    change (LoginLimiter.ok (if isIP key then l else l.erase key) keys).lookup k = _
    rw [ih]
    simp only [own, List.mem_cons]
    by_cases hip : isIP key = true
    · rw [if_pos hip]
      by_cases hkey : k = key
      · subst hkey
        simp [hip]
      · simp [hkey]
    · rw [if_neg hip]
      by_cases hkey : k = key
      · subst hkey
        rw [AList.lookup_erase]
        simp [hip]
      · rw [AList.lookup_erase_ne hkey]
        simp [hkey]

theorem lookup_prune (h : ¬ Forgets l k (.fail now keys)) : (l.prune now).lookup k = l.lookup k := by
  unfold prune
  split
  · rename_i hlarge
    cases hlookup : l.lookup k with
    | none =>
      refine Option.eq_none_iff_forall_ne_some.mpr ?_
      intro f hf
      have hkept := (Registry.lookup_keep.mp hf).1
      rw [hlookup] at hkept
      cases hkept
    | some f =>
      refine Registry.lookup_keep.mpr ⟨hlookup, ?_⟩
      exact decide_eq_true (fun hover => h ⟨hlarge, f, hlookup, hover⟩)
  · rfl

theorem lookup_prune_forgotten (h : Forgets l k (.fail now keys)) : (l.prune now).lookup k = none := by
  obtain ⟨hlarge, f, hlookup, hover⟩ := h
  unfold prune
  rw [if_pos hlarge]
  refine Option.eq_none_iff_forall_ne_some.mpr ?_
  intro f' hf'
  obtain ⟨hkept, hlasts⟩ := Registry.lookup_keep.mp hf'
  rw [hlookup] at hkept
  cases hkept
  exact of_decide_eq_true hlasts hover

/-- A call that does not forget the key does to its entry what it does to that key. -/
theorem lookup_step (h : ¬ Forgets l k c) : (l.step c).lookup k = own k (l.lookup k) c := by
  cases c with
  | retryAfter now keys => rfl
  | fail now keys =>
    change (keys.foldl (failOne now) (l.prune now)).lookup k = _
    rw [lookup_fails, lookup_prune h]
  | ok keys => exact lookup_ok l keys

/-- A call that forgets the key goes on from nothing. -/
theorem lookup_step_forgotten (h : Forgets l k c) : (l.step c).lookup k = own k none c := by
  cases c with
  | retryAfter now keys => cases h
  | fail now keys =>
    change (keys.foldl (failOne now) (l.prune now)).lookup k = _
    rw [lookup_fails, lookup_prune_forgotten h]
  | ok keys => cases h

/-! ### Runs -/

/-- No call of the run forgets the key. -/
def Spares (k : String) : LoginLimiter → List Call → Prop
  | _, [] => True
  | l, c :: calls => ¬ Forgets l k c ∧ Spares k (l.step c) calls

theorem lookup_run (h : Spares k l calls) : (l.run calls).lookup k = calls.foldl (own k) (l.lookup k) := by
  induction calls generalizing l with
  | nil => rfl
  | cons c calls ih =>
    obtain ⟨hc, hrest⟩ := h
    change ((l.step c).run calls).lookup k = _
    rw [ih hrest, lookup_step hc]
    rfl

/-- How long a key with this entry has to wait. -/
def wait (e : Entry) (now : Time) : Int :=
  match e with
  | some f => if now < f.lockedUntil then f.lockedUntil - now else 0
  | none => 0

theorem retryAfter_one (l : LoginLimiter) (now : Time) (k : String) : l.retryAfter now [k] = wait (l.lookup k) now := by
  unfold retryAfter wait
  rw [List.foldl_cons, List.foldl_nil]
  cases l.lookup k with
  | none => rfl
  | some f =>
    dsimp only
    split
    · rename_i hlasts
      exact if_pos (Int.sub_pos_of_lt hlasts)
    · rfl

/-- A lockout that is over counts like none. -/
theorem wait_step (hunnamed : ¬ Names k c) (htime : ∀ t keys, c = .fail t keys → t ≤ now) :
    wait ((l.step c).lookup k) now = wait (l.lookup k) now := by
  by_cases hforgets : Forgets l k c
  · rw [lookup_step_forgotten hforgets, own_unnamed none hunnamed]
    cases c with
    | retryAfter t keys => cases hforgets
    | fail t keys =>
      obtain ⟨-, f, hlookup, hover⟩ := hforgets
      rw [hlookup]
      refine (if_neg ?_).symm
      exact Int.not_lt.mpr (Int.le_of_lt (Int.lt_of_lt_of_le hover (htime t keys rfl)))
    | ok keys => cases hforgets
  · rw [lookup_step hforgets, own_unnamed _ hunnamed]

theorem wait_run (hunnamed : ∀ c ∈ calls, ¬ Names k c) (htime : ∀ t keys, .fail t keys ∈ calls → t ≤ now) :
    wait ((l.run calls).lookup k) now = wait (l.lookup k) now := by
  induction calls generalizing l with
  | nil => rfl
  | cons c calls ih =>
    have hfirst : wait ((l.step c).lookup k) now = wait (l.lookup k) now := by
      refine wait_step (hunnamed c List.mem_cons_self) ?_
      intro t keys hc
      exact htime t keys (hc ▸ List.mem_cons_self)
    rw [← hfirst]
    refine ih (fun c hc => hunnamed c (List.mem_cons_of_mem _ hc)) ?_
    exact fun t keys hmem => htime t keys (List.mem_cons_of_mem _ hmem)

/-! ### Escalation -/

/-- How often the key fails in the calls. -/
def failures (k : String) : List Call → Nat
  | [] => 0
  | .fail _ keys :: calls => keys.count k + failures k calls
  | _ :: calls => failures k calls

/-- No call clears the key. -/
def Uncleared (k : String) (calls : List Call) : Prop := ∀ keys, .ok keys ∈ calls → k ∈ keys → isIP k = true

/-- The lockout that the `n`-th failure arms. -/
def lockout (k : String) (n : Nat) : Int := min (keyParams k).2 (loginLockBase * 2 ^ (n - (keyParams k).1 - 1))

def failsOf (e : Entry) : Nat := (e.getD {}).fails

theorem record_fails (f : LoginFails) : (record k now f).fails = f.fails + 1 := by
  unfold record
  dsimp only
  split <;> rfl

theorem keyParams_cap (k : String) : 0 < (keyParams k).2 ∧ (keyParams k).2 ≤ loginLockBase * 2 ^ 8 := by
  unfold keyParams
  split <;> decide

/-- Ten failures too many lock no longer than nine. -/
theorem record_lockout (k : String) (now : Time) (f : LoginFails) (h : (keyParams k).1 < f.fails + 1) :
    (record k now f).lockedUntil = now + lockout k (f.fails + 1) := by
  obtain ⟨-, hcap⟩ := keyParams_cap k
  unfold record lockout
  dsimp only
  rw [if_pos h]
  dsimp only
  congr 1
  by_cases hmany : 9 < f.fails + 1 - (keyParams k).1
  · have hgrown : loginLockBase * 2 ^ 8 ≤ loginLockBase * 2 ^ (f.fails + 1 - (keyParams k).1 - 1) := by
      refine Int.mul_le_mul_of_nonneg_left ?_ (by decide)
      exact pow_le_pow_right₀ (by decide) (by omega)
    rw [if_pos hmany, Int.min_eq_left (Int.le_trans hcap hgrown)]
    split
    · rfl
    · rename_i hless
      exact Int.le_antisymm (Int.not_lt.mp hless) hcap
  · rw [if_neg hmany]
    split
    · rename_i hless
      exact (Int.min_eq_left (Int.le_of_lt hless)).symm
    · rename_i hless
      exact (Int.min_eq_right (Int.not_lt.mp hless)).symm

/-- Several failures in one call. -/
theorem record_all (k : String) (now : Time) (e : Entry) (keys : List String) :
    failsOf (keys.foldl (fun e _ => some (record k now (e.getD {}))) e) = failsOf e + keys.length := by
  induction keys generalizing e with
  | nil => rfl
  | cons key keys ih =>
    rw [List.foldl_cons, ih, List.length_cons]
    change (record k now (e.getD {})).fails + keys.length = _
    rw [record_fails]
    unfold failsOf
    omega

theorem own_failsOf (e : Entry) (h : ∀ keys, c = .ok keys → k ∈ keys → isIP k = true) :
    failsOf (own k e c) = failsOf e + failures k [c] := by
  cases c with
  | retryAfter now keys => rfl
  | fail now keys =>
    simp only [own]
    rw [record_all, ← List.countP_eq_length_filter]
    rfl
  | ok keys =>
    have hkept : ¬ (k ∈ keys ∧ isIP k = false) := by
      rintro ⟨hmem, hip⟩
      rw [h keys rfl hmem] at hip
      cases hip
    simp only [own, if_neg hkept]
    rfl

theorem failures_cons (c : Call) (calls : List Call) : failures k (c :: calls) = failures k [c] + failures k calls := by
  cases c <;> simp [failures]

theorem failures_append (calls calls' : List Call) : failures k (calls ++ calls') = failures k calls + failures k calls' := by
  induction calls with
  | nil => simp [failures]
  | cons c calls ih =>
    rw [List.cons_append, failures_cons, ih, failures_cons c calls]
    omega

theorem failsOf_run (h : Uncleared k calls) (e : Entry) : failsOf (calls.foldl (own k) e) = failsOf e + failures k calls := by
  induction calls generalizing e with
  | nil => rfl
  | cons c calls ih =>
    have hfirst := own_failsOf e (fun keys hc => h keys (hc ▸ List.mem_cons_self))
    rw [List.foldl_cons, ih (fun keys hmem => h keys (List.mem_cons_of_mem _ hmem)), hfirst, failures_cons c calls]
    omega

/-- The last of several failures decides. -/
theorem own_lockout (e : Entry) (hmem : k ∈ keys) (h : (keyParams k).1 < failsOf e + keys.count k) :
    wait (own k e (.fail now keys)) now = lockout k (failsOf e + keys.count k) := by
  have hne : keys.filter (· = k) ≠ [] := List.ne_nil_of_mem (List.mem_filter.mpr ⟨hmem, decide_eq_true rfl⟩)
  have hcount : keys.count k = (keys.filter (· = k)).length := by
    rw [← List.countP_eq_length_filter]
    rfl
  obtain ⟨front, last, hsplit⟩ := List.eq_nil_or_concat _ |>.resolve_left hne
  rw [hcount, hsplit, List.length_concat] at h ⊢
  simp only [own]
  rw [hsplit, List.concat_eq_append, List.foldl_append, List.foldl_cons, List.foldl_nil]
  have hfails := record_all k now e front
  unfold failsOf at hfails h ⊢
  have hlock := record_lockout k now (front.foldl (fun e _ => some (record k now (e.getD {}))) e |>.getD {})
    (by rw [hfails]; omega)
  rw [hfails] at hlock
  have hpos : 0 < lockout k ((e.getD {}).fails + front.length + 1) := by
    refine Int.lt_min.mpr ⟨(keyParams_cap k).1, ?_⟩
    exact Int.mul_pos (by decide) (Int.pow_pos (by decide))
  unfold wait
  dsimp only
  rw [hlock, if_pos (Int.lt_add_of_pos_right _ hpos)]
  rw [Int.add_comm]
  exact Int.add_sub_cancel _ _

/-- Lockouts and the traffic of other keys. As long as no call forgets the key, its lockout
depends on the calls that name it only. Other calls never change a lockout in force, and
while the key is neither cleared nor forgotten its lockouts grow. A call that forgets the
key starts it anew. -/
theorem lockouts_independent :
    (∀ k calls calls' now, Spares k newLoginLimiter calls → Spares k newLoginLimiter calls' →
      calls.filter (Names k ·) = calls'.filter (Names k ·) →
        (newLoginLimiter.run calls).retryAfter now [k] = (newLoginLimiter.run calls').retryAfter now [k]) ∧
    (∀ (l : LoginLimiter) k calls now, (∀ c ∈ calls, ¬ Names k c) → (∀ t keys, .fail t keys ∈ calls → t ≤ now) →
      (l.run calls).retryAfter now [k] = l.retryAfter now [k]) ∧
    (∀ (l : LoginLimiter) k calls now keys, l.lookup k = none → Spares k l (calls ++ [.fail now keys]) → Uncleared k calls → k ∈ keys →
      (keyParams k).1 < failures k (calls ++ [.fail now keys]) →
        (l.run (calls ++ [.fail now keys])).retryAfter now [k] = lockout k (failures k (calls ++ [.fail now keys]))) ∧
    ∀ (l : LoginLimiter) k c, Forgets l k c → (l.step c).lookup k = own k none c := by
  refine ⟨?_, ?_, ?_, fun _ _ _ => lookup_step_forgotten⟩
  · intro k calls calls' now hspares hspares' hsame
    rw [retryAfter_one, retryAfter_one, lookup_run hspares, lookup_run hspares', own_named, hsame, ← own_named]
  · intro l k calls now hunnamed htime
    rw [retryAfter_one, retryAfter_one]
    exact wait_run hunnamed htime
  · intro l k calls now keys hnone hspares huncleared hmem hmany
    have hcount : failures k (calls ++ [.fail now keys]) = failsOf (calls.foldl (own k) none) + keys.count k := by
      rw [failures_append, failsOf_run huncleared]
      simp [failures, failsOf]
    rw [hcount] at hmany ⊢
    rw [retryAfter_one, lookup_run hspares, hnone, List.foldl_append, List.foldl_cons, List.foldl_nil]
    exact own_lockout _ hmem hmany

def bob : String := "u:bob"

/-- The third failure locks for two seconds. -/
theorem lockouts_independent_bob : (newLoginLimiter.run ([.fail 0 [bob], .fail 0 [bob]] ++ [.fail 0 [bob]])).retryAfter 0 [bob] =
    lockout bob (failures bob ([.fail 0 [bob], .fail 0 [bob]] ++ [.fail 0 [bob]])) :=
  lockouts_independent.2.2.1 newLoginLimiter bob [.fail 0 [bob], .fail 0 [bob]] 0 [bob] rfl
    ⟨fun h => absurd h.1 (by decide), fun h => absurd h.1 (by decide), fun h => absurd h.1 (by decide), trivial⟩
    (fun keys hkeys => by simp at hkeys) List.mem_cons_self (by decide)

/-! ### A flood of keys -/

theorem mem_fails (l : LoginLimiter) (h : k ∈ keys ∨ k ∈ l.keys) : k ∈ (keys.foldl (failOne now) l).keys := by
  rw [← AList.mem_keys, ← AList.lookup_isSome] at h ⊢
  rw [lookup_fails]
  by_cases hmem : k ∈ keys
  · have hne : keys.filter (· = k) ≠ [] := List.ne_nil_of_mem (List.mem_filter.mpr ⟨hmem, decide_eq_true rfl⟩)
    obtain ⟨front, last, hsplit⟩ := List.eq_nil_or_concat _ |>.resolve_left hne
    simp only [own]
    rw [hsplit, List.concat_eq_append, List.foldl_append]
    rfl
  · have hunnamed : ¬ Names k (.fail now keys) := hmem
    rw [own_unnamed _ hunnamed]
    exact h.resolve_left hmem

/-- Ten thousand usernames. -/
def others : List String := (List.range 10000).map (fun n => String.ofList (List.replicate n 'x'))

theorem bob_other : bob ∉ others := by
  intro h
  obtain ⟨n, -, hn⟩ := List.mem_map.mp h
  have htext := congrArg String.toList hn
  rw [String.toList_ofList] at htext
  have hchar : 'u' ∈ List.replicate n 'x' := by
    rw [htext]
    decide
  exact absurd (List.eq_of_mem_replicate hchar) (by decide)

theorem others_nodup : (bob :: others).Nodup := by
  refine List.nodup_cons.mpr ⟨bob_other, ?_⟩
  refine List.nodup_range.map ?_
  intro n m h
  have hlength := congrArg (fun s => s.toList.length) h
  simpa using hlength

/-- Two failures of one user, one of each of the others, and then the third. -/
def flood (crowd : List String) : List Call := [.fail 0 [bob], .fail 0 [bob], .fail 0 crowd, .fail 1 ["u:eve"], .fail 1 [bob]]

/-- The two failures are forgotten before the third. -/
theorem flood_unlocks {crowd : List String} (hnodup : (bob :: crowd).Nodup) (hmany : loginLimiterSize ≤ crowd.length) :
    (newLoginLimiter.run (flood crowd)).retryAfter 1 [bob] = 0 := by
  have htwo : (newLoginLimiter.run [.fail 0 [bob], .fail 0 [bob]]).lookup bob = some { fails := 2 } := by decide
  have hsmall : ¬ loginLimiterSize < (newLoginLimiter.run [.fail 0 [bob], .fail 0 [bob]]).entries.length := by decide
  have hmem : bob ∈ (newLoginLimiter.run [.fail 0 [bob], .fail 0 [bob]]).keys := by decide
  change ((newLoginLimiter.run [.fail 0 [bob], .fail 0 [bob]]).run [.fail 0 crowd, .fail 1 ["u:eve"], .fail 1 [bob]]).retryAfter 1
    [bob] = 0
  generalize newLoginLimiter.run [.fail 0 [bob], .fail 0 [bob]] = l at htwo hsmall hmem
  have hother : ¬ Names bob (.fail 0 crowd) := (List.nodup_cons.mp hnodup).1
  have hthree : (l.step (.fail 0 crowd)).lookup bob = some { fails := 2 } := by
    have hspared : ¬ Forgets l bob (.fail 0 crowd) := fun h => hsmall h.1
    rw [lookup_step hspared, own_unnamed _ hother, htwo]
  have hlarge : loginLimiterSize < (l.step (.fail 0 crowd)).entries.length := by
    have hkept : l.prune 0 = l := if_neg hsmall
    have hsubset : bob :: crowd ⊆ (l.step (.fail 0 crowd)).keys := by
      change bob :: crowd ⊆ (crowd.foldl (failOne 0) (l.prune 0)).keys
      rw [hkept]
      intro key hkey
      rcases List.mem_cons.mp hkey with rfl | hcrowd
      · exact mem_fails l (.inr hmem)
      · exact mem_fails l (.inl hcrowd)
    have hlength := (List.subperm_of_subset hnodup hsubset).length_le
    have hkeys : (l.step (.fail 0 crowd)).keys.length = (l.step (.fail 0 crowd)).entries.length := List.length_map _
    rw [hkeys, List.length_cons] at hlength
    omega
  have hfour : ((l.step (.fail 0 crowd)).step (.fail 1 ["u:eve"])).lookup bob = none := by
    have hforgets : Forgets (l.step (.fail 0 crowd)) bob (.fail 1 ["u:eve"]) := ⟨hlarge, _, hthree, by decide⟩
    rw [lookup_step_forgotten hforgets]
    decide
  change (((l.step (.fail 0 crowd)).step (.fail 1 ["u:eve"])).step (.fail 1 [bob])).retryAfter 1 [bob] = 0
  have hspared : ¬ Forgets ((l.step (.fail 0 crowd)).step (.fail 1 ["u:eve"])) bob (.fail 1 [bob]) := by
    rintro ⟨-, f, hf, -⟩
    rw [hfour] at hf
    cases hf
  rw [retryAfter_one, lookup_step hspared, hfour]
  decide

def times (calls : List Call) : List Time := calls.filterMap (fun c =>
  match c with
  | .retryAfter now _ => some now
  | .fail now _ => some now
  | .ok _ => none)

/-- The third failure locks after as many calls that name the user in the same order, but
not with a flood between them. -/
theorem lockouts_not_independent : ¬ ∀ (k : String) (calls calls' : List Call) (now : Time),
    (times calls ++ [now]).Pairwise (· ≤ ·) → (times calls' ++ [now]).Pairwise (· ≤ ·) →
      calls.filter (Names k ·) = calls'.filter (Names k ·) →
        (newLoginLimiter.run calls).retryAfter now [k] = (newLoginLimiter.run calls').retryAfter now [k] := by
  intro h
  have hmany : loginLimiterSize ≤ others.length := by simp [others, loginLimiterSize]
  have hunlocked := flood_unlocks others_nodup hmany
  have hother : ¬ Names bob (.fail 0 others) := bob_other
  have hsame : (flood others).filter (Names bob ·) = [.fail 0 [bob], .fail 0 [bob], .fail 1 [bob]].filter (Names bob ·) := by
    generalize others = crowd at hother
    unfold flood
    rw [List.filter_cons_of_pos (by decide), List.filter_cons_of_pos (by decide), List.filter_cons_of_neg (by simpa using hother)]
    decide
  have hlocked := h bob (flood others) [.fail 0 [bob], .fail 0 [bob], .fail 1 [bob]] 1
    (by change ([0, 0, 0, 1, 1] ++ [1] : List Int).Pairwise (· ≤ ·); decide) (by decide) hsame
  rw [hunlocked] at hlocked
  exact absurd hlocked (by decide)

end Cronova.Properties.RateLimit
