import Cronova.Remote.Hub
import Cronova.Scheduler.Basics
import Cronova.Store.Timestamp

/-! Names of runs and attempts. A run is named after its DAG, two underscores and a tag of
its trigger; the tag can be read back although DAG ids may have underscores of their own. -/
namespace Cronova.Scheduler
open Cronova.Model Cronova.Text Cronova.Store

/-- What a run of a DAG is created for. -/
inductive RunKey where
  /-- A period of the schedule, or of an upstream DAG. -/
  | logical (date : Time)
  /-- A manual trigger at an instant. -/
  | manual (now : Time)
  /-- A sub-workflow started at an instant. -/
  | sub (now : Time)
  /-- A backfilled period, by its second. -/
  | backfill (unix : Int)
  | event (id : Nat)
  deriving DecidableEq, Repr

def RunKey.tag : RunKey → List Char
  | .logical date => stamp date
  | .manual now => "manual_".toList ++ (toString now).toList
  | .sub now => "sub_".toList ++ (toString now).toList
  | .backfill unix => "backfill_".toList ++ (toString unix).toList
  | .event id => "event_".toList ++ (toString id).toList

/-- The id of the run of a DAG for a key. -/
def RunKey.runID (dagID : String) : RunKey → String
  | .logical date => Scheduler.runID dagID date
  | .manual now => manualRunID dagID now
  | .sub now => subRunID dagID now
  | .backfill unix => backfillRunID dagID (unix * second)
  | .event id => eventRunID dagID id

theorem backfillRunID_eq (dagID : String) (t : Time) : backfillRunID dagID t = (RunKey.backfill (t / second)).runID dagID := by
  rw [RunKey.runID, backfillRunID, backfillRunID, Int.mul_ediv_cancel _ (by decide)]

theorem RunKey.runID_toList (dagID : String) (key : RunKey) :
    (key.runID dagID).toList = dagID.toList ++ '_' :: '_' :: key.tag := by
  have happend : ∀ (mid : String) (tail : String) (rest : List Char), mid.toList = '_' :: '_' :: rest →
      (dagID ++ mid ++ tail).toList = dagID.toList ++ '_' :: '_' :: (rest ++ tail.toList) := by
    intro mid tail rest hmid
    rw [String.toList_append, String.toList_append, hmid, List.append_assoc]
    rfl
  cases key with
  | logical date =>
    have htag : (String.ofList (stamp date)).toList = stamp date := String.toList_ofList
    exact (happend "__" _ [] rfl).trans (by rw [htag]; rfl)
  | manual now => exact happend "__manual_" _ _ rfl
  | sub now => exact happend "__sub_" _ _ rfl
  | backfill unix =>
    rw [RunKey.runID, backfillRunID, Int.mul_ediv_cancel _ (by decide)]
    exact happend "__backfill_" _ _ rfl
  | event id => exact happend "__event_" _ _ rfl

/-! ### Tags -/

/-- No path separator, no underscore in front, and no two of them side by side. -/
structure Plain (tag : List Char) : Prop where
  slash : '/' ∉ tag
  backslash : '\\' ∉ tag
  head : tag.head? ≠ some '_'
  single : ¬ ['_', '_'] <:+: tag

/-- Neither a path separator nor an underscore. -/
structure Ordinary (c : Char) : Prop where
  slash : c ≠ '/'
  backslash : c ≠ '\\'
  underscore : c ≠ '_'

theorem plain_of_count {c : Char} {cs : List Char} (hslash : '/' ∉ c :: cs) (hback : '\\' ∉ c :: cs) (hc : c ≠ '_')
    (hcount : (c :: cs).count '_' ≤ 1) : Plain (c :: cs) := by
  refine ⟨hslash, hback, fun h => hc (Option.some.inj h), fun hpart => ?_⟩
  have htwo := hpart.sublist.count_le '_'
  have hpair : List.count '_' ['_', '_'] = 2 := by decide
  omega

theorem count_ordinary {cs : List Char} (h : ∀ c ∈ cs, Ordinary c) : cs.count '_' = 0 :=
  List.count_eq_zero.mpr (fun hmem => (h _ hmem).underscore rfl)

theorem digit_ordinary {c : Char} (h : c.isDigit = true) : Ordinary c := by
  constructor <;> rintro rfl <;> cases h

theorem padded_digits (width n : Nat) : ∀ c ∈ padded width n, c.isDigit = true := by
  intro c hc
  rcases List.mem_append.mp hc with hzero | hdigit
  · rw [List.eq_of_mem_replicate hzero]
    rfl
  · exact digits_nat n c hdigit

theorem formatYear_ordinary (y : Int) : ∀ c ∈ formatYear y, Ordinary c ∧ c ≠ 'T' := by
  have hdigit : ∀ c : Char, c.isDigit = true → c ≠ 'T' := by
    rintro c h rfl
    cases h
  intro c hc
  unfold formatYear at hc
  split at hc
  · rcases List.mem_cons.mp hc with rfl | hrest
    · exact ⟨⟨by decide, by decide, by decide⟩, by decide⟩
    · have h := padded_digits _ _ c hrest
      exact ⟨digit_ordinary h, hdigit c h⟩
  · have h := padded_digits _ _ c hc
    exact ⟨digit_ordinary h, hdigit c h⟩

theorem formatFraction_ordinary (ns : Nat) : ∀ c ∈ formatFraction ns, Ordinary c := by
  intro c hc
  unfold formatFraction at hc
  split at hc
  · cases hc
  · rcases List.mem_cons.mp hc with rfl | hrest
    · exact ⟨by decide, by decide, by decide⟩
    · have hmem := (List.dropWhile_suffix _).subset (List.mem_reverse.mp hrest)
      exact digit_ordinary (padded_digits _ _ c (List.mem_reverse.mp hmem))

/-- The date of a stamp and its clock. -/
theorem stamp_eq (t : Time) : stamp t =
    (formatYear (year t) ++ padded 2 (civil (dayOf t)).2.1 ++ padded 2 (civil (dayOf t)).2.2) ++ 'T' ::
      (padded 2 (secondOfDay t / 3600) ++ padded 2 (secondOfDay t / 60 % 60) ++ padded 2 (secondOfDay t % 60) ++
        (formatFraction (nanos t) ++ ['Z'])) := by
  change formatYear (year t) ++ padded 2 (civil (dayOf t)).2.1 ++ padded 2 (civil (dayOf t)).2.2 ++ ['T'] ++
    padded 2 (secondOfDay t / 3600) ++ padded 2 (secondOfDay t / 60 % 60) ++ padded 2 (secondOfDay t % 60) ++
      formatFraction (nanos t) ++ ['Z'] = _
  simp only [List.append_assoc, List.cons_append, List.nil_append]

theorem stamp_ordinary (t : Time) : ∀ c ∈ stamp t, Ordinary c := by
  intro c hc
  have hdigit := fun width n c hc => digit_ordinary (padded_digits width n c hc)
  rw [stamp_eq] at hc
  simp only [List.mem_append, List.mem_cons, List.not_mem_nil, or_false, or_assoc] at hc
  rcases hc with h | h | h | rfl | h | h | h | h | rfl
  · exact (formatYear_ordinary _ c h).1
  · exact hdigit _ _ c h
  · exact hdigit _ _ c h
  · exact ⟨by decide, by decide, by decide⟩
  · exact hdigit _ _ c h
  · exact hdigit _ _ c h
  · exact hdigit _ _ c h
  · exact formatFraction_ordinary _ c h
  · exact ⟨by decide, by decide, by decide⟩

theorem int_ordinary (n : Int) : ∀ c ∈ (toString n).toList, Ordinary c := by
  intro c hc
  obtain ⟨sign, ds, hn, hds, hsign⟩ := digits_int n
  rw [hn] at hc
  rcases List.mem_append.mp hc with h | h
  · rcases hsign with rfl | rfl
    · cases h
    · rw [List.mem_singleton.mp h]
      exact ⟨by decide, by decide, by decide⟩
  · exact digit_ordinary (hds c h)

/-- A tag of a word and a number. -/
theorem plain_numbered {c : Char} {word number : List Char} (hslash : '/' ∉ c :: word) (hback : '\\' ∉ c :: word) (hc : c ≠ '_')
    (hword : (c :: word).count '_' ≤ 1) (hnumber : ∀ d ∈ number, Ordinary d) : Plain (c :: word ++ number) := by
  have hplain : Plain (c :: (word ++ number)) := by
    refine plain_of_count ?_ ?_ hc ?_
    · rw [← List.cons_append, List.mem_append]
      rintro (hmem | hmem)
      · exact hslash hmem
      · exact (hnumber _ hmem).slash rfl
    · rw [← List.cons_append, List.mem_append]
      rintro (hmem | hmem)
      · exact hback hmem
      · exact (hnumber _ hmem).backslash rfl
    · rw [← List.cons_append, List.count_append, count_ordinary hnumber]
      exact hword
  exact hplain

theorem RunKey.plain_tag (key : RunKey) : Plain key.tag := by
  cases key with
  | logical date =>
    have hall : ∀ c ∈ stamp date, Ordinary c := stamp_ordinary date
    change Plain (stamp date)
    cases hstamp : stamp date with
    | nil => exact ⟨nofun, nofun, nofun, fun hpart => by simpa using hpart.length_le⟩
    | cons c cs =>
      rw [hstamp] at hall
      refine plain_of_count (fun hmem => (hall _ hmem).slash rfl) (fun hmem => (hall _ hmem).backslash rfl)
        (hall c List.mem_cons_self).underscore ?_
      rw [count_ordinary hall]
      exact Nat.zero_le 1
  | manual now => exact plain_numbered (by decide) (by decide) (by decide) (by decide) (int_ordinary now)
  | sub now => exact plain_numbered (by decide) (by decide) (by decide) (by decide) (int_ordinary now)
  | backfill unix => exact plain_numbered (by decide) (by decide) (by decide) (by decide) (int_ordinary unix)
  | event id =>
    exact plain_numbered (by decide) (by decide) (by decide) (by decide) (fun c hc => digit_ordinary (digits_nat id c hc))

/-- Two underscores and a plain tag are read back from the end of a text. -/
theorem split_tag {a b s t : List Char} (hs : Plain s) (ht : Plain t) (h : a ++ '_' :: '_' :: s = b ++ '_' :: '_' :: t) :
    a = b ∧ s = t := by
  -- what one front has beyond the other would bring underscores into the other's tag
  have hless : ∀ {a b s t : List Char}, Plain s → a ++ '_' :: '_' :: s = b ++ '_' :: '_' :: t → b.length ≤ a.length := by
    intro a b s t hs h
    by_contra hlt
    have hpre : a <+: b ++ '_' :: '_' :: t := h ▸ List.prefix_append a _
    obtain ⟨rest, rfl⟩ := List.prefix_of_prefix_length_le hpre (List.prefix_append b _) (by omega)
    rw [List.append_assoc] at h
    have hrest := List.append_cancel_left h
    cases rest with
    | nil => simp at hlt
    | cons c rest =>
      obtain ⟨-, hrest⟩ := List.cons_eq_cons.mp hrest
      cases rest with
      | nil =>
        obtain ⟨-, hrest⟩ := List.cons_eq_cons.mp hrest
        exact hs.head (by rw [hrest]; rfl)
      | cons d rest =>
        obtain ⟨-, hrest⟩ := List.cons_eq_cons.mp hrest
        exact hs.single ⟨rest, t, by rw [hrest, List.append_assoc]; rfl⟩
  have hlen : a.length = b.length := Nat.le_antisymm (hless ht h.symm) (hless hs h)
  obtain ⟨hfront, htag⟩ := List.append_inj h hlen
  exact ⟨hfront, (List.cons_eq_cons.mp (List.cons_eq_cons.mp htag).2).2⟩

/-! ### What a stamp tells -/

theorem ofDigitChars_padded (width n : Nat) : Nat.ofDigitChars 10 (padded width n) 0 = n := by
  have hlist : (toString n).toList = Nat.toDigits 10 n := String.toList_ofList
  rw [padded, hlist, Nat.ofDigitChars_append, Nat.ofDigitChars_replicate_zero, Nat.mul_zero, Nat.ofDigitChars_ten_toDigits]

theorem padded_inj {width m n : Nat} (h : padded width m = padded width n) : m = n := by
  rw [← ofDigitChars_padded width m, h, ofDigitChars_padded]

theorem length_padded {width n : Nat} (hpos : 0 < width) (h : n < 10 ^ width) : (padded width n).length = width := by
  rw [padded_eq_digits hpos h, length_digits]

theorem formatYear_inj {y z : Int} (h : formatYear y = formatYear z) : y = z := by
  have hsign : ∀ width n rest, padded width n ≠ '-' :: rest := by
    intro width n rest heq
    have hdigit := padded_digits width n '-' (heq ▸ List.mem_cons_self)
    cases hdigit
  unfold formatYear at h
  split at h
  · split at h
    · have habs := padded_inj (List.cons_eq_cons.mp h).2
      omega
    · exact absurd h.symm (hsign _ _ _)
  · split at h
    · exact absurd h (hsign _ _ _)
    · have habs := padded_inj h
      omega

theorem time_eq_of_fields {t u : Time} (hday : dayOf t = dayOf u) (hclock : secondOfDay t = secondOfDay u)
    (hnanos : nanos t = nanos u) : t = u := by
  have hsplit := Int.mul_ediv_add_emod t second
  have hsplit' := Int.mul_ediv_add_emod u second
  have hcast : ((nanos t : Nat) : Int) = t % second := Int.toNat_of_nonneg (Int.emod_nonneg t (by decide))
  have hcast' : ((nanos u : Nat) : Int) = u % second := Int.toNat_of_nonneg (Int.emod_nonneg u (by decide))
  have hseconds : t / second = u / second := by
    have hmod : seconds t % 86400 = seconds u % 86400 := by
      unfold secondOfDay at hclock
      omega
    unfold dayOf at hday
    change seconds t = seconds u
    omega
  rw [← hsplit, ← hsplit', ← hcast, ← hcast', hseconds, hnanos]

/-- The fields of a date are read from its end. -/
theorem date_inj {y y' : Int} {m m' d d' : Nat} (hm : m < 100) (hm' : m' < 100) (hd : d < 100) (hd' : d' < 100)
    (h : formatYear y ++ padded 2 m ++ padded 2 d = formatYear y' ++ padded 2 m' ++ padded 2 d') : y = y' ∧ m = m' ∧ d = d' := by
  have htwo : ∀ n, n < 100 → (padded 2 n).length = 2 := fun n hn => length_padded (by decide) hn
  obtain ⟨hdate, hday⟩ := List.append_inj' h (by rw [htwo d hd, htwo d' hd'])
  obtain ⟨hyear, hmonth⟩ := List.append_inj' hdate (by rw [htwo m hm, htwo m' hm'])
  exact ⟨formatYear_inj hyear, padded_inj hmonth, padded_inj hday⟩

/-- The fields of a clock are read from its front. -/
theorem clock_inj {n n' : Nat} {x x' : List Char} (hn : n < 86400) (hn' : n' < 86400)
    (h : padded 2 (n / 3600) ++ padded 2 (n / 60 % 60) ++ padded 2 (n % 60) ++ x =
      padded 2 (n' / 3600) ++ padded 2 (n' / 60 % 60) ++ padded 2 (n' % 60) ++ x') : n = n' ∧ x = x' := by
  have htwo : ∀ n, n < 100 → (padded 2 n).length = 2 := fun n hn => length_padded (by decide) hn
  have hfields : ∀ n, n < 86400 → (padded 2 (n / 3600)).length = 2 ∧ (padded 2 (n / 60 % 60)).length = 2 ∧
      (padded 2 (n % 60)).length = 2 := by
    intro n hn
    exact ⟨htwo _ (by omega), htwo _ (by omega), htwo _ (by omega)⟩
  obtain ⟨hh, hm, hs⟩ := hfields n hn
  obtain ⟨hh', hm', hs'⟩ := hfields n' hn'
  obtain ⟨hclock, hrest⟩ := List.append_inj h (by rw [List.length_append, List.length_append, List.length_append,
    List.length_append, hh, hm, hs, hh', hm', hs'])
  obtain ⟨hclock, hsec⟩ := List.append_inj hclock (by rw [List.length_append, List.length_append, hh, hm, hh', hm'])
  obtain ⟨hhour, hmin⟩ := List.append_inj hclock (by rw [hh, hh'])
  have hhour := padded_inj hhour
  have hmin := padded_inj hmin
  have hsec := padded_inj hsec
  exact ⟨by omega, hrest⟩

theorem civil_lt_hundred (day : Int) : (civil day).2.1 < 100 ∧ (civil day).2.2 < 100 := by
  obtain ⟨-, hmonth, -, hday⟩ := civil_valid day
  have hle : ∀ m y, daysIn m y ≤ 31 := by
    intro m y
    unfold daysIn
    split <;> split <;> omega
  have := hle (civil day).2.1 (civil day).1
  omega

theorem not_mem_date (y : Int) (m d : Nat) : 'T' ∉ formatYear y ++ padded 2 m ++ padded 2 d := by
  have hdigit : ∀ n, 'T' ∉ padded 2 n := by
    intro n hT
    cases padded_digits 2 n _ hT
  intro hmem
  rcases List.mem_append.mp hmem with hmem | hmem
  · rcases List.mem_append.mp hmem with hmem | hmem
    · exact (formatYear_ordinary _ _ hmem).2 rfl
    · exact hdigit _ hmem
  · exact hdigit _ hmem

/-- A text is split in one way at the first place of a mark. -/
theorem split_mark {c : Char} {a b x y : List Char} (ha : c ∉ a) (hb : c ∉ b) (h : a ++ c :: x = b ++ c :: y) : a = b ∧ x = y := by
  induction a generalizing b with
  | nil =>
    cases b with
    | nil => exact ⟨rfl, (List.cons_eq_cons.mp h).2⟩
    | cons d b => exact absurd ((List.cons_eq_cons.mp h).1 ▸ List.mem_cons_self) hb
  | cons d a ih =>
    cases b with
    | nil => exact absurd ((List.cons_eq_cons.mp h).1 ▸ List.mem_cons_self) ha
    | cons e b =>
      obtain ⟨rfl, htail⟩ := List.cons_eq_cons.mp h
      obtain ⟨rfl, hrest⟩ := ih (fun hc => ha (List.mem_cons_of_mem _ hc)) (fun hc => hb (List.mem_cons_of_mem _ hc)) htail
      exact ⟨rfl, hrest⟩

theorem stamp_inj {t u : Time} (h : stamp t = stamp u) : t = u := by
  rw [stamp_eq, stamp_eq] at h
  obtain ⟨hdate, hclock⟩ := split_mark (not_mem_date _ _ _) (not_mem_date _ _ _) h
  obtain ⟨hm, hd⟩ := civil_lt_hundred (dayOf t)
  obtain ⟨hm', hd'⟩ := civil_lt_hundred (dayOf u)
  obtain ⟨hyear, hmonth, hday⟩ := date_inj hm hm' hd hd' hdate
  obtain ⟨hclock, hfraction⟩ := clock_inj (secondOfDay_lt t) (secondOfDay_lt u) hclock
  have hday : dayOf t = dayOf u := by
    have hyear : (civil (dayOf t)).1 = (civil (dayOf u)).1 := hyear
    rw [← dayNumber_civil (dayOf t), ← dayNumber_civil (dayOf u), hyear, hmonth, hday]
  have hnanos : nanos t = nanos u := by
    have hread := readFraction_formatFraction (nanos_lt t)
    rw [hfraction, readFraction_formatFraction (nanos_lt u)] at hread
    exact (Prod.mk.inj hread).1.symm
  exact time_eq_of_fields hday hclock hnanos

theorem toString_int_inj {m n : Int} (h : (toString m).toList = (toString n).toList) : m = n := by
  have hdigits : ∀ (k : Nat) (i : Nat), (toString k).toList ≠ '-' :: (toString i).toList := by
    intro k i heq
    have hdigit := digits_nat k '-' (heq ▸ List.mem_cons_self)
    cases hdigit
  have hneg : ∀ k : Nat, (toString (Int.negSucc k)).toList = '-' :: (toString k.succ).toList := by
    intro k
    change ("-" ++ toString k.succ).toList = _
    rw [String.toList_append]
    rfl
  cases m with
  | ofNat m =>
    cases n with
    | ofNat n => exact congrArg Int.ofNat (toString_nat_inj (String.toList_inj.mp h))
    | negSucc n =>
      rw [hneg] at h
      exact absurd h (hdigits m n.succ)
  | negSucc m =>
    cases n with
    | ofNat n =>
      rw [hneg] at h
      exact absurd h.symm (hdigits n m.succ)
    | negSucc n =>
      rw [hneg, hneg] at h
      have hsucc := toString_nat_inj (String.toList_inj.mp (List.cons_eq_cons.mp h).2)
      exact congrArg Int.negSucc (Nat.succ.inj hsucc)

/-- A tag ends in a digit or in the `Z` of a stamp. -/
def TagEnd (c : Char) : Prop := c.isDigit = true ∨ c = 'Z'

theorem digits_last (word : List Char) {number : List Char} (hne : number ≠ []) (h : ∀ c ∈ number, c.isDigit = true) :
    ∃ c, (word ++ number).getLast? = some c ∧ TagEnd c := by
  refine ⟨number.getLast hne, ?_, .inl (h _ (List.getLast_mem hne))⟩
  rw [List.getLast?_append, List.getLast?_eq_some_getLast hne]
  rfl

theorem toString_ne_nil (n : Nat) : (toString n).toList ≠ [] := by
  have hlist : (toString n).toList = Nat.toDigits 10 n := String.toList_ofList
  rw [hlist]
  exact Nat.toDigits_ne_nil

theorem int_last (word : List Char) (n : Int) : ∃ c, (word ++ (toString n).toList).getLast? = some c ∧ TagEnd c := by
  cases n with
  | ofNat n => exact digits_last word (toString_ne_nil n) (digits_nat n)
  | negSucc n =>
    have hneg : (toString (Int.negSucc n)).toList = '-' :: (toString n.succ).toList := by
      change ("-" ++ toString n.succ).toList = _
      rw [String.toList_append]
      rfl
    rw [hneg, ← List.singleton_append, ← List.append_assoc]
    exact digits_last _ (toString_ne_nil n.succ) (digits_nat n.succ)

theorem RunKey.tag_last (key : RunKey) : ∃ c, key.tag.getLast? = some c ∧ TagEnd c := by
  cases key with
  | logical date =>
    refine ⟨'Z', ?_, .inr rfl⟩
    change (stamp date).getLast? = some 'Z'
    rw [stamp_eq, ← List.cons_append, ← List.append_assoc, ← List.append_assoc, List.getLast?_append]
    rfl
  | manual now => exact int_last _ now
  | sub now => exact int_last _ now
  | backfill unix => exact int_last _ unix
  | event id => exact digits_last _ (toString_ne_nil id) (digits_nat id)

/-- What stands before an underscore of a tag is a word. -/
theorem word_before {word w x number : List Char} (hword : '_' ∉ word) (hnumber : ∀ c ∈ number, Ordinary c)
    (h : word ++ '_' :: number = w ++ '_' :: x) : w = word := by
  have hcount := congrArg (List.count '_') h
  rw [List.count_append, List.count_append, List.count_cons_self, List.count_cons_self, count_ordinary hnumber,
    List.count_eq_zero.mpr hword] at hcount
  have hw : '_' ∉ w := List.count_eq_zero.mp (by omega)
  exact ((split_mark hword hw h).1).symm

theorem RunKey.tag_front {key : RunKey} {w x : List Char} (h : key.tag = w ++ '_' :: x) :
    ∃ c, w.getLast? = some c ∧ ¬ TagEnd c := by
  have hletter : ∀ c : Char, c.isDigit = false → c ≠ 'Z' → ¬ TagEnd c := by
    rintro c hc hz (hdigit | rfl)
    · rw [hc] at hdigit
      cases hdigit
    · exact hz rfl
  cases key with
  | logical date =>
    have hmem : '_' ∈ stamp date := by
      change stamp date = _ at h
      rw [h]
      exact List.mem_append_right w List.mem_cons_self
    exact absurd rfl (stamp_ordinary date _ hmem).underscore
  | manual now =>
    rw [word_before (show '_' ∉ "manual".toList by decide) (int_ordinary now) h]
    exact ⟨'l', by decide, hletter _ (by decide) (by decide)⟩
  | sub now =>
    rw [word_before (show '_' ∉ "sub".toList by decide) (int_ordinary now) h]
    exact ⟨'b', by decide, hletter _ (by decide) (by decide)⟩
  | backfill unix =>
    rw [word_before (show '_' ∉ "backfill".toList by decide) (int_ordinary unix) h]
    exact ⟨'l', by decide, hletter _ (by decide) (by decide)⟩
  | event id =>
    rw [word_before (show '_' ∉ "event".toList by decide) (fun c hc => digit_ordinary (digits_nat id c hc)) h]
    exact ⟨'t', by decide, hletter _ (by decide) (by decide)⟩

theorem RunKey.tag_inj {a b : RunKey} (h : a.tag = b.tag) : a = b := by
  -- a stamp begins with a sign or a digit, the other tags with a letter of their own
  have hstamp : ∀ date c rest, stamp date = c :: rest → c = '-' ∨ c.isDigit = true := by
    intro date c rest heq
    rw [stamp_eq] at heq
    have hlong : ∀ n, padded 4 n ≠ [] := by
      intro n hnil
      exact toString_ne_nil n (List.append_eq_nil_iff.mp hnil).2
    unfold formatYear at heq
    split at heq
    · left
      exact ((List.cons_eq_cons.mp heq).1).symm
    · right
      cases hyear : padded 4 (year date).natAbs with
      | nil => exact absurd hyear (hlong _)
      | cons d ds =>
        rw [hyear] at heq
        rw [← (List.cons_eq_cons.mp heq).1]
        exact padded_digits 4 _ d (hyear ▸ List.mem_cons_self)
  have hletter : ∀ date (c : Char) rest, (c = '-' ∨ c.isDigit = true → False) → stamp date ≠ c :: rest :=
    fun date c rest hc heq => hc (hstamp date c rest heq)
  cases a with
  | logical date =>
    cases b with
    | logical date' => exact congrArg _ (stamp_inj h)
    | manual now => exact absurd h (hletter _ 'm' _ (by decide))
    | sub now => exact absurd h (hletter _ 's' _ (by decide))
    | backfill unix => exact absurd h (hletter _ 'b' _ (by decide))
    | event id => exact absurd h (hletter _ 'e' _ (by decide))
  | manual now =>
    cases b with
    | logical date' => exact absurd h.symm (hletter _ 'm' _ (by decide))
    | manual now' => exact congrArg _ (toString_int_inj (List.append_cancel_left h))
    | sub now' => exact absurd (List.cons_eq_cons.mp h).1 (by decide)
    | backfill unix => exact absurd (List.cons_eq_cons.mp h).1 (by decide)
    | event id => exact absurd (List.cons_eq_cons.mp h).1 (by decide)
  | sub now =>
    cases b with
    | logical date' => exact absurd h.symm (hletter _ 's' _ (by decide))
    | manual now' => exact absurd (List.cons_eq_cons.mp h).1 (by decide)
    | sub now' => exact congrArg _ (toString_int_inj (List.append_cancel_left h))
    | backfill unix => exact absurd (List.cons_eq_cons.mp h).1 (by decide)
    | event id => exact absurd (List.cons_eq_cons.mp h).1 (by decide)
  | backfill unix =>
    cases b with
    | logical date' => exact absurd h.symm (hletter _ 'b' _ (by decide))
    | manual now' => exact absurd (List.cons_eq_cons.mp h).1 (by decide)
    | sub now' => exact absurd (List.cons_eq_cons.mp h).1 (by decide)
    | backfill unix' => exact congrArg _ (toString_int_inj (List.append_cancel_left h))
    | event id => exact absurd (List.cons_eq_cons.mp h).1 (by decide)
  | event id =>
    cases b with
    | logical date' => exact absurd h.symm (hletter _ 'e' _ (by decide))
    | manual now' => exact absurd (List.cons_eq_cons.mp h).1 (by decide)
    | sub now' => exact absurd (List.cons_eq_cons.mp h).1 (by decide)
    | backfill unix' => exact absurd (List.cons_eq_cons.mp h).1 (by decide)
    | event id' => exact congrArg _ (toString_nat_inj (String.toList_inj.mp (List.append_cancel_left h)))

/-- The id of a run tells its DAG and what it was created for. -/
theorem RunKey.runID_inj {dagID dagID' : String} {key key' : RunKey} (h : key.runID dagID = key'.runID dagID') :
    dagID = dagID' ∧ key = key' := by
  have hchars := congrArg String.toList h
  rw [runID_toList, runID_toList] at hchars
  obtain ⟨hdag, htag⟩ := split_tag key.plain_tag key'.plain_tag hchars
  exact ⟨String.toList_inj.mp hdag, tag_inj htag⟩

/-! ### Attempt refs -/

theorem atoi_toString {n : Nat} (h : n < 2 ^ 63) : DateTmpl.atoi (toString n).toList = some (n : Int) := by
  have hlist : (toString n).toList = Nat.toDigits 10 n := String.toList_ofList
  have hvalue : (toString n).toList.foldl (fun n c => 10 * n + (c.toNat - 48)) 0 = n := by
    rw [hlist]
    exact Nat.ofDigitChars_ten_toDigits
  rw [DateTmpl.atoi, hvalue, if_pos h]

theorem signedAtoi_toString {n : Nat} (h : n < 2 ^ 63) : Remote.signedAtoi (toString n).toList = some (n : Int) := by
  have hne := toString_ne_nil n
  have hhead : ∀ c, (toString n).toList.head? = some c → c.isDigit = true := by
    intro c hc
    exact digits_nat n c (List.mem_of_mem_head? hc)
  have hminus : (toString n).toList.head? ≠ some '-' := fun hc => absurd (hhead '-' hc) (by decide)
  have hplus : (toString n).toList.head? ≠ some '+' := fun hc => absurd (hhead '+' hc) (by decide)
  have hall : (toString n).toList.all Char.isDigit = true := List.all_eq_true.mpr (digits_nat n)
  rw [Remote.signedAtoi, if_neg (not_or.mpr ⟨hminus, hplus⟩), if_neg (not_or.mpr ⟨hne, by rw [hall]; decide⟩), if_neg hminus, atoi_toString h]

theorem idxOf?_mark {c : Char} {a : List Char} (h : c ∉ a) (x : List Char) : (a ++ c :: x).idxOf? c = some a.length := by
  rw [List.idxOf?_eq_some_iff]
  refine ⟨by simp, by simp, ?_⟩
  intro j hj
  rw [List.getElem_append_left hj]
  exact fun heq => h (heq ▸ List.getElem_mem hj)

/-- A ref is taken apart at its first slash and its last. -/
theorem splitRef_attemptRef {run task : String} {n : Nat} (hrun : run ≠ "") (hslash : '/' ∉ run.toList)
    (hn : n < 2 ^ 63) : Remote.splitRef (attemptRef run task n) = some (run, task, (n : Int)) := by
  have hchars : (attemptRef run task n).toList = run.toList ++ '/' :: (task.toList ++ '/' :: (toString n).toList) := by
    rw [attemptRef, String.toList_append, String.toList_append, String.toList_append, String.toList_append]
    simp
  have hdigits : '/' ∉ (toString n).toList := by
    intro hmem
    cases digits_nat n '/' hmem
  have hback : (run.toList ++ '/' :: (task.toList ++ '/' :: (toString n).toList)).reverse =
      (toString n).toList.reverse ++ '/' :: (run.toList ++ '/' :: task.toList).reverse := by
    simp
  have hlast := idxOf?_mark (fun h => hdigits (List.mem_reverse.mp h)) (run.toList ++ '/' :: task.toList).reverse
  have hpos : 0 < run.toList.length := by
    rw [List.length_pos_iff]
    exact fun hnil => hrun (String.toList_inj.mp hnil)
  have hplace : (run.toList ++ '/' :: (task.toList ++ '/' :: (toString n).toList)).length - 1 - (toString n).toList.reverse.length =
      run.toList.length + 1 + task.toList.length := by
    simp only [List.length_append, List.length_cons, List.length_reverse]
    omega
  have hcond : ¬ (run.toList.length = 0 ∨ run.toList.length + 1 + task.toList.length ≤ run.toList.length) := by omega
  have hnumber : (run.toList ++ '/' :: (task.toList ++ '/' :: (toString n).toList)).drop (run.toList.length + 1 + task.toList.length + 1) =
      (toString n).toList := by
    have hsplit : run.toList ++ '/' :: (task.toList ++ '/' :: (toString n).toList) =
        (run.toList ++ ['/'] ++ task.toList ++ ['/']) ++ (toString n).toList := by
      simp only [List.append_assoc, List.cons_append, List.nil_append]
    rw [hsplit]
    exact List.drop_left' (by simp only [List.length_append, List.length_singleton])
  have hmid : ((run.toList ++ '/' :: (task.toList ++ '/' :: (toString n).toList)).drop (run.toList.length + 1)).take
      (run.toList.length + 1 + task.toList.length - run.toList.length - 1) = task.toList := by
    have hsplit : run.toList ++ '/' :: (task.toList ++ '/' :: (toString n).toList) =
        (run.toList ++ ['/']) ++ (task.toList ++ '/' :: (toString n).toList) := by
      rw [List.append_assoc, List.singleton_append]
    rw [hsplit, List.drop_left' (by rw [List.length_append, List.length_singleton])]
    exact List.take_left' (by omega)
  have hfront : (run.toList ++ '/' :: (task.toList ++ '/' :: (toString n).toList)).take run.toList.length = run.toList :=
    List.take_left' rfl
  unfold Remote.splitRef
  dsimp only
  rw [hchars, hback, idxOf?_mark hslash, hlast]
  dsimp only
  rw [hplace, if_neg hcond, hnumber, signedAtoi_toString hn, hmid, hfront]
  simp

end Cronova.Scheduler
