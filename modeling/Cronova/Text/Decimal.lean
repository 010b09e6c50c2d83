import Mathlib.Data.Char
import Mathlib.Data.List.DropRight
import Mathlib.Data.List.Lex
import Mathlib.Tactic.Common
import Mathlib.Algebra.Order.Ring.Int

/-! The order of texts, of numbers written with a fixed number of decimal digits, and of
fractions written without their trailing zeros. -/
namespace Cronova.Text

section Order
variable {α : Type*} [LinearOrder α]

/-- Texts of one shape are compared field by field. -/
theorem append_lt_append_iff {a b x y : List α} (h : a.length = b.length) :
    a ++ x < b ++ y ↔ a < b ∨ a = b ∧ x < y := by
  induction a generalizing b with
  | nil =>
    have hnil : b = [] := List.eq_nil_of_length_eq_zero h.symm
    subst hnil
    simp
  | cons c a ih =>
    cases b with
    | nil => simp at h
    | cons d b =>
      have hlen : a.length = b.length := Nat.succ.inj h
      rw [List.cons_append, List.cons_append, List.cons_lt_cons_iff, List.cons_lt_cons_iff, ih hlen, List.cons_eq_cons]
      tauto

/-- Where neither text goes on from the other, what follows them does not count. -/
theorem append_lt_append_of_apart {a b x y : List α} (hab : ¬ a <+: b) (hba : ¬ b <+: a) :
    a ++ x < b ++ y ↔ a < b := by
  induction a generalizing b with
  | nil => exact absurd (List.nil_prefix) hab
  | cons c a ih =>
    cases b with
    | nil => exact absurd (List.nil_prefix) hba
    | cons d b =>
      rw [List.cons_append, List.cons_append, List.cons_lt_cons_iff, List.cons_lt_cons_iff]
      rw [List.cons_prefix_cons] at hab hba
      by_cases hcd : c = d
      · subst hcd
        rw [ih (fun h => hab ⟨rfl, h⟩) (fun h => hba ⟨rfl, h⟩)]
      · simp [hcd]

theorem not_lt_replicate {zero : α} {l : List α} (h : ∀ c ∈ l, zero ≤ c) : ¬ l < List.replicate l.length zero := by
  induction l with
  | nil => simp
  | cons c l ih =>
    rw [List.length_cons, List.replicate_succ, List.cons_lt_cons_iff]
    rintro (hlt | ⟨-, hlt⟩)
    · exact absurd (h c List.mem_cons_self) (not_le.mpr hlt)
    · exact ih (fun d hd => h d (List.mem_cons_of_mem c hd)) hlt

/-- Two words of one length without the zeros at their ends, each closed by a mark
above their letters: the smaller word comes first unless the other goes on from it. -/
theorem closed_lt_iff {zero mark : α} {a b : List α} {m n : Nat} {x y : List α} (hzero : ∀ c ∈ a, zero ≤ c)
    (hmark : ∀ c ∈ b, c < mark) (hlen : a.length + m = b.length + n)
    (hlt : a ++ List.replicate m zero < b ++ List.replicate n zero) :
    a ++ mark :: x < b ++ mark :: y ↔ ¬ a <+: b := by
  by_cases hpre : a <+: b
  · obtain ⟨rest, rfl⟩ := hpre
    rw [List.append_assoc, append_lt_append_iff rfl] at hlt ⊢
    cases rest with
    | nil =>
      have hmn : m = n := by simpa using hlen
      subst hmn
      simp at hlt
    | cons c rest =>
      have hc : c < mark := hmark c (by simp)
      have hnot : ¬ mark :: x < c :: (rest ++ mark :: y) := by
        rw [List.cons_lt_cons_iff]
        rintro (h | ⟨h, -⟩)
        · exact absurd (h.trans hc) (lt_irrefl _)
        · exact hc.ne' h
      simpa using hnot
  · have hback : ¬ b <+: a := by
      rintro ⟨rest, rfl⟩
      rw [List.append_assoc, append_lt_append_iff rfl] at hlt
      simp only [lt_irrefl, true_and, false_or] at hlt
      have hn : n = (rest ++ List.replicate m zero).length := by
        rw [List.length_append] at hlen
        rw [List.length_append, List.length_replicate]
        omega
      rw [hn] at hlt
      refine not_lt_replicate (fun c hc => ?_) hlt
      rcases List.mem_append.mp hc with h | h
      · exact hzero c (List.mem_append_right _ h)
      · exact (List.eq_of_mem_replicate h).ge
    rw [append_lt_append_of_apart hpre hback] at hlt ⊢
    exact iff_of_true hlt hpre

end Order

/-! Digits -/

/-- The last `width` decimal digits of a number. -/
def digits : Nat → Nat → List Char
  | 0, _ => []
  | width + 1, n => digits width (n / 10) ++ [Nat.digitChar (n % 10)]

@[simp] theorem length_digits (width n : Nat) : (digits width n).length = width := by
  induction width generalizing n with
  | zero => rfl
  | succ width ih => rw [digits, List.length_append, ih, List.length_singleton]

theorem digitChar_lt : ∀ m < 10, ∀ n < 10, Nat.digitChar m < Nat.digitChar n ↔ m < n := by
  decide

theorem isDigit_digitChar : ∀ n < 10, (Nat.digitChar n).isDigit = true := by
  decide

theorem isDigit_digits (width n : Nat) : ∀ c ∈ digits width n, c.isDigit = true := by
  induction width generalizing n with
  | zero => simp [digits]
  | succ width ih =>
    intro c hc
    rw [digits, List.mem_append, List.mem_singleton] at hc
    rcases hc with hc | rfl
    · exact ih _ c hc
    · exact isDigit_digitChar _ (Nat.mod_lt n (by decide))

theorem isDigit_bounds {c : Char} (h : c.isDigit = true) : '0' ≤ c ∧ c ≤ '9' := by
  have hval : 48 ≤ c.val ∧ c.val ≤ 57 := by simpa [Char.isDigit] using h
  exact hval

/-- The digits of a number give it back. -/
theorem ofDigitChars_digits {width n : Nat} (h : n < 10 ^ width) : Nat.ofDigitChars 10 (digits width n) 0 = n := by
  induction width generalizing n with
  | zero =>
    have hzero : n = 0 := by simpa using h
    subst hzero
    rfl
  | succ width ih =>
    have hdiv : n / 10 < 10 ^ width := Nat.div_lt_of_lt_mul (by rwa [Nat.pow_succ'] at h)
    rw [digits, Nat.ofDigitChars_append, ih hdiv, Nat.ofDigitChars_cons_digitChar_of_lt_ten (Nat.mod_lt n (by decide)),
      Nat.ofDigitChars_nil]
    exact Nat.div_add_mod n 10

theorem digits_inj {width m n : Nat} (hm : m < 10 ^ width) (hn : n < 10 ^ width) : digits width m = digits width n ↔ m = n := by
  constructor
  · intro h
    rw [← ofDigitChars_digits hm, h, ofDigitChars_digits hn]
  · exact congrArg _

/-- Numbers of as many digits are ordered as their digits are. -/
theorem digits_lt_iff {width m n : Nat} (hm : m < 10 ^ width) (hn : n < 10 ^ width) :
    digits width m < digits width n ↔ m < n := by
  induction width generalizing m n with
  | zero =>
    have hzero : m = 0 ∧ n = 0 := by simpa using And.intro hm hn
    obtain ⟨rfl, rfl⟩ := hzero
    simp [digits]
  | succ width ih =>
    have hm' : m / 10 < 10 ^ width := Nat.div_lt_of_lt_mul (by rwa [Nat.pow_succ'] at hm)
    have hn' : n / 10 < 10 ^ width := Nat.div_lt_of_lt_mul (by rwa [Nat.pow_succ'] at hn)
    rw [digits, digits, append_lt_append_iff (by simp), ih hm' hn', digits_inj hm' hn']
    rw [List.cons_lt_cons_iff, digitChar_lt _ (Nat.mod_lt m (by decide)) _ (Nat.mod_lt n (by decide))]
    simp only [lt_irrefl, and_false, or_false]
    omega

/-- A field of digits decides, or leaves the order to what follows it. -/
theorem digits_append_lt_iff {width m n : Nat} {x y : List Char} (hm : m < 10 ^ width) (hn : n < 10 ^ width) :
    digits width m ++ x < digits width n ++ y ↔ m < n ∨ m = n ∧ x < y := by
  rw [append_lt_append_iff (by simp), digits_lt_iff hm hn, digits_inj hm hn]

/-! Fractions -/

/-- The decimal places of a fraction, without the zeros at their end. -/
def places (width n : Nat) : List Char := (digits width n).rdropWhile (· = '0')

theorem places_append (width n : Nat) :
    ∃ k, (places width n).length + k = width ∧ digits width n = places width n ++ List.replicate k '0' := by
  have hback := List.rdropWhile_append_rtakeWhile (p := (· = '0')) (l := digits width n)
  have hzeros : (digits width n).rtakeWhile (· = '0') = List.replicate ((digits width n).rtakeWhile (· = '0')).length '0' := by
    refine List.eq_replicate_of_mem (fun c hc => ?_)
    simpa using List.mem_rtakeWhile_imp hc
  refine ⟨((digits width n).rtakeWhile (· = '0')).length, ?_, ?_⟩
  · rw [places, ← List.length_append, hback, length_digits]
  · rw [← hzeros, places, hback]

theorem isDigit_places {width n : Nat} : ∀ c ∈ places width n, c.isDigit = true :=
  fun c hc => isDigit_digits width n c ((List.rdropWhile_prefix _ (digits width n)).mem hc)

theorem length_places_le (width n : Nat) : (places width n).length ≤ width := by
  obtain ⟨k, hlen, -⟩ := places_append width n
  omega

/-- The places left out count as zeros. -/
theorem ofDigitChars_places {width n : Nat} (h : n < 10 ^ width) :
    Nat.ofDigitChars 10 (places width n) 0 * 10 ^ (width - (places width n).length) = n := by
  obtain ⟨k, hlen, heq⟩ := places_append width n
  have hk : width - (places width n).length = k := by omega
  have hvalue := ofDigitChars_digits h
  rw [heq, Nat.ofDigitChars_append, Nat.ofDigitChars_replicate_zero] at hvalue
  rw [hk, Nat.mul_comm]
  exact hvalue

theorem digits_zero (width : Nat) : ∀ c ∈ digits width 0, c = '0' := by
  induction width with
  | zero => simp [digits]
  | succ width ih =>
    intro c hc
    rw [digits, List.mem_append, List.mem_singleton] at hc
    rcases hc with hc | rfl
    · exact ih c hc
    · rfl

theorem places_eq_nil_iff {width n : Nat} (h : n < 10 ^ width) : places width n = [] ↔ n = 0 := by
  constructor
  · intro hnil
    have hvalue := ofDigitChars_places h
    rw [hnil, Nat.ofDigitChars_nil, Nat.zero_mul] at hvalue
    exact hvalue.symm
  · rintro rfl
    rw [places, List.rdropWhile_eq_nil_iff]
    intro c hc
    rw [decide_eq_true_eq]
    exact digits_zero width c hc

/-- Of two fractions the smaller one comes first as text, unless its places begin the
other's. -/
theorem places_lt_iff {width m n : Nat} (hn : n < 10 ^ width) (hlt : m < n) (mark : Char) (hmark : '9' < mark)
    (x y : List Char) :
    places width m ++ mark :: x < places width n ++ mark :: y ↔ ¬ places width m <+: places width n := by
  obtain ⟨j, hj, hm⟩ := places_append width m
  obtain ⟨k, hk, hn'⟩ := places_append width n
  refine closed_lt_iff (fun c hc => (isDigit_bounds (isDigit_places c hc)).1)
    (fun c hc => lt_of_le_of_lt (isDigit_bounds (isDigit_places c hc)).2 hmark) (hj.trans hk.symm) ?_
  rw [← hm, ← hn', digits_lt_iff (hlt.trans hn) hn]
  exact hlt

end Cronova.Text
