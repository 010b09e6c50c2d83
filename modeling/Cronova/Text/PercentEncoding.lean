import Mathlib.Data.List.Infix
import Mathlib.Tactic.Common

/-! The percent encoding of the user and the password of a URL. -/
namespace Cronova.Text.PercentEncoding

def percent : UInt8 := 37

def isAlphanum (c : UInt8) : Bool := (97 ≤ c && c ≤ 122) || (65 ≤ c && c ≤ 90) || (48 ≤ c && c ≤ 57)

/-- `-_.~` and `$&+,;=` stay as they are, besides letters and digits. -/
def shouldEscape (c : UInt8) : Bool := !(isAlphanum c || [45, 95, 46, 126, 36, 38, 43, 44, 59, 61].contains c)

def upperhex (n : UInt8) : UInt8 := if n < 10 then 48 + n else 55 + n

def escape (s : List UInt8) : List UInt8 :=
  s.flatMap (fun c => if shouldEscape c then [percent, upperhex (c / 16), upperhex (c % 16)] else [c])

def unhex (c : UInt8) : Option UInt8 :=
  if 48 ≤ c ∧ c ≤ 57 then some (c - 48)
  else if 97 ≤ c ∧ c ≤ 102 then some (c - 87)
  else if 65 ≤ c ∧ c ≤ 70 then some (c - 55)
  else none

/-- A percent sign takes two hexadecimal digits with it. -/
def unescape : List UInt8 → Option (List UInt8)
  | [] => some []
  | c :: s =>
    if c = percent then
      match s with
      | hi :: lo :: s => do
        let h ← unhex hi
        let l ← unhex lo
        let rest ← unescape s
        return (h * 16 + l) :: rest
      | _ => none
    else do
      let rest ← unescape s
      return c :: rest

/-- A fact about each byte. -/
theorem forall_byte {p : UInt8 → Prop} (h : ∀ n < 256, p (UInt8.ofNat n)) (c : UInt8) : p c := by
  have hc := h c.toNat c.toNat_lt
  rwa [UInt8.ofNat_toNat] at hc

theorem unhex_upperhex : ∀ c : UInt8, unhex (upperhex (c / 16)) = some (c / 16) ∧ unhex (upperhex (c % 16)) = some (c % 16) ∧
    c / 16 * 16 + c % 16 = c :=
  forall_byte (by decide +kernel)

theorem plain_ne_percent : ∀ c : UInt8, shouldEscape c = false → c ≠ percent :=
  forall_byte (by decide +kernel)

theorem escape_cons (c : UInt8) (s : List UInt8) :
    escape (c :: s) = (if shouldEscape c then [percent, upperhex (c / 16), upperhex (c % 16)] else [c]) ++ escape s :=
  List.flatMap_cons

theorem unescape_escape (s : List UInt8) : unescape (escape s) = some s := by
  induction s with
  | nil => rfl
  | cons c s ih =>
    rw [escape_cons]
    split
    · obtain ⟨hhi, hlo, hbyte⟩ := unhex_upperhex c
      simp only [List.cons_append, List.nil_append, unescape, if_true, hhi, hlo, ih, Option.bind_eq_bind, Option.bind_some]
      exact congrArg (fun b => some (b :: s)) hbyte
    · rename_i hplain
      have hne := plain_ne_percent c (by simpa using hplain)
      rw [List.singleton_append, unescape.eq_def]
      simp only [if_neg hne, ih, Option.bind_eq_bind, Option.bind_some]
      rfl

/-- An encoded text has no byte that is to be escaped, other than the percent sign. -/
theorem mem_escape {c : UInt8} {s : List UInt8} (h : c ∈ escape s) : shouldEscape c = false ∨ c = percent := by
  obtain ⟨d, -, hd⟩ := List.mem_flatMap.mp h
  split at hd
  · have hhex : ∀ d : UInt8, shouldEscape (upperhex (d / 16)) = false ∧ shouldEscape (upperhex (d % 16)) = false :=
      forall_byte (by decide +kernel)
    simp only [List.mem_cons, List.not_mem_nil, or_false] at hd
    rcases hd with rfl | rfl | rfl
    · exact .inr rfl
    · exact .inl (hhex d).1
    · exact .inl (hhex d).2
  · rename_i hplain
    obtain rfl := List.mem_singleton.mp hd
    exact .inl (by simpa using hplain)

/-- A text with nothing to escape is its own encoding. -/
theorem escape_plain {s : List UInt8} (h : ∀ c ∈ s, shouldEscape c = false) : escape s = s := by
  induction s with
  | nil => rfl
  | cons c s ih =>
    rw [escape_cons, h c List.mem_cons_self, ih (fun d hd => h d (List.mem_cons_of_mem c hd))]
    rfl

end Cronova.Text.PercentEncoding
