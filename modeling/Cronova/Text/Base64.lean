import Mathlib.Data.List.Infix
import Mathlib.Tactic.Common

/-! Base64 with the standard alphabet, with padding and without. -/
namespace Cronova.Text.Base64

def pad : UInt8 := 61

/-- Letters, digits, `+` and `/`. -/
def digit (v : Nat) : UInt8 :=
  if v < 26 then UInt8.ofNat (65 + v)
  else if v < 52 then UInt8.ofNat (71 + v)
  else if v < 62 then UInt8.ofNat (v - 4)
  else if v = 62 then 43
  else 47

def value (c : UInt8) : Option Nat :=
  if 65 ≤ c ∧ c ≤ 90 then some (c.toNat - 65)
  else if 97 ≤ c ∧ c ≤ 122 then some (c.toNat - 71)
  else if 48 ≤ c ∧ c ≤ 57 then some (c.toNat + 4)
  else if c = 43 then some 62
  else if c = 47 then some 63
  else none

/-- Three bytes become four digits; what is left over is padded. -/
def encode : List UInt8 → List UInt8
  | [] => []
  | [a] => [digit (a.toNat / 4), digit (a.toNat % 4 * 16), pad, pad]
  | [a, b] => [digit (a.toNat / 4), digit (a.toNat % 4 * 16 + b.toNat / 16), digit (b.toNat % 16 * 4), pad]
  | a :: b :: c :: s =>
    digit (a.toNat / 4) :: digit (a.toNat % 4 * 16 + b.toNat / 16) :: digit (b.toNat % 16 * 4 + c.toNat / 64) ::
      digit (c.toNat % 64) :: encode s

/-- Four digits at a time. Nothing comes after padding; the bits that padding leaves
over are not looked at. -/
def quantums : List UInt8 → Option (List UInt8)
  | [] => some []
  | w :: x :: y :: z :: s => do
    let i ← value w
    let j ← value x
    if y = pad then
      if z = pad ∧ s = [] then some [UInt8.ofNat (i * 4 + j / 16)] else none
    else
      let k ← value y
      if z = pad then
        if s = [] then some [UInt8.ofNat (i * 4 + j / 16), UInt8.ofNat (j % 16 * 16 + k / 4)] else none
      else
        let l ← value z
        let rest ← quantums s
        some (UInt8.ofNat (i * 4 + j / 16) :: UInt8.ofNat (j % 16 * 16 + k / 4) :: UInt8.ofNat (k % 4 * 64 + l) :: rest)
  | _ => none

/-- Line ends are skipped wherever they stand. -/
def decode (s : List UInt8) : Option (List UInt8) := quantums (s.filter (fun c => c ≠ 10 ∧ c ≠ 13))

/-! ### Digits -/

theorem value_digit {v : Nat} (h : v < 64) : value (digit v) = some v := by
  have hall : ∀ v < 64, value (digit v) = some v := by decide +kernel
  exact hall v h

theorem digit_ne_pad {v : Nat} (h : v < 64) : digit v ≠ pad := by
  have hall : ∀ v < 64, digit v ≠ pad := by decide +kernel
  exact hall v h

/-- A digit or padding, which no line end is. -/
def Printed (c : UInt8) : Prop := c ≠ 10 ∧ c ≠ 13

theorem digit_printed {v : Nat} (h : v < 64) : Printed (digit v) := by
  have hall : ∀ v < 64, digit v ≠ 10 ∧ digit v ≠ 13 := by decide +kernel
  exact hall v h

theorem pad_printed : Printed pad := by
  unfold Printed
  decide

theorem first_sextet (a : UInt8) : a.toNat / 4 < 64 := by
  have := a.toNat_lt
  omega

theorem encode_printed (s : List UInt8) : ∀ c ∈ encode s, Printed c := by
  induction s using encode.induct with
  | case1 => simp [encode]
  | case2 a =>
    have ha := first_sextet a
    simp only [encode, List.forall_mem_cons]
    exact ⟨digit_printed ha, digit_printed (by omega), pad_printed, pad_printed, by simp⟩
  | case3 a b =>
    have ha := first_sextet a
    have hb := b.toNat_lt
    simp only [encode, List.forall_mem_cons]
    exact ⟨digit_printed ha, digit_printed (by omega), digit_printed (by omega), pad_printed, by simp⟩
  | case4 a b c s ih =>
    have ha := first_sextet a
    have hb := b.toNat_lt
    have hc := c.toNat_lt
    simp only [encode, List.forall_mem_cons]
    exact ⟨digit_printed ha, digit_printed (by omega), digit_printed (by omega), digit_printed (by omega), ih⟩

/-! ### Round trip -/

theorem ofNat_eq {n : Nat} {a : UInt8} (h : n = a.toNat) : UInt8.ofNat n = a := by
  rw [h, UInt8.ofNat_toNat]

theorem quantums_encode (s : List UInt8) : quantums (encode s) = some s := by
  induction s using encode.induct with
  | case1 => rfl
  | case2 a =>
    have ha := first_sextet a
    have hbyte : UInt8.ofNat (a.toNat / 4 * 4 + a.toNat % 4 * 16 / 16) = a := ofNat_eq (by omega)
    have hlow : a.toNat % 4 * 16 < 64 := by omega
    simp only [encode, quantums, value_digit ha, value_digit hlow, and_self, if_true, Option.bind_eq_bind, Option.bind_some, hbyte]
  | case3 a b =>
    have ha := first_sextet a
    have hb := b.toNat_lt
    have hmid : a.toNat % 4 * 16 + b.toNat / 16 < 64 := by omega
    have hlow : b.toNat % 16 * 4 < 64 := by omega
    have hfirst : UInt8.ofNat (a.toNat / 4 * 4 + (a.toNat % 4 * 16 + b.toNat / 16) / 16) = a := ofNat_eq (by omega)
    have hsecond : UInt8.ofNat ((a.toNat % 4 * 16 + b.toNat / 16) % 16 * 16 + b.toNat % 16 * 4 / 4) = b := ofNat_eq (by omega)
    simp only [encode, quantums, value_digit ha, value_digit hmid, value_digit hlow, digit_ne_pad hlow, if_false, if_true,
      Option.bind_eq_bind, Option.bind_some, hfirst, hsecond]
  | case4 a b c s ih =>
    have ha := first_sextet a
    have hb := b.toNat_lt
    have hc := c.toNat_lt
    have hmid : a.toNat % 4 * 16 + b.toNat / 16 < 64 := by omega
    have hnext : b.toNat % 16 * 4 + c.toNat / 64 < 64 := by omega
    have hlow : c.toNat % 64 < 64 := by omega
    have hfirst : UInt8.ofNat (a.toNat / 4 * 4 + (a.toNat % 4 * 16 + b.toNat / 16) / 16) = a := ofNat_eq (by omega)
    have hsecond : UInt8.ofNat ((a.toNat % 4 * 16 + b.toNat / 16) % 16 * 16 + (b.toNat % 16 * 4 + c.toNat / 64) / 4) = b :=
      ofNat_eq (by omega)
    have hthird : UInt8.ofNat ((b.toNat % 16 * 4 + c.toNat / 64) % 4 * 64 + c.toNat % 64) = c := ofNat_eq (by omega)
    simp only [encode, quantums, value_digit ha, value_digit hmid, value_digit hnext, value_digit hlow, digit_ne_pad hnext,
      digit_ne_pad hlow, if_false, Option.bind_eq_bind, Option.bind_some, hfirst, hsecond, hthird, ih]

theorem decode_encode (s : List UInt8) : decode (encode s) = some s := by
  have hkept : (encode s).filter (fun c => c ≠ 10 ∧ c ≠ 13) = encode s := by
    rw [List.filter_eq_self]
    intro c hc
    exact decide_eq_true (encode_printed s c hc)
  unfold decode
  rw [hkept, quantums_encode]

/-! ### Without padding -/

def rawEncode : List UInt8 → List UInt8
  | [] => []
  | [a] => [digit (a.toNat / 4), digit (a.toNat % 4 * 16)]
  | [a, b] => [digit (a.toNat / 4), digit (a.toNat % 4 * 16 + b.toNat / 16), digit (b.toNat % 16 * 4)]
  | a :: b :: c :: s =>
    digit (a.toNat / 4) :: digit (a.toNat % 4 * 16 + b.toNat / 16) :: digit (b.toNat % 16 * 4 + c.toNat / 64) ::
      digit (c.toNat % 64) :: rawEncode s

/-- Two or three digits may be left over, a single one may not. -/
def rawQuantums : List UInt8 → Option (List UInt8)
  | [] => some []
  | [_] => none
  | [w, x] => do
    let i ← value w
    let j ← value x
    some [UInt8.ofNat (i * 4 + j / 16)]
  | [w, x, y] => do
    let i ← value w
    let j ← value x
    let k ← value y
    some [UInt8.ofNat (i * 4 + j / 16), UInt8.ofNat (j % 16 * 16 + k / 4)]
  | w :: x :: y :: z :: s => do
    let i ← value w
    let j ← value x
    let k ← value y
    let l ← value z
    let rest ← rawQuantums s
    some (UInt8.ofNat (i * 4 + j / 16) :: UInt8.ofNat (j % 16 * 16 + k / 4) :: UInt8.ofNat (k % 4 * 64 + l) :: rest)

def rawDecode (s : List UInt8) : Option (List UInt8) := rawQuantums (s.filter (fun c => c ≠ 10 ∧ c ≠ 13))

/-- Only digits are written. -/
theorem rawEncode_digits (s : List UInt8) : ∀ c ∈ rawEncode s, ∃ v < 64, c = digit v := by
  induction s using rawEncode.induct with
  | case1 => simp [rawEncode]
  | case2 a =>
    have ha := first_sextet a
    simp only [rawEncode, List.forall_mem_cons]
    exact ⟨⟨_, ha, rfl⟩, ⟨_, by omega, rfl⟩, by simp⟩
  | case3 a b =>
    have ha := first_sextet a
    have hb := b.toNat_lt
    simp only [rawEncode, List.forall_mem_cons]
    exact ⟨⟨_, ha, rfl⟩, ⟨_, by omega, rfl⟩, ⟨_, by omega, rfl⟩, by simp⟩
  | case4 a b c s ih =>
    have ha := first_sextet a
    have hb := b.toNat_lt
    have hc := c.toNat_lt
    simp only [rawEncode, List.forall_mem_cons]
    exact ⟨⟨_, ha, rfl⟩, ⟨_, by omega, rfl⟩, ⟨_, by omega, rfl⟩, ⟨_, by omega, rfl⟩, ih⟩

theorem rawQuantums_rawEncode (s : List UInt8) : rawQuantums (rawEncode s) = some s := by
  induction s using rawEncode.induct with
  | case1 => rfl
  | case2 a =>
    have ha := first_sextet a
    have hbyte : UInt8.ofNat (a.toNat / 4 * 4 + a.toNat % 4 * 16 / 16) = a := ofNat_eq (by omega)
    have hlow : a.toNat % 4 * 16 < 64 := by omega
    simp only [rawEncode, rawQuantums, value_digit ha, value_digit hlow, Option.bind_eq_bind, Option.bind_some, hbyte]
  | case3 a b =>
    have ha := first_sextet a
    have hb := b.toNat_lt
    have hmid : a.toNat % 4 * 16 + b.toNat / 16 < 64 := by omega
    have hlow : b.toNat % 16 * 4 < 64 := by omega
    have hfirst : UInt8.ofNat (a.toNat / 4 * 4 + (a.toNat % 4 * 16 + b.toNat / 16) / 16) = a := ofNat_eq (by omega)
    have hsecond : UInt8.ofNat ((a.toNat % 4 * 16 + b.toNat / 16) % 16 * 16 + b.toNat % 16 * 4 / 4) = b := ofNat_eq (by omega)
    simp only [rawEncode, rawQuantums, value_digit ha, value_digit hmid, value_digit hlow, Option.bind_eq_bind, Option.bind_some,
      hfirst, hsecond]
  | case4 a b c s ih =>
    have ha := first_sextet a
    have hb := b.toNat_lt
    have hc := c.toNat_lt
    have hmid : a.toNat % 4 * 16 + b.toNat / 16 < 64 := by omega
    have hnext : b.toNat % 16 * 4 + c.toNat / 64 < 64 := by omega
    have hlow : c.toNat % 64 < 64 := by omega
    have hfirst : UInt8.ofNat (a.toNat / 4 * 4 + (a.toNat % 4 * 16 + b.toNat / 16) / 16) = a := ofNat_eq (by omega)
    have hsecond : UInt8.ofNat ((a.toNat % 4 * 16 + b.toNat / 16) % 16 * 16 + (b.toNat % 16 * 4 + c.toNat / 64) / 4) = b :=
      ofNat_eq (by omega)
    have hthird : UInt8.ofNat ((b.toNat % 16 * 4 + c.toNat / 64) % 4 * 64 + c.toNat % 64) = c := ofNat_eq (by omega)
    simp only [rawEncode, rawQuantums, value_digit ha, value_digit hmid, value_digit hnext, value_digit hlow,
      Option.bind_eq_bind, Option.bind_some, hfirst, hsecond, hthird, ih]

theorem rawDecode_rawEncode (s : List UInt8) : rawDecode (rawEncode s) = some s := by
  have hkept : (rawEncode s).filter (fun c => c ≠ 10 ∧ c ≠ 13) = rawEncode s := by
    rw [List.filter_eq_self]
    intro c hc
    obtain ⟨v, hv, rfl⟩ := rawEncode_digits s c hc
    exact decide_eq_true (digit_printed hv)
  unfold rawDecode
  rw [hkept, rawQuantums_rawEncode]

/-! ### Lengths -/

theorem quantums_length {s t : List UInt8} (h : quantums s = some t) : t.length ≤ s.length := by
  induction s using quantums.induct generalizing t with
  | case1 =>
    cases h
    exact Nat.le_refl _
  | case2 w x y z s ih =>
    simp only [quantums, Option.bind_eq_bind, Option.bind_eq_some_iff] at h
    obtain ⟨i, -, j, -, h⟩ := h
    split at h
    · split at h
      · cases h
        simp
      · cases h
    · obtain ⟨k, -, h⟩ := Option.bind_eq_some_iff.mp h
      split at h
      · split at h
        · cases h
          simp
        · cases h
      · obtain ⟨l, -, h⟩ := Option.bind_eq_some_iff.mp h
        obtain ⟨rest, hrest, h⟩ := Option.bind_eq_some_iff.mp h
        cases h
        have := ih hrest
        simp only [List.length_cons]
        omega
  | case3 s hnil hlong =>
    simp only [quantums] at h
    cases h

/-- Decoding makes nothing longer. -/
theorem decode_length {s t : List UInt8} (h : decode s = some t) : t.length ≤ s.length :=
  (quantums_length h).trans (List.length_filter_le _ _)

end Cronova.Text.Base64
