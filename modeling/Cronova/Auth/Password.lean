import Cronova.Remote.Hub
import Cronova.Text.Base64
import Mathlib.Data.List.SplitOn

/-! Password hashes. A hash is stored as a text that says how it was made:
`pbkdf2_sha256$<iter>$<salt>$<hash>`, with salt and hash in unpadded base64. -/
namespace Cronova.Auth
open Cronova.Text Cronova.Remote

abbrev Bytes := List UInt8

/-- A text of ASCII characters as bytes. -/
def ascii (s : String) : Bytes := s.toList.map (fun c => UInt8.ofNat c.toNat)

def chars (b : Bytes) : List Char := b.map (fun c => Char.ofNat c.toNat)

def dollar : UInt8 := 36

def scheme : Bytes := ascii "pbkdf2_sha256"

def pbkdf2Iter : ℕ := 600000

def saltLen : ℕ := 16

def keyLen : ℕ := 32

/-- PBKDF2 with HMAC-SHA256. A key has the length that is asked for. -/
structure Kdf where
  key : (password salt : Bytes) → (iter : Int) → (keyLength : ℕ) → Option Bytes
  length_key : ∀ password salt iter keyLength dk, key password salt iter keyLength = some dk → dk.length = keyLength

/-- The text of a hash. -/
def encodeHash (iter : ℕ) (salt dk : Bytes) : Bytes :=
  scheme ++ dollar :: ascii (toString iter) ++ dollar :: Base64.rawEncode salt ++ dollar :: Base64.rawEncode dk

/-- The hash of a password under a salt drawn for it. -/
def HashPassword (kdf : Kdf) (salt password : Bytes) : Option Bytes :=
  (kdf.key password salt pbkdf2Iter keyLen).map (encodeHash pbkdf2Iter salt)

/-- Whether a password matches a stored text. One that is malformed matches none. -/
def CheckPassword (kdf : Kdf) (encoded password : Bytes) : Bool :=
  match encoded.splitOn dollar with
  | [name, iter, salt, want] =>
    if name ≠ scheme then false
    else
      match signedAtoi (chars iter), Base64.rawDecode salt, Base64.rawDecode want with
      | some iter, some salt, some want => if iter ≤ 0 then false else kdf.key password salt iter want.length = some want
      | _, _, _ => false
  | _ => false

/-! ### The parts of a hash -/

theorem chars_ascii {s : String} (h : ∀ c ∈ s.toList, c.toNat < 256) : chars (ascii s) = s.toList := by
  rw [chars, ascii, List.map_map]
  conv_rhs => rw [← List.map_id s.toList]
  apply List.map_congr_left
  intro c hc
  have hc' := h c hc
  have hbyte : (UInt8.ofNat c.toNat).toNat = c.toNat := by
    rw [UInt8.toNat_ofNat']
    omega
  simp only [Function.comp_apply, hbyte, Char.ofNat_toNat, id_eq]

theorem signedAtoi_toString {n : ℕ} (h : n < 2 ^ 63) : signedAtoi (toString n).toList = some (n : Int) := by
  have hlist : (toString n).toList = Nat.toDigits 10 n := String.toList_ofList
  have hdigit : ∀ c ∈ Nat.toDigits 10 n, c.isDigit = true := by
    intro c hc
    exact Nat.isDigit_of_mem_toDigits (by decide) (by decide) hc
  have hsign : ¬ ((Nat.toDigits 10 n).head? = some '-' ∨ (Nat.toDigits 10 n).head? = some '+') := by
    rintro (hhead | hhead)
    · exact absurd (hdigit _ (List.mem_of_mem_head? hhead)) (by decide)
    · exact absurd (hdigit _ (List.mem_of_mem_head? hhead)) (by decide)
  have hall : (Nat.toDigits 10 n).all Char.isDigit = true := List.all_eq_true.2 hdigit
  have hvalue : DateTmpl.atoi (Nat.toDigits 10 n) = some (n : Int) := by
    have hfold := Nat.ofDigitChars_toDigits (b := 10) (n := n) (by decide) (by decide)
    rw [Nat.ofDigitChars_eq_foldl] at hfold
    have hfold' : (Nat.toDigits 10 n).foldl (fun n c => 10 * n + (c.toNat - 48)) 0 = n := hfold
    rw [DateTmpl.atoi, hfold']
    exact if_pos h
  have hneg : ¬ (Nat.toDigits 10 n).head? = some '-' := fun hhead => hsign (.inl hhead)
  rw [hlist, signedAtoi]
  rw [if_neg hsign, if_neg (by simp [hall, Nat.toDigits_ne_nil]), if_neg hneg, hvalue]

theorem dollar_not_mem_rawEncode (s : Bytes) : dollar ∉ Base64.rawEncode s := by
  intro hmem
  obtain ⟨v, hv, hd⟩ := Base64.rawEncode_digits s _ hmem
  have hall : ∀ v < 64, dollar ≠ Base64.digit v := by decide +kernel
  exact hall v hv hd

theorem dollar_not_mem_scheme : dollar ∉ scheme := by decide

theorem digit_small {c : Char} (h : c.isDigit = true) : 48 ≤ c.toNat ∧ c.toNat ≤ 57 := by
  rw [Char.isDigit, Bool.and_eq_true, decide_eq_true_eq, decide_eq_true_eq] at h
  exact h

theorem dollar_not_mem_decimal (n : ℕ) : dollar ∉ ascii (toString n) := by
  intro hmem
  obtain ⟨c, hc, hd⟩ := List.mem_map.1 hmem
  obtain ⟨hlow, hhigh⟩ := digit_small (digits_nat n c hc)
  have hbyte := congrArg UInt8.toNat hd
  rw [UInt8.toNat_ofNat'] at hbyte
  have hdollar : dollar.toNat = 36 := rfl
  omega

theorem splitOn_encodeHash (iter : ℕ) (salt dk : Bytes) :
    (encodeHash iter salt dk).splitOn dollar = [scheme, ascii (toString iter), Base64.rawEncode salt, Base64.rawEncode dk] := by
  have hjoined : encodeHash iter salt dk =
      List.intercalate [dollar] [scheme, ascii (toString iter), Base64.rawEncode salt, Base64.rawEncode dk] := by
    simp [encodeHash, List.intercalate]
  rw [hjoined]
  apply List.splitOn_intercalate
  · simp only [List.forall_mem_cons]
    exact ⟨dollar_not_mem_scheme, dollar_not_mem_decimal iter, dollar_not_mem_rawEncode salt, dollar_not_mem_rawEncode dk,
      by simp⟩
  · simp

/-- What a password has to do to match a hash: to yield the same key. -/
theorem checkPassword_encodeHash (kdf : Kdf) {iter : ℕ} (hpos : 0 < iter) (hiter : iter < 2 ^ 63) (salt dk password : Bytes) :
    CheckPassword kdf (encodeHash iter salt dk) password = true ↔ kdf.key password salt iter dk.length = some dk := by
  have hascii : chars (ascii (toString iter)) = (toString iter).toList := by
    apply chars_ascii
    intro c hc
    have := digit_small (digits_nat iter c hc)
    omega
  have hneg : ¬ (iter : Int) ≤ 0 := by omega
  rw [CheckPassword, splitOn_encodeHash]
  simp only [ne_eq, not_true, if_false, hascii, signedAtoi_toString hiter, Base64.rawDecode_rawEncode, hneg, decide_eq_true_eq]

theorem encodeHash_inj {iter : ℕ} {salt salt' dk dk' : Bytes} (h : encodeHash iter salt dk = encodeHash iter salt' dk') :
    salt = salt' ∧ dk = dk' := by
  have hparts := congrArg (List.splitOn dollar) h
  rw [splitOn_encodeHash, splitOn_encodeHash, List.cons.injEq, List.cons.injEq, List.cons.injEq, List.cons.injEq] at hparts
  obtain ⟨-, -, hsalt, hdk, -⟩ := hparts
  have hsalt' := congrArg Base64.rawDecode hsalt
  have hdk' := congrArg Base64.rawDecode hdk
  rw [Base64.rawDecode_rawEncode, Base64.rawDecode_rawEncode] at hsalt' hdk'
  exact ⟨Option.some.inj hsalt', Option.some.inj hdk'⟩

/-- A stored hash is matched by the password that it was made of, and by those alone that
yield the same key. The text determines salt and key. -/
theorem hashPassword_matches {kdf : Kdf} {salt password encoded : Bytes} (h : HashPassword kdf salt password = some encoded) :
    (∀ other, CheckPassword kdf encoded other = true ↔
        kdf.key other salt pbkdf2Iter keyLen = kdf.key password salt pbkdf2Iter keyLen) ∧
      ∀ salt' password', HashPassword kdf salt' password' = some encoded →
        salt' = salt ∧ kdf.key password' salt pbkdf2Iter keyLen = kdf.key password salt pbkdf2Iter keyLen := by
  obtain ⟨dk, hdk, rfl⟩ := Option.map_eq_some_iff.1 h
  have hlength : dk.length = keyLen := kdf.length_key _ _ _ _ _ hdk
  constructor
  · intro other
    rw [checkPassword_encodeHash kdf (by decide) (by decide), hlength, hdk]
  · intro salt' password' h'
    obtain ⟨dk', hdk', htext⟩ := Option.map_eq_some_iff.1 h'
    obtain ⟨rfl, rfl⟩ := encodeHash_inj htext
    exact ⟨rfl, hdk'.trans hdk.symm⟩

/-- A key that is the start of the password. -/
def truncating : Kdf where
  key password _ _ keyLength := some ((password ++ List.replicate keyLength 0).take keyLength)
  length_key := by
    rintro password salt iter keyLength dk h
    cases h
    simp

theorem hashPassword_matches_truncating : ∃ encoded, HashPassword truncating [7] [1, 2] = some encoded ∧
    (∀ other, CheckPassword truncating encoded other = true ↔
      truncating.key other [7] pbkdf2Iter keyLen = truncating.key [1, 2] [7] pbkdf2Iter keyLen) :=
  ⟨_, rfl, (hashPassword_matches rfl).1⟩

end Cronova.Auth
