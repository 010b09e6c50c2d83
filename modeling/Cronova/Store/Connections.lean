import Cronova.Relational.Table
import Cronova.Store.Tables
import Cronova.Text.Base64

/-! Connections and their passwords. With a cipher configured a password is sealed
before it is stored, and opened when a connection is read. Sealed and plain passwords
share a column; a prefix tells them apart. -/
namespace Cronova.Store.Connections
open Cronova.Text Cronova.Relational

abbrev Bytes := List UInt8

/-! ### Secrets -/

/-- `enc:v1:` -/
def encPrefix : Bytes := [101, 110, 99, 58, 118, 49, 58]

/-- Authenticated encryption under a fixed key. It opens what it has sealed, and sealing
makes no text shorter. -/
structure AEAD where
  nonceSize : Nat
  sealPlain : (nonce plain : Bytes) → Bytes
  openSealed : (nonce ciphertext : Bytes) → Option Bytes
  opens : ∀ nonce plain, nonce.length = nonceSize → openSealed nonce (sealPlain nonce plain) = some plain
  shorter : ∀ nonce ciphertext plain, openSealed nonce ciphertext = some plain → plain.length ≤ ciphertext.length

/-- The random source: as many bytes as are asked for, unless it fails. -/
abbrev Random := (n : Nat) → Option { bytes : Bytes // bytes.length = n }

inductive SecretErr where
  | random | decode | tooShort | unopened
  deriving DecidableEq, Repr

def isEncrypted (s : Bytes) : Bool := encPrefix.isPrefixOf s

/-- Seal a plaintext. The empty one, and what is sealed already, stay. -/
def AEAD.encrypt (c : AEAD) (random : Random) (plain : Bytes) : Except SecretErr Bytes :=
  if plain = [] ∨ isEncrypted plain then .ok plain
  else
    match random c.nonceSize with
    | none => .error .random
    | some nonce => .ok (encPrefix ++ Base64.encode (nonce.val ++ c.sealPlain nonce.val plain))

/-- Open a stored value. One without the prefix is returned as it is. -/
def AEAD.decrypt (c : AEAD) (stored : Bytes) : Except SecretErr Bytes :=
  if isEncrypted stored then
    match Base64.decode (stored.drop encPrefix.length) with
    | none => .error .decode
    | some raw =>
      if raw.length < c.nonceSize then .error .tooShort
      else
        match c.openSealed (raw.take c.nonceSize) (raw.drop c.nonceSize) with
        | none => .error .unopened
        | some plain => .ok plain
  else .ok stored

/-! ### Statements -/

/-- A row of `connections`, and a connection as it is read and saved. -/
structure Connection where
  id : String
  type : String := ""
  host : String := ""
  port : Int := 0
  login : String := ""
  password : Bytes := []
  extra : String := ""
  deriving DecidableEq, Repr

abbrev Rows := Table Connection Connection.id (· = ·)

/-- What goes wrong with a connection. -/
inductive ConnErr where
  | notFound
  | failed
  | secret (id : String) (e : SecretErr)
  | sealing (e : SecretErr)
  deriving DecidableEq, Repr

def openConnSecret (cipher : Option AEAD) (conn : Connection) : Except ConnErr Connection :=
  match cipher with
  | none => .ok conn
  | some c =>
    match c.decrypt conn.password with
    | .error e => .error (.secret conn.id e)
    | .ok plain => .ok { conn with password := plain }

def getConnection (cipher : Option AEAD) (id : String) (rows : Rows) : Except ConnErr Connection :=
  match rows.find? (fun row => row.id = id) with
  | none => .error .notFound
  | some row => openConnSecret cipher row

/-- Store the fields of a connection, under its id. -/
def store (conn : Connection) (rows : Rows) : Rows :=
  match rows.insert? conn with
  | some rows => rows
  | none => rows.modify (fun row => row.id = conn.id) (fun row => { conn with id := row.id }) (fun _ => rfl)

def upsertConnection (cipher : Option AEAD) (random : Random) (conn : Connection) (rows : Rows) : Except ConnErr Unit × Rows :=
  match cipher with
  | none => (.ok (), store conn rows)
  | some c =>
    match c.encrypt random conn.password with
    | .error e => (.error (.sealing e), rows)
    | .ok password => (.ok (), store { conn with password := password } rows)

/-- A password that is stored in the clear. -/
def legacy (row : Connection) : Bool := row.password ≠ [] && !isEncrypted row.password

def setPassword (id : String) (password : Bytes) (rows : Rows) : Rows :=
  rows.modify (fun row => row.id = id) (fun row => { row with password := password }) (fun _ => rfl)

/-- Seal the passwords of the rows that were read, one statement for each. -/
def sealAll (c : AEAD) (random : String → Random) (fails : String → Bool) : List Connection → Rows → Except ConnErr Unit × Rows
  | [], rows => (.ok (), rows)
  | r :: todo, rows =>
    match c.encrypt (random r.id) r.password with
    | .error e => (.error (.sealing e), rows)
    | .ok password =>
      if fails r.id then (.error .failed, rows) else sealAll c random fails todo (setPassword r.id password rows)

/-- Seal what is stored in the clear, and count it. -/
def migrateConnectionSecrets (cipher : Option AEAD) (random : String → Random) (fails : String → Bool) (rows : Rows) :
    Except ConnErr Nat × Rows :=
  match cipher with
  | none => (.ok 0, rows)
  | some c =>
    let todo := rows.filter legacy
    match sealAll c random fails todo rows with
    | (.error e, rows) => (.error e, rows)
    | (.ok _, rows) => (.ok todo.length, rows)

/-! ### Sealed values -/

theorem isEncrypted_append (s : Bytes) : isEncrypted (encPrefix ++ s) = true := by
  unfold isEncrypted
  rw [List.isPrefixOf_iff_prefix]
  exact List.prefix_append _ _

theorem isEncrypted_split {s : Bytes} (h : isEncrypted s = true) : s = encPrefix ++ s.drop encPrefix.length := by
  obtain ⟨rest, rfl⟩ := List.isPrefixOf_iff_prefix.mp h
  rw [List.drop_left]

theorem isEncrypted_nil : isEncrypted [] = false := rfl

namespace AEAD
variable {c : AEAD} {random : Random} {p stored : Bytes}

theorem decrypt_plain (h : isEncrypted p = false) : c.decrypt p = .ok p := by
  unfold decrypt
  rw [if_neg (by simp [h])]

/-- What is sealed opens to what it was. -/
theorem decrypt_encPrefix (nonce : { bytes : Bytes // bytes.length = c.nonceSize }) (p : Bytes) :
    c.decrypt (encPrefix ++ Base64.encode (nonce.val ++ c.sealPlain nonce.val p)) = .ok p := by
  unfold decrypt
  rw [if_pos (isEncrypted_append _), List.drop_left, Base64.decode_encode]
  have hlong : ¬ (nonce.val ++ c.sealPlain nonce.val p).length < c.nonceSize := by
    rw [List.length_append, nonce.property]
    omega
  have htake : (nonce.val ++ c.sealPlain nonce.val p).take c.nonceSize = nonce.val := List.take_left' nonce.property
  have hdrop : (nonce.val ++ c.sealPlain nonce.val p).drop c.nonceSize = c.sealPlain nonce.val p := List.drop_left' nonce.property
  simp only [if_neg hlong, htake, hdrop, c.opens nonce.val p nonce.property]

/-- Whatever has the prefix opens to something shorter, if at all. -/
theorem decrypt_shorter (h : isEncrypted stored = true) (hp : c.decrypt stored = .ok p) : p.length < stored.length := by
  unfold decrypt at hp
  rw [if_pos h] at hp
  split at hp
  · cases hp
  · rename_i raw hraw
    split at hp
    · cases hp
    · split at hp
      · cases hp
      · rename_i plain hplain
        cases hp
        have hopen := c.shorter _ _ _ hplain
        have hdecode := Base64.decode_length hraw
        have hlong : stored.length = encPrefix.length + (stored.drop encPrefix.length).length := by
          rw [← List.length_append, ← isEncrypted_split h]
        rw [List.length_drop] at hopen
        change stored.length = 7 + _ at hlong
        omega

/-- A sealed password, or one that is stored as it is. -/
theorem encrypt_cases {password : Bytes} (h : c.encrypt random p = .ok password) :
    password = p ∧ (p = [] ∨ isEncrypted p = true) ∨ legacy { id := "", password := p } = true ∧ isEncrypted password = true ∧
      c.decrypt password = .ok p := by
  unfold encrypt at h
  split at h
  · rename_i hkept
    cases h
    exact .inl ⟨rfl, hkept⟩
  · rename_i hsealed
    obtain ⟨hne, hplain⟩ := not_or.mp hsealed
    split at h
    · cases h
    · rename_i nonce hnonce
      cases h
      exact .inr ⟨by simp [legacy, hne, hplain], isEncrypted_append _, decrypt_encPrefix nonce p⟩

/-- A password comes back exactly if it does not look like a sealed value. -/
theorem decrypt_encrypt_iff {password : Bytes} (h : c.encrypt random p = .ok password) :
    c.decrypt password = .ok p ↔ isEncrypted p = false := by
  rcases encrypt_cases h with ⟨rfl, hkept⟩ | ⟨hplain, -, hopens⟩
  · constructor
    · intro hopens
      cases hlooks : isEncrypted password with
      | false => rfl
      | true => exact absurd (decrypt_shorter hlooks hopens) (Nat.lt_irrefl _)
    · exact decrypt_plain
  · simp only [legacy, Bool.and_eq_true, Bool.not_eq_true'] at hplain
    exact iff_of_true hopens hplain.2

end AEAD

end Cronova.Store.Connections
