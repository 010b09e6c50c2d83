import Cronova.Store.Connections

/-! Passwords that are stored and read back. A password that does not begin with the
prefix of sealed values comes back as it was; one that begins with it is stored in the
clear and taken for a sealed value. The migration seals what is stored in the clear,
and no reader notices. -/
namespace Cronova.Properties.StoredSecrets
open Cronova.Relational Cronova.Store.Connections

variable {c : AEAD} {cipher : Option AEAD} {rows rows' : Rows} {id : String} {conn row : Connection}

/-! ### One row -/

theorem find?_store (conn : Connection) (rows : Rows) : (store conn rows).find? (fun row => row.id = conn.id) = some conn := by
  unfold store
  split
  · rename_i rows' hinsert
    have hfree := Table.insert?_isSome_iff.mp ⟨rows', hinsert⟩
    have hnone : rows.find? (fun row => row.id = conn.id) = none := by
      unfold Table.find?
      rw [List.find?_eq_none]
      intro row hrow
      simpa using hfree row hrow
    rw [Table.find?_insert? hinsert, hnone]
    simp
  · rename_i hinsert
    obtain ⟨old, hold, hid⟩ := Table.insert?_eq_none_iff.mp hinsert
    have hsome : (rows.find? (fun row => row.id = conn.id)).isSome := by
      unfold Table.find?
      rw [List.find?_isSome]
      exact ⟨old, hold, by simpa using hid⟩
    obtain ⟨row, hrow⟩ := Option.isSome_iff_exists.mp hsome
    have hrowid : row.id = conn.id := by simpa using List.find?_some hrow
    have hmodified := Table.find?_modify (t := rows) (p := fun row => row.id = conn.id) (q := fun row => row.id = conn.id)
      (f := fun row => { conn with id := row.id }) (fun _ => rfl) (fun _ => rfl)
    rw [hrow, Option.map_some, if_pos (by simpa using hrowid)] at hmodified
    rw [hmodified, hrowid]

/-- What is read after a save. -/
theorem getConnection_store (conn : Connection) (rows : Rows) :
    getConnection cipher conn.id (store conn rows) = openConnSecret cipher conn := by
  unfold getConnection
  rw [find?_store]

/-- A saved connection is read back exactly if its password does not look like a sealed
value. -/
theorem getConnection_upsert_iff {random : Random} (h : upsertConnection (some c) random conn rows = (.ok (), rows')) :
    getConnection (some c) conn.id rows' = .ok conn ↔ isEncrypted conn.password = false := by
  unfold upsertConnection at h
  dsimp only at h
  split at h
  · cases h
  · rename_i password hsealed
    cases h
    have hread : getConnection (some c) conn.id (store { conn with password := password } rows) =
        openConnSecret (some c) { conn with password := password } := getConnection_store _ rows
    rw [← c.decrypt_encrypt_iff hsealed]
    rw [hread]
    unfold openConnSecret
    dsimp only
    cases c.decrypt password with
    | error e => exact iff_of_false nofun nofun
    | ok plain =>
      constructor
      · intro heq
        exact congrArg Except.ok (congrArg Connection.password (Except.ok.inj heq))
      · intro heq
        rw [Except.ok.inj heq]

/-! ### The migration -/

/-- The rows that are still to be sealed are there, and no two of them are the same. -/
structure Left (todo : List Connection) (rows : Rows) : Prop where
  stored : ∀ r ∈ todo, r ∈ rows.rows ∧ legacy r = true
  apart : todo.Pairwise (fun a b => a.id ≠ b.id)

theorem find?_of_mem {r : Connection} (h : r ∈ rows.rows) : rows.find? (fun row => row.id = r.id) = some r := by
  have hsome : (rows.find? (fun row => row.id = r.id)).isSome := by
    unfold Table.find?
    rw [List.find?_isSome]
    exact ⟨r, h, by simp⟩
  obtain ⟨row, hrow⟩ := Option.isSome_iff_exists.mp hsome
  have hid : row.id = r.id := by simpa using List.find?_some hrow
  rw [hrow, rows.eq_of_clash (fun _ _ h => h.symm) (List.mem_of_find?_eq_some hrow) h hid]

theorem mem_setPassword {password : Bytes} : row ∈ (setPassword id password rows).rows ↔
    ∃ old ∈ rows.rows, (if old.id = id then { old with password := password } else old) = row := by
  unfold setPassword
  rw [Table.mem_modify]
  simp only [decide_eq_true_eq]

/-- A password that opens to the old one changes nothing for a reader. -/
theorem getConnection_setPassword {r : Connection} {password : Bytes} (hr : r ∈ rows.rows) (hopens : c.decrypt password = .ok r.password)
    (hplain : isEncrypted r.password = false) (id : String) :
    getConnection (some c) id (setPassword r.id password rows) = getConnection (some c) id rows := by
  have hmodified := Table.find?_modify (t := rows) (p := fun row => row.id = r.id) (q := fun row => row.id = id)
    (f := fun row => { row with password := password }) (fun _ => rfl) (fun _ => rfl)
  unfold getConnection setPassword
  rw [hmodified]
  cases hrow : rows.find? (fun row => row.id = id) with
  | none => rfl
  | some row =>
    rw [Option.map_some]
    by_cases hid : row.id = r.id
    · have hmem := List.mem_of_find?_eq_some hrow
      obtain rfl := rows.eq_of_clash (fun _ _ h => h.symm) hmem hr hid
      rw [if_pos (by simp)]
      simp only [openConnSecret, hopens, AEAD.decrypt_plain hplain]
    · rw [if_neg (by simpa using hid)]

/-- After a row is sealed the others are left. -/
theorem Left.next {r : Connection} {todo : List Connection} {password : Bytes} (h : Left (r :: todo) rows) :
    Left todo (setPassword r.id password rows) := by
  obtain ⟨hfirst, hrest⟩ := List.pairwise_cons.mp h.apart
  refine ⟨fun r' hr' => ?_, hrest⟩
  obtain ⟨hmem, hlegacy⟩ := h.stored r' (List.mem_cons_of_mem r hr')
  exact ⟨mem_setPassword.mpr ⟨r', hmem, if_neg (Ne.symm (hfirst r' hr'))⟩, hlegacy⟩

theorem legacy_sealed {r : Connection} (h : legacy r = true) : r.password ≠ [] ∧ isEncrypted r.password = false := by
  simpa [legacy] using h

/-- A row that is sealed opens to what it was. -/
theorem seal_opens {r : Connection} {random : Random} {password : Bytes} (hr : legacy r = true)
    (h : c.encrypt random r.password = .ok password) : isEncrypted password = true ∧ c.decrypt password = .ok r.password := by
  obtain ⟨hne, hplain⟩ := legacy_sealed hr
  rcases AEAD.encrypt_cases h with ⟨-, hempty | hlooks⟩ | ⟨-, hsealed, hopens⟩
  · exact absurd hempty hne
  · rw [hplain] at hlooks
    cases hlooks
  · exact ⟨hsealed, hopens⟩

section Sealing
variable {random : String → Random} {fails : String → Bool} {todo : List Connection}

/-- No reader notices, also if the migration stops on the way. -/
theorem sealAll_reads (h : Left todo rows) (id : String) :
    getConnection (some c) id (sealAll c random fails todo rows).2 = getConnection (some c) id rows := by
  induction todo generalizing rows with
  | nil => rfl
  | cons r todo ih =>
    obtain ⟨hmem, hlegacy⟩ := h.stored r List.mem_cons_self
    unfold sealAll
    split
    · rfl
    · rename_i password hsealed
      split
      · rfl
      · obtain ⟨-, hopens⟩ := seal_opens hlegacy hsealed
        rw [ih h.next, getConnection_setPassword hmem hopens (legacy_sealed hlegacy).2]

/-- A migration that comes to its end leaves nothing in the clear. -/
theorem sealAll_done (h : Left todo rows) (hall : ∀ row ∈ rows.rows, legacy row = true → row ∈ todo)
    (hok : sealAll c random fails todo rows = (.ok (), rows')) : ∀ row ∈ rows'.rows, legacy row = false := by
  induction todo generalizing rows with
  | nil =>
    cases hok
    intro row hrow
    cases hlegacy : legacy row with
    | false => rfl
    | true => exact absurd (hall row hrow hlegacy) List.not_mem_nil
  | cons r todo ih =>
    obtain ⟨-, hlegacy⟩ := h.stored r List.mem_cons_self
    unfold sealAll at hok
    split at hok
    · cases hok
    · rename_i password hsealed
      split at hok
      · cases hok
      · refine ih h.next (fun row hrow hclear => ?_) hok
        obtain ⟨old, hold, heq⟩ := mem_setPassword.mp hrow
        by_cases hid : old.id = r.id
        · rw [if_pos hid] at heq
          have hseen := (legacy_sealed hclear).2
          rw [← heq, (seal_opens hlegacy hsealed).1] at hseen
          cases hseen
        · rw [if_neg hid] at heq
          subst heq
          rcases List.mem_cons.mp (hall old hold hclear) with rfl | hlater
          · exact absurd rfl hid
          · exact hlater

end Sealing

theorem left_legacy (rows : Rows) : Left (rows.filter legacy) rows := by
  refine ⟨fun r hr => List.mem_filter.mp hr, ?_⟩
  exact rows.distinct.sublist List.filter_sublist

variable {random random' : String → Random} {fails fails' : String → Bool}

theorem migrate_snd : (migrateConnectionSecrets (some c) random fails rows).2 =
    (sealAll c random fails (rows.filter legacy) rows).2 := by
  simp only [migrateConnectionSecrets]
  split <;> (rename_i h; rw [h])

theorem migrate_reads (id : String) :
    getConnection (some c) id (migrateConnectionSecrets (some c) random fails rows).2 = getConnection (some c) id rows := by
  rw [migrate_snd, sealAll_reads (left_legacy rows)]

/-- A second migration finds nothing to do. -/
theorem migrate_again {n : Nat} (h : migrateConnectionSecrets (some c) random fails rows = (.ok n, rows')) :
    migrateConnectionSecrets (some c) random' fails' rows' = (.ok 0, rows') := by
  have hdone : ∀ row ∈ rows'.rows, legacy row = false := by
    simp only [migrateConnectionSecrets] at h
    split at h
    · cases h
    · rename_i sealedRows hsealed
      cases h
      exact sealAll_done (left_legacy rows) (fun row hrow hclear => List.mem_filter.mpr ⟨hrow, hclear⟩) hsealed
  have hnone : rows'.filter legacy = [] := by
    unfold Table.filter
    rw [List.filter_eq_nil_iff]
    intro row hrow
    rw [hdone row hrow]
    decide
  simp only [migrateConnectionSecrets, hnone, sealAll, List.length_nil]

/-! ### Round trip -/

theorem encrypt_isOk {random : Random} (h : (random c.nonceSize).isSome) (p : Bytes) : ∃ password, c.encrypt random p = .ok password := by
  obtain ⟨nonce, hnonce⟩ := Option.isSome_iff_exists.mp h
  unfold AEAD.encrypt
  split
  · exact ⟨p, rfl⟩
  · rw [hnonce]
    exact ⟨_, rfl⟩

/-- A stand-in for a cipher: a tag of zeros behind the plaintext. -/
def tagged : AEAD where
  nonceSize := 12
  sealPlain _ plain := plain ++ List.replicate 16 0
  openSealed _ ciphertext :=
    if ciphertext.drop (ciphertext.length - 16) = List.replicate 16 0 then some (ciphertext.take (ciphertext.length - 16)) else none
  opens nonce plain _ := by simp
  shorter nonce ciphertext plain h := by
    split at h
    · cases h
      exact List.length_take_le' _ _
    · cases h

/-- A random source that gives zeros. -/
def zeros : Random := fun n => some ⟨List.replicate n 0, List.length_replicate⟩

end Cronova.Properties.StoredSecrets
