import Cronova.Api.Routes
import Cronova.Auth.Password
import Cronova.Relational.Table
import Cronova.Store.Timestamp
import Mathlib.Algebra.Order.Ring.Int
import Mathlib.Data.List.Lex

/-! Users, their sessions and the API tokens, and the requests that are let in by them. A
call works in several statements; what other calls do in between is up to the events. -/
namespace Cronova.Api
open Cronova.Model Cronova.Relational Cronova.Store Cronova.Http

/-! ### The tables -/

structure User where
  id : ℕ
  username : String
  passwordHash : Auth.Bytes
  role : Role
  deriving DecidableEq

/-- A row of `sessions`: `token` is the digest of the cookie. -/
structure Session where
  token : String
  userID : ℕ
  expiresAt : Time
  deriving DecidableEq

structure APIToken where
  id : ℕ
  name : String
  role : Role
  hash : String
  lastUsedAt : Option Time := none
  expiresAt : Option Time
  dagID : Bytes
  deriving DecidableEq

/-- The same number, or the same text in a unique column. -/
def Taken (a b : ℕ × String) : Prop := a.1 = b.1 ∨ a.2 = b.2

instance : DecidableRel Taken := fun _ _ => inferInstanceAs (Decidable (_ ∨ _))

abbrev Users := Table User (fun u => (u.id, u.username)) Taken

abbrev Sessions := Table Session (·.token) (· = ·)

abbrev Tokens := Table APIToken (fun t => (t.id, t.hash)) Taken

/-- The last number that was given out is kept, so that none is given out again. A session
belongs to a user that is there. -/
structure Accounts where
  users : Users
  lastUserID : ℕ
  sessions : Sessions
  tokens : Tokens
  lastTokenID : ℕ
  numbered : ∀ u ∈ users.rows, u.id ≤ lastUserID
  owned : ∀ se ∈ sessions.rows, ∃ u ∈ users.rows, u.id = se.userID
  minted : ∀ t ∈ tokens.rows, t.id ≤ lastTokenID

namespace Accounts
variable (s : Accounts)

def empty : Accounts where
  users := .empty
  lastUserID := 0
  sessions := .empty
  tokens := .empty
  lastTokenID := 0
  numbered := by simp
  owned := by simp
  minted := by simp

def GetUserByUsername (username : String) : Option User := s.users.find? (fun u => u.username = username)

def GetUserByID (id : ℕ) : Option User := s.users.find? (fun u => u.id = id)

def GetSession (token : String) : Option Session := s.sessions.find? (fun se => se.token = token)

def GetAPITokenByHash (hash : String) : Option APIToken := s.tokens.find? (fun t => t.hash = hash)

theorem numbered_insert {a : User} (ha : a.id = s.lastUserID + 1) {users : Users} (h : s.users.insert? a = some users) :
    ∀ u ∈ users.rows, u.id ≤ s.lastUserID + 1 := by
  intro u hu
  rw [Table.rows_insert? h, List.mem_append, List.mem_singleton] at hu
  rcases hu with hu | rfl
  · have := s.numbered u hu
    omega
  · omega

theorem owned_insert {a : User} {users : Users} (h : s.users.insert? a = some users) :
    ∀ se ∈ s.sessions.rows, ∃ u ∈ users.rows, u.id = se.userID := by
  intro se hse
  obtain ⟨u, hu, hid⟩ := s.owned se hse
  rw [Table.rows_insert? h]
  exact ⟨u, List.mem_append_left _ hu, hid⟩

/-- The user gets the next number. -/
def CreateUser (username : String) (passwordHash : Auth.Bytes) (role : Role) : Option Accounts :=
  match h : s.users.insert? { id := s.lastUserID + 1, username := username, passwordHash := passwordHash, role := role } with
  | some users =>
    some { s with users := users, lastUserID := s.lastUserID + 1, numbered := s.numbered_insert rfl h, owned := s.owned_insert h }
  | none => none

theorem key_setPassword (passwordHash : Auth.Bytes) (u : User) :
    (({ u with passwordHash := passwordHash } : User).id, ({ u with passwordHash := passwordHash } : User).username) =
      (u.id, u.username) := rfl

def setPassword (id : ℕ) (passwordHash : Auth.Bytes) : Users :=
  s.users.modify (fun u => u.id = id) (fun u => { u with passwordHash := passwordHash }) (key_setPassword passwordHash)

theorem mem_setPassword {id : ℕ} {passwordHash : Auth.Bytes} {u' : User} :
    u' ∈ (s.setPassword id passwordHash).rows ↔
      ∃ u ∈ s.users.rows, (if u.id = id then { u with passwordHash := passwordHash } else u) = u' := by
  rw [setPassword, Table.mem_modify]
  simp only [decide_eq_true_eq]

theorem numbered_setPassword (id : ℕ) (passwordHash : Auth.Bytes) :
    ∀ u ∈ (s.setPassword id passwordHash).rows, u.id ≤ s.lastUserID := by
  intro u' hu'
  obtain ⟨u, hu, rfl⟩ := s.mem_setPassword.1 hu'
  have := s.numbered u hu
  split
  · exact this
  · exact this

theorem owned_setPassword (id : ℕ) (passwordHash : Auth.Bytes) :
    ∀ se ∈ s.sessions.rows, ∃ u ∈ (s.setPassword id passwordHash).rows, u.id = se.userID := by
  intro se hse
  obtain ⟨u, hu, hid⟩ := s.owned se hse
  refine ⟨_, s.mem_setPassword.2 ⟨u, hu, rfl⟩, ?_⟩
  split
  · exact hid
  · exact hid

/-- `UPDATE users SET password_hash`; `none` if there is no such user. -/
def updatePasswordHash (id : ℕ) (passwordHash : Auth.Bytes) : Option Accounts :=
  if (s.GetUserByID id).isSome then
    some { s with
      users := s.setPassword id passwordHash
      numbered := s.numbered_setPassword id passwordHash
      owned := s.owned_setPassword id passwordHash }
  else none

theorem owned_delete (p : Session → Bool) : ∀ se ∈ (s.sessions.delete p).rows, ∃ u ∈ s.users.rows, u.id = se.userID := by
  intro se hse
  exact s.owned se (Table.mem_delete.1 hse).1

/-- `DELETE FROM sessions WHERE ..` -/
def deleteSessions (p : Session → Bool) : Accounts :=
  { s with sessions := s.sessions.delete p, owned := s.owned_delete p }

def DeleteSession (token : String) : Accounts := s.deleteSessions (fun se => se.token = token)

def deleteSessionsOf (userID : ℕ) : Accounts := s.deleteSessions (fun se => se.userID = userID)

/-- `DELETE FROM sessions WHERE expires_at < ?`, where texts are compared. -/
def DeleteExpiredSessions (now : Time) : Accounts := s.deleteSessions (fun se => fmtTime se.expiresAt < fmtTime now)

theorem numbered_deleteUser (id : ℕ) : ∀ u ∈ (s.users.delete (fun u => u.id = id)).rows, u.id ≤ s.lastUserID := by
  intro u hu
  exact s.numbered u (Table.mem_delete.1 hu).1

theorem owned_deleteUser {id : ℕ} (h : ∀ se ∈ s.sessions.rows, se.userID ≠ id) :
    ∀ se ∈ s.sessions.rows, ∃ u ∈ (s.users.delete (fun u => u.id = id)).rows, u.id = se.userID := by
  intro se hse
  obtain ⟨u, hu, hid⟩ := s.owned se hse
  refine ⟨u, Table.mem_delete.2 ⟨hu, ?_⟩, hid⟩
  rw [hid]
  exact decide_eq_false (h se hse)

/-- `DELETE FROM users WHERE id = ?`, refused while a session refers to the user. -/
def deleteUserRow (id : ℕ) : Option Accounts :=
  if h : ∀ se ∈ s.sessions.rows, se.userID ≠ id then
    some { s with
      users := s.users.delete (fun u => u.id = id)
      numbered := s.numbered_deleteUser id
      owned := s.owned_deleteUser h }
  else none

theorem owned_insertSession {se : Session} (hu : ∃ u ∈ s.users.rows, u.id = se.userID) {sessions : Sessions}
    (h : s.sessions.insert? se = some sessions) : ∀ x ∈ sessions.rows, ∃ u ∈ s.users.rows, u.id = x.userID := by
  intro x hx
  rw [Table.rows_insert? h, List.mem_append, List.mem_singleton] at hx
  rcases hx with hx | rfl
  · exact s.owned x hx
  · exact hu

/-- Refused without the user, and when the digest is there already. -/
def CreateSession (se : Session) : Option Accounts :=
  if hu : ∃ u ∈ s.users.rows, u.id = se.userID then
    match h : s.sessions.insert? se with
    | some sessions => some { s with sessions := sessions, owned := s.owned_insertSession hu h }
    | none => none
  else none

theorem minted_insert {a : APIToken} (ha : a.id = s.lastTokenID + 1) {tokens : Tokens} (h : s.tokens.insert? a = some tokens) :
    ∀ t ∈ tokens.rows, t.id ≤ s.lastTokenID + 1 := by
  intro t ht
  rw [Table.rows_insert? h, List.mem_append, List.mem_singleton] at ht
  rcases ht with ht | rfl
  · have := s.minted t ht
    omega
  · omega

/-- The token gets the next number. -/
def CreateAPIToken (t : APIToken) : Option Accounts :=
  match h : s.tokens.insert? { t with id := s.lastTokenID + 1 } with
  | some tokens => some { s with tokens := tokens, lastTokenID := s.lastTokenID + 1, minted := s.minted_insert rfl h }
  | none => none

theorem key_touch (now : Time) (t : APIToken) :
    (({ t with lastUsedAt := some now } : APIToken).id, ({ t with lastUsedAt := some now } : APIToken).hash) = (t.id, t.hash) := rfl

def touched (id : ℕ) (now : Time) : Tokens :=
  s.tokens.modify (fun t => t.id = id) (fun t => { t with lastUsedAt := some now }) (key_touch now)

theorem mem_touched {id : ℕ} {now : Time} {t' : APIToken} :
    t' ∈ (s.touched id now).rows ↔ ∃ t ∈ s.tokens.rows, (if t.id = id then { t with lastUsedAt := some now } else t) = t' := by
  rw [touched, Table.mem_modify]
  simp only [decide_eq_true_eq]

theorem minted_touched (id : ℕ) (now : Time) : ∀ t ∈ (s.touched id now).rows, t.id ≤ s.lastTokenID := by
  intro t' ht'
  obtain ⟨t, ht, rfl⟩ := s.mem_touched.1 ht'
  have := s.minted t ht
  split
  · exact this
  · exact this

def TouchAPIToken (id : ℕ) (now : Time) : Accounts :=
  { s with tokens := s.touched id now, minted := s.minted_touched id now }

theorem minted_delete (p : APIToken → Bool) : ∀ t ∈ (s.tokens.delete p).rows, t.id ≤ s.lastTokenID := by
  intro t ht
  exact s.minted t (Table.mem_delete.1 ht).1

def DeleteAPIToken (id : ℕ) : Accounts :=
  { s with tokens := s.tokens.delete (fun t => t.id = id), minted := s.minted_delete _ }

/-! ### What a statement leaves -/

variable {s}

theorem CreateUser_spec {username : String} {passwordHash : Auth.Bytes} {role : Role} {t : Accounts}
    (h : s.CreateUser username passwordHash role = some t) :
    t.users.rows = s.users.rows ++
        [{ id := s.lastUserID + 1, username := username, passwordHash := passwordHash, role := role }] ∧
      t.lastUserID = s.lastUserID + 1 ∧ t.sessions = s.sessions ∧ t.tokens = s.tokens ∧ t.lastTokenID = s.lastTokenID := by
  rw [CreateUser] at h
  split at h
  case h_1 users hins =>
    cases h
    exact ⟨Table.rows_insert? hins, rfl, rfl, rfl, rfl⟩
  case h_2 => cases h

theorem updatePasswordHash_spec {id : ℕ} {passwordHash : Auth.Bytes} {t : Accounts}
    (h : s.updatePasswordHash id passwordHash = some t) :
    t.users = s.setPassword id passwordHash ∧ t.lastUserID = s.lastUserID ∧ t.sessions = s.sessions ∧ t.tokens = s.tokens ∧
      t.lastTokenID = s.lastTokenID := by
  rw [updatePasswordHash] at h
  split at h
  · cases h
    exact ⟨rfl, rfl, rfl, rfl, rfl⟩
  · cases h

theorem updatePasswordHash_isSome {id : ℕ} (passwordHash : Auth.Bytes) (hu : ∃ u ∈ s.users.rows, u.id = id) :
    ∃ t, s.updatePasswordHash id passwordHash = some t := by
  obtain ⟨u, hmem, hid⟩ := hu
  have hfound : (s.GetUserByID id).isSome = true := by
    rw [GetUserByID, Table.find?, List.find?_isSome]
    exact ⟨u, hmem, decide_eq_true hid⟩
  exact ⟨_, if_pos hfound⟩

theorem deleteUserRow_spec {id : ℕ} {t : Accounts} (h : s.deleteUserRow id = some t) :
    (∀ se ∈ s.sessions.rows, se.userID ≠ id) ∧ t.users = s.users.delete (fun u => u.id = id) ∧ t.lastUserID = s.lastUserID ∧
      t.sessions = s.sessions ∧ t.tokens = s.tokens ∧ t.lastTokenID = s.lastTokenID := by
  rw [deleteUserRow] at h
  split at h
  case isTrue hfree =>
    cases h
    exact ⟨hfree, rfl, rfl, rfl, rfl, rfl⟩
  case isFalse => cases h

theorem CreateSession_spec {se : Session} {t : Accounts} (h : s.CreateSession se = some t) :
    (∃ u ∈ s.users.rows, u.id = se.userID) ∧ t.sessions.rows = s.sessions.rows ++ [se] ∧ t.users = s.users ∧
      t.lastUserID = s.lastUserID ∧ t.tokens = s.tokens ∧ t.lastTokenID = s.lastTokenID := by
  rw [CreateSession] at h
  split at h
  case isTrue hu =>
    split at h
    case h_1 sessions hins =>
      cases h
      exact ⟨hu, Table.rows_insert? hins, rfl, rfl, rfl, rfl⟩
    case h_2 => cases h
  case isFalse => cases h

/-- Nothing but a missing user or a digest that is taken stands against a session. -/
theorem CreateSession_isSome {se : Session} (hu : ∃ u ∈ s.users.rows, u.id = se.userID) (hfree : ∀ x ∈ s.sessions.rows, x.token ≠ se.token) :
    ∃ t, s.CreateSession se = some t := by
  obtain ⟨sessions, hins⟩ := Table.insert?_isSome_iff.2 hfree
  rw [CreateSession, dif_pos hu]
  split
  case h_1 => exact ⟨_, rfl⟩
  case h_2 hnone =>
    rw [hins] at hnone
    cases hnone

theorem CreateAPIToken_spec {a : APIToken} {t : Accounts} (h : s.CreateAPIToken a = some t) :
    t.tokens.rows = s.tokens.rows ++ [{ a with id := s.lastTokenID + 1 }] ∧ t.lastTokenID = s.lastTokenID + 1 ∧
      t.users = s.users ∧ t.lastUserID = s.lastUserID ∧ t.sessions = s.sessions := by
  rw [CreateAPIToken] at h
  split at h
  case h_1 tokens hins =>
    cases h
    exact ⟨Table.rows_insert? hins, rfl, rfl, rfl, rfl⟩
  case h_2 => cases h

theorem GetUserByUsername_spec {username : String} {u : User} (h : s.GetUserByUsername username = some u) :
    u ∈ s.users.rows ∧ u.username = username :=
  ⟨List.mem_of_find?_eq_some h, by simpa using List.find?_some h⟩

theorem GetUserByID_spec {id : ℕ} {u : User} (h : s.GetUserByID id = some u) : u ∈ s.users.rows ∧ u.id = id :=
  ⟨List.mem_of_find?_eq_some h, by simpa using List.find?_some h⟩

theorem GetSession_spec {token : String} {se : Session} (h : s.GetSession token = some se) :
    se ∈ s.sessions.rows ∧ se.token = token :=
  ⟨List.mem_of_find?_eq_some h, by simpa using List.find?_some h⟩

theorem GetAPITokenByHash_spec {hash : String} {t : APIToken} (h : s.GetAPITokenByHash hash = some t) :
    t ∈ s.tokens.rows ∧ t.hash = hash :=
  ⟨List.mem_of_find?_eq_some h, by simpa using List.find?_some h⟩

/-- A number names one user. -/
theorem user_eq {u v : User} (hu : u ∈ s.users.rows) (hv : v ∈ s.users.rows) (h : u.id = v.id) : u = v :=
  Table.eq_of_clash (fun _ _ hab => hab.imp Eq.symm Eq.symm) s.users hu hv (.inl h)

theorem session_eq {a b : Session} (ha : a ∈ s.sessions.rows) (hb : b ∈ s.sessions.rows) (h : a.token = b.token) : a = b :=
  Table.eq_of_clash (fun _ _ hab => Eq.symm hab) s.sessions ha hb h

end Accounts
end Cronova.Api
