import Cronova.Api.Accounts

/-! Who is let in: logins, requests with a session cookie or a bearer token, logouts, and
the commands on accounts, statement by statement. Calls that are between two statements
are kept with what they have read. -/
namespace Cronova.Api
open Cronova.Model Cronova.Http

/-- The digest of a token in hexadecimal, and the key derivation of passwords. -/
structure Secrets where
  sha256 : String → String
  kdf : Auth.Kdf

namespace Secrets
variable (d : Secrets)

def hashSessionToken (token : String) : String := "sha256:" ++ d.sha256 token

def HashAPIToken (plaintext : String) : String := d.sha256 plaintext

end Secrets

deriving instance DecidableEq for Request

/-- A call between two statements. -/
inductive Pending where
  /-- `login` has checked the password against the row. -/
  | createSession (user : User) (password : Auth.Bytes)
  /-- `GetSession` has found the session of a request. -/
  | getUserByID (r : Request) (token : String) (userID : ℕ) (now : Time)
  /-- `GetSession` has found an expired one. -/
  | prune (token : String)
  /-- `UpdateUserPassword` has stored the hash. -/
  | revoke (userID : ℕ)
  /-- `DeleteUser` has deleted the sessions. -/
  | deleteUser (userID : ℕ)
  /-- `authenticate` has admitted a token that has not been used for a while. -/
  | touch (id : ℕ)
  deriving DecidableEq

/-- A session that a login has opened, with the row and the password it went by. -/
structure Login where
  user : User
  password : Auth.Bytes
  session : Session

inductive Credential where
  | session (token : String) (userID : ℕ)
  | token (id : ℕ)
  deriving DecidableEq

/-- A request that `withAuth` has handed to the mux, and when its credential was read. -/
structure Served where
  request : Request
  principal : Principal
  credential : Credential
  now : Time

structure Access where
  db : Accounts
  calls : List Pending := []
  /-- The sessions opened so far. -/
  logins : List Login := []
  /-- The tokens made so far. -/
  minted : List APIToken := []
  served : List Served := []

inductive AccessEvent where
  | createUser (username : String) (passwordHash : Auth.Bytes) (role : Role)
  /-- The first statement of `UpdateUserPassword`. -/
  | updatePassword (id : ℕ) (passwordHash : Auth.Bytes)
  | revoke (k : ℕ)
  /-- The first statement of `DeleteUser`. -/
  | deleteUserSessions (id : ℕ)
  | deleteUser (k : ℕ)
  | login (username : String) (password : Auth.Bytes)
  /-- The session of a login, under a token drawn for it. -/
  | createSession (k : ℕ) (token : String) (now : Time)
  /-- A request with a cookie. -/
  | getSession (r : Request) (cookie : String) (now : Time)
  | prune (k : ℕ)
  | getUserByID (k : ℕ)
  /-- A request with `Authorization: Bearer`. -/
  | getAPIToken (r : Request) (raw : String) (now : Time)
  | touch (k : ℕ) (now : Time)
  | logout (cookie : String)
  | deleteExpiredSessions (now : Time)
  | createToken (name : String) (role : Role) (plaintext : String) (expiresAt : Option Time) (dagID : Bytes)
  | deleteToken (id : ℕ)
  /-- A statement of the call fails, and the call ends. -/
  | abandon (k : ℕ)

def tokenTouchInterval : Int := 60 * second

/-- `AuthConfig.SessionTTL`; without one, a day. -/
def sessionTTL (configured : Int) : Int := if configured ≤ 0 then 24 * 3600 * second else configured

namespace Access

/-- Whether `withAuth` asks for a principal and then admits it. -/
def admits (r : Request) (user : Principal) : Bool := !isPublic r.path && r.authorized user

def grant (s : Access) (e : Served) : Access := { s with served := s.served ++ [e] }

/-- What becomes of the request once the user of its session has been read. -/
def admitSession (s : Access) (r : Request) (token : String) (u : User) (now : Time) : Access :=
  let user : Principal := { role := u.role, tokenDagScope := [] }
  if admits r user then s.grant { request := r, principal := user, credential := .session token u.id, now := now } else s

def admitToken (s : Access) (r : Request) (t : APIToken) (now : Time) : Access :=
  let user : Principal := { role := t.role, tokenDagScope := t.dagID }
  if admits r user then s.grant { request := r, principal := user, credential := .token t.id, now := now } else s

/-- Whether the use of a token is to be recorded. -/
def untouched (t : APIToken) (now : Time) : Bool := t.lastUsedAt.all (fun used => tokenTouchInterval < now - used)

def finish (s : Access) (k : ℕ) : Access := { s with calls := s.calls.eraseIdx k }

/-- One statement, with what its call does up to the next one. -/
def step (d : Secrets) (ttl : Int) (s : Access) : AccessEvent → Option Access
  | .createUser username passwordHash role =>
    (s.db.CreateUser username passwordHash role).map (fun db => { s with db := db })
  | .updatePassword id passwordHash =>
    (s.db.updatePasswordHash id passwordHash).map (fun db => { s with db := db, calls := s.calls ++ [.revoke id] })
  | .revoke k =>
    match s.calls[k]? with
    | some (.revoke userID) => some { s.finish k with db := s.db.deleteSessionsOf userID }
    | _ => none
  | .deleteUserSessions id => some { s with db := s.db.deleteSessionsOf id, calls := s.calls ++ [.deleteUser id] }
  | .deleteUser k =>
    match s.calls[k]? with
    | some (.deleteUser userID) => (s.db.deleteUserRow userID).map (fun db => { s.finish k with db := db })
    | _ => none
  | .login username password =>
    match s.db.GetUserByUsername username with
    | some user =>
      if Auth.CheckPassword d.kdf user.passwordHash password then
        some { s with calls := s.calls ++ [.createSession user password] }
      else none
    | none => none
  | .createSession k token now =>
    match s.calls[k]? with
    | some (.createSession user password) =>
      let se : Session := { token := d.hashSessionToken token, userID := user.id, expiresAt := now + sessionTTL ttl }
      (s.db.CreateSession se).map (fun db =>
        { s.finish k with db := db, logins := s.logins ++ [{ user := user, password := password, session := se }] })
    | _ => none
  | .getSession r cookie now =>
    if cookie = "" then none
    else
      match s.db.GetSession (d.hashSessionToken cookie) with
      | some se =>
        if now < se.expiresAt then some { s with calls := s.calls ++ [.getUserByID r se.token se.userID now] }
        else some { s with calls := s.calls ++ [.prune se.token] }
      | none => none
  | .prune k =>
    match s.calls[k]? with
    | some (.prune token) => some { s.finish k with db := s.db.DeleteSession token }
    | _ => none
  | .getUserByID k =>
    match s.calls[k]? with
    | some (.getUserByID r token userID now) =>
      match s.db.GetUserByID userID with
      | some u => some ((s.finish k).admitSession r token u now)
      | none => some (s.finish k)
    | _ => none
  | .getAPIToken r raw now =>
    if raw = "" then none
    else
      match s.db.GetAPITokenByHash (d.HashAPIToken raw) with
      | some t =>
        if t.expiresAt.any (· < now) then none
        else if untouched t now then some ({ s with calls := s.calls ++ [Pending.touch t.id] }.admitToken r t now)
        else some (s.admitToken r t now)
      | none => none
  | .touch k now =>
    match s.calls[k]? with
    | some (.touch id) => some { s.finish k with db := s.db.TouchAPIToken id now }
    | _ => none
  | .logout cookie => if cookie = "" then none else some { s with db := s.db.DeleteSession (d.hashSessionToken cookie) }
  | .deleteExpiredSessions now => some { s with db := s.db.DeleteExpiredSessions now }
  | .createToken name role plaintext expiresAt dagID =>
    let t : APIToken :=
      { id := s.db.lastTokenID + 1, name := name, role := role, hash := d.HashAPIToken plaintext, expiresAt := expiresAt, dagID := dagID }
    (s.db.CreateAPIToken t).map (fun db => { s with db := db, minted := s.minted ++ [t] })
  | .deleteToken id => some { s with db := s.db.DeleteAPIToken id }
  | .abandon k => if k < s.calls.length then some (s.finish k) else none

/-- A new database. -/
def new : Access := { db := .empty }

end Access
end Cronova.Api
