import Cronova.Api.Access
import Cronova.Concurrency.Machine

/-! Sessions and tokens: which requests are let in, and for how long after a logout, a
change of the password or the end of an account. -/
namespace Cronova.Properties.Access
open Cronova.Model Cronova.Concurrency Cronova.Api Cronova.Http Cronova.Relational Cronova.Api.Access

/-- What an event does, and what it has found. -/
inductive Effect (d : Secrets) (ttl : Int) (s : Access) : AccessEvent → Access → Prop where
  | createUser {username : String} {passwordHash : Auth.Bytes} {role : Role} {db : Accounts}
      (h : s.db.CreateUser username passwordHash role = some db) :
      Effect d ttl s (.createUser username passwordHash role) { s with db := db }
  | updatePassword {id : ℕ} {passwordHash : Auth.Bytes} {db : Accounts} (h : s.db.updatePasswordHash id passwordHash = some db) :
      Effect d ttl s (.updatePassword id passwordHash) { s with db := db, calls := s.calls ++ [.revoke id] }
  | revoke {k userID : ℕ} (hk : s.calls[k]? = some (.revoke userID)) :
      Effect d ttl s (.revoke k) { s.finish k with db := s.db.deleteSessionsOf userID }
  | deleteUserSessions {id : ℕ} :
      Effect d ttl s (.deleteUserSessions id) { s with db := s.db.deleteSessionsOf id, calls := s.calls ++ [.deleteUser id] }
  | deleteUser {k userID : ℕ} {db : Accounts} (hk : s.calls[k]? = some (.deleteUser userID))
      (h : s.db.deleteUserRow userID = some db) : Effect d ttl s (.deleteUser k) { s.finish k with db := db }
  | login {username : String} {password : Auth.Bytes} {user : User} (hu : s.db.GetUserByUsername username = some user)
      (hcheck : Auth.CheckPassword d.kdf user.passwordHash password = true) :
      Effect d ttl s (.login username password) { s with calls := s.calls ++ [.createSession user password] }
  | createSession {k : ℕ} {token : String} {now : Time} {user : User} {password : Auth.Bytes} {db : Accounts} {se : Session}
      (hk : s.calls[k]? = some (.createSession user password))
      (hse : se = { token := d.hashSessionToken token, userID := user.id, expiresAt := now + sessionTTL ttl })
      (h : s.db.CreateSession se = some db) :
      Effect d ttl s (.createSession k token now)
        { s.finish k with db := db, logins := s.logins ++ [{ user := user, password := password, session := se }] }
  | getSession {r : Request} {cookie : String} {now : Time} {se : Session} (h : se ∈ s.db.sessions.rows)
      (htoken : se.token = d.hashSessionToken cookie) (hnow : now < se.expiresAt) :
      Effect d ttl s (.getSession r cookie now) { s with calls := s.calls ++ [.getUserByID r se.token se.userID now] }
  | expired {r : Request} {cookie : String} {now : Time} {se : Session} :
      Effect d ttl s (.getSession r cookie now) { s with calls := s.calls ++ [.prune se.token] }
  | prune {k : ℕ} {token : String} (hk : s.calls[k]? = some (.prune token)) :
      Effect d ttl s (.prune k) { s.finish k with db := s.db.DeleteSession token }
  | getUserByID {k : ℕ} {r : Request} {token : String} {userID : ℕ} {now : Time} {u : User}
      (hk : s.calls[k]? = some (.getUserByID r token userID now)) (hu : u ∈ s.db.users.rows) (hid : u.id = userID) :
      Effect d ttl s (.getUserByID k) ((s.finish k).admitSession r token u now)
  | noUser {k : ℕ} {r : Request} {token : String} {userID : ℕ} {now : Time}
      (hk : s.calls[k]? = some (.getUserByID r token userID now)) : Effect d ttl s (.getUserByID k) (s.finish k)
  | getAPIToken {r : Request} {raw : String} {now : Time} {t : APIToken} {calls : List Pending} (h : t ∈ s.db.tokens.rows)
      (hhash : t.hash = d.HashAPIToken raw) (hnow : ∀ x, t.expiresAt = some x → now ≤ x)
      (hcalls : calls = s.calls ∨ calls = s.calls ++ [.touch t.id]) :
      Effect d ttl s (.getAPIToken r raw now) ({ s with calls := calls }.admitToken r t now)
  | touch {k id : ℕ} {now : Time} (hk : s.calls[k]? = some (.touch id)) :
      Effect d ttl s (.touch k now) { s.finish k with db := s.db.TouchAPIToken id now }
  | logout {cookie : String} : Effect d ttl s (.logout cookie) { s with db := s.db.DeleteSession (d.hashSessionToken cookie) }
  | deleteExpiredSessions {now : Time} :
      Effect d ttl s (.deleteExpiredSessions now) { s with db := s.db.DeleteExpiredSessions now }
  | createToken {name : String} {role : Role} {plaintext : String} {expiresAt : Option Time} {dagID : Bytes} {t : APIToken}
      {db : Accounts} (hid : t.id = s.db.lastTokenID + 1) (h : s.db.CreateAPIToken t = some db) :
      Effect d ttl s (.createToken name role plaintext expiresAt dagID) { s with db := db, minted := s.minted ++ [t] }
  | deleteToken {id : ℕ} : Effect d ttl s (.deleteToken id) { s with db := s.db.DeleteAPIToken id }
  | abandon {k : ℕ} : Effect d ttl s (.abandon k) (s.finish k)

section Steps
variable {d : Secrets} {ttl : Int} {s t : Access} {e : AccessEvent}

theorem step_effect (h : step d ttl s e = some t) : Effect d ttl s e t := by
  cases e with
  | createUser username passwordHash role =>
    obtain ⟨db, hdb, rfl⟩ := Option.map_eq_some_iff.1 h
    exact .createUser hdb
  | updatePassword id passwordHash =>
    obtain ⟨db, hdb, rfl⟩ := Option.map_eq_some_iff.1 h
    exact .updatePassword hdb
  | revoke k =>
    simp only [step] at h
    split at h
    case h_1 userID hk =>
      cases h
      exact .revoke hk
    case h_2 => cases h
  | deleteUserSessions id =>
    cases h
    exact .deleteUserSessions
  | deleteUser k =>
    simp only [step] at h
    split at h
    case h_1 userID hk =>
      obtain ⟨db, hdb, rfl⟩ := Option.map_eq_some_iff.1 h
      exact .deleteUser hk hdb
    case h_2 => cases h
  | login username password =>
    simp only [step] at h
    split at h
    case h_1 user hu =>
      split at h
      case isTrue hcheck =>
        cases h
        exact .login hu hcheck
      case isFalse => cases h
    case h_2 => cases h
  | createSession k token now =>
    simp only [step] at h
    split at h
    case h_1 user password hk =>
      obtain ⟨db, hdb, rfl⟩ := Option.map_eq_some_iff.1 h
      exact .createSession hk rfl hdb
    case h_2 => cases h
  | getSession r cookie now =>
    simp only [step] at h
    split at h
    case isTrue => cases h
    case isFalse =>
      split at h
      case h_1 se hse =>
        obtain ⟨hmem, htoken⟩ := Accounts.GetSession_spec hse
        split at h
        case isTrue hnow =>
          cases h
          exact .getSession hmem htoken hnow
        case isFalse =>
          cases h
          exact .expired
      case h_2 => cases h
  | prune k =>
    simp only [step] at h
    split at h
    case h_1 token hk =>
      cases h
      exact .prune hk
    case h_2 => cases h
  | getUserByID k =>
    simp only [step] at h
    split at h
    case h_1 r token userID now hk =>
      split at h
      case h_1 u hu =>
        cases h
        obtain ⟨hmem, hid⟩ := Accounts.GetUserByID_spec hu
        exact .getUserByID hk hmem hid
      case h_2 =>
        cases h
        exact .noUser hk
    case h_2 => cases h
  | getAPIToken r raw now =>
    simp only [step] at h
    split at h
    case isTrue => cases h
    case isFalse =>
      split at h
      case h_1 tok htok =>
        obtain ⟨hmem, hhash⟩ := Accounts.GetAPITokenByHash_spec htok
        split at h
        case isTrue => cases h
        case isFalse hexpired =>
          have hnow : ∀ x, tok.expiresAt = some x → now ≤ x := by
            intro x hx
            by_contra hlate
            refine hexpired ?_
            rw [hx, Option.any_some, decide_eq_true_eq]
            exact Int.not_le.1 hlate
          split at h
          case isTrue =>
            cases h
            exact .getAPIToken hmem hhash hnow (.inr rfl)
          case isFalse =>
            cases h
            exact .getAPIToken hmem hhash hnow (.inl rfl)
      case h_2 => cases h
  | touch k now =>
    simp only [step] at h
    split at h
    case h_1 id hk =>
      cases h
      exact .touch hk
    case h_2 => cases h
  | logout cookie =>
    simp only [step] at h
    split at h
    case isTrue => cases h
    case isFalse =>
      cases h
      exact .logout
  | deleteExpiredSessions now =>
    cases h
    exact .deleteExpiredSessions
  | createToken name role plaintext expiresAt dagID =>
    obtain ⟨db, hdb, rfl⟩ := Option.map_eq_some_iff.1 h
    exact .createToken rfl hdb
  | deleteToken id =>
    cases h
    exact .deleteToken
  | abandon k =>
    simp only [step] at h
    split at h
    case isTrue =>
      cases h
      exact .abandon
    case isFalse => cases h

theorem admitSession_frame (s : Access) (r : Request) (token : String) (u : User) (now : Time) :
    (s.admitSession r token u now).db = s.db ∧ (s.admitSession r token u now).calls = s.calls ∧
      (s.admitSession r token u now).logins = s.logins ∧ (s.admitSession r token u now).minted = s.minted := by
  rw [admitSession]
  split
  · exact ⟨rfl, rfl, rfl, rfl⟩
  · exact ⟨rfl, rfl, rfl, rfl⟩

theorem admitToken_frame (s : Access) (r : Request) (tok : APIToken) (now : Time) :
    (s.admitToken r tok now).db = s.db ∧ (s.admitToken r tok now).calls = s.calls ∧
      (s.admitToken r tok now).logins = s.logins ∧ (s.admitToken r tok now).minted = s.minted := by
  rw [admitToken]
  split
  · exact ⟨rfl, rfl, rfl, rfl⟩
  · exact ⟨rfl, rfl, rfl, rfl⟩

/-- A request is added to those served, if it is admitted. -/
theorem admitSession_served (s : Access) (r : Request) (token : String) (u : User) (now : Time) :
    ∃ new, (s.admitSession r token u now).served = s.served ++ new ∧
      ∀ e ∈ new, e = ⟨r, ⟨u.role, []⟩, .session token u.id, now⟩ ∧ admits r ⟨u.role, []⟩ = true := by
  rw [admitSession]
  split
  case isTrue h => exact ⟨[_], rfl, by simpa using h⟩
  case isFalse => exact ⟨[], (List.append_nil _).symm, by simp⟩

theorem admitToken_served (s : Access) (r : Request) (tok : APIToken) (now : Time) :
    ∃ new, (s.admitToken r tok now).served = s.served ++ new ∧
      ∀ e ∈ new, e = ⟨r, ⟨tok.role, tok.dagID⟩, .token tok.id, now⟩ ∧ admits r ⟨tok.role, tok.dagID⟩ = true := by
  rw [admitToken]
  split
  case isTrue h => exact ⟨[_], rfl, by simpa using h⟩
  case isFalse => exact ⟨[], (List.append_nil _).symm, by simp⟩

theorem mem_finish {k : ℕ} {c : Pending} (h : c ∈ (s.finish k).calls) : c ∈ s.calls := List.mem_of_mem_eraseIdx h

/-! ### What no statement changes -/

/-- Numbers, roles and the records of logins and tokens stay. -/
structure Later (s t : Access) : Prop where
  last : s.db.lastUserID ≤ t.db.lastUserID
  users : ∀ u' ∈ t.db.users.rows, (∃ u ∈ s.db.users.rows, u'.id = u.id ∧ u'.role = u.role) ∨ s.db.lastUserID < u'.id
  logins : ∀ l ∈ s.logins, l ∈ t.logins
  minted : ∀ m ∈ s.minted, m ∈ t.minted

theorem Later.of_eq (hlast : t.db.lastUserID = s.db.lastUserID) (husers : t.db.users = s.db.users) (hlogins : ∀ l ∈ s.logins, l ∈ t.logins)
    (hminted : ∀ m ∈ s.minted, m ∈ t.minted) : Later s t where
  last := hlast.ge
  users := by
    intro u hu
    rw [husers] at hu
    exact .inl ⟨u, hu, rfl, rfl⟩
  logins := hlogins
  minted := hminted

theorem step_later (h : step d ttl s e = some t) : Later s t := by
  have hkeep : ∀ l ∈ s.logins, l ∈ s.logins := fun _ hl => hl
  have hkeep' : ∀ m ∈ s.minted, m ∈ s.minted := fun _ hm => hm
  cases step_effect h with
  | createUser hdb =>
    obtain ⟨hrows, hlast, -⟩ := Accounts.CreateUser_spec hdb
    refine ⟨by rw [hlast]; omega, ?_, hkeep, hkeep'⟩
    intro u' hu'
    rw [hrows, List.mem_append, List.mem_singleton] at hu'
    rcases hu' with hu' | rfl
    · exact .inl ⟨u', hu', rfl, rfl⟩
    · exact .inr (Nat.lt_succ_self _)
  | updatePassword hdb =>
    obtain ⟨husers, hlast, -⟩ := Accounts.updatePasswordHash_spec hdb
    refine ⟨hlast.ge, ?_, hkeep, hkeep'⟩
    intro u' hu'
    rw [husers, Accounts.mem_setPassword] at hu'
    obtain ⟨u, hu, rfl⟩ := hu'
    refine .inl ⟨u, hu, ?_⟩
    split
    · exact ⟨rfl, rfl⟩
    · exact ⟨rfl, rfl⟩
  | deleteUser hk hdb =>
    obtain ⟨-, husers, hlast, -⟩ := Accounts.deleteUserRow_spec hdb
    refine ⟨hlast.ge, ?_, hkeep, hkeep'⟩
    intro u' hu'
    rw [husers, Table.mem_delete] at hu'
    exact .inl ⟨u', hu'.1, rfl, rfl⟩
  | createSession hk hse hdb =>
    obtain ⟨-, -, husers, hlast, -⟩ := Accounts.CreateSession_spec hdb
    exact .of_eq hlast husers (fun l hl => List.mem_append_left _ hl) hkeep'
  | getUserByID hk hu hid =>
    obtain ⟨hdb, -, hlogins, hminted⟩ := admitSession_frame (s.finish _) _ _ _ _
    refine .of_eq (by rw [hdb]; rfl) (by rw [hdb]; rfl) ?_ ?_
    · rw [hlogins]
      exact hkeep
    · rw [hminted]
      exact hkeep'
  | getAPIToken hmem hhash hnow hcalls =>
    obtain ⟨hdb, -, hlogins, hminted⟩ := admitToken_frame { s with calls := _ } _ _ _
    refine .of_eq (by rw [hdb]) (by rw [hdb]) ?_ ?_
    · rw [hlogins]
      exact hkeep
    · rw [hminted]
      exact hkeep'
  | createToken hid hdb =>
    obtain ⟨-, -, husers, hlast, -⟩ := Accounts.CreateAPIToken_spec hdb
    exact .of_eq hlast husers hkeep (fun m hm => List.mem_append_left _ hm)
  | revoke | deleteUserSessions | login | getSession | expired | prune | noUser | touch | logout | deleteExpiredSessions
  | deleteToken | abandon => exact .of_eq rfl rfl hkeep hkeep'

/-! ### What the calls and the records know -/

/-- The user is no other today, as far as the number and the role go. -/
def Known (s : Access) (user : User) : Prop :=
  user.id ≤ s.db.lastUserID ∧ ∀ u ∈ s.db.users.rows, u.id = user.id → u.role = user.role

/-- What a call between two statements goes by. -/
def Knows (d : Secrets) (s : Access) : Pending → Prop
  | .createSession user password => Auth.CheckPassword d.kdf user.passwordHash password = true ∧ Known s user
  | .getUserByID _ token userID now => ∃ l ∈ s.logins, l.session.token = token ∧ l.user.id = userID ∧ now < l.session.expiresAt
  | _ => True

/-- A credential that stands for a login with a password, or for a token that was made, and
is not past its time; and a request that its role may make. -/
def Backed (d : Secrets) (s : Access) (e : Served) : Prop :=
  isPublic e.request.path = false ∧ e.request.authorized e.principal = true ∧
    match e.credential with
    | .session token userID => ∃ l ∈ s.logins, l.session.token = token ∧ l.user.id = userID ∧
        Auth.CheckPassword d.kdf l.user.passwordHash l.password = true ∧ e.now < l.session.expiresAt ∧
        e.principal = { role := l.user.role, tokenDagScope := [] }
    | .token id => ∃ m ∈ s.minted, m.id = id ∧ (∀ x, m.expiresAt = some x → e.now ≤ x) ∧
        e.principal = { role := m.role, tokenDagScope := m.dagID }

/-- What every reachable state has. -/
structure Inv (d : Secrets) (s : Access) : Prop where
  calls : ∀ c ∈ s.calls, Knows d s c
  logins : ∀ l ∈ s.logins, Auth.CheckPassword d.kdf l.user.passwordHash l.password = true ∧ Known s l.user ∧
    l.session.userID = l.user.id
  sessions : ∀ se ∈ s.db.sessions.rows, ∃ l ∈ s.logins, l.session = se
  tokens : ∀ tok ∈ s.db.tokens.rows, ∃ m ∈ s.minted,
    m.id = tok.id ∧ m.role = tok.role ∧ m.dagID = tok.dagID ∧ m.expiresAt = tok.expiresAt
  served : ∀ e ∈ s.served, Backed d s e

theorem Known.later {user : User} (h : Known s user) (hl : Later s t) : Known t user := by
  refine ⟨h.1.trans hl.last, ?_⟩
  intro u' hu' hid
  rcases hl.users u' hu' with ⟨u, hu, hid', hrole⟩ | hfresh
  · rw [hrole]
    exact h.2 u hu (hid' ▸ hid)
  · have := h.1
    omega

theorem Knows.later {c : Pending} (h : Knows d s c) (hl : Later s t) : Knows d t c := by
  cases c with
  | createSession user password => exact ⟨h.1, h.2.later hl⟩
  | getUserByID r token userID now =>
    obtain ⟨l, hmem, hl'⟩ := h
    exact ⟨l, hl.logins l hmem, hl'⟩
  | prune | revoke | deleteUser | touch => trivial

theorem Backed.later {e : Served} (h : Backed d s e) (hl : Later s t) : Backed d t e := by
  obtain ⟨hpublic, hauth, h⟩ := h
  refine ⟨hpublic, hauth, ?_⟩
  cases hc : e.credential with
  | session token userID =>
    rw [hc] at h
    obtain ⟨l, hmem, hl'⟩ := h
    exact ⟨l, hl.logins l hmem, hl'⟩
  | token id =>
    rw [hc] at h
    obtain ⟨m, hmem, hm⟩ := h
    exact ⟨m, hl.minted m hmem, hm⟩

theorem step_calls (h : step d ttl s e = some t) (hs : Inv d s) : ∀ c ∈ t.calls, Knows d t c := by
  have hold : ∀ c ∈ s.calls, Knows d t c := fun c hc => (hs.calls c hc).later (step_later h)
  have hrest : ∀ k, ∀ c ∈ (s.finish k).calls, Knows d t c := fun _ c hc => hold c (mem_finish hc)
  have hnew : ∀ c, Knows d t c → ∀ c' ∈ s.calls ++ [c], Knows d t c' := by
    intro c hc c' hc'
    rw [List.mem_append, List.mem_singleton] at hc'
    rcases hc' with hc' | rfl
    · exact hold c' hc'
    · exact hc
  have hlater := step_later h
  cases step_effect h with
  | createUser | logout | deleteExpiredSessions | createToken | deleteToken => exact hold
  | revoke | deleteUser | createSession | prune | noUser | touch | abandon => exact hrest _
  | updatePassword | deleteUserSessions | expired => exact hnew _ trivial
  | login hu hcheck =>
    obtain ⟨hmem, -⟩ := Accounts.GetUserByUsername_spec hu
    refine hnew _ ⟨hcheck, s.db.numbered _ hmem, ?_⟩
    intro u hu' hid
    rw [Accounts.user_eq hu' hmem hid]
  | getSession hse htoken hnow =>
    obtain ⟨l, hl, rfl⟩ := hs.sessions _ hse
    obtain ⟨-, -, howner⟩ := hs.logins l hl
    exact hnew _ ⟨l, hl, rfl, howner.symm, hnow⟩
  | getUserByID hk hu hid =>
    obtain ⟨-, hcalls, -⟩ := admitSession_frame (s.finish _) _ _ _ _
    rw [hcalls]
    exact hrest _
  | getAPIToken hmem hhash hnow hcalls =>
    obtain ⟨-, hcalls', -⟩ := admitToken_frame { s with calls := _ } _ _ _
    rw [hcalls']
    rcases hcalls with rfl | rfl
    · exact hold
    · exact hnew _ trivial

theorem step_logins (h : step d ttl s e = some t) (hs : Inv d s) :
    ∀ l ∈ t.logins, Auth.CheckPassword d.kdf l.user.passwordHash l.password = true ∧ Known t l.user ∧
      l.session.userID = l.user.id := by
  have hold : ∀ l ∈ s.logins, Auth.CheckPassword d.kdf l.user.passwordHash l.password = true ∧ Known t l.user ∧
      l.session.userID = l.user.id := by
    intro l hl
    obtain ⟨hcheck, hknown, howner⟩ := hs.logins l hl
    exact ⟨hcheck, hknown.later (step_later h), howner⟩
  have hlater := step_later h
  cases step_effect h with
  | createSession hk hse hdb =>
    intro l hl
    rw [List.mem_append, List.mem_singleton] at hl
    rcases hl with hl | rfl
    · exact hold l hl
    · obtain ⟨hcheck, hknown⟩ := hs.calls _ (List.mem_of_getElem? hk)
      exact ⟨hcheck, hknown.later hlater, by rw [hse]⟩
  | getUserByID hk hu hid =>
    obtain ⟨-, -, hlogins, -⟩ := admitSession_frame (s.finish _) _ _ _ _
    rw [hlogins]
    exact hold
  | getAPIToken hmem hhash hnow hcalls =>
    obtain ⟨-, -, hlogins, -⟩ := admitToken_frame { s with calls := _ } _ _ _
    rw [hlogins]
    exact hold
  | createUser | updatePassword | revoke | deleteUserSessions | deleteUser | login | getSession | expired | prune | noUser
  | touch | logout | deleteExpiredSessions | createToken | deleteToken | abandon => exact hold

/-- A session that is new is the one of a login that has just ended. -/
theorem step_sessions (h : step d ttl s e = some t) :
    ∀ se ∈ t.db.sessions.rows, se ∈ s.db.sessions.rows ∨
      ∃ k token now user password, e = .createSession k token now ∧ s.calls[k]? = some (.createSession user password) ∧
        se = { token := d.hashSessionToken token, userID := user.id, expiresAt := now + sessionTTL ttl } ∧
        t.logins = s.logins ++ [{ user := user, password := password, session := se }] ∧
        t.db.users = s.db.users ∧ ∃ u ∈ s.db.users.rows, u.id = user.id := by
  have hdeleted : ∀ p : Session → Bool, ∀ se ∈ (s.db.deleteSessions p).sessions.rows, se ∈ s.db.sessions.rows :=
    fun p se hse => (Table.mem_delete.1 hse).1
  cases step_effect h with
  | createUser hdb =>
    obtain ⟨-, -, hsessions, -⟩ := Accounts.CreateUser_spec hdb
    intro se hse
    exact .inl (hsessions ▸ hse)
  | updatePassword hdb =>
    obtain ⟨-, -, hsessions, -⟩ := Accounts.updatePasswordHash_spec hdb
    intro se hse
    exact .inl (hsessions ▸ hse)
  | deleteUser hk hdb =>
    obtain ⟨-, -, -, hsessions, -⟩ := Accounts.deleteUserRow_spec hdb
    intro se hse
    exact .inl (hsessions ▸ hse)
  | createToken hid hdb =>
    obtain ⟨-, -, -, -, hsessions⟩ := Accounts.CreateAPIToken_spec hdb
    intro se hse
    exact .inl (hsessions ▸ hse)
  | createSession hk hse hdb =>
    obtain ⟨howner, hrows, husers, -⟩ := Accounts.CreateSession_spec hdb
    intro x hx
    rw [hrows, List.mem_append, List.mem_singleton] at hx
    rcases hx with hx | rfl
    · exact .inl hx
    · refine .inr ⟨_, _, _, _, _, rfl, hk, hse, rfl, husers, ?_⟩
      rw [hse] at howner
      exact howner
  | getUserByID hk hu hid =>
    obtain ⟨hdb, -⟩ := admitSession_frame (s.finish _) _ _ _ _
    intro se hse
    rw [hdb] at hse
    exact .inl hse
  | getAPIToken hmem hhash hnow hcalls =>
    obtain ⟨hdb, -⟩ := admitToken_frame { s with calls := _ } _ _ _
    intro se hse
    rw [hdb] at hse
    exact .inl hse
  | revoke | deleteUserSessions | prune | logout | deleteExpiredSessions =>
    intro se hse
    exact .inl (hdeleted _ se hse)
  | login | getSession | expired | noUser | touch | deleteToken | abandon =>
    intro se hse
    exact .inl hse

theorem step_tokens (h : step d ttl s e = some t) (hs : Inv d s) : ∀ tok ∈ t.db.tokens.rows, ∃ m ∈ t.minted,
    m.id = tok.id ∧ m.role = tok.role ∧ m.dagID = tok.dagID ∧ m.expiresAt = tok.expiresAt := by
  have hold : ∀ tok ∈ s.db.tokens.rows, ∃ m ∈ t.minted,
      m.id = tok.id ∧ m.role = tok.role ∧ m.dagID = tok.dagID ∧ m.expiresAt = tok.expiresAt := by
    intro tok htok
    obtain ⟨m, hm, hsame⟩ := hs.tokens tok htok
    exact ⟨m, (step_later h).minted m hm, hsame⟩
  cases step_effect h with
  | createUser hdb =>
    obtain ⟨-, -, -, htokens, -⟩ := Accounts.CreateUser_spec hdb
    rw [htokens]
    exact hold
  | updatePassword hdb =>
    obtain ⟨-, -, -, htokens, -⟩ := Accounts.updatePasswordHash_spec hdb
    rw [htokens]
    exact hold
  | deleteUser hk hdb =>
    obtain ⟨-, -, -, -, htokens, -⟩ := Accounts.deleteUserRow_spec hdb
    rw [htokens]
    exact hold
  | createSession hk hse hdb =>
    obtain ⟨-, -, -, -, htokens, -⟩ := Accounts.CreateSession_spec hdb
    rw [htokens]
    exact hold
  | createToken hid hdb =>
    obtain ⟨hrows, -⟩ := Accounts.CreateAPIToken_spec hdb
    intro tok htok
    rw [hrows, List.mem_append, List.mem_singleton] at htok
    rcases htok with htok | rfl
    · exact hold tok htok
    · exact ⟨_, List.mem_append_right _ (List.mem_singleton_self _), hid, rfl, rfl, rfl⟩
  | getUserByID hk hu hid =>
    obtain ⟨hdb, -, -, hminted⟩ := admitSession_frame (s.finish _) _ _ _ _
    rw [hminted] at hold
    rw [hdb, hminted]
    exact hold
  | getAPIToken hmem hhash hnow hcalls =>
    obtain ⟨hdb, -, -, hminted⟩ := admitToken_frame { s with calls := _ } _ _ _
    rw [hminted] at hold
    rw [hdb, hminted]
    exact hold
  | touch hk =>
    intro tok' htok'
    obtain ⟨tok, htok, rfl⟩ := s.db.mem_touched.1 htok'
    obtain ⟨m, hm, hid, hrole, hdag, hexp⟩ := hold tok htok
    refine ⟨m, hm, ?_⟩
    split
    · exact ⟨hid, hrole, hdag, hexp⟩
    · exact ⟨hid, hrole, hdag, hexp⟩
  | deleteToken =>
    intro tok htok
    exact hold tok (Table.mem_delete.1 htok).1
  | revoke | deleteUserSessions | login | getSession | expired | prune | noUser | logout | deleteExpiredSessions | abandon =>
    exact hold

/-- A request that is served was between its statements, or came with a token. -/
theorem step_served (h : step d ttl s e = some t) :
    ∃ new, t.served = s.served ++ new ∧ ∀ x ∈ new, admits x.request x.principal = true ∧
      ((∃ token u, u ∈ s.db.users.rows ∧ x.credential = .session token u.id ∧ x.principal = ⟨u.role, []⟩ ∧
          .getUserByID x.request token u.id x.now ∈ s.calls) ∨
        ∃ tok ∈ s.db.tokens.rows, x.credential = .token tok.id ∧ x.principal = ⟨tok.role, tok.dagID⟩ ∧
          ∀ y, tok.expiresAt = some y → x.now ≤ y) := by
  cases step_effect h with
  | @getUserByID k r token userID now u hk hu hid =>
    obtain ⟨new, hserved, hnew⟩ := admitSession_served (s.finish k) r token u now
    refine ⟨new, hserved, ?_⟩
    intro x hx
    obtain ⟨rfl, hadmits⟩ := hnew x hx
    subst hid
    exact ⟨hadmits, .inl ⟨token, u, hu, rfl, rfl, List.mem_of_getElem? hk⟩⟩
  | @getAPIToken r raw now tok calls hmem hhash hnow hcalls =>
    obtain ⟨new, hserved, hnew⟩ := admitToken_served { s with calls := calls } r tok now
    refine ⟨new, hserved, ?_⟩
    intro x hx
    obtain ⟨rfl, hadmits⟩ := hnew x hx
    exact ⟨hadmits, .inr ⟨tok, hmem, rfl, rfl, hnow⟩⟩
  | createUser | updatePassword | revoke | deleteUserSessions | deleteUser | login | createSession | getSession | expired | prune
  | noUser | touch | logout | deleteExpiredSessions | createToken | deleteToken | abandon =>
    exact ⟨[], (List.append_nil _).symm, by simp⟩

theorem backed_new {x : Served} (hs : Inv d s) (hadmits : admits x.request x.principal = true)
    (hx : (∃ token u, u ∈ s.db.users.rows ∧ x.credential = .session token u.id ∧ x.principal = ⟨u.role, []⟩ ∧
          .getUserByID x.request token u.id x.now ∈ s.calls) ∨
        ∃ tok ∈ s.db.tokens.rows, x.credential = .token tok.id ∧ x.principal = ⟨tok.role, tok.dagID⟩ ∧
          ∀ y, tok.expiresAt = some y → x.now ≤ y) : Backed d s x := by
  rw [admits, Bool.and_eq_true, Bool.not_eq_true'] at hadmits
  refine ⟨hadmits.1, hadmits.2, ?_⟩
  rcases hx with ⟨token, u, hu, hcred, hprincipal, hcall⟩ | ⟨tok, htok, hcred, hprincipal, hnow⟩
  · rw [hcred]
    obtain ⟨l, hl, htoken, hid, hlt⟩ := hs.calls _ hcall
    obtain ⟨hcheck, hknown, -⟩ := hs.logins l hl
    have hrole := hknown.2 u hu hid.symm
    exact ⟨l, hl, htoken, hid, hcheck, hlt, by rw [hprincipal, hrole]⟩
  · rw [hcred]
    obtain ⟨m, hm, hid, hrole, hdag, hexp⟩ := hs.tokens tok htok
    refine ⟨m, hm, hid, ?_, by rw [hprincipal, hrole, hdag]⟩
    rw [hexp]
    exact hnow

theorem inv_step (hs : Inv d s) (h : step d ttl s e = some t) : Inv d t where
  calls := step_calls h hs
  logins := step_logins h hs
  sessions := by
    intro se hse
    rcases step_sessions h se hse with hse | ⟨k, token, now, user, password, -, -, -, hlogins, -⟩
    · obtain ⟨l, hl, hsame⟩ := hs.sessions se hse
      exact ⟨l, (step_later h).logins l hl, hsame⟩
    · rw [hlogins]
      exact ⟨_, List.mem_append_right _ (List.mem_singleton_self _), rfl⟩
  tokens := step_tokens h hs
  served := by
    obtain ⟨new, hserved, hnew⟩ := step_served h
    intro x hx
    rw [hserved, List.mem_append] at hx
    rcases hx with hx | hx
    · exact (hs.served x hx).later (step_later h)
    · exact (backed_new hs (hnew x hx).1 (hnew x hx).2).later (step_later h)

end Steps

theorem inv_new (d : Secrets) : Inv d Access.new where
  calls := by simp [Access.new]
  logins := by simp [Access.new]
  sessions := by simp [Access.new, Accounts.empty]
  tokens := by simp [Access.new, Accounts.empty]
  served := by simp [Access.new]

section Runs
variable {d : Secrets} {ttl : Int} {s s' t : Access} {ok : Access → AccessEvent → Prop}

theorem inv_run (h : Reaches (step d ttl) ok s t) (hs : Inv d s) : Inv d t :=
  h.keeps hs (fun _ _ _ ha _ hstep => inv_step ha hstep)

/-- Every request served by session stands behind a login that checked the password of the
account, with the role the account had then and before the session ended; every request
served by token behind a token that was made, with its role and scope and not after its end. -/
theorem served_backed (h : Reaches (step d ttl) anyEvent Access.new t) : ∀ e ∈ t.served, Backed d t e :=
  (inv_run h (inv_new d)).served

end Runs

/-! ### A session -/

/-- Texts as their own digests. -/
def plainly : Secrets := { sha256 := id, kdf := Auth.truncating }

/-- The stored text of a password. -/
def hashOf (password : Auth.Bytes) : Auth.Bytes := (Auth.HashPassword Auth.truncating [] password).getD []

def listDAGs : Request := ⟨"GET", "api/dags".toList, "/api/dags".toList, by decide +kernel⟩

def createDAG : Request := ⟨"POST", "api/dags".toList, "/api/dags".toList, by decide +kernel⟩

/-- An administrator logs in and comes back with the cookie. -/
def visit (r : Request) : List AccessEvent :=
  [.createUser "root" (hashOf [1, 2, 3]) .admin, .login "root" [1, 2, 3], .createSession 0 "cookie" 0, .getSession r "cookie" 5,
    .getUserByID 0]

theorem served_backed_visit : ∃ t, t.served.length = 1 ∧ ∀ e ∈ t.served, Backed plainly t e := by
  obtain ⟨t, hrun, hserved⟩ := play_any (step plainly 10) anyEvent Access.new (visit listDAGs) (fun t => t.served.length = 1)
    (by decide +kernel)
  exact ⟨t, of_decide_eq_true hserved, served_backed hrun⟩

end Cronova.Properties.Access
