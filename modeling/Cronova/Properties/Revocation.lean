import Cronova.Properties.Access

/-! What ends access: a logout, the end of a token or of an account, and a change of the
password, whatever other calls are under way. -/
namespace Cronova.Properties.Revocation
open Cronova.Model Cronova.Concurrency Cronova.Api Cronova.Http Cronova.Relational Cronova.Api.Access Cronova.Properties.Access

section Steps
variable {d : Secrets} {ttl : Int} {s t : Access} {e : AccessEvent}

/-- A request is between its statements because its session was there. -/
theorem step_underway (h : step d ttl s e = some t) {r : Request} {token : String} {userID : ℕ} {now : Time}
    (hc : .getUserByID r token userID now ∈ t.calls) :
    .getUserByID r token userID now ∈ s.calls ∨ ∃ se ∈ s.db.sessions.rows, se.token = token ∧ se.userID = userID := by
  have happend : ∀ c : Pending, .getUserByID r token userID now ≠ c → .getUserByID r token userID now ∈ s.calls ++ [c] →
      .getUserByID r token userID now ∈ s.calls := by
    intro c hne hmem
    rw [List.mem_append, List.mem_singleton] at hmem
    exact hmem.resolve_right hne
  cases step_effect h with
  | createUser | logout | deleteExpiredSessions | createToken | deleteToken => exact .inl hc
  | revoke | deleteUser | createSession | prune | noUser | touch | abandon => exact .inl (mem_finish hc)
  | updatePassword | deleteUserSessions | expired | login =>
    exact .inl (happend _ (by simp) hc)
  | getSession hse htoken hnow =>
    rw [List.mem_append, List.mem_singleton] at hc
    rcases hc with hc | hc
    · exact .inl hc
    · cases hc
      exact .inr ⟨_, hse, rfl, rfl⟩
  | getUserByID hk hu hid =>
    obtain ⟨-, hcalls, -⟩ := admitSession_frame (s.finish _) _ _ _ _
    rw [hcalls] at hc
    exact .inl (mem_finish hc)
  | getAPIToken hmem hhash hnow hcalls =>
    obtain ⟨-, hcalls', -⟩ := admitToken_frame { s with calls := _ } _ _ _
    rw [hcalls'] at hc
    rcases hcalls with rfl | rfl
    · exact .inl hc
    · exact .inl (happend _ (by simp) hc)

/-- A token that is new has a new number. -/
theorem step_tokenIDs (h : step d ttl s e = some t) : s.db.lastTokenID ≤ t.db.lastTokenID ∧
    ∀ tok' ∈ t.db.tokens.rows, (∃ tok ∈ s.db.tokens.rows, tok.id = tok'.id) ∨ s.db.lastTokenID < tok'.id := by
  have hsame : ∀ db : Accounts, db.tokens = s.db.tokens ∧ db.lastTokenID = s.db.lastTokenID → s.db.lastTokenID ≤ db.lastTokenID ∧
      ∀ tok' ∈ db.tokens.rows, (∃ tok ∈ s.db.tokens.rows, tok.id = tok'.id) ∨ s.db.lastTokenID < tok'.id := by
    rintro db ⟨htokens, hlast⟩
    refine ⟨hlast.ge, ?_⟩
    intro tok' htok'
    rw [htokens] at htok'
    exact .inl ⟨tok', htok', rfl⟩
  cases step_effect h with
  | createUser hdb => exact hsame _ (Accounts.CreateUser_spec hdb).2.2.2
  | updatePassword hdb => exact hsame _ (Accounts.updatePasswordHash_spec hdb).2.2.2
  | deleteUser hk hdb => exact hsame _ (Accounts.deleteUserRow_spec hdb).2.2.2.2
  | createSession hk hse hdb => exact hsame _ (Accounts.CreateSession_spec hdb).2.2.2.2
  | getUserByID hk hu hid =>
    obtain ⟨hdb, -⟩ := admitSession_frame (s.finish _) _ _ _ _
    rw [hdb]
    exact hsame _ ⟨rfl, rfl⟩
  | getAPIToken hmem hhash hnow hcalls =>
    obtain ⟨hdb, -⟩ := admitToken_frame { s with calls := _ } _ _ _
    rw [hdb]
    exact hsame _ ⟨rfl, rfl⟩
  | createToken hid hdb =>
    obtain ⟨hrows, hlast, -⟩ := Accounts.CreateAPIToken_spec hdb
    refine ⟨by rw [hlast]; omega, ?_⟩
    intro tok' htok'
    rw [hrows, List.mem_append, List.mem_singleton] at htok'
    rcases htok' with htok' | rfl
    · exact .inl ⟨tok', htok', rfl⟩
    · exact .inr (Nat.lt_succ_self _)
  | touch hk =>
    refine ⟨le_refl _, ?_⟩
    intro tok' htok'
    obtain ⟨tok, htok, rfl⟩ := s.db.mem_touched.1 htok'
    refine .inl ⟨tok, htok, ?_⟩
    split
    · rfl
    · rfl
  | deleteToken =>
    refine ⟨le_refl _, ?_⟩
    intro tok' htok'
    exact .inl ⟨tok', (Table.mem_delete.1 htok').1, rfl⟩
  | revoke | deleteUserSessions | login | getSession | expired | prune | noUser | logout | deleteExpiredSessions | abandon =>
    exact hsame _ ⟨rfl, rfl⟩

end Steps

/-! ### Credentials -/

/-- The store knows the credential no more. -/
def Gone (s : Access) : Credential → Prop
  | .session token _ => ∀ se ∈ s.db.sessions.rows, se.token ≠ token
  | .token id => id ≤ s.db.lastTokenID ∧ ∀ tok ∈ s.db.tokens.rows, tok.id ≠ id

instance (s : Access) : (c : Credential) → Decidable (Gone s c)
  | .session token _ => inferInstanceAs (Decidable (∀ se ∈ s.db.sessions.rows, se.token ≠ token))
  | .token id => inferInstanceAs (Decidable (id ≤ s.db.lastTokenID ∧ ∀ tok ∈ s.db.tokens.rows, tok.id ≠ id))

/-- The digest of a cookie that a login draws. -/
def drawn (d : Secrets) : AccessEvent → Option String
  | .createSession _ token _ => some (d.hashSessionToken token)
  | _ => none

def digest : Credential → Option String
  | .session token _ => some token
  | .token _ => none

/-- No login draws a cookie with the digest of the credential. -/
def Undrawn (d : Secrets) (c : Credential) (_ : Access) (e : AccessEvent) : Prop := digest c = none ∨ drawn d e ≠ digest c

instance (d : Secrets) (c : Credential) (s : Access) (e : AccessEvent) : Decidable (Undrawn d c s e) :=
  inferInstanceAs (Decidable (_ ∨ _))

/-- A request has passed `GetSession` with the credential. -/
def UnderWay (s : Access) (c : Credential) (r : Request) (now : Time) : Prop :=
  ∃ token u, c = .session token u ∧ .getUserByID r token u now ∈ s.calls

section Runs
variable {d : Secrets} {ttl : Int} {s s' t : Access} {e : AccessEvent} {c : Credential}

theorem gone_step (h : step d ttl s e = some t) (hdraw : Undrawn d c s e) (hgone : Gone s c) : Gone t c := by
  cases c with
  | session token u =>
    intro se hse
    rcases step_sessions h se hse with hse | ⟨k, cookie, now, user, password, rfl, -, rfl, -⟩
    · exact hgone se hse
    · rcases hdraw with hnone | hne
      · cases hnone
      · exact fun hsame => hne (congrArg some hsame)
  | token id =>
    obtain ⟨hlast, hold⟩ := step_tokenIDs h
    refine ⟨hgone.1.trans hlast, ?_⟩
    intro tok' htok'
    rcases hold tok' htok' with ⟨tok, htok, hid⟩ | hfresh
    · exact hid ▸ hgone.2 tok htok
    · have := hgone.1
      omega

theorem underWay_step (h : step d ttl s e = some t) (hgone : Gone s c) {r : Request} {now : Time} (hu : UnderWay t c r now) :
    UnderWay s c r now := by
  obtain ⟨token, u, rfl, hcall⟩ := hu
  rcases step_underway h hcall with hcall | ⟨se, hse, htoken, -⟩
  · exact ⟨token, u, rfl, hcall⟩
  · exact absurd htoken (hgone se hse)

theorem served_step (h : step d ttl s e = some t) (hgone : Gone s c) :
    ∃ new, t.served = s.served ++ new ∧ ∀ x ∈ new, x.credential = c → UnderWay s c x.request x.now := by
  obtain ⟨new, hserved, hnew⟩ := step_served h
  refine ⟨new, hserved, ?_⟩
  rintro x hx rfl
  obtain ⟨-, ⟨token, u, -, hcred, -, hcall⟩ | ⟨tok, htok, hcred, -⟩⟩ := hnew x hx
  · exact ⟨token, u.id, hcred, hcall⟩
  · rw [hcred] at hgone
    exact absurd rfl (hgone.2 tok htok)

/-- What has been served since the credential went. -/
def Ended (s : Access) (c : Credential) (t : Access) : Prop :=
  Gone t c ∧ (∀ r now, UnderWay t c r now → UnderWay s c r now) ∧
    ∃ new, t.served = s.served ++ new ∧ ∀ x ∈ new, x.credential = c → UnderWay s c x.request x.now

theorem ended_step {a b : Access} (h : step d ttl a e = some b) (hdraw : Undrawn d c a e) (ha : Ended s c a) : Ended s c b := by
  obtain ⟨hgone, hway, new, hserved, hnew⟩ := ha
  obtain ⟨more, hmore, hmore'⟩ := served_step h hgone
  refine ⟨gone_step h hdraw hgone, fun r now hu => hway r now (underWay_step h hgone hu), new ++ more, ?_, ?_⟩
  · rw [hmore, hserved, List.append_assoc]
  · intro x hx hcred
    rcases List.mem_append.1 hx with hx | hx
    · exact hnew x hx hcred
    · exact hway _ _ (hmore' x hx hcred)

/-- Once the store does not know a credential, no request is let in by it but those that
were past the look at the session by then. -/
theorem gone_run (h : Reaches (step d ttl) (Undrawn d c) s t) (hgone : Gone s c) :
    ∃ new, t.served = s.served ++ new ∧ ∀ x ∈ new, x.credential = c → UnderWay s c x.request x.now := by
  have hstart : Ended s c s := ⟨hgone, fun _ _ hu => hu, [], (List.append_nil _).symm, by simp⟩
  have hend : Ended s c t := h.keeps hstart (fun _ _ _ ha hdraw hstep => ended_step hstep hdraw ha)
  exact hend.2.2

/-- A request that is under way at the logout. -/
def logoutMeanwhile : List AccessEvent :=
  [.createUser "root" (hashOf [1, 2, 3]) .admin, .login "root" [1, 2, 3], .createSession 0 "cookie" 0, .getSession listDAGs "cookie" 5,
    .logout "cookie"]

def cookieOfRoot : Credential := .session "sha256:cookie" 1

theorem gone_run_logout : ∃ s t, Reaches (step plainly 10) (Undrawn plainly cookieOfRoot) s t ∧ Gone s cookieOfRoot ∧ t.served ≠ s.served ∧
    ∃ new, t.served = s.served ++ new ∧ ∀ x ∈ new, x.credential = cookieOfRoot → UnderWay s cookieOfRoot x.request x.now := by
  obtain ⟨s, -, hs⟩ := play_any (step plainly 10) anyEvent Access.new logoutMeanwhile
    (fun s => Gone s cookieOfRoot ∧ s.served.length = 0 ∧
      (play (step plainly 10) (Undrawn plainly cookieOfRoot) s [.getUserByID 0]).any (fun t => t.served.length = 1) = true)
    (by decide +kernel)
  obtain ⟨hgone, hnone, hmore⟩ := of_decide_eq_true hs
  obtain ⟨t, hrun, ht⟩ := play_any _ _ s _ _ hmore
  have hone : t.served.length = 1 := of_decide_eq_true ht
  refine ⟨s, t, hrun, hgone, ?_, gone_run hrun hgone⟩
  intro hsame
  rw [hsame, hnone] at hone
  cases hone

/-! ### Accounts -/

/-- Nobody has the number, and nobody will. -/
def Closed (s : Access) (id : ℕ) : Prop := id ≤ s.db.lastUserID ∧ ∀ u ∈ s.db.users.rows, u.id ≠ id

theorem closed_step {id : ℕ} (h : step d ttl s e = some t) (hclosed : Closed s id) : Closed t id := by
  have hlater := step_later h
  refine ⟨hclosed.1.trans hlater.last, ?_⟩
  intro u' hu'
  rcases hlater.users u' hu' with ⟨u, hu, hid, -⟩ | hfresh
  · rw [hid]
    exact hclosed.2 u hu
  · have := hclosed.1
    omega

/-- What has been served since the account went. -/
def ClosedSince (s : Access) (id : ℕ) (t : Access) : Prop :=
  Closed t id ∧ ∃ new, t.served = s.served ++ new ∧ ∀ x ∈ new, ∀ token, x.credential ≠ .session token id

theorem closedSince_step {id : ℕ} {a b : Access} (h : step d ttl a e = some b) (ha : ClosedSince s id a) : ClosedSince s id b := by
  obtain ⟨hclosed, new, hserved, hnew⟩ := ha
  obtain ⟨more, hmore, hmore'⟩ := step_served h
  refine ⟨closed_step h hclosed, new ++ more, by rw [hmore, hserved, List.append_assoc], ?_⟩
  intro x hx token hcred
  rcases List.mem_append.1 hx with hx | hx
  · exact hnew x hx token hcred
  · obtain ⟨-, ⟨token', u, hu, hcred', -⟩ | ⟨tok, -, hcred', -⟩⟩ := hmore' x hx
    · rw [hcred] at hcred'
      cases hcred'
      exact hclosed.2 u hu rfl
    · rw [hcred] at hcred'
      cases hcred'

theorem closed_deleteUser {id k : ℕ} (hk : s.calls[k]? = some (.deleteUser id)) (hu : ∃ u ∈ s.db.users.rows, u.id = id)
    (h : step d ttl s (.deleteUser k) = some s') : Closed s' id := by
  obtain ⟨u, hmem, hid⟩ := hu
  have hlast := (step_later h).last
  refine ⟨hid ▸ (s.db.numbered u hmem).trans hlast, ?_⟩
  cases step_effect h with
  | deleteUser hk' hdb =>
    rw [hk] at hk'
    cases hk'
    obtain ⟨-, husers, -⟩ := Accounts.deleteUserRow_spec hdb
    intro u' hu'
    rw [husers, Table.mem_delete] at hu'
    exact of_decide_eq_false hu'.2

/-- No request is let in for an account that has been deleted, not even one that was past
the look at its session; and no session of it is opened again. -/
theorem deleted_run {id k : ℕ} (hk : s.calls[k]? = some (.deleteUser id)) (hu : ∃ u ∈ s.db.users.rows, u.id = id)
    (hdelete : step d ttl s (.deleteUser k) = some s') (h : Reaches (step d ttl) anyEvent s' t) :
    (∀ se ∈ t.db.sessions.rows, se.userID ≠ id) ∧
      ∃ new, t.served = s'.served ++ new ∧ ∀ x ∈ new, ∀ token, x.credential ≠ .session token id := by
  have hstart : ClosedSince s' id s' := ⟨closed_deleteUser hk hu hdelete, [], (List.append_nil _).symm, by simp⟩
  have hend : ClosedSince s' id t := h.keeps hstart (fun _ _ _ ha _ hstep => closedSince_step hstep ha)
  refine ⟨?_, hend.2⟩
  intro se hse hid
  obtain ⟨u, hu', howner⟩ := t.db.owned se hse
  exact hend.1.2 u hu' (howner.trans hid)

theorem deleted_run_root : ∃ s s' t k, s.calls[k]? = some (.deleteUser 1) ∧ step plainly 10 s (.deleteUser k) = some s' ∧
    Reaches (step plainly 10) anyEvent s' t ∧ (∀ se ∈ t.db.sessions.rows, se.userID ≠ 1) ∧
      ∃ new, t.served = s'.served ++ new ∧ ∀ x ∈ new, ∀ token, x.credential ≠ .session token 1 := by
  obtain ⟨s, -, hs⟩ := play_any (step plainly 10) anyEvent Access.new (visit listDAGs ++ [.deleteUserSessions 1])
    (fun s => s.calls[0]? = some (.deleteUser 1) ∧ (∃ u ∈ s.db.users.rows, u.id = 1) ∧
      (step plainly 10 s (.deleteUser 0)).isSome = true) (by decide +kernel)
  obtain ⟨hk, hu, hsome⟩ := of_decide_eq_true hs
  obtain ⟨s', hdelete⟩ := Option.isSome_iff_exists.1 hsome
  exact ⟨s, s', s', 0, hk, hdelete, .start _, deleted_run hk hu hdelete (.start _)⟩

/-! ### Passwords -/

/-- No password is changed between the two statements of a login of its user, and no
revocation fails behind the new hash. -/
def Calm (s : Access) (e : AccessEvent) : Prop :=
  (∀ id passwordHash, e = .updatePassword id passwordHash → ∀ user password, .createSession user password ∈ s.calls → user.id ≠ id) ∧
    ∀ k, e = .abandon k → ∀ id, s.calls[k]? ≠ some (.revoke id)

/-- A session of somebody who gave what is the password today. -/
def Current (d : Secrets) (s : Access) (se : Session) : Prop :=
  ∃ l ∈ s.logins, l.session = se ∧
    ∃ u ∈ s.db.users.rows, u.id = se.userID ∧ Auth.CheckPassword d.kdf u.passwordHash l.password = true

/-- The logins under way have read the hash that is stored, and a session is current or
about to be revoked. -/
structure Fresh (d : Secrets) (s : Access) : Prop extends Inv d s where
  read : ∀ user password, .createSession user password ∈ s.calls → ∀ u ∈ s.db.users.rows, u.id = user.id → u.passwordHash = user.passwordHash
  current : ∀ se ∈ s.db.sessions.rows, .revoke se.userID ∈ s.calls ∨ Current d s se

/-- A login that is new at its session has just read the row. -/
theorem step_login (h : step d ttl s e = some t) {user : User} {password : Auth.Bytes}
    (hc : .createSession user password ∈ t.calls) :
    .createSession user password ∈ s.calls ∨ user ∈ s.db.users.rows ∧ t.db = s.db := by
  have happend : ∀ c : Pending, .createSession user password ≠ c → .createSession user password ∈ s.calls ++ [c] →
      .createSession user password ∈ s.calls := by
    intro c hne hmem
    rw [List.mem_append, List.mem_singleton] at hmem
    exact hmem.resolve_right hne
  cases step_effect h with
  | createUser | logout | deleteExpiredSessions | createToken | deleteToken => exact .inl hc
  | revoke | deleteUser | createSession | prune | noUser | touch | abandon => exact .inl (mem_finish hc)
  | updatePassword | deleteUserSessions | expired | getSession => exact .inl (happend _ (by simp) hc)
  | login hu hcheck =>
    rw [List.mem_append, List.mem_singleton] at hc
    rcases hc with hc | hc
    · exact .inl hc
    · cases hc
      exact .inr ⟨(Accounts.GetUserByUsername_spec hu).1, rfl⟩
  | getUserByID hk hu hid =>
    obtain ⟨-, hcalls, -⟩ := admitSession_frame (s.finish _) _ _ _ _
    rw [hcalls] at hc
    exact .inl (mem_finish hc)
  | getAPIToken hmem hhash hnow hcalls =>
    obtain ⟨-, hcalls', -⟩ := admitToken_frame { s with calls := _ } _ _ _
    rw [hcalls'] at hc
    rcases hcalls with rfl | rfl
    · exact .inl hc
    · exact .inl (happend _ (by simp) hc)

theorem mem_finish_or {c : Pending} (hc : c ∈ s.calls) (k : ℕ) : c ∈ (s.finish k).calls ∨ s.calls[k]? = some c := by
  obtain ⟨i, hi⟩ := List.mem_iff_getElem?.1 hc
  by_cases hik : i = k
  · exact .inr (hik ▸ hi)
  · exact .inl (List.mem_eraseIdx_iff_getElem?.2 ⟨i, hik, hi⟩)

/-- A revocation stays due until it is made, or fails. -/
theorem step_revoke (h : step d ttl s e = some t) {id : ℕ} (hc : .revoke id ∈ s.calls) :
    .revoke id ∈ t.calls ∨ ∃ k, s.calls[k]? = some (.revoke id) ∧
      (e = .abandon k ∨ e = .revoke k ∧ t.db.sessions = (s.db.deleteSessionsOf id).sessions) := by
  have hother : ∀ {k : ℕ} {c : Pending}, s.calls[k]? = some c → c ≠ .revoke id → .revoke id ∈ (s.finish k).calls := by
    intro k c hk hne
    refine (mem_finish_or hc k).resolve_right ?_
    intro hk'
    rw [hk] at hk'
    exact hne (Option.some.inj hk')
  cases step_effect h with
  | createUser | logout | deleteExpiredSessions | createToken | deleteToken => exact .inl hc
  | updatePassword | deleteUserSessions | expired | getSession | login => exact .inl (List.mem_append_left _ hc)
  | deleteUser hk => exact .inl (hother hk (by simp))
  | createSession hk => exact .inl (hother hk (by simp))
  | prune hk => exact .inl (hother hk (by simp))
  | touch hk => exact .inl (hother hk (by simp))
  | noUser hk => exact .inl (hother hk (by simp))
  | @revoke k userID hk =>
    by_cases hid : userID = id
    · subst hid
      exact .inr ⟨k, hk, .inr ⟨rfl, rfl⟩⟩
    · exact .inl (hother hk (by simpa using hid))
  | @abandon k =>
    rcases mem_finish_or hc k with hstays | hk
    · exact .inl hstays
    · exact .inr ⟨k, hk, .inl rfl⟩
  | getUserByID hk hu hid =>
    obtain ⟨-, hcalls, -⟩ := admitSession_frame (s.finish _) _ _ _ _
    rw [hcalls]
    exact .inl (hother hk (by simp))
  | getAPIToken hmem hhash hnow hcalls =>
    obtain ⟨-, hcalls', -⟩ := admitToken_frame { s with calls := _ } _ _ _
    rw [hcalls']
    rcases hcalls with rfl | rfl
    · exact .inl hc
    · exact .inl (List.mem_append_left _ hc)

/-- A row is as it was, or its password has just been changed, or it is new. -/
theorem step_users (h : step d ttl s e = some t) : ∀ u' ∈ t.db.users.rows, u' ∈ s.db.users.rows ∨
    (∃ passwordHash, e = .updatePassword u'.id passwordHash ∧ .revoke u'.id ∈ t.calls) ∨ s.db.lastUserID < u'.id := by
  cases step_effect h with
  | createUser hdb =>
    obtain ⟨hrows, -⟩ := Accounts.CreateUser_spec hdb
    intro u' hu'
    rw [hrows, List.mem_append, List.mem_singleton] at hu'
    rcases hu' with hu' | rfl
    · exact .inl hu'
    · exact .inr (.inr (Nat.lt_succ_self _))
  | @updatePassword id passwordHash db hdb =>
    obtain ⟨husers, -⟩ := Accounts.updatePasswordHash_spec hdb
    intro u' hu'
    rw [husers, Accounts.mem_setPassword] at hu'
    obtain ⟨u, hu, rfl⟩ := hu'
    by_cases hid : u.id = id
    · rw [if_pos hid]
      refine .inr (.inl ⟨passwordHash, ?_, List.mem_append_right _ ?_⟩)
      · rw [← hid]
      · rw [List.mem_singleton, ← hid]
    · rw [if_neg hid]
      exact .inl hu
  | deleteUser hk hdb =>
    obtain ⟨-, husers, -⟩ := Accounts.deleteUserRow_spec hdb
    intro u' hu'
    rw [husers, Table.mem_delete] at hu'
    exact .inl hu'.1
  | createSession hk hse hdb =>
    obtain ⟨-, -, husers, -⟩ := Accounts.CreateSession_spec hdb
    intro u' hu'
    rw [husers] at hu'
    exact .inl hu'
  | createToken hid hdb =>
    obtain ⟨-, -, husers, -⟩ := Accounts.CreateAPIToken_spec hdb
    intro u' hu'
    rw [husers] at hu'
    exact .inl hu'
  | getUserByID hk hu hid =>
    obtain ⟨hdb, -⟩ := admitSession_frame (s.finish _) _ _ _ _
    intro u' hu'
    rw [hdb] at hu'
    exact .inl hu'
  | getAPIToken hmem hhash hnow hcalls =>
    obtain ⟨hdb, -⟩ := admitToken_frame { s with calls := _ } _ _ _
    intro u' hu'
    rw [hdb] at hu'
    exact .inl hu'
  | revoke | deleteUserSessions | login | getSession | expired | prune | noUser | touch | logout | deleteExpiredSessions
  | deleteToken | abandon =>
    intro u' hu'
    exact .inl hu'

theorem fresh_logins (h : step d ttl s e = some t) (hs : Fresh d s) (hcalm : Calm s e) :
    ∀ user password, .createSession user password ∈ t.calls →
      ∀ u ∈ t.db.users.rows, u.id = user.id → u.passwordHash = user.passwordHash := by
  intro user password hc u' hu' hid
  rcases step_login h hc with hold | ⟨hmem, hdb⟩
  · obtain ⟨-, hlast, -⟩ := hs.calls _ hold
    rcases step_users h u' hu' with hu | ⟨passwordHash, he, -⟩ | hfresh
    · exact hs.read user password hold u' hu hid
    · exact absurd hid.symm (hcalm.1 _ _ he user password hold)
    · omega
  · rw [hdb] at hu'
    rw [Accounts.user_eq hu' hmem hid]

theorem fresh_sessions (h : step d ttl s e = some t) (hs : Fresh d s) (hcalm : Calm s e) :
    ∀ se ∈ t.db.sessions.rows, .revoke se.userID ∈ t.calls ∨ Current d t se := by
  intro se hse
  rcases step_sessions h se hse with hold | ⟨k, token, now, user, password, -, hk, rfl, hlogins, husers, u, hu, hid⟩
  · rcases hs.current se hold with hdue | ⟨l, hl, hsession, u, hu, hid, hcheck⟩
    · rcases step_revoke h hdue with hdue' | ⟨k, hk, rfl | ⟨-, hsessions⟩⟩
      · exact .inl hdue'
      · exact absurd hk (hcalm.2 k rfl se.userID)
      · rw [hsessions] at hse
        have := (Table.mem_delete.1 hse).2
        simp at this
    · obtain ⟨u', hu', howner⟩ := t.db.owned se hse
      rcases step_users h u' hu' with hsame | ⟨passwordHash, -, hdue⟩ | hfresh
      · refine .inr ⟨l, (step_later h).logins l hl, hsession, u', hu', howner, ?_⟩
        rw [Accounts.user_eq hsame hu (howner.trans hid.symm)]
        exact hcheck
      · exact .inl (howner ▸ hdue)
      · have := s.db.numbered u hu
        omega
  · obtain ⟨hcheck, -⟩ := hs.calls _ (List.mem_of_getElem? hk)
    refine .inr ⟨_, hlogins ▸ List.mem_append_right _ (List.mem_singleton_self _), rfl, u, husers ▸ hu, hid, ?_⟩
    rw [hs.read user password (List.mem_of_getElem? hk) u hu hid]
    exact hcheck

theorem fresh_step (h : step d ttl s e = some t) (hs : Fresh d s) (hcalm : Calm s e) : Fresh d t where
  toInv := inv_step hs.toInv h
  read := fresh_logins h hs hcalm
  current := fresh_sessions h hs hcalm

/-- Where no password is changed across a login of its user and no revocation fails, every
session that is not about to be revoked is one of somebody who gave the password of today. -/
theorem calm_run (h : Reaches (step d ttl) Calm Access.new t) :
    ∀ se ∈ t.db.sessions.rows, .revoke se.userID ∈ t.calls ∨ Current d t se := by
  have hstart : Fresh d Access.new := ⟨inv_new d, by simp [Access.new], by simp [Access.new, Accounts.empty]⟩
  have hend : Fresh d t := h.keeps hstart (fun _ _ _ ha hcalm hstep => fresh_step hstep ha hcalm)
  exact hend.current

theorem step_revoke_last (d : Secrets) (ttl : Int) {id : ℕ} {calls : List Pending} (hcalls : s.calls = calls ++ [.revoke id]) :
    step d ttl s (.revoke calls.length) = some { s with db := s.db.deleteSessionsOf id, calls := calls } := by
  have hk : s.calls[calls.length]? = some (.revoke id) := by rw [hcalls, List.getElem?_concat_length]
  have hleft : s.calls.eraseIdx calls.length = calls := by
    rw [hcalls, List.eraseIdx_append_of_length_le (le_refl _), Nat.sub_self, List.eraseIdx_zero, List.tail_cons, List.append_nil]
  simp only [step, hk, finish, hleft]

/-- The session that a login opens. -/
def opened (d : Secrets) (ttl : Int) (user : User) (token : String) (now : Time) : Session :=
  { token := d.hashSessionToken token, userID := user.id, expiresAt := now + sessionTTL ttl }

theorem step_createSession {k : ℕ} {user : User} {password : Auth.Bytes} {token : String} {now : Time} {db : Accounts}
    (hk : s.calls[k]? = some (.createSession user password)) (hdb : s.db.CreateSession (opened d ttl user token now) = some db) :
    step d ttl s (.createSession k token now) = some { s.finish k with
      db := db, logins := s.logins ++ [{ user := user, password := password, session := opened d ttl user token now }] } := by
  rw [opened] at hdb
  simp only [step, hk, hdb, Option.map_some, opened]

/-- A login that is between its two statements when the password is changed opens its
session behind the revocation, by the old password. -/
theorem straddling_login {k : ℕ} {user : User} {password : Auth.Bytes} (hk : s.calls[k]? = some (.createSession user password))
    (hu : ∃ u ∈ s.db.users.rows, u.id = user.id) (passwordHash : Auth.Bytes) {token : String}
    (hfree : ∀ se ∈ s.db.sessions.rows, se.token ≠ d.hashSessionToken token) (now : Time) :
    ∃ t, Reaches (step d ttl) anyEvent s t ∧ t.calls = s.calls.eraseIdx k ∧ (∀ u ∈ t.db.users.rows, u.id = user.id → u.passwordHash = passwordHash) ∧
      ∃ l ∈ t.logins, l.user = user ∧ l.password = password ∧ l.session ∈ t.db.sessions.rows := by
  obtain ⟨db, hdb⟩ := Accounts.updatePasswordHash_isSome passwordHash hu
  obtain ⟨husers, -, hsessions, -⟩ := Accounts.updatePasswordHash_spec hdb
  have hupdate : step d ttl s (.updatePassword user.id passwordHash) =
      some { s with db := db, calls := s.calls ++ [.revoke user.id] } := by
    rw [step, hdb, Option.map_some]
  have hrevoke := step_revoke_last d ttl (s := { s with db := db, calls := s.calls ++ [.revoke user.id] }) rfl
  have howner : ∃ u ∈ (db.deleteSessionsOf user.id).users.rows, u.id = user.id := by
    obtain ⟨u, hmem, hid⟩ := hu
    have hmem' : u ∈ s.db.users.rows := hmem
    refine ⟨{ u with passwordHash := passwordHash }, ?_, hid⟩
    change _ ∈ db.users.rows
    rw [husers, Accounts.mem_setPassword]
    exact ⟨u, hmem', if_pos hid⟩
  have hfree' : ∀ se ∈ (db.deleteSessionsOf user.id).sessions.rows, se.token ≠ d.hashSessionToken token := by
    intro se hse
    exact hfree se (hsessions ▸ (Table.mem_delete.1 hse).1)
  obtain ⟨db', hdb'⟩ : ∃ db', (db.deleteSessionsOf user.id).CreateSession (opened d ttl user token now) = some db' :=
    Accounts.CreateSession_isSome howner hfree'
  obtain ⟨-, hrows, husers', -⟩ := Accounts.CreateSession_spec hdb'
  have hk' : ({ s with db := db.deleteSessionsOf user.id, calls := s.calls } : Access).calls[k]? = some (.createSession user password) := hk
  have hcreate := step_createSession hk' hdb'
  refine ⟨_, ((Reaches.start s).next trivial hupdate).next trivial hrevoke |>.next trivial hcreate, rfl, ?_, ?_⟩
  · intro u hmem hid
    have hmem' : u ∈ db.users.rows := husers' ▸ hmem
    rw [husers, Accounts.mem_setPassword] at hmem'
    obtain ⟨v, hv, rfl⟩ := hmem'
    have hvid : v.id = user.id := by
      revert hid
      split
      · exact fun hid => hid
      · exact fun hid => hid
    rw [if_pos hvid]
  · refine ⟨_, List.mem_append_right _ (List.mem_singleton_self _), rfl, rfl, ?_⟩
    change _ ∈ db'.sessions.rows
    rw [hrows]
    exact List.mem_append_right _ (List.mem_singleton_self _)

end Runs
end Cronova.Properties.Revocation
