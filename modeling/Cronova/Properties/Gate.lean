import Cronova.Properties.Access
import Cronova.Properties.OperatorRole

/-! What a request reaches without a credential, and what with one that is not an
administrator's. The check reads the decoded path, the mux the segments. -/
namespace Cronova.Properties.Gate
open Cronova.Model Cronova.Concurrency Cronova.Api Cronova.Http Cronova.Api.Access
open Cronova.Properties.OperatorRole Cronova.Properties.Access

/-- The handlers that ask for a credential of their own, or show nothing of the DAGs. -/
def openHandlers : List Handler :=
  [.login, .joinWorker, .hookTrigger, .healthz, .readyz, .metrics, .openAPISpec, .docsPage, .docFile]

private def apiLit : Seg := .lit "api".toList

/-- What the table has at the public paths, in one pass. -/
private theorem routes_public : ∀ route ∈ routes,
    (route.pattern.head? ≠ some apiLit → route.handler ∈ openHandlers) ∧
    (route.pattern.take 2 = [apiLit, .lit "login".toList] → route.handler ∈ openHandlers) ∧
    (route.pattern.take 2 = [apiLit, .lit "hooks".toList] → route.handler ∈ openHandlers) ∧
    (route.pattern = [apiLit, .lit "workers".toList, .lit "join".toList] → route.handler ∈ openHandlers) ∧
    (route.pattern = [apiLit, .lit "workers".toList, .wild] → route.method = "DELETE" ∧ route.handler = .removeWorker) ∧
    (route.pattern.take 2 = [apiLit, .lit "workers".toList] → .rest ∉ route.pattern) := by
  decide +kernel

/-- A path of two segments below `/api/` without further slashes. -/
private theorem segs_of_path {b : Bytes} {tail : List Bytes} {x : Bytes} (hx : '/' ∉ x) (h : b ++ joined tail = x) : b = x ∧ tail = [] := by
  cases tail with
  | nil =>
    rw [joined_nil, List.append_nil] at h
    exact ⟨h, rfl⟩
  | cons s tail =>
    have hslash : '/' ∈ x := h ▸ by simp
    exact absurd hslash hx

/-- A path that is not below `/api/` fits a pattern that is not either. -/
private theorem not_api {p : Pattern} {segs values : List Bytes} (hfits : Fits p segs values) (hrooted : rooted p = true)
    (hpath : ¬ "/api/".toList <+: joined segs) : p.head? ≠ some apiLit := by
  intro hhead
  cases hfits with
  | nil => cases hhead
  | wild => cases hhead
  | rest => cases hhead
  | @lit a q segs _ hfits =>
    cases hhead
    cases hfits with
    | nil => cases hrooted
    | wild => cases hrooted
    | rest => cases hrooted
    | @lit b q segs _ hfits =>
      apply hpath
      exact ⟨b ++ joined segs, by simp⟩

private theorem exact_api {p : Pattern} {segs values : List Bytes} (hfits : Fits p segs values) (hrooted : rooted p = true)
    (hslash : ∀ s ∈ p, slashless s = true) {rest : Bytes} (hpath : joined segs = '/' :: ("api".toList ++ '/' :: rest)) :
    ∃ b q tail, p = apiLit :: .lit b :: q ∧ segs = "api".toList :: b :: tail ∧ '/' ∉ b ∧ Fits q tail values ∧ b ++ joined tail = rest := by
  have hpre : '/' :: ("api".toList ++ '/' :: rest) <+: joined segs := by rw [hpath]
  obtain ⟨b, q, tail, rfl, rfl, hb, hbelow, -⟩ := under_api hfits hrooted hslash hpre
  refine ⟨b, q, tail, rfl, rfl, hb, hbelow, ?_⟩
  rw [joined_cons, joined_cons] at hpath
  simpa using hpath

/-- However its path is escaped, a request without a credential reaches the handlers that
are meant to be open, or the removal of a worker called `join`. -/
theorem public_dispatch {r : Request} {h : Handler} {values : List Bytes} (hpublic : isPublic r.path = true)
    (hdispatch : r.dispatch = some (h, values)) :
    h ∈ openHandlers ∨ r.method = "DELETE" ∧ h = .removeWorker ∧ values = ["join".toList] := by
  obtain ⟨-, method, p, hmem, hfits, hsame⟩ := dispatch_fits hdispatch
  obtain ⟨hrooted, hslash⟩ := routes_rooted _ hmem
  obtain ⟨houtside, hlogin, hhooks, hjoin, hremove, hrest⟩ := routes_public _ hmem
  rw [r.path_eq] at hpublic
  simp only [isPublic, Bool.or_eq_true, decide_eq_true_eq, Bool.not_eq_true', List.isPrefixOf_iff_prefix] at hpublic
  rcases hpublic with ((((hpath | hpath) | hpath) | hpath) | hpre) | hnot
  · obtain ⟨b, q, tail, rfl, -, -, -, hb⟩ := exact_api hfits hrooted hslash hpath
    obtain ⟨rfl, rfl⟩ := segs_of_path (by decide) hb
    exact .inl (hlogin rfl)
  · refine .inl (houtside (not_api hfits hrooted ?_))
    rw [hpath]
    decide
  · refine .inl (houtside (not_api hfits hrooted ?_))
    rw [hpath]
    decide
  · obtain ⟨b, q, tail, rfl, -, hfree, hbelow, hb⟩ := exact_api hfits hrooted hslash hpath
    have hpre : "workers".toList ++ '/' :: "join".toList <+: b ++ joined tail := ⟨[], by rw [hb]; rfl⟩
    obtain ⟨rfl, -⟩ := append_slash_prefix (by decide) hfree hpre
    have htail : joined tail = '/' :: "join".toList := List.append_cancel_left hb
    cases tail with
    | nil => cases htail
    | cons s more =>
      obtain ⟨rfl, rfl⟩ := segs_of_path (by decide) (List.cons.inj htail).2
      cases hbelow with
      | lit hend =>
        cases hend
        exact .inl (hjoin rfl)
      | wild _ hend =>
        cases hend
        obtain ⟨hdelete, rfl⟩ := hremove rfl
        rcases hsame with hsame | ⟨-, hget⟩
        · exact .inr ⟨hsame.trans hdelete, rfl, rfl⟩
        · exact absurd (hdelete.symm.trans hget) (by decide)
      | rest => exact absurd List.mem_cons_self (fun hmem => hrest rfl (List.mem_cons_of_mem _ (List.mem_cons_of_mem _ hmem)))
  · obtain ⟨q, tail, rfl, -⟩ := under_directory hfits hrooted hslash (show '/' ∉ "hooks".toList by decide) hpre
    exact .inl (hhooks rfl)
  · refine .inl (houtside (not_api hfits hrooted ?_))
    intro hpre
    rw [List.isPrefixOf_iff_prefix.2 hpre] at hnot
    cases hnot

/-- The removal of a worker called `join`, without a credential. -/
def removeJoin : Request := ⟨"DELETE", "api/workers/jo%69n".toList, "/api/workers/join".toList, by decide +kernel⟩

theorem public_dispatch_removeJoin : removeJoin.dispatch = some (.removeWorker, ["join".toList]) ∧
    (.removeWorker ∈ openHandlers ∨ removeJoin.method = "DELETE" ∧ Handler.removeWorker = .removeWorker ∧ ["join".toList] = ["join".toList]) := by
  have hdispatch : removeJoin.dispatch = some (.removeWorker, ["join".toList]) := by decide +kernel
  exact ⟨hdispatch, public_dispatch (by decide +kernel) hdispatch⟩

/-! ### Who changes what -/

/-- A request that changes something other than runs, and is not the one to log out. -/
def Administers (r : Request) : Prop :=
  ∃ h values, r.dispatch = some (h, values) ∧ drivesRuns h = false ∧ r.method ≠ "GET" ∧ r.path ≠ "/api/logout".toList ∧ ¬ Shadowed r

/-- What an authorized request administers, an administrator asks for, and not outside the
DAG that the token is made for. -/
theorem administers_admin {r : Request} {user : Principal} (hauthorized : r.authorized user = true) (hpublic : isPublic r.path = false)
    (hadministers : Administers r) :
    user.role = .admin ∧ (user.tokenDagScope = [] ∨ writeTargetsDag r.path user.tokenDagScope = true) := by
  obtain ⟨h, values, hdispatch, hdrives, hmethod, hlogout, hplain⟩ := hadministers
  simp only [Request.authorized, hpublic, Bool.false_or, Bool.or_eq_true, Bool.and_eq_true, decide_eq_true_eq] at hauthorized
  rcases hauthorized with (hget | hout) | ⟨hadmin | ⟨-, hwrite⟩, hscope⟩
  · exact absurd hget hmethod
  · exact absurd hout hlogout
  · exact ⟨hadmin, hscope⟩
  · rcases operatorWrite_cases hmethod hdispatch hwrite with hdrives' | hshadowed
    · rw [hdrives] at hdrives'
      cases hdrives'
    · exact absurd hshadowed hplain

/-- A login with the password of an administrator's account, or a token that was made for an
administrator, and for the DAG in question if for any. -/
def ByAdmin (d : Secrets) (t : Access) (e : Served) : Prop :=
  (∃ l ∈ t.logins, e.credential = .session l.session.token l.user.id ∧ l.user.role = .admin ∧
      Auth.CheckPassword d.kdf l.user.passwordHash l.password = true ∧ e.now < l.session.expiresAt) ∨
    ∃ m ∈ t.minted, e.credential = .token m.id ∧ m.role = .admin ∧ (∀ x, m.expiresAt = some x → e.now ≤ x) ∧
      (m.dagID = [] ∨ writeTargetsDag e.request.path m.dagID = true)

section Runs
variable {d : Secrets} {ttl : Int} {t : Access}

end Runs

theorem createDAG_administers : Administers createDAG := by
  refine ⟨.createDAG, [], by decide +kernel, rfl, by decide, by decide, ?_⟩
  rintro ⟨-, hmethod, -⟩
  revert hmethod
  decide

end Cronova.Properties.Gate
