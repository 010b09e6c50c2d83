import Cronova.Api.Routes
import Cronova.Parser.Accepted

/-! The operator's writes. The check reads the decoded path and ignores the method,
the mux matches methods and segments: they disagree on a DAG whose id ends like a
run-driving path. -/
namespace Cronova.Properties.OperatorRole
open Cronova.Model Cronova.Parser Cronova.Http Cronova.Api

/-- The handlers that drive runs: trigger, backfill, pause, published events, and
what is under `/api/runs/`. -/
def drivesRuns : Handler → Bool
  | .triggerDAG | .backfillDAG | .pauseDAG | .publishEvent | .getRun | .runTimeline | .holdRun | .releaseRun | .cancelRun
  | .retryRun | .retryTask | .markTask | .markRun => true
  | _ => false

/-- How the check recognizes an operation on a DAG. -/
def keywords : List Bytes := ["trigger".toList, "backfill".toList, "pause".toList]

/-- The path of an id ends like an operation. -/
def Lookalike (id : Bytes) : Prop := ∃ k ∈ keywords, id = k ∨ '/' :: k <:+ id

/-- A request for a DAG itself, not an operation on it, whose id the check takes
for an operation. -/
def Shadowed (r : Request) : Prop :=
  r.clean = true ∧ (r.method = "DELETE" ∨ r.method = "HEAD") ∧ ∃ id, r.segs = ["api".toList, "dags".toList, id] ∧ Lookalike id

/-! ### The route table -/

def slashless : Seg → Bool
  | .lit text => text.all (· ≠ '/')
  | _ => true

private def runsPath : Pattern := [.lit "api".toList, .lit "runs".toList]
private def eventsPath : Pattern := [.lit "api".toList, .lit "events".toList]
private def dagsPath : Pattern := [.lit "api".toList, .lit "dags".toList]

/-- Every pattern starts with a literal, and below `api` with two. -/
def rooted : Pattern → Bool
  | .lit a :: rest => a ≠ "api".toList || match rest with
    | .lit _ :: _ => true
    | _ => false
  | _ => false

/-- What every route satisfies, checked in one pass over the table. -/
private theorem routes_facts : ∀ route ∈ routes,
    (rooted route.pattern = true ∧ ∀ s ∈ route.pattern, slashless s = true) ∧
    (route.pattern.take 2 = runsPath → drivesRuns route.handler = true) ∧
    (route.pattern = eventsPath → drivesRuns route.handler = true) ∧
    (route.pattern.take 2 = dagsPath →
      .rest ∉ route.pattern ∧
      (∀ k ∈ keywords, route.pattern.getLast? = some (.lit k) → drivesRuns route.handler = true) ∧
      (route.pattern.getLast? = some .wild →
        route.pattern = dagsPath ++ [.wild] ∧ (route.method = "GET" ∨ route.method = "DELETE"))) := by
  decide +kernel

theorem routes_rooted : ∀ route ∈ routes, rooted route.pattern = true ∧ ∀ s ∈ route.pattern, slashless s = true :=
  fun route hroute => (routes_facts route hroute).1

private theorem routes_runs : ∀ route ∈ routes, route.pattern.take 2 = runsPath → drivesRuns route.handler = true :=
  fun route hroute => (routes_facts route hroute).2.1

private theorem routes_events : ∀ route ∈ routes, route.pattern = eventsPath → drivesRuns route.handler = true :=
  fun route hroute => (routes_facts route hroute).2.2.1

private theorem routes_dags : ∀ route ∈ routes, route.pattern.take 2 = dagsPath →
    .rest ∉ route.pattern ∧
    (∀ k ∈ keywords, route.pattern.getLast? = some (.lit k) → drivesRuns route.handler = true) ∧
    (route.pattern.getLast? = some .wild → route.pattern = dagsPath ++ [.wild] ∧ (route.method = "GET" ∨ route.method = "DELETE")) :=
  fun route hroute => (routes_facts route hroute).2.2.2

private theorem mem_patternsOf {method : String} {p : Pattern} {h : Handler} (hmem : (p, h) ∈ patternsOf method) :
    ⟨method, p, h⟩ ∈ routes := by
  obtain ⟨route, hroute, heq⟩ := List.mem_map.mp hmem
  obtain ⟨hroute, hmethod⟩ := List.mem_filter.mp hroute
  cases heq
  rw [decide_eq_true_eq] at hmethod
  exact hmethod ▸ hroute

/-- A dispatched request fits a pattern of its method, or of GET. -/
theorem dispatch_fits {r : Request} {h : Handler} {values : List Bytes} (hdispatch : r.dispatch = some (h, values)) :
    r.clean = true ∧ ∃ method p, ⟨method, p, h⟩ ∈ routes ∧ Fits p r.segs values ∧
      (r.method = method ∨ (r.method = "HEAD" ∧ method = "GET")) := by
  unfold Request.dispatch at hdispatch
  split at hdispatch
  · rename_i hclean
    refine ⟨hclean, ?_⟩
    rcases Option.or_eq_some_iff.mp hdispatch with hown | ⟨_, hget⟩
    · obtain ⟨p, hmem, hfits⟩ := matchPath_fits hown
      exact ⟨_, p, mem_patternsOf hmem, hfits, .inl rfl⟩
    · split at hget
      · rename_i hhead
        obtain ⟨p, hmem, hfits⟩ := matchPath_fits hget
        exact ⟨_, p, mem_patternsOf hmem, hfits, .inr ⟨hhead, rfl⟩⟩
      · cases hget
  · cases hdispatch

/-! ### The check -/

section Check
variable {p : Pattern} {segs values : List Bytes}

/-- The last segment of a path fits the last segment of its pattern. -/
private theorem fits_last {x : Bytes} (h : Fits p segs values) (hlast : segs.getLast? = some x) (hrest : .rest ∉ p) :
    p.getLast? = some (.lit x) ∨ p.getLast? = some .wild := by
  induction h with
  | nil => cases hlast
  | @lit s p segs values hfits ih =>
    cases hfits with
    | nil =>
      cases hlast
      exact .inl rfl
    | _ =>
      rw [List.getLast?_cons_cons] at hlast ⊢
      exact ih hlast (fun hmem => hrest (List.mem_cons_of_mem _ hmem))
  | @wild s p segs values _ hfits ih =>
    cases hfits with
    | nil => exact .inr rfl
    | _ =>
      rw [List.getLast?_cons_cons] at hlast ⊢
      exact ih hlast (fun hmem => hrest (List.mem_cons_of_mem _ hmem))
  | rest => simp at hrest

/-- A path under `/api/` fits a pattern of which the second segment is literal too. -/
theorem under_api (hfits : Fits p segs values) (hrooted : rooted p = true) (hslash : ∀ s ∈ p, slashless s = true)
    {rest : Bytes} (hpre : '/' :: ("api".toList ++ '/' :: rest) <+: joined segs) :
    ∃ b q tail, p = .lit "api".toList :: .lit b :: q ∧ segs = "api".toList :: b :: tail ∧ '/' ∉ b ∧ Fits q tail values ∧
      rest <+: b ++ joined tail := by
  have hfree : ∀ t, .lit t ∈ p → '/' ∉ t := by
    intro t hmem
    have hall := hslash _ hmem
    simp only [slashless, List.all_eq_true, decide_eq_true_eq] at hall
    exact fun h => hall _ h rfl
  cases hfits with
  | nil => simp at hpre
  | wild => cases hrooted
  | rest => cases hrooted
  | @lit a q segs _ hfits =>
    rw [joined_cons, List.cons_prefix_cons] at hpre
    obtain ⟨rfl, hbelow⟩ := append_slash_prefix (by decide) (hfree _ List.mem_cons_self) hpre.2
    cases hfits with
    | nil => cases hrooted
    | wild => cases hrooted
    | rest => cases hrooted
    | @lit b q segs _ hfits =>
      rw [joined_cons, List.cons_prefix_cons] at hbelow
      exact ⟨b, q, segs, rfl, rfl, hfree _ (by simp), hfits, hbelow.2⟩

/-- A path that starts with a directory fits a pattern below it. -/
theorem under_directory (hfits : Fits p segs values) (hrooted : rooted p = true) (hslash : ∀ s ∈ p, slashless s = true)
    {dir : Bytes} (hdir : '/' ∉ dir) (hpre : '/' :: ("api".toList ++ '/' :: (dir ++ ['/'])) <+: joined segs) :
    ∃ q tail, p = .lit "api".toList :: .lit dir :: q ∧ segs = "api".toList :: dir :: tail ∧ tail ≠ [] ∧ Fits q tail values := by
  obtain ⟨b, q, tail, rfl, rfl, hb, hbelow, hrest⟩ := under_api hfits hrooted hslash hpre
  obtain ⟨rfl, htail⟩ := append_slash_prefix hdir hb hrest
  refine ⟨q, tail, rfl, rfl, ?_, hbelow⟩
  rintro rfl
  simp at htail

end Check

/-- What the check lets an operator use drives runs, or is shadowed. -/
theorem operatorWrite_cases {r : Request} {h : Handler} {values : List Bytes} (hmethod : r.method ≠ "GET")
    (hdispatch : r.dispatch = some (h, values)) (hwrite : isOperatorWrite r.path = true) :
    drivesRuns h = true ∨ Shadowed r := by
  obtain ⟨hclean, method, p, hmem, hfits, hsame⟩ := dispatch_fits hdispatch
  obtain ⟨hrooted, hslash⟩ := routes_rooted _ hmem
  rw [r.path_eq] at hwrite
  simp only [isOperatorWrite, Bool.or_eq_true, Bool.and_eq_true, List.isPrefixOf_iff_prefix, List.isSuffixOf_iff_suffix,
    decide_eq_true_eq] at hwrite
  rcases hwrite with (hruns | hevents) | ⟨hdags, hsuffix⟩
  · obtain ⟨q, tail, rfl, _⟩ := under_directory hfits hrooted hslash (show '/' ∉ "runs".toList by decide) hruns
    exact .inl (routes_runs _ hmem rfl)
  · have hpath : joined r.segs = '/' :: ("api".toList ++ '/' :: "events".toList) := hevents
    have hpre : '/' :: ("api".toList ++ '/' :: "events".toList) <+: joined r.segs := by rw [hpath]
    obtain ⟨b, q, tail, rfl, hsegs, _, hbelow, _⟩ := under_api hfits hrooted hslash hpre
    have hrest : b ++ joined tail = "events".toList := by
      rw [hsegs, joined_cons, joined_cons] at hpath
      simpa using hpath
    cases tail with
    | nil =>
      rw [joined_nil, List.append_nil] at hrest
      cases hbelow
      exact .inl (routes_events _ hmem (by rw [eventsPath, hrest]))
    | cons s tail =>
      have hslash : '/' ∈ "events".toList := hrest ▸ by simp
      exact absurd hslash (by decide)
  · obtain ⟨q, tail, rfl, hsegs, htail, hbelow⟩ := under_directory hfits hrooted hslash (show '/' ∉ "dags".toList by decide) hdags
    obtain ⟨hrest, hlit, hwild⟩ := routes_dags _ hmem rfl
    obtain ⟨front, x, rfl⟩ : ∃ front x, tail = front ++ [x] := ⟨_, _, (List.dropLast_append_getLast htail).symm⟩
    have hlook : Lookalike x := by
      have hjoined : joined r.segs = joined ("api".toList :: "dags".toList :: front) ++ '/' :: x := by
        rw [hsegs]
        simp [joined_append]
      rw [hjoined] at hsuffix
      rcases hsuffix with (hsuffix | hsuffix) | hsuffix
      · exact ⟨"trigger".toList, by simp [keywords], (slash_suffix_iff (by decide) _ _).mp hsuffix⟩
      · exact ⟨"backfill".toList, by simp [keywords], (slash_suffix_iff (by decide) _ _).mp hsuffix⟩
      · exact ⟨"pause".toList, by simp [keywords], (slash_suffix_iff (by decide) _ _).mp hsuffix⟩
    have hlast : r.segs.getLast? = some x := by
      rw [hsegs, ← List.cons_append, ← List.cons_append, List.getLast?_concat]
    rcases fits_last hfits hlast hrest with hx | hx
    · obtain ⟨k, hk, rfl | hlong⟩ := hlook
      · exact .inl (hlit _ hk hx)
      · have hfree := hslash _ (List.mem_of_getLast? hx)
        simp only [slashless, List.all_eq_true, decide_eq_true_eq] at hfree
        exact absurd rfl (hfree _ (hlong.subset List.mem_cons_self))
    · obtain ⟨hpattern, hget⟩ := hwild hx
      refine .inr ⟨hclean, ?_, x, ?_, hlook⟩
      · rcases hsame with rfl | ⟨hhead, _⟩
        · exact .inl (hget.resolve_left hmethod)
        · exact .inr hhead
      · rw [dagsPath] at hpattern
        cases hpattern
        cases front with
        | nil => exact hsegs
        | cons y front =>
          cases hbelow with
          | wild _ hempty => cases front <;> cases hempty

/-- The table's patterns below `/api/dags/`. -/
private def dagPatterns (method : String) : List (Pattern × Handler) :=
  afterLit "dags".toList (afterLit "api".toList (patternsOf method))

/-- No operation on all DAGs has the method of an operation on one of them. -/
private theorem matchPath_dag {method : String} {id : Bytes} {h : Handler} (hid : id ≠ [])
    (hliteral : ∀ q ∈ dagPatterns method, q.1.head? = none ∨ q.1.head? = some .wild)
    (hwild : matchPath (afterWild (dagPatterns method)) [] = some (h, [])) :
    matchPath (patternsOf method) ["api".toList, "dags".toList, id] = some (h, [id]) := by
  refine matchPath_literal (matchPath_literal ?_)
  change matchPath (dagPatterns method) [id] = _
  have hnone : afterLit id (dagPatterns method) = [] := by
    rw [afterLit, List.filterMap_eq_nil_iff]
    intro q hq
    split
    · rcases hliteral _ hq with h | h <;> cases h
    · rfl
  rw [matchPath, hnone, hwild, if_neg hid]
  rfl

/-- A shadowed request reaches the DAG's own handlers, and the check lets it. -/
theorem shadowed_dispatch {r : Request} (h : Shadowed r) :
    isOperatorWrite r.path = true ∧ ∃ values, r.dispatch = some (if r.method = "DELETE" then .deleteDAG else .getDAG, values) := by
  obtain ⟨hclean, hmethod, id, hsegs, k, hk, hlook⟩ := h
  constructor
  · have hpath : r.path = ("/api/dags".toList : Bytes) ++ '/' :: id := by
      rw [r.path_eq, hsegs]
      simp
    have hpre : "/api/dags/".toList <+: r.path := ⟨id, by rw [hpath]; simp⟩
    have hends : ∀ k : Bytes, '/' ∉ k → (id = k ∨ '/' :: k <:+ id) → '/' :: k <:+ r.path := by
      intro k hslash hlook
      rw [hpath]
      exact (slash_suffix_iff hslash _ _).mpr hlook
    simp only [isOperatorWrite, Bool.or_eq_true, Bool.and_eq_true, List.isPrefixOf_iff_prefix, List.isSuffixOf_iff_suffix,
      decide_eq_true_eq]
    refine .inr ⟨hpre, ?_⟩
    simp only [keywords, List.mem_cons, List.not_mem_nil, or_false] at hk
    rcases hk with rfl | rfl | rfl
    · exact .inl (.inl (hends _ (by decide) hlook))
    · exact .inl (.inr (hends _ (by decide) hlook))
    · exact .inr (hends _ (by decide) hlook)
  · have hid : id ≠ [] := by
      rintro rfl
      simp only [keywords, List.mem_cons, List.not_mem_nil, or_false] at hk
      rcases hlook with rfl | hlong
      · rcases hk with h | h | h <;> cases h
      · simp at hlong
    unfold Request.dispatch
    rw [if_pos hclean, hsegs]
    rcases hmethod with hdelete | hhead
    · rw [hdelete, matchPath_dag hid (by decide +kernel) (h := .deleteDAG) (by decide +kernel)]
      exact ⟨[id], rfl⟩
    · have hown : patternsOf "HEAD" = [] := by decide +kernel
      rw [hhead, hown, matchPath_none, Option.none_or, if_pos rfl,
        matchPath_dag hid (by decide +kernel) (h := .getDAG) (by decide +kernel)]
      exact ⟨[id], rfl⟩

/-- What the route table gives to the operator's writes drives runs, except for a
DAG itself whose id the check takes for an operation. -/
theorem operatorWrite_iff (r : Request) (hmethod : r.method ≠ "GET") :
    (∀ h values, r.dispatch = some (h, values) → isOperatorWrite r.path = true → drivesRuns h = true) ↔ ¬ Shadowed r := by
  constructor
  · intro hsafe hshadowed
    obtain ⟨hwrite, values, hdispatch⟩ := shadowed_dispatch hshadowed
    have hdrives := hsafe _ _ hdispatch hwrite
    split at hdrives <;> cases hdrives
  · intro hplain h values hdispatch hwrite
    exact (operatorWrite_cases hmethod hdispatch hwrite).resolve_right hplain

/-- An operator's request that `withAuth` lets through to a handler that neither
reads nor drives runs is public, the logout, or shadowed. -/
theorem operator_confined {r : Request} {scope : Bytes} {h : Handler} {values : List Bytes} (hmethod : r.method ≠ "GET")
    (hauthorized : r.authorized { role := .operator, tokenDagScope := scope } = true) (hdispatch : r.dispatch = some (h, values)) :
    drivesRuns h = true ∨ isPublic r.path = true ∨ r.path = "/api/logout".toList ∨ Shadowed r := by
  simp only [Request.authorized, Bool.or_eq_true, Bool.and_eq_true, decide_eq_true_eq] at hauthorized
  rcases hauthorized with ((hpublic | hget) | hlogout) | ⟨hadmin | ⟨_, hwrite⟩, _⟩
  · exact .inr (.inl hpublic)
  · exact absurd hget hmethod
  · exact .inr (.inr (.inl hlogout))
  · cases hadmin
  · rcases operatorWrite_cases hmethod hdispatch hwrite with hdrives | hshadowed
    · exact .inl hdrives
    · exact .inr (.inr (.inr hshadowed))

/-- A request for a path without escapes. -/
def plain (method text : String) (h : pathUnescape ('/' :: text.toList) = some ('/' :: text.toList)) : Request :=
  ⟨method, text.toList, '/' :: text.toList, h⟩

def triggerRequest : Request := plain "POST" "api/dags/etl/trigger" (by decide +kernel)

def deleteRequest : Request := plain "DELETE" "api/dags/trigger" (by decide +kernel)

theorem operatorWrite_iff_trigger :
    (∀ h values, triggerRequest.dispatch = some (h, values) → isOperatorWrite triggerRequest.path = true → drivesRuns h = true) ∧
      ¬ ∀ h values, deleteRequest.dispatch = some (h, values) → isOperatorWrite deleteRequest.path = true → drivesRuns h = true := by
  constructor
  · refine (operatorWrite_iff triggerRequest (by decide)).mpr ?_
    rintro ⟨_, hmethod, _⟩
    revert hmethod
    decide
  · rw [operatorWrite_iff deleteRequest (by decide), not_not]
    exact ⟨by decide +kernel, .inl rfl, "trigger".toList, by decide +kernel, "trigger".toList, by simp [keywords], .inl rfl⟩

def triggerYAML : String := "dag_id: trigger\ntasks:\n- {id: work, command: x}\n"

/-- An operator deletes the DAG `trigger`, an id that the parser accepts. -/
theorem operator_deletes :
    deleteRequest.method = "DELETE" ∧ deleteRequest.authorized { role := .operator, tokenDagScope := [] } = true ∧
      isOperatorWrite deleteRequest.path = true ∧ deleteRequest.dispatch = some (.deleteDAG, ["trigger".toList]) ∧
      drivesRuns .deleteDAG = false ∧
      parse (.ofDocuments [(triggerYAML, { dagID := "trigger", tasks := [{ id := "work", command := "x" }] })]) triggerYAML =
        .ok { dagID := "trigger", definitionYAML := triggerYAML, tasks := [{ id := "work", command := "x" }] } := by
  refine ⟨rfl, by decide +kernel, by decide +kernel, by decide +kernel, rfl, by decide +kernel⟩

end Cronova.Properties.OperatorRole
