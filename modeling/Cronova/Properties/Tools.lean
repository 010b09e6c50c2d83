import Cronova.Mcp.Tools

/-! The calls of tools reach the handlers of their endpoints, with the arguments as they were
given, and no others. -/
namespace Cronova.Properties.Tools
open Cronova.Http Cronova.Api Cronova.Api.Client Cronova.Mcp

/-! ### Templates -/

def toSeg : Piece → Seg
  | .text s => .lit s
  | .slot _ => .wild

/-- A segment without slashes and stray braces that stays as it is when it is unescaped. -/
def SegmentOk : Piece → Prop
  | .text s => s ≠ [] ∧ s ≠ ['.'] ∧ s ≠ ['.', '.'] ∧ '/' ∉ s ∧ '{' ∉ s ∧ '%' ∉ s
  | .slot name => '{' ∉ name ∧ '}' ∉ name

instance : (p : Piece) → Decidable (SegmentOk p)
  | .text s => inferInstanceAs (Decidable (s ≠ [] ∧ s ≠ ['.'] ∧ s ≠ ['.', '.'] ∧ '/' ∉ s ∧ '{' ∉ s ∧ '%' ∉ s))
  | .slot name => inferInstanceAs (Decidable ('{' ∉ name ∧ '}' ∉ name))

/-- A template that means to the client what it means to the server. -/
structure Formed (template : String) : Prop where
  cut : template.toList = joined ((segments template).map Piece.render)
  some : segments template ≠ []
  ok : ∀ p ∈ segments template, SegmentOk p
  same : pattern template = (segments template).map toSeg

instance (template : String) : Decidable (Formed template) :=
  decidable_of_iff (template.toList = joined ((segments template).map Piece.render) ∧ segments template ≠ [] ∧
      (∀ p ∈ segments template, SegmentOk p) ∧ pattern template = (segments template).map toSeg)
    ⟨fun h => ⟨h.1, h.2.1, h.2.2.1, h.2.2.2⟩, fun h => ⟨h.cut, h.some, h.ok, h.same⟩⟩

/-- A value that a segment can have. -/
def Usable (v : Bytes) : Prop := v ≠ [] ∧ v ≠ ['.'] ∧ v ≠ ['.', '.'] ∧ ∀ c ∈ v, c.toNat < 256

/-- The segment as it is sent, and as it is read. -/
def sent (value : Bytes → Bytes) : Piece → Bytes
  | .text s => s
  | .slot name => pathEscape (value name)

def read (value : Bytes → Bytes) : Piece → Bytes
  | .text s => s
  | .slot name => value name

section Segments
variable {value : Bytes → Bytes} {ps : List Piece}

theorem pathUnescape_plain {s : Bytes} (h : '%' ∉ s) : pathUnescape s = some s := by
  induction s with
  | nil => rfl
  | cons c s ih =>
    have hc : c ≠ '%' := fun heq => h (heq ▸ List.mem_cons_self)
    rw [pathUnescape_cons hc, ih (fun hmem => h (List.mem_cons_of_mem _ hmem)), Option.map_some]

/-- What `value` gives for the names of the pieces can be put into segments. -/
def Values (value : Bytes → Bytes) (ps : List Piece) : Prop := ∀ name, .slot name ∈ ps → Usable (value name)

theorem pathUnescape_sent {p : Piece} (hok : SegmentOk p) (hvalue : ∀ name, p = .slot name → Usable (value name)) :
    pathUnescape (sent value p) = some (read value p) := by
  cases p with
  | text s => exact pathUnescape_plain hok.2.2.2.2.2
  | slot name => exact pathUnescape_pathEscape (hvalue name rfl).2.2.2

theorem sent_slashless {p : Piece} (hok : SegmentOk p) (hvalue : ∀ name, p = .slot name → Usable (value name)) : '/' ∉ sent value p := by
  cases p with
  | text s => exact hok.2.2.2.1
  | slot name => exact (pathEscape_free (hvalue name rfl).2.2.2).1

/-- A segment is sent as a dot, or empty, only if it is read so. -/
theorem sent_usable {p : Piece} (hok : SegmentOk p) (hvalue : ∀ name, p = .slot name → Usable (value name)) :
    sent value p ≠ [] ∧ sent value p ≠ ['.'] ∧ sent value p ≠ ['.', '.'] := by
  have hread := pathUnescape_sent hok hvalue
  have hne : ∀ s, '%' ∉ s → read value p ≠ s → sent value p ≠ s := by
    intro s hs hneq heq
    rw [heq, pathUnescape_plain hs] at hread
    exact hneq (Option.some.inj hread).symm
  have husable : read value p ≠ [] ∧ read value p ≠ ['.'] ∧ read value p ≠ ['.', '.'] := by
    cases p with
    | text s => exact ⟨hok.1, hok.2.1, hok.2.2.1⟩
    | slot name => exact ⟨(hvalue name rfl).1, (hvalue name rfl).2.1, (hvalue name rfl).2.2.1⟩
  exact ⟨hne _ (by simp) husable.1, hne _ (by decide) husable.2.1, hne _ (by decide) husable.2.2⟩

theorem pathUnescape_joined_sent (hok : ∀ p ∈ ps, SegmentOk p) (hvalues : Values value ps) :
    pathUnescape (joined (ps.map (sent value))) = some (joined (ps.map (read value))) := by
  induction ps with
  | nil => rfl
  | cons p ps ih =>
    have hrest := ih (fun q hq => hok q (List.mem_cons_of_mem _ hq)) (fun name hmem => hvalues name (List.mem_cons_of_mem _ hmem))
    have hp := pathUnescape_sent (hok p List.mem_cons_self) (fun name heq => hvalues name (heq ▸ List.mem_cons_self))
    rw [List.map_cons, List.map_cons, joined_cons, joined_cons, pathUnescape_cons_slash]
    cases ps with
    | nil =>
      rw [List.map_nil, List.map_nil, joined_nil, List.append_nil, List.append_nil, hp, Option.map_some]
    | cons q ps =>
      rw [List.map_cons, List.map_cons, joined_cons, joined_cons, pathUnescape_cons_slash] at hrest
      obtain ⟨rest, hrest', heq⟩ := Option.map_eq_some_iff.1 hrest
      rw [List.map_cons, List.map_cons, joined_cons, joined_cons, pathUnescape_slash, hp, Option.bind_some, hrest', Option.map_some,
        Option.map_some, (List.cons.inj heq).2]

theorem splitOn_joined {s : Bytes} {segs : List Bytes} (h : ∀ x ∈ s :: segs, '/' ∉ x) : (s ++ joined segs).splitOn '/' = s :: segs := by
  have hjoin : s ++ joined segs = List.intercalate ['/'] (s :: segs) := by
    clear h
    induction segs generalizing s with
    | nil => simp
    | cons s' segs ih =>
      rw [joined_cons, ih, List.intercalate_cons_cons]
      simp
  rw [hjoin]
  exact List.splitOn_intercalate '/' h (by simp)

theorem fits_read (hok : ∀ p ∈ ps, SegmentOk p) (hvalues : Values value ps) :
    Fits (ps.map toSeg) (ps.map (read value)) ((ps.filterMap slotName).map value) := by
  induction ps with
  | nil => exact .nil
  | cons p ps ih =>
    have hrest := ih (fun q hq => hok q (List.mem_cons_of_mem _ hq)) (fun name hmem => hvalues name (List.mem_cons_of_mem _ hmem))
    cases p with
    | text s => exact .lit hrest
    | slot name => exact .wild (hvalues name List.mem_cons_self).1 hrest

end Segments

/-! ### Requests -/

/-- The pieces of a template, with the slashes. -/
def pieces (ps : List Piece) : List Piece := ps.flatMap (fun p => [.text ['/'], p])

theorem renderAll_pieces (ps : List Piece) : renderAll (pieces ps) = joined (ps.map Piece.render) := by
  induction ps with
  | nil => rfl
  | cons p ps ih =>
    change '/' :: (p.render ++ renderAll (pieces ps)) = joined (p.render :: ps.map Piece.render)
    rw [ih, joined_cons]

theorem filled_pieces (params : List (Bytes × Bytes)) (ps : List Piece) :
    (pieces ps).map (Piece.filled params) = pieces (ps.map (Piece.filled params)) := by
  induction ps with
  | nil => rfl
  | cons p ps ih =>
    change .text ['/'] :: p.filled params :: (pieces ps).map _ = .text ['/'] :: p.filled params :: pieces (ps.map _)
    rw [ih]

section Call
variable {template : String} {params : List (Bytes × Bytes)} {value : Bytes → Bytes}

/-- What is sent when every placeholder has a value. -/
theorem expand_formed (h : Formed template) (hparams : Plain params)
    (hvalue : ∀ name ∈ slots template, params.lookup name = some (value name)) :
    expand params template.toList = joined ((segments template).map (sent value)) := by
  have hproper : ∀ p ∈ pieces (segments template), p.Proper := by
    intro p hp
    obtain ⟨q, hq, hp⟩ := List.mem_flatMap.1 hp
    have hok := h.ok q hq
    simp only [List.mem_cons, List.not_mem_nil, or_false] at hp
    rcases hp with rfl | rfl
    · simp [Piece.Proper]
    · cases p with
      | text s => exact hok.2.2.2.2.1
      | slot name => exact hok
  have hsent : ∀ p ∈ segments template, (Piece.render ∘ Piece.filled params) p = sent value p := by
    intro p hp
    cases p with
    | text s => rfl
    | slot name =>
      have hname : name ∈ slots template := List.mem_filterMap.2 ⟨_, hp, rfl⟩
      rw [Function.comp_apply, Piece.filled, hvalue name hname]
      rfl
  rw [h.cut, ← renderAll_pieces, expand_render hparams hproper, filled_pieces, renderAll_pieces, List.map_map,
    List.map_congr_left hsent]

theorem receive_joined (method : String) {raw : List Bytes} (hraw : raw ≠ []) (hfree : ∀ s ∈ raw, '/' ∉ s) {path : Bytes}
    (hpath : pathUnescape (joined raw) = some path) :
    ∃ r : Request, receive method (joined raw) = some r ∧ r.method = method ∧ r.path = path ∧ r.segs = raw.map unescaped ∧
      r.clean = (raw.dropLast.all (fun s => s ≠ []) && raw.all (fun s => s ≠ ['.'] && s ≠ ['.', '.'])) := by
  obtain ⟨s, segs, rfl⟩ := List.exists_cons_of_ne_nil hraw
  rw [joined_cons] at hpath
  have hreceive : receive method (joined (s :: segs)) = some ⟨method, s ++ joined segs, path, hpath⟩ := by
    rw [joined_cons, receive]
    split
    case h_1 p hp =>
      rw [hpath] at hp
      cases hp
      rfl
    case h_2 hnone =>
      rw [hpath] at hnone
      cases hnone
  refine ⟨_, hreceive, rfl, rfl, ?_, ?_⟩
  · rw [Request.segs, splitOn_joined hfree]
  · rw [Request.clean, splitOn_joined hfree]

/-- Of the patterns of the method, that of the template alone overlaps it. -/
def Sole (method template : String) (h : Handler) : Prop :=
  (patternsOf method).filter (fun q => overlaps (pattern template) q.1) = [(pattern template, h)]

/-- A call of a template that is in the route table reaches its handler, with the values. -/
theorem call_dispatch {method : String} {h : Handler} (hroute : Sole method template h) (hform : Formed template)
    (hparams : Plain params) (hvalue : ∀ name ∈ slots template, params.lookup name = some (value name))
    (husable : ∀ name ∈ slots template, Usable (value name)) :
    ∃ r, Call method template params = some r ∧ r.method = method ∧ r.dispatch = some (h, (slots template).map value) := by
  have hvalues : Values value (segments template) := fun name hmem => husable name (List.mem_filterMap.2 ⟨_, hmem, rfl⟩)
  have hone : ∀ p ∈ segments template, ∀ name, p = .slot name → Usable (value name) := by
    rintro p hp name rfl
    exact hvalues name hp
  have hpath := pathUnescape_joined_sent hform.ok hvalues
  have hfree : ∀ s ∈ (segments template).map (sent value), '/' ∉ s := by
    intro s hs
    obtain ⟨p, hp, rfl⟩ := List.mem_map.1 hs
    exact sent_slashless (hform.ok p hp) (hone p hp)
  have hplain : ∀ s ∈ (segments template).map (sent value), s ≠ [] ∧ s ≠ ['.'] ∧ s ≠ ['.', '.'] := by
    intro s hs
    obtain ⟨p, hp, rfl⟩ := List.mem_map.1 hs
    exact sent_usable (hform.ok p hp) (hone p hp)
  obtain ⟨r, hreceive, hmethod, -, hsegs, hclean⟩ := receive_joined method (by simpa using hform.some) hfree hpath
  have hr : Call method template params = some r := by rw [Call, expand_formed hform hparams hvalue, hreceive]
  have hsegs' : r.segs = (segments template).map (read value) := by
    rw [hsegs, List.map_map]
    apply List.map_congr_left
    intro p hp
    rw [Function.comp_apply, unescaped, pathUnescape_sent (hform.ok p hp) (hone p hp), Option.getD_some]
  have hclean' : r.clean = true := by
    rw [hclean, Bool.and_eq_true, List.all_eq_true, List.all_eq_true]
    refine ⟨fun s hs => decide_eq_true (hplain s (List.mem_of_mem_dropLast hs)).1, ?_⟩
    intro s hs
    rw [Bool.and_eq_true, decide_eq_true_eq, decide_eq_true_eq]
    exact (hplain s hs).2
  have hfits : Fits (pattern template) r.segs ((slots template).map value) := by
    rw [hform.same, hsegs']
    exact fits_read hform.ok hvalues
  have hmatch : matchPath (patternsOf r.method) r.segs = some (h, (slots template).map value) := by
    rw [hmethod]
    have hmem : (pattern template, h) ∈ patternsOf method := by
      apply List.mem_of_mem_filter (p := fun q => overlaps (pattern template) q.1)
      rw [hroute]
      exact List.mem_singleton_self _
    refine matchPath_of_alone hmem hfits ?_
    intro q g hq hover
    have hone : (q, g) ∈ (patternsOf method).filter (fun q => overlaps (pattern template) q.1) := List.mem_filter.2 ⟨hq, hover⟩
    rw [hroute, List.mem_singleton] at hone
    exact Prod.mk.inj hone
  refine ⟨r, hr, hmethod, ?_⟩
  rw [Request.dispatch, if_pos hclean', hmatch, Option.some_or]

end Call

/-! ### Tools -/

/-- The handlers that give out or take credentials, or that let machines in. -/
def credentialHandlers : List Handler :=
  [.login, .logout, .createToken, .deleteToken, .listTokens, .joinWorker, .createWorkerToken, .hookTrigger, .setDagHook, .deleteDagHook]

def pathNames (ep : Endpoint) : List String := (ep.params.filter (fun p => p.place = .path)).map (·.name)

/-- What the tables have for a tool. -/
def ToolOk (patterns : List (Pattern × Handler)) (ep : Endpoint) : Prop :=
  Formed ep.path ∧ slots ep.path = (pathNames ep).map (·.toList) ∧
    (∀ name ∈ pathNames ep, kind ep name = some .path ∧ '}' ∉ name.toList) ∧
    (∀ p ∈ ep.params, p.place = .path → p.required = true) ∧
    (patterns.filter (fun q => overlaps (pattern ep.path) q.1)).map Prod.fst = [pattern ep.path] ∧
    ∀ q ∈ patterns.filter (fun q => overlaps (pattern ep.path) q.1), q.2 ∉ credentialHandlers

instance (patterns : List (Pattern × Handler)) (ep : Endpoint) : Decidable (ToolOk patterns ep) :=
  inferInstanceAs (Decidable (_ ∧ _ ∧ _ ∧ _ ∧ _ ∧ _))

/-- Every documented endpoint has a route to itself, or no tool. One method at a time, as
the tables are long. -/
theorem catalog_get : ∀ ep ∈ apiCatalog, ep.method = "GET" → ToolOk (patternsOf "GET") ep ∨ toolOf false ep = none := by
  decide +kernel

theorem catalog_post : ∀ ep ∈ apiCatalog, ep.method = "POST" → ToolOk (patternsOf "POST") ep ∨ toolOf false ep = none := by
  decide +kernel

theorem catalog_delete : ∀ ep ∈ apiCatalog, ep.method = "DELETE" → ToolOk (patternsOf "DELETE") ep ∨ toolOf false ep = none := by
  decide +kernel

theorem catalog_methods : ∀ ep ∈ apiCatalog, ep.method = "GET" ∨ ep.method = "POST" ∨ ep.method = "DELETE" := by
  decide +kernel

theorem catalog_ok {ep : Endpoint} (hep : ep ∈ apiCatalog) : ToolOk (patternsOf ep.method) ep ∨ toolOf false ep = none := by
  rcases catalog_methods ep hep with hmethod | hmethod | hmethod
  · rw [hmethod]
    exact catalog_get ep hep hmethod
  · rw [hmethod]
    exact catalog_post ep hep hmethod
  · rw [hmethod]
    exact catalog_delete ep hep hmethod

theorem directRead_get {method path : String} (h : classify method path = .directRead) : method = "GET" := by
  unfold classify at h
  split at h
  · rename_i c hover
    subst h
    obtain ⟨l, l', hsplit, -⟩ := List.lookup_eq_some_iff.1 hover
    have hmem : (method ++ " " ++ path, Class.directRead) ∈ classifyOverride := by
      rw [hsplit]
      exact List.mem_append_right l List.mem_cons_self
    have hnone : ∀ p ∈ classifyOverride, p.2 ≠ .directRead := by decide
    exact absurd rfl (hnone _ hmem)
  · split at h
    · assumption
    · split at h
      · cases h
      · cases h

/-- A tool that only reads is a tool otherwise too. -/
theorem toolOf_cases {readOnly : Bool} {ep : Endpoint} {t : Tool} (h : toolOf readOnly ep = some t) :
    t.ep = ep ∧ toolOf false ep = some t ∧ (readOnly = true → ep.method = "GET") := by
  unfold toolOf at h ⊢
  by_cases hclosed : classify ep.method ep.path = .humanOnly ∨ classify ep.method ep.path = .internalOnly
  · rw [if_pos hclosed] at h
    cases h
  · rw [if_neg hclosed] at h ⊢
    cases hname : toolNames.lookup (ep.method ++ " " ++ ep.path) with
    | none =>
      rw [hname] at h
      cases h
    | some name =>
      simp only [hname] at h ⊢
      by_cases hread : readOnly = true ∧ classify ep.method ep.path ≠ .directRead
      · rw [if_pos hread] at h
        cases h
      · rw [if_neg hread] at h
        cases h
        refine ⟨rfl, by simp, ?_⟩
        intro hro
        by_contra hget
        exact hread ⟨hro, fun hdirect => hget (directRead_get hdirect)⟩

theorem tool_ok {t : Tool} (ht : t ∈ BuildTools false) : ToolOk (patternsOf t.ep.method) t.ep := by
  obtain ⟨ep, hep, htool⟩ := List.mem_filterMap.1 ht
  obtain ⟨rfl, -, -⟩ := toolOf_cases htool
  rcases catalog_ok hep with hok | hnone
  · exact hok
  · rw [htool] at hnone
    cases hnone

theorem tool_read {readOnly : Bool} {t : Tool} (ht : t ∈ BuildTools readOnly) :
    t ∈ BuildTools false ∧ (readOnly = true → t.ep.method = "GET") := by
  obtain ⟨ep, hep, htool⟩ := List.mem_filterMap.1 ht
  obtain ⟨rfl, hfull, hget⟩ := toolOf_cases htool
  exact ⟨List.mem_filterMap.2 ⟨t.ep, hep, hfull⟩, hget⟩

theorem tool_sole {t : Tool} (ht : t ∈ BuildTools false) : ∃ h, Sole t.ep.method t.ep.path h ∧ h ∉ credentialHandlers := by
  obtain ⟨-, -, -, -, hone, hhandlers⟩ := tool_ok ht
  obtain ⟨⟨p, h⟩, hq, hp⟩ := List.map_eq_singleton_iff.1 hone
  cases hp
  refine ⟨h, hq, hhandlers (pattern t.ep.path, h) ?_⟩
  rw [hq]
  exact List.mem_singleton_self _

section Arguments
variable {V : Type} {toStr : V → Bytes} {ep : Endpoint} {args : List (String × V)}

/-- The text of an argument; an absent one has none. -/
def given (toStr : V → Bytes) (args : List (String × V)) (name : String) : Bytes := ((args.lookup name).map toStr).getD []

theorem lookup_argsOf {name : String} (h : kind ep name = some .path) :
    (argsOf toStr ep .path args).lookup name.toList = (args.lookup name).map toStr := by
  induction args with
  | nil => rfl
  | cons a args ih =>
    obtain ⟨n, v⟩ := a
    rw [argsOf] at ih ⊢
    by_cases hn : n = name
    · subst hn
      rw [List.filter_cons_of_pos (by simpa using h), List.map_cons, List.lookup_cons_self, List.lookup_cons_self, Option.map_some]
    · have hne : (name.toList == n.toList) = false := by
        rw [beq_eq_false_iff_ne]
        exact fun heq => hn (String.toList_inj.1 heq).symm
      rw [List.lookup_cons, beq_false_of_ne (Ne.symm hn)]
      by_cases hk : kind ep n = some .path
      · rw [List.filter_cons_of_pos (by simpa using hk), List.map_cons, List.lookup_cons, hne]
        exact ih
      · rw [List.filter_cons_of_neg (by simpa using hk)]
        exact ih

end Arguments

section Tools
variable {V : Type} {toStr : V → Bytes} {args : List (String × V)} {t : Tool}

theorem missing_iff (ht : t ∈ BuildTools false) :
    (∃ p, missing toStr t.ep args = some p) ↔ ∃ name ∈ pathNames t.ep, given toStr args name = [] := by
  obtain ⟨-, -, hkind, hrequired, -⟩ := tool_ok ht
  rw [← Option.isSome_iff_exists, missing, List.find?_isSome]
  constructor
  · rintro ⟨p, hp, h⟩
    rw [Bool.and_eq_true, Bool.and_eq_true, decide_eq_true_eq, decide_eq_true_eq] at h
    obtain ⟨⟨hplace, -⟩, hempty⟩ := h
    have hname : p.name ∈ pathNames t.ep := List.mem_map.2 ⟨p, List.mem_filter.2 ⟨hp, decide_eq_true hplace⟩, rfl⟩
    rw [lookup_argsOf (hkind _ hname).1] at hempty
    exact ⟨p.name, hname, hempty⟩
  · rintro ⟨name, hname, hempty⟩
    obtain ⟨p, hp, rfl⟩ := List.mem_map.1 hname
    obtain ⟨hp, hplace⟩ := List.mem_filter.1 hp
    rw [decide_eq_true_eq] at hplace
    refine ⟨p, hp, ?_⟩
    rw [lookup_argsOf (hkind _ hname).1, Bool.and_eq_true, Bool.and_eq_true, decide_eq_true_eq, decide_eq_true_eq]
    exact ⟨⟨hplace, hrequired p hp hplace⟩, hempty⟩

theorem mem_pathNames {ep : Endpoint} {name : String} (h : kind ep name = some .path) : name ∈ pathNames ep := by
  obtain ⟨p, hp, hplace⟩ := Option.map_eq_some_iff.1 h
  have hname : p.name = name := by simpa using List.find?_some hp
  exact List.mem_map.2 ⟨p, List.mem_filter.2 ⟨List.mem_of_find?_eq_some hp, decide_eq_true hplace⟩, hname⟩

theorem plain_argsOf (ht : t ∈ BuildTools false) (hbytes : ∀ a ∈ args, ∀ c ∈ toStr a.2, c.toNat < 256) :
    Plain (argsOf toStr t.ep .path args) := by
  intro p hp
  obtain ⟨a, ha, rfl⟩ := List.mem_map.1 hp
  obtain ⟨ha, hkind⟩ := List.mem_filter.1 ha
  rw [decide_eq_true_eq] at hkind
  exact ⟨((tool_ok ht).2.2.1 _ (mem_pathNames hkind)).2, hbytes a ha⟩

theorem call_error_iff : (∃ msg, call toStr t args = .error msg) ↔ ∃ p, missing toStr t.ep args = some p := by
  rw [call, Invoke]
  cases missing toStr t.ep args with
  | none => simp [Except.map]
  | some p => simp [Except.map]

/-- Where nothing is missing, the values go where their names stand. -/
theorem tool_dispatch (ht : t ∈ BuildTools false) (hbytes : ∀ a ∈ args, ∀ c ∈ toStr a.2, c.toNat < 256)
    (husable : ∀ name ∈ pathNames t.ep, Usable (given toStr args name)) :
    ∃ h r, Sole t.ep.method t.ep.path h ∧ h ∉ credentialHandlers ∧ call toStr t args = .ok (some r) ∧ r.method = t.ep.method ∧
      r.dispatch = some (h, (pathNames t.ep).map (given toStr args)) := by
  obtain ⟨hform, hslots, hkind, -⟩ := tool_ok ht
  obtain ⟨h, hsole, hcredential⟩ := tool_sole ht
  have hnone : missing toStr t.ep args = none := by
    rw [Option.eq_none_iff_forall_ne_some]
    intro p hp
    obtain ⟨name, hname, hempty⟩ := (missing_iff ht).1 ⟨p, hp⟩
    exact (husable name hname).1 hempty
  have hvalue : ∀ name ∈ slots t.ep.path,
      (argsOf toStr t.ep .path args).lookup name = some (given toStr args (String.ofList name)) := by
    intro name hname
    rw [hslots] at hname
    obtain ⟨n, hn, rfl⟩ := List.mem_map.1 hname
    rw [String.ofList_toList, lookup_argsOf (hkind n hn).1]
    have hsome := (husable n hn).1
    rw [given] at hsome ⊢
    cases hlookup : (args.lookup n).map toStr with
    | none =>
      rw [hlookup] at hsome
      exact absurd rfl hsome
    | some v => rfl
  have husable' : ∀ name ∈ slots t.ep.path, Usable (given toStr args (String.ofList name)) := by
    intro name hname
    rw [hslots] at hname
    obtain ⟨n, hn, rfl⟩ := List.mem_map.1 hname
    rw [String.ofList_toList]
    exact husable n hn
  obtain ⟨r, hr, hmethod, hdispatch⟩ := call_dispatch hsole hform (plain_argsOf ht hbytes) hvalue husable'
  refine ⟨h, r, hsole, hcredential, ?_, hmethod, ?_⟩
  · rw [call, Invoke, hnone]
    change Except.ok (Call t.ep.method t.ep.path (argsOf toStr t.ep .path args)) = _
    rw [hr]
  · rw [hdispatch, hslots, List.map_map]
    congr 2
    apply List.map_congr_left
    intro n _
    rw [Function.comp_apply, String.ofList_toList]

/-- A DAG of which the id has a slash and a percent sign. -/
def getDag : Tool := { name := "get_dag", ep := { method := "GET", path := "/api/dags/{id}", params := [.path "id"] } }

end Tools
end Cronova.Properties.Tools
