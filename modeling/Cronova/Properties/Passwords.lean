import Cronova.Scheduler.Render
import Cronova.Parser.Canonical

/-! The flow of connection passwords. A task that names none is launched the same
way whatever they are; a password that a task does name is masked in its log. -/
namespace Cronova.Properties.Passwords
open Cronova.Model Cronova.Text Cronova.Text.Template Cronova.Scheduler

/-- A placeholder key of the form `conn.<id>.password` or `conn.<id>.extra.password`. -/
def NamesPassword (key : String) : Prop :=
  ∃ id : String, '.' ∉ id.toList ∧ (key = "conn." ++ id ++ ".password" ∨ key = "conn." ++ id ++ ".extra.password")

variable (libs : Libs)

/-- Two connections that differ at most in their passwords: the field, and the
extra field of that name. -/
structure SamePublic (c d : Connection) : Prop where
  type : c.type = d.type
  host : c.host = d.host
  port : c.port = d.port
  login : c.login = d.login
  empty : c.extra = "" ↔ d.extra = ""
  extra : ∀ name, name ≠ "password" →
    (libs.decodeRawMap c.extra).bind (List.lookup name) = (libs.decodeRawMap d.extra).bind (List.lookup name)

/-- Two stores that differ at most in the passwords of their connections. -/
structure SameButPasswords (v w : View) : Prop where
  outputs : v.getTaskOutput = w.getTaskOutput
  values : v.getVariable = w.getVariable
  connections : ∀ id, (∃ c d, v.getConnection id = .ok c ∧ w.getConnection id = .ok d ∧ SamePublic libs c d) ∨
    (∃ e e', v.getConnection id = .error e ∧ w.getConnection id = .error e')

/-- The templates of a task that end up in its spec. -/
def launched (t : Task) : List String :=
  t.command :: match t.type, t.http with
    | .http, some h => h.url :: h.body :: h.headers.map (·.2)
    | _, _ => []

/-- All templates of a task. -/
def templates (t : Task) : List String := t.when_ :: launched t

/-! ### Resolving -/

section Resolve
variable {libs} {v w : View} {c d : Connection} {field key id : String}

theorem connField_agree (h : SamePublic libs c d) (hpassword : field ≠ "password") (hextra : field ≠ "extra.password") :
    connField libs c field = connField libs d field := by
  unfold connField
  rw [h.host, h.port, h.login, h.type, if_neg hpassword, if_neg hpassword]
  cases hcut : cutPrefix field "extra." with
  | none => rfl
  | some name =>
    have hname : name ≠ "password" := by
      rintro rfl
      exact hextra (cutPrefix_eq_some hcut)
    have hsame := h.extra name hname
    by_cases hc : c.extra = ""
    · have hd := h.empty.mp hc
      simp only [hc, hd]
    · have hd : d.extra ≠ "" := fun hd => hc (h.empty.mpr hd)
      simp only [if_neg hc, if_neg hd]
      cases hm : libs.decodeRawMap c.extra <;> cases hn : libs.decodeRawMap d.extra <;>
        simp only [hm, hn, Option.bind_none, Option.bind_some] at hsame ⊢
      · rw [← hsame]
        rfl
      · rw [hsame]
        rfl
      · rw [hsame]

theorem connValue_agree (h : SameButPasswords libs v w) {rest : String} (hkey : ¬ NamesPassword ("conn." ++ rest)) :
    connValue libs v rest = connValue libs w rest := by
  unfold connValue
  cases hcut : cut rest '.' with
  | none => rfl
  | some p =>
    obtain ⟨id, field⟩ := p
    obtain ⟨hrest, hid⟩ := cut_eq_some hcut
    have hpassword : field ≠ "password" := by
      rintro rfl
      refine hkey ⟨id, hid, .inl ?_⟩
      rw [hrest]
      simp [String.append_assoc]
    have hextra : field ≠ "extra.password" := by
      rintro rfl
      refine hkey ⟨id, hid, .inr ?_⟩
      rw [hrest]
      simp [String.append_assoc]
    rcases h.connections id with ⟨c, d, hc, hd, hsame⟩ | ⟨e, e', hc, hd⟩
    · simp only [Option.bind_eq_bind, Option.bind_some, hc, hd]
      exact connField_agree hsame hpassword hextra
    · simp only [Option.bind_eq_bind, Option.bind_some, hc, hd]
      rfl

theorem resolver_agree (h : SameButPasswords libs v w) (runID : String) (base params : Params) (loc : Calendar) (logical : Time)
    (hkey : ¬ NamesPassword key) :
    templateResolver libs v runID base params loc logical key = templateResolver libs w runID base params loc logical key := by
  have houtputs : outputValue libs v = outputValue libs w := by
    funext runID rest
    rw [outputValue, outputValue, h.outputs]
  have hconn : (cutPrefix key "conn.").bind (connValue libs v) = (cutPrefix key "conn.").bind (connValue libs w) := by
    cases hcut : cutPrefix key "conn." with
    | none => rfl
    | some rest =>
      have hrest := cutPrefix_eq_some hcut
      exact connValue_agree h (hrest ▸ hkey)
  rw [templateResolver, templateResolver, houtputs, h.values, hconn]

theorem namesPassword_secret (h : NamesPassword key) : isSecretKey key = true := by
  obtain ⟨id, _, rfl | rfl⟩ := h
  · rw [isSecretKey, hasSuffix_append, String.append_assoc, hasPrefix_append]
    rfl
  · have hsplit : "conn." ++ id ++ ".extra.password" = "conn." ++ (id ++ ".extra") ++ ".password" := by
      simp [String.append_assoc, show ".extra.password" = ".extra" ++ ".password" by decide +kernel]
    rw [hsplit, isSecretKey, hasSuffix_append, String.append_assoc, hasPrefix_append]
    rfl

/-- The placeholder of a connection's password stands for the stored password. -/
theorem resolver_password {run : DagRun} {t : Task} {tryNumber : Nat} {loc : Calendar} (hid : '.' ∉ id.toList)
    (hc : v.getConnection id = .ok c) :
    taskResolver libs v run t tryNumber loc ("conn." ++ id ++ ".password") = some c.password := by
  have hbase : List.lookup ("conn." ++ id ++ ".password") (templateVars run t tryNumber loc) = none := by
    rw [List.lookup_eq_none_iff]
    intro e he
    have hnames : ∀ name ∈ ["run_id", "dag_id", "task_id", "try_number", "logical_date", "logical_datetime"],
        hasPrefix name "conn." = false := by decide +kernel
    have hname := hnames e.1 (List.mem_map_of_mem (f := (·.1)) he)
    rw [bne_iff_ne]
    intro heq
    rw [← heq, String.append_assoc, hasPrefix_append] at hname
    cases hname
  have hdate : hasPrefix ("conn." ++ id ++ ".password") "logical_date" = false := by
    simp [hasPrefix, String.toList_append]
    rfl
  have hother : ∀ front ∈ ["params.", "ti.", "var."], cutPrefix ("conn." ++ id ++ ".password") front = none := by
    intro front hfront
    simp only [List.mem_cons, List.not_mem_nil, or_false] at hfront
    rcases hfront with rfl | rfl | rfl <;> simp [cutPrefix, hasPrefix, String.toList_append]
  have hconn : cutPrefix ("conn." ++ id ++ ".password") "conn." = some (id ++ ".password") := by
    rw [String.append_assoc]
    exact cutPrefix_append _ _
  have hcut : cut (id ++ ".password") '.' = some (id, "password") := by
    have hsplit : id ++ ".password" = id ++ String.singleton '.' ++ "password" := by
      rw [String.append_assoc, show String.singleton '.' ++ "password" = ".password" by decide +kernel]
    rw [hsplit]
    exact cut_append hid _
  rw [taskResolver, templateResolver, hbase, hdate, hother _ (by simp), hother "var." (by simp), hother "ti." (by simp), hconn]
  simp only [Bool.false_eq_true, if_false, ite_self, Option.bind_some, connValue, hcut, Option.bind_eq_bind, hc]
  rfl

end Resolve

/-! ### Rendering -/

section Render
variable {libs} {v w : View} {resolve resolve' : String → Option String}

theorem collectSecrets_congr {key : String} (h : resolve key = resolve' key) :
    collectSecrets resolve key = collectSecrets resolve' key := by
  funext secrets
  rw [collectSecrets, collectSecrets, h]

theorem renderHeaders_congr {m : Type → Type} [Monad m] {f g : String → m (Option String)} {headers : List (String × String)}
    (h : ∀ text ∈ headers.map (·.2), ∀ key ∈ placeholders text, f key = g key) :
    renderHeaders f headers = renderHeaders g headers := by
  induction headers with
  | nil => rfl
  | cons e headers ih =>
    have hrest := ih (fun text htext => h text (List.mem_cons_of_mem _ htext))
    rw [renderHeaders, renderHeaders, renderCommand_congr (h e.2 List.mem_cons_self), hrest]

theorem resolveHTTPSpec_congr {m : Type → Type} [Monad m] {f g : String → m (Option String)} {spec : HTTPSpec}
    (h : ∀ text ∈ spec.url :: spec.body :: spec.headers.map (·.2), ∀ key ∈ placeholders text, f key = g key) :
    resolveHTTPSpec spec f = resolveHTTPSpec spec g := by
  have hheaders : renderHeaders f spec.headers = renderHeaders g spec.headers :=
    renderHeaders_congr (fun text htext => h text (by simp [htext]))
  rw [resolveHTTPSpec, resolveHTTPSpec, renderCommand_congr (h spec.url (by simp)), renderCommand_congr (h spec.body (by simp)), hheaders]

/-- A rendered task depends on what its templates name. -/
theorem renderOperator_congr {opBinary : String} {t : Task} (htype : t.type ≠ .sql)
    (h : ∀ text ∈ launched t, ∀ key ∈ placeholders text, resolve key = resolve' key) :
    renderOperator libs v opBinary t resolve = renderOperator libs w opBinary t resolve' := by
  have hcollect : ∀ text ∈ launched t, ∀ key ∈ placeholders text, collectSecrets resolve key = collectSecrets resolve' key :=
    fun text htext key hkey => collectSecrets_congr (h text htext key hkey)
  have hcommand := renderCommand_congr (hcollect t.command List.mem_cons_self)
  rw [renderOperator, renderOperator, hcommand]
  cases hkind : t.type with
  | sql => exact absurd hkind htype
  | http =>
    cases hhttp : t.http with
    | none => rfl
    | some spec =>
      have hspec : resolveHTTPSpec spec (collectSecrets resolve) = resolveHTTPSpec spec (collectSecrets resolve') := by
        refine resolveHTTPSpec_congr (fun text htext => hcollect text ?_)
        rw [launched, hkind, hhttp]
        exact List.mem_cons_of_mem _ htext
      dsimp only
      rw [hspec]
  | _ => rfl

/-! ### Masking -/

/-- A rendering forgets no secret, and notes these. -/
def Collects {α : Type} (x : StateM (List String) α) (secret : String → Prop) : Prop :=
  ∀ secrets, (∀ value ∈ secrets, value ∈ (x.run secrets).2) ∧ ∀ value, secret value → value ∈ (x.run secrets).2

/-- The value of a key that names a secret. -/
def SecretOf (resolve : String → Option String) (key value : String) : Prop :=
  isSecretKey key = true ∧ resolve key = some value ∧ value ≠ ""

/-- The values of the secrets that some templates name. -/
def SecretIn (resolve : String → Option String) (texts : List String) (value : String) : Prop :=
  ∃ text ∈ texts, ∃ key ∈ placeholders text, SecretOf resolve key value

theorem Collects.pure {α : Type} (a : α) : Collects (Pure.pure a) (fun _ => False) :=
  fun _ => ⟨fun _ h => h, fun _ h => h.elim⟩

theorem Collects.bind {α β : Type} {x : StateM (List String) α} {f : α → StateM (List String) β} {p q : String → Prop}
    (hx : Collects x p) (hf : ∀ r, Collects (f r) q) : Collects (x >>= f) (fun value => p value ∨ q value) := by
  intro secrets
  obtain ⟨hkeep, hnote⟩ := hx secrets
  obtain ⟨hkeep', hnote'⟩ := hf (x.run secrets).1 (x.run secrets).2
  refine ⟨fun value h => hkeep' value (hkeep value h), ?_⟩
  rintro value (h | h)
  · exact hkeep' value (hnote value h)
  · exact hnote' value h

theorem Collects.mono {α : Type} {x : StateM (List String) α} {p q : String → Prop} (h : Collects x q) (hle : ∀ value, p value → q value) :
    Collects x p :=
  fun secrets => ⟨(h secrets).1, fun value hvalue => (h secrets).2 value (hle value hvalue)⟩

theorem collectSecrets_collects (key : String) : Collects (collectSecrets resolve key) (SecretOf resolve key) := by
  intro secrets
  change (∀ value ∈ secrets, value ∈ (collectSecrets resolve key secrets).2) ∧
    ∀ value, SecretOf resolve key value → value ∈ (collectSecrets resolve key secrets).2
  rw [collectSecrets]
  constructor
  · intro value h
    cases resolve key with
    | none => exact h
    | some v =>
      dsimp only
      split
      · exact List.mem_append_left _ h
      · exact h
  · rintro value ⟨hsecret, hvalue, hne⟩
    rw [hvalue]
    dsimp only
    rw [if_pos ⟨hne, hsecret⟩]
    exact List.mem_append_right _ (List.mem_singleton.mpr rfl)

theorem renderPieces_collects (ps : List Piece) :
    Collects (renderPieces (collectSecrets resolve) ps) (fun value => ∃ key ∈ keysOf ps, SecretOf resolve key value) := by
  induction ps with
  | nil => exact (Collects.pure []).mono (by simp [keysOf])
  | cons p ps ih =>
    cases p with
    | text c =>
      refine (ih.bind (fun rest => .pure _)).mono ?_
      exact fun value h => .inl h
    | hole key source =>
      refine ((collectSecrets_collects key).bind (fun value => ih.bind (fun rest => .pure _))).mono ?_
      rintro value ⟨k, hk, hsecret⟩
      rcases List.mem_cons.mp hk with rfl | hk
      · exact .inl hsecret
      · exact .inr (.inl ⟨k, hk, hsecret⟩)

theorem renderCommand_collects (cmd : String) : Collects (renderCommand cmd (collectSecrets resolve)) (SecretIn resolve [cmd]) := by
  refine ((renderPieces_collects _).bind (fun _ => .pure _)).mono ?_
  rintro value ⟨text, htext, hkey⟩
  rw [List.mem_singleton.mp htext] at hkey
  exact .inl hkey

theorem renderHeaders_collects (headers : List (String × String)) :
    Collects (renderHeaders (collectSecrets resolve) headers) (SecretIn resolve (headers.map (·.2))) := by
  induction headers with
  | nil => exact (Collects.pure []).mono (by simp [SecretIn])
  | cons e headers ih =>
    refine ((renderCommand_collects e.2).bind (fun _ => ih.bind (fun _ => .pure _))).mono ?_
    rintro value ⟨text, htext, hkey⟩
    rcases List.mem_cons.mp htext with rfl | htext
    · exact .inl ⟨_, List.mem_singleton.mpr rfl, hkey⟩
    · exact .inr (.inl ⟨text, htext, hkey⟩)

theorem resolveHTTPSpec_collects (spec : HTTPSpec) :
    Collects (resolveHTTPSpec spec (collectSecrets resolve)) (SecretIn resolve (spec.url :: spec.body :: spec.headers.map (·.2))) := by
  refine ((renderCommand_collects spec.url).bind (fun _ => (renderCommand_collects spec.body).bind
    (fun _ => (renderHeaders_collects spec.headers).bind (fun _ => .pure _)))).mono ?_
  rintro value ⟨text, htext, hkey⟩
  rcases List.mem_cons.mp htext with rfl | htext
  · exact .inl ⟨_, List.mem_singleton.mpr rfl, hkey⟩
  · rcases List.mem_cons.mp htext with rfl | htext
    · exact .inr (.inl ⟨_, List.mem_singleton.mpr rfl, hkey⟩)
    · exact .inr (.inr (.inl ⟨text, htext, hkey⟩))

theorem sqlOpSpec_collects (connID query : String) (secrets : List String) :
    (∀ value ∈ secrets, value ∈ (sqlOpSpec libs v connID query secrets).2) ∧
      ∀ c, v.getConnection connID = .ok c → c.password ≠ "" → c.password ∈ (sqlOpSpec libs v connID query secrets).2 := by
  unfold sqlOpSpec
  cases hconn : v.getConnection connID with
  | error e => exact ⟨fun _ h => h, nofun⟩
  | ok c =>
    have hboth : (∀ value ∈ secrets, value ∈ (if c.password ≠ "" then secrets ++ [c.password] else secrets)) ∧
        ∀ d, (Except.ok c : Except String Connection) = .ok d → d.password ≠ "" →
          d.password ∈ (if c.password ≠ "" then secrets ++ [c.password] else secrets) := by
      constructor
      · intro value h
        split
        · exact List.mem_append_left _ h
        · exact h
      · rintro d hd hne
        cases hd
        rw [if_pos hne]
        exact List.mem_append_right _ (List.mem_singleton.mpr rfl)
    dsimp only
    split
    · exact hboth
    · exact hboth

/-- The secrets of an operator are those its templates name, and the password of a
sql task's connection. -/
theorem renderOperator_collects {opBinary command : String} {t : Task} {opSpec : Option String} {secrets : List String}
    (h : renderOperator libs v opBinary t resolve = .ok (command, opSpec, secrets)) :
    (∀ value, SecretIn resolve (launched t) value → value ∈ secrets) ∧
      ∀ c, t.type = .sql → v.getConnection t.conn = .ok c → c.password ≠ "" → c.password ∈ secrets := by
  obtain ⟨_, hnote⟩ := (renderCommand_collects t.command : Collects (renderCommand t.command (collectSecrets resolve)) _) []
  have hcommand : ∀ value, SecretIn resolve [t.command] value → value ∈ ((renderCommand t.command (collectSecrets resolve)).run []).2 := hnote
  unfold renderOperator at h
  unfold launched
  cases hkind : t.type with
  | powershell =>
    rw [hkind] at h
    cases h
    exact ⟨hcommand, nofun⟩
  | jar =>
    rw [hkind] at h
    cases h
    exact ⟨hcommand, nofun⟩
  | python =>
    rw [hkind] at h
    cases h
    exact ⟨hcommand, nofun⟩
  | subdag =>
    rw [hkind] at h
    cases h
  | http =>
    rw [hkind] at h
    cases hhttp : t.http with
    | none =>
      rw [hhttp] at h
      cases h
    | some spec =>
      rw [hhttp] at h
      cases h
      obtain ⟨hkeep, hspec⟩ := (resolveHTTPSpec_collects spec : Collects (resolveHTTPSpec spec (collectSecrets resolve)) _) ((renderCommand t.command (collectSecrets resolve)).run []).2
      refine ⟨?_, nofun⟩
      rintro value ⟨text, htext, hkey⟩
      rcases List.mem_cons.mp htext with rfl | htext
      · exact hkeep value (hcommand value ⟨_, List.mem_singleton.mpr rfl, hkey⟩)
      · exact hspec value ⟨text, htext, hkey⟩
  | sql =>
    rw [hkind] at h
    generalize (renderCommand t.command (collectSecrets resolve)).run [] = rendered at h hcommand
    obtain ⟨query, named⟩ := rendered
    have hcollects := @sqlOpSpec_collects libs v t.conn query named
    have hspec : (sqlOpSpec libs v t.conn query named).2 = secrets := by
      dsimp only at h
      rw [Except.ok.injEq, Prod.mk.injEq, Prod.mk.injEq] at h
      exact h.2.2
    rw [hspec] at hcollects
    obtain ⟨hkeep, hconn⟩ := hcollects
    constructor
    · intro value h
      exact hkeep value (hcommand value h)
    · intro c _ hc hne
      exact hconn c hc hne

end Render

/-- Passwords are confined and masked. A task whose templates name no password and
that is no sql task is launched the same way, and its condition reads the same,
whatever the stored passwords are. A password that a template of the spec names,
and the one of a sql task's connection, is among the texts to mask. -/
theorem passwords_confined (libs : Libs) (opBinary : String) (run : DagRun) (t : Task) (ti : TaskInstance) (loc : Calendar)
    (staged : Except String String) :
    (∀ v w, SameButPasswords libs v w → t.type ≠ .sql →
      (∀ text ∈ templates t, ∀ key ∈ placeholders text, ¬ NamesPassword key) →
      renderTask libs v opBinary run t ti loc staged = renderTask libs w opBinary run t ti loc staged ∧
        ∀ tryNumber, renderWhen libs v run t tryNumber loc = renderWhen libs w run t tryNumber loc) ∧
    (∀ v spec, renderTask libs v opBinary run t ti loc staged = .ok spec →
      (∀ text ∈ launched t, ∀ key ∈ placeholders text, NamesPassword key →
        ∀ value, taskResolver libs v run t ti.tryNumber loc key = some value → value ≠ "" → value ∈ spec.redact) ∧
      ∀ c, t.type = .sql → v.getConnection t.conn = .ok c → c.password ≠ "" → c.password ∈ spec.redact) ∧
    ∀ v id c tryNumber, '.' ∉ id.toList → v.getConnection id = .ok c →
      taskResolver libs v run t tryNumber loc ("conn." ++ id ++ ".password") = some c.password := by
  refine ⟨?_, ?_, fun v id c tryNumber hid hc => resolver_password hid hc⟩
  · intro v w hsame htype hnames
    have hresolve : ∀ tryNumber, ∀ text ∈ templates t, ∀ key ∈ placeholders text,
        taskResolver libs v run t tryNumber loc key = taskResolver libs w run t tryNumber loc key :=
      fun tryNumber text htext key hkey => resolver_agree hsame _ _ _ _ _ (hnames text htext key hkey)
    constructor
    · have hoperator := @renderOperator_congr libs v w _ _ opBinary _ htype
        (fun text htext key hkey => hresolve ti.tryNumber text (List.mem_cons_of_mem _ htext) key hkey)
      rw [renderTask, renderTask, hoperator]
    · intro tryNumber
      have hwhen := hresolve tryNumber t.when_ List.mem_cons_self
      rw [renderWhen, renderWhen, renderCommand_congr (fun key hkey => congrArg Pure.pure (hwhen key hkey))]
  · intro v spec hspec
    obtain ⟨command, opSpec, secrets, hoperator, hredact⟩ : ∃ command opSpec secrets,
        renderOperator libs v opBinary t (taskResolver libs v run t ti.tryNumber loc) = .ok (command, opSpec, secrets) ∧
          spec.redact = secrets := by
      unfold renderTask at hspec
      dsimp only at hspec
      split at hspec
      · obtain ⟨_, _, hspec⟩ := Cronova.Parser.bind_eq_ok.mp hspec
        obtain ⟨⟨command, opSpec, secrets⟩, hoperator, hspec⟩ := Cronova.Parser.bind_eq_ok.mp hspec
        cases hspec
        exact ⟨command, opSpec, secrets, hoperator, rfl⟩
      · obtain ⟨_, _, hspec⟩ := Cronova.Parser.bind_eq_ok.mp hspec
        obtain ⟨⟨command, opSpec, secrets⟩, hoperator, hspec⟩ := Cronova.Parser.bind_eq_ok.mp hspec
        cases hspec
        exact ⟨command, opSpec, secrets, hoperator, rfl⟩
    obtain ⟨hnamed, hsql⟩ := renderOperator_collects hoperator
    rw [hredact]
    refine ⟨?_, hsql⟩
    intro text htext key hkey hpassword value hvalue hne
    exact hnamed value ⟨text, htext, key, hkey, namesPassword_secret hpassword, hvalue, hne⟩

end Cronova.Properties.Passwords
