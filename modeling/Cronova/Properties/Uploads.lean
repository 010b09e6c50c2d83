import Cronova.Files.Staging
import Cronova.Api.Projects

/-! Uploads into a project. What is uploaded stays below the project, and a project is left as
it was or as the upload says. This needs what the project has to be staged whole, which it is
not for a file with a backslash in its path, or when the first look at the project fails. -/
namespace Cronova.Properties.Uploads
open Cronova.Model Cronova.Files Cronova.Files.Sys Cronova.Text.Path Cronova.Api.Projects

variable {os : Os} {f c : Place → Option (Node Bytes)} {name rel staging : List Char} {p q r : Place} {src : Source}

/-! ### Where uploads go -/

/-- The place that an upload names, with either separator. -/
def target (name : List Char) : Place := resolve [] (slashed name)

def Plain (p : Place) : Prop := ∀ n ∈ p, '\\' ∉ n.val

theorem resolve_spell (p : Place) : resolve [] (spell p) = p := by
  rw [resolve_reduce, reduce_spell]
  rfl

theorem not_mem_slashed (name : List Char) : '\\' ∉ slashed name := by
  unfold slashed
  rw [List.mem_map]
  rintro ⟨c, -, hc⟩
  split at hc
  · exact absurd hc (by decide)
  · rename_i hne
    exact hne hc

theorem cleanRelPath_ok (h : cleanRelPath name = .ok rel) : rel = spell (target name) ∧ target name ≠ [] ∧ Plain (target name) := by
  unfold cleanRelPath at h
  split at h
  · cases h
  · rename_i hrelative
    split at h
    · cases h
    · rename_i hdown
      cases h
      rw [not_or] at hrelative hdown
      rw [not_or] at hdown
      rcases clean_cases (Bool.eq_false_iff.mpr hrelative.2) with hdot | hdots | hup | ⟨place, hne, hreduce, hclean⟩
      · exact absurd hdot hdown.1
      · exact absurd hdots hdown.2.1
      · exact absurd hup hdown.2.2
      · have htarget : target name = place := by
          unfold target
          rw [resolve_reduce, hreduce]
          rfl
        rw [htarget]
        refine ⟨hclean, hne, ?_⟩
        intro n hn hslash
        have hpart : n.val ∈ (slashed name).splitOn '/' := mem_down (by rw [hreduce]; exact hn)
        exact not_mem_slashed name (mem_of_mem_splitOn hpart hslash)

theorem mem_spell {d : Char} (h : d ∈ spell p) : d = '/' ∨ ∃ n ∈ p, d ∈ n.val := by
  induction p with
  | nil => exact absurd h List.not_mem_nil
  | cons n p ih =>
    cases p with
    | nil =>
      unfold spell at h
      rw [List.map_singleton, List.intercalate_singleton] at h
      exact .inr ⟨n, List.mem_cons_self, h⟩
    | cons m p =>
      unfold spell at h ih
      rw [List.map_cons, List.map_cons, List.intercalate_cons_cons, List.mem_append, List.mem_append, List.mem_singleton] at h
      rcases h with (h | h) | h
      · exact .inr ⟨n, List.mem_cons_self, h⟩
      · exact .inl h
      · rcases ih h with hslash | ⟨k, hk, hd⟩
        · exact .inl hslash
        · exact .inr ⟨k, List.mem_cons_of_mem n hk, hd⟩

/-- The path of an entry without backslashes names the entry. -/
theorem target_spell (h : Plain p) : target (spell p) = p := by
  have hsame : slashed (spell p) = spell p := by
    unfold slashed
    refine (List.map_congr_left ?_).trans (List.map_id _)
    intro d hd
    have hne : d ≠ '\\' := by
      intro heq
      rw [heq] at hd
      rcases mem_spell hd with hslash | ⟨n, hn, hmem⟩
      · exact absurd hslash (by decide)
      · exact h n hn hmem
    exact if_neg hne
  unfold target
  rw [hsame, resolve_spell]

/-- A path that is let through is relative, and leads below whatever directory it is joined with. -/
theorem cleanRelPath_below (h : cleanRelPath name = .ok rel) :
    isAbs rel = false ∧ ∀ cwd root, ∃ below, below ≠ [] ∧ resolve cwd (join root rel) = resolve cwd root ++ below := by
  obtain ⟨hspell, hne, -⟩ := cleanRelPath_ok h
  rw [hspell]
  exact ⟨isAbs_parts ⟨.above 0, target name⟩, fun cwd root => ⟨target name, hne, resolve_join cwd root (target name)⟩⟩

/-! ### One file into the staged tree -/

theorem meets_discard {e : UploadErr} {Q : Unit → FileTree Name Bytes → Prop} (hr : r ≠ []) :
    Meets (Strays f p) (do let _ ← Sys.outcome (Sys.remove os.faults (p ++ r) : Disk Unit); Sys.fail e) Q (Strays f p) := by
  exact .bind (.ignored (meets_remove_strays hr)) (fun _ => .fail (fun _ h => h))

theorem meets_copyLimited {dst : List Char} (hdst : resolve os.cwd dst = p ++ r) (hr : r ≠ []) (hc : c [] = some .dir) :
    Meets (fun t => t.node = graft f p c) (copyLimited os dst src)
      (fun n t => t.node = graft f p (fun q => if q = r then some (.file (src.data.take (maxProjectFileSize + 1))) else c q) ∧
        n = (src.data.take (maxProjectFileSize + 1)).length)
      (Strays f p) := by
  have hroot : (fun q => if q = r then some (Node.file (src.data.take (maxProjectFileSize + 1))) else c q) [] = some .dir := by
    change (if [] = r then _ else c []) = _
    rw [if_neg (Ne.symm hr), hc]
  unfold copyLimited
  rw [hdst]
  refine .bind (meets_writeData_graft hc hr) ?_
  intro _
  cases src.failure with
  | none => exact .pure (fun t h => ⟨h, rfl⟩)
  | some err =>
    change Meets _ (if _ then _ else _) _ _
    split
    · exact .fail (fun t h => strays_graft h hroot)
    · exact .pure (fun t h => ⟨h, rfl⟩)

theorem meets_fillFile {dst : List Char} (hdst : resolve os.cwd dst = p ++ r) (hr : r ≠ []) (hc : c [] = some .dir) :
    Meets (fun t => t.node = graft f p c) (fillFile os dst src)
      (fun _ t => t.node = graft f p (fun q => if q = r then some (.file src.data) else c q)) (Strays f p) := by
  unfold fillFile
  rw [hdst]
  refine .bind (.outcome (meets_copyLimited hdst hr hc)) ?_
  intro copied
  have hstrays : ∀ t : FileTree Name Bytes, (∃ n, copied = .ok n ∧
      t.node = graft f p (fun q => if q = r then some (.file (src.data.take (maxProjectFileSize + 1))) else c q) ∧
        n = (src.data.take (maxProjectFileSize + 1)).length) ∨ (∃ e, copied = .error e ∧ Strays f p t) → Strays f p t := by
    rintro t (⟨_, -, hnode, -⟩ | ⟨_, -, h⟩)
    · refine strays_graft hnode ?_
      rw [if_neg (Ne.symm hr), hc]
    · exact h
  refine .bind (.ignored .call) ?_
  intro closed
  cases copied with
  | error err => exact .mono (meets_discard hr) hstrays (fun _ _ h => h) (fun _ h => h)
  | ok n =>
    cases closed with
    | error err => exact .mono (meets_discard hr) hstrays (fun _ _ h => h) (fun _ h => h)
    | ok k =>
      change Meets _ (if _ then _ else _) _ _
      split
      · exact .mono (meets_discard hr) hstrays (fun _ _ h => h) (fun _ h => h)
      · rename_i hsmall
        refine .pure ?_
        rintro t (⟨m, hm, hnode, hlength⟩ | ⟨_, hm, -⟩)
        · cases hm
          have hall : src.data.take (maxProjectFileSize + 1) = src.data := by
            refine List.take_of_length_le ?_
            rw [List.length_take] at hlength
            omega
          rw [hall] at hnode
          exact hnode
        · cases hm

/-- A file is written where its path says, with all of its data. -/
theorem meets_writeProjectFile (hup : ∀ q, q <+: resolve os.cwd staging → q ≠ resolve os.cwd staging → f q = some .dir)
    (hc : c [] = some .dir) : Meets (fun t => t.node = graft f (resolve os.cwd staging) c) (writeProjectFile os staging name src)
      (fun _ t => target name ≠ [] ∧ Plain (target name) ∧ t.node = graft f (resolve os.cwd staging) (put c (target name, src.data)))
      (Strays f (resolve os.cwd staging)) := by
  unfold writeProjectFile
  cases hrel : cleanRelPath name with
  | error err => exact .fail (fun t h => strays_graft h hc)
  | ok rel =>
    obtain ⟨hspell, hne, hplain⟩ := cleanRelPath_ok hrel
    obtain ⟨parent, n, htarget⟩ := (List.eq_nil_or_concat' (target name)).resolve_left hne
    have hdst : resolve os.cwd (join staging rel) = resolve os.cwd staging ++ target name := by rw [hspell, resolve_join]
    have hdir : resolve os.cwd (dir (join staging rel)) = resolve os.cwd staging ++ (target name).dropLast := by
      rw [hspell, htarget, resolve_dir_join, List.dropLast_concat]
    have hroot : (if [] <+: (target name).dropLast then some .dir else c []) = some .dir := by
      rw [if_pos List.nil_prefix]
    have hput : (fun q => if q = target name then some (Node.file src.data) else if q = target name then some (.file [])
        else if q <+: (target name).dropLast then some .dir else c q) = put c (target name, src.data) := by
      funext q
      unfold put
      by_cases hq : q = target name
      · rw [if_pos hq, if_pos hq]
      · rw [if_neg hq, if_neg hq, if_neg hq]
        simp only [prefix_dropLast hne hq]
    change Meets _ (if _ then _ else _) _ _
    split
    · exact .fail (fun t h => strays_graft h hc)
    · rw [hdir, hdst]
      refine .bind (meets_mkdirAll_graft hup hc) ?_
      intro _
      refine .bind (meets_openFile_graft hroot) ?_
      intro _
      refine .mono (meets_fillFile hdst hne (by rw [if_neg (Ne.symm hne)]; exact hroot)) (fun _ h => h) ?_ (fun _ h => h)
      intro _ t hnode
      rw [hput] at hnode
      exact ⟨hne, hplain, hnode⟩

/-! ### What the project has into the staged tree -/

def PlainFiles (c : Place → Option (Node Bytes)) : Prop := ∀ q data, c q = some (.file data) → Plain q

/-- A staged tree with some entries of the old one. -/
structure Copied (old c : Place → Option (Node Bytes)) (done : List Place) : Prop where
  root : c [] = some .dir
  plain : PlainFiles c
  sound : PlainFiles old → ∀ q, q ≠ [] → c q ≠ none → c q = old q
  whole : PlainFiles old → ∀ q ∈ done, c q = old q

section Copied
variable {old : Place → Option (Node Bytes)} {done : List Place} {entry : Place} {data : Bytes}

theorem Copied.dir (h : Copied old c done) (hentry : old entry = some .dir) (hdirs : ∀ q, q <+: entry → q ≠ entry → old q = some .dir) :
    Copied old (fun q => if q <+: entry then some .dir else c q) (done ++ [entry]) := by
  have hold : ∀ q, q <+: entry → old q = some .dir := by
    intro q hq
    by_cases heq : q = entry
    · rw [heq, hentry]
    · exact hdirs q hq heq
  refine ⟨if_pos List.nil_prefix, ?_, ?_, ?_⟩
  · intro q data hq
    change (if q <+: entry then some .dir else c q) = _ at hq
    split at hq
    · cases hq
    · exact h.plain q data hq
  · intro hplain q hne hq
    change (if q <+: entry then some .dir else c q) ≠ none at hq
    split
    · rename_i hpre
      rw [hold q hpre]
    · rename_i hpre
      rw [if_neg hpre] at hq
      exact h.sound hplain q hne hq
  · intro hplain q hq
    split
    · rename_i hpre
      rw [hold q hpre]
    · rename_i hpre
      rcases List.mem_append.mp hq with hq | hq
      · exact h.whole hplain q hq
      · rw [List.mem_singleton.mp hq] at hpre
        exact absurd (List.prefix_refl entry) hpre

theorem Copied.file (h : Copied old c done) (hentry : old entry = some (.file data)) (hdirs : ∀ q, q <+: entry → q ≠ entry → old q = some .dir)
    (hne : r ≠ []) (hr : Plain r) (hsame : Plain entry → r = entry) : Copied old (put c (r, data)) (done ++ [entry]) := by
  have hold : PlainFiles old → ∀ q, q <+: r → put c (r, data) q = old q := by
    intro hplain q hq
    have heq := hsame (hplain entry data hentry)
    unfold put
    by_cases hself : q = r
    · rw [if_pos hself, hself, heq, hentry]
    · rw [if_neg hself, if_pos hq]
      rw [heq] at hq hself
      rw [hdirs q hq hself]
  refine ⟨put_root hne, ?_, ?_, ?_⟩
  · intro q d hq
    unfold put at hq
    split at hq
    · rename_i hself
      rw [hself]
      exact hr
    · split at hq
      · cases hq
      · exact h.plain q d hq
  · intro hplain q hq hsome
    by_cases hpre : q <+: r
    · exact hold hplain q hpre
    · rw [put_away hpre] at hsome ⊢
      exact h.sound hplain q hq hsome
  · intro hplain q hq
    by_cases hpre : q <+: r
    · exact hold hplain q hpre
    · rw [put_away hpre]
      rcases List.mem_append.mp hq with hq | hq
      · exact h.whole hplain q hq
      · rw [List.mem_singleton.mp hq, hsame (hplain entry data hentry)] at hpre
        exact absurd (List.prefix_refl entry) hpre

/-- A tree, with a directory at its root. -/
def withRoot (c : Place → Option (Node Bytes)) (q : Place) : Option (Node Bytes) := if q = [] then some .dir else c q

theorem Copied.start : Copied old (withRoot (fun _ => none)) [] := by
  have hall : ∀ q, q ≠ [] → withRoot (fun _ => none) q = none := fun _ hq => if_neg hq
  refine ⟨rfl, ?_, ?_, fun _ q hq => absurd hq List.not_mem_nil⟩
  · intro q data hq
    by_cases hnil : q = []
    · rw [hnil] at hq
      cases hq
    · rw [hall q hnil] at hq
      cases hq
  · intro _ q hne hq
    exact absurd (hall q hne) hq

/-- With all entries, the staged tree is the old one. -/
theorem Copied.all (h : Copied old c done) (hdone : ∀ q, q ≠ [] → old q ≠ none → q ∈ done) (hplain : PlainFiles old) : c = withRoot old := by
  funext q
  unfold withRoot
  by_cases hq : q = []
  · rw [if_pos hq, hq, h.root]
  · rw [if_neg hq]
    by_cases hold : old q = none
    · rw [hold]
      by_contra hsome
      have hsame := h.sound hplain q hq hsome
      rw [hsame] at hsome
      exact hsome hold
    · exact h.whole hplain q (hdone q hq hold)

end Copied

section Existing
variable {t₀ : FileTree Name Bytes} {projDir : List Char}

/-- What the project has, by the places below it. -/
def treeAt (t : FileTree Name Bytes) (p : Place) (q : Place) : Option (Node Bytes) := t.node (p ++ q)

theorem meets_copyEntry {done : List Place} {entry : Place} (hS : t₀.node (resolve os.cwd staging) = some .dir)
    (hapart : ∀ q, ¬ resolve os.cwd staging <+: resolve os.cwd projDir ++ q)
    (hcopied : Copied (treeAt t₀ (resolve os.cwd projDir)) c done) :
    Meets (fun t => t.node = graft t₀.node (resolve os.cwd staging) c) (copyEntry os projDir staging entry)
      (fun _ t => ∃ c', Copied (treeAt t₀ (resolve os.cwd projDir)) c' (done ++ [entry]) ∧ t.node = graft t₀.node (resolve os.cwd staging) c')
      (Strays t₀.node (resolve os.cwd staging)) := by
  have hup : ∀ q, q <+: resolve os.cwd staging → q ≠ resolve os.cwd staging → t₀.node q = some .dir := by
    intro q hq hne
    exact FileTree.dir_above (by rw [hS]; exact Option.some_ne_none _) hq hne
  have hdirs : treeAt t₀ (resolve os.cwd projDir) entry ≠ none →
      ∀ q, q <+: entry → q ≠ entry → treeAt t₀ (resolve os.cwd projDir) q = some .dir := by
    intro hsome q hq hne
    refine FileTree.dir_above hsome ((List.prefix_append_right_inj _).mpr hq) ?_
    intro heq
    exact hne (List.append_cancel_left heq)
  unfold copyEntry
  refine .bind (Q := fun n t => n = treeAt t₀ (resolve os.cwd projDir) entry ∧ t.node = graft t₀.node (resolve os.cwd staging) c)
    (.mono meets_stat (fun _ h => h) ?_ (fun t h => strays_graft h hcopied.root)) ?_
  · rintro n t ⟨hnode, rfl⟩
    refine ⟨?_, hnode⟩
    rw [hnode]
    exact graft_outside (hapart entry)
  · intro n
    refine .of_and ?_
    intro hn
    cases n with
    | none => exact .fail (fun t h => strays_graft h hcopied.root)
    | some node =>
      have hsome := hdirs (by rw [← hn]; exact Option.some_ne_none _)
      cases node with
      | dir =>
        change Meets _ (Sys.mkdirAll os.faults (resolve os.cwd (join staging (spell entry)))) _ _
        rw [resolve_join]
        refine .mono (meets_mkdirAll_graft hup hcopied.root) (fun _ h => h) ?_ (fun _ h => h)
        intro _ t hnode
        exact ⟨_, hcopied.dir hn.symm hsome, hnode⟩
      | file data =>
        refine .bind (.mono .call (fun _ h => h) (fun _ _ h => h) (fun t h => strays_graft h hcopied.root)) ?_
        intro _
        refine .bind (.ignored .call) ?_
        intro read
        refine .mono (meets_writeProjectFile hup hcopied.root) (fun _ h => h) ?_ (fun _ h => h)
        rintro _ t ⟨hne, hplain, hnode⟩
        exact ⟨_, hcopied.file hn.symm hsome hne hplain target_spell, hnode⟩

theorem meets_copyProjectTree (hstaging : staging ≠ []) (hS : t₀.node (resolve os.cwd staging) = some .dir)
    (hapart : ∀ q, ¬ resolve os.cwd staging <+: resolve os.cwd projDir ++ q) :
    Meets (fun t => t.node = graft t₀.node (resolve os.cwd staging) (withRoot (fun _ => none))) (copyProjectTree os projDir staging)
      (fun _ t => ∃ c, c [] = some .dir ∧ PlainFiles c ∧
        (PlainFiles (treeAt t₀ (resolve os.cwd projDir)) → c = withRoot (treeAt t₀ (resolve os.cwd projDir))) ∧
        t.node = graft t₀.node (resolve os.cwd staging) c)
      (Strays t₀.node (resolve os.cwd staging)) := by
  have hup : ∀ q, q <+: resolve os.cwd staging → q ≠ resolve os.cwd staging → t₀.node q = some .dir := by
    intro q hq hne
    exact FileTree.dir_above (by rw [hS]; exact Option.some_ne_none _) hq hne
  unfold copyProjectTree
  rw [resolve_join_dot os.cwd hstaging]
  refine .bind (.mono .call (fun _ h => h) (fun _ _ h => h) (fun t h => strays_graft h rfl)) ?_
  intro _
  refine .bind (meets_mkdirAll_self hup rfl) ?_
  intro _
  refine .bind (.look (Q := fun t' t => t'.node = graft t₀.node (resolve os.cwd staging) (withRoot (fun _ => none)) ∧
    t.node = graft t₀.node (resolve os.cwd staging) (withRoot (fun _ => none))) (fun _ h => ⟨h, h⟩)) ?_
  intro t'
  refine .of_and ?_
  intro ht'
  refine .mono (.foldlM (fun done _ t => ∃ c, Copied (treeAt t₀ (resolve os.cwd projDir)) c done ∧ t.node = graft t₀.node (resolve os.cwd staging) c) ?_)
    (fun t h => ⟨_, .start, h⟩) ?_ (fun _ h => h)
  · intro done entry _ _
    refine .of_exists ?_
    intro c
    refine .of_and ?_
    intro hcopied
    exact meets_copyEntry hS hapart hcopied
  · rintro _ t ⟨c, hcopied, hnode⟩
    refine ⟨c, hcopied.root, hcopied.plain, hcopied.all ?_, hnode⟩
    intro q hq hold
    rw [List.mem_insertionSort, FileTree.mem_below, ht', graft_outside (hapart q)]
    exact ⟨hq, hold⟩

theorem meets_stageExisting (hstaging : staging ≠ []) (hS : t₀.node (resolve os.cwd staging) = some .dir)
    (hfresh : ∀ q, q ≠ [] → t₀.node (resolve os.cwd staging ++ q) = none)
    (hapart : ∀ q, ¬ resolve os.cwd staging <+: resolve os.cwd projDir ++ q)
    (hold : t₀.node (resolve os.cwd projDir) = none ∨ t₀.node (resolve os.cwd projDir) = some .dir) :
    Meets (fun t => t.node = t₀.node) (stageExisting os projDir staging)
      (fun _ t => ∃ c, c [] = some .dir ∧ PlainFiles c ∧ (os.statFails = true → c = withRoot (fun _ => none)) ∧
        (os.statFails = false → PlainFiles (treeAt t₀ (resolve os.cwd projDir)) → c = withRoot (treeAt t₀ (resolve os.cwd projDir))) ∧
        t.node = graft t₀.node (resolve os.cwd staging) c)
      (Strays t₀.node (resolve os.cwd staging)) := by
  have hstart : t₀.node = graft t₀.node (resolve os.cwd staging) (withRoot (fun _ => none)) := by
    refine graft_eq (fun _ _ => rfl) ?_
    intro q
    unfold withRoot
    split
    · rename_i hq
      rw [hq, List.append_nil, hS]
    · rename_i hq
      exact hfresh q hq
  have hcopied : Copied (treeAt t₀ (resolve os.cwd projDir)) (withRoot (fun _ => none)) [] := .start
  unfold stageExisting
  split
  · rename_i hstat
    refine .pure ?_
    intro t h
    rw [hstart] at h
    refine ⟨_, rfl, hcopied.plain, fun _ => rfl, ?_, h⟩
    intro hfalse
    rw [hstat] at hfalse
    cases hfalse
  · rename_i hstat
    refine .bind (.look (Q := fun t' t => t'.node = t₀.node ∧ t.node = t₀.node) (fun _ h => ⟨h, h⟩)) ?_
    intro t'
    refine .of_and ?_
    intro ht'
    rcases hold with hold | hold
    · rw [ht', hold]
      refine .pure ?_
      intro t h
      rw [hstart] at h
      refine ⟨_, rfl, hcopied.plain, fun _ => rfl, ?_, h⟩
      intro _ _
      have hgone : treeAt t₀ (resolve os.cwd projDir) = fun _ => none := by
        funext q
        exact FileTree.none_below hold (List.prefix_append _ q)
      rw [hgone]
    · rw [ht', hold]
      refine .mono (meets_copyProjectTree hstaging hS hapart) ?_ ?_ (fun _ h => h)
      · intro t h
        rw [h]
        exact hstart
      · rintro _ t ⟨c, hroot, hplain, hall, hnode⟩
        exact ⟨c, hroot, hplain, fun htrue => absurd htrue hstat, fun _ => hall, hnode⟩

end Existing

/-! ### What the form brings into the staged tree -/

def dataOf : Except UploadErr Source → Bytes
  | .ok src => src.data
  | .error _ => []

def brought (file : List Char × FilePart) : Place × Bytes := (target file.1, dataOf file.2.content)

/-- The files of an archive. What else is in there is left out. -/
def packed (entries : List ZipEntry) : List (Place × Bytes) :=
  (entries.filter (fun e => !(e.isDir || !e.isRegular))).map (fun e => (target e.name, dataOf e.content))

/-- The files that a form brings, in order, by the places that their paths name. -/
def uploads (form : Form) : List (Place × Bytes) :=
  match form.zipPart with
  | some fh => packed (fh.archive.getD [])
  | none =>
    if form.files ≠ [] then form.named.map brought
    else [(target form.filename, form.content)]

/-- The staged tree has some files over `c`, and none of them in a place with a backslash. -/
def Brought (f : Place → Option (Node Bytes)) (p : Place) (c : Place → Option (Node Bytes)) (us : List (Place × Bytes))
    (t : FileTree Name Bytes) : Prop :=
  (∀ u ∈ us, u.1 ≠ [] ∧ Plain u.1) ∧ t.node = graft f p (us.foldl put c)

section Brought
variable {us : List (Place × Bytes)} {files : List (List Char × FilePart)} {fh : FilePart} {form : Form}

theorem Brought.strays {t : FileTree Name Bytes} (hc : c [] = some .dir) (h : Brought f p c us t) : Strays f p t :=
  strays_graft h.2 (foldl_put_root hc (fun u hu => (h.1 u hu).1))

theorem meets_dirStats {P : FileTree Name Bytes → Prop} {dir : List Char} : Meets P (dirStats os dir) (fun _ => P) P := by
  refine .bind (.look (Q := fun _ => P) (fun _ h => h)) ?_
  intro t
  refine .foldlM (fun _ _ => P) ?_
  intro _ entry stats _
  refine .bind (.ignored .call) ?_
  intro read
  split
  · exact .pure (fun _ h => h)
  · exact .pure (fun _ h => h)

variable (hup : ∀ q, q <+: resolve os.cwd staging → q ≠ resolve os.cwd staging → f q = some .dir) (hc : c [] = some .dir)
include hup hc

theorem meets_bring : Meets (Brought f (resolve os.cwd staging) c us) (writeProjectFile os staging name src)
    (fun _ => Brought f (resolve os.cwd staging) c (us ++ [(target name, src.data)])) (Strays f (resolve os.cwd staging)) := by
  refine .of_and ?_
  intro hus
  refine .mono (meets_writeProjectFile hup (foldl_put_root hc (fun u hu => (hus u hu).1))) (fun _ h => h) ?_ (fun _ h => h)
  rintro _ t ⟨hne, hplain, hnode⟩
  refine ⟨?_, ?_⟩
  · intro u hu
    rcases List.mem_append.mp hu with hu | hu
    · exact hus u hu
    · rw [List.mem_singleton.mp hu]
      exact ⟨hne, hplain⟩
  · rw [hnode, List.foldl_append]
    rfl

theorem meets_writeFiles : Meets (Brought f (resolve os.cwd staging) c []) (writeFiles os staging files)
    (fun _ => Brought f (resolve os.cwd staging) c (files.map brought))
    (Strays f (resolve os.cwd staging)) := by
  refine .foldlM (fun done _ => Brought f (resolve os.cwd staging) c (done.map brought)) ?_
  intro done file written _
  obtain ⟨rel, fh⟩ := file
  rw [List.map_append]
  change Meets _ (if _ then _ else _) _ _
  split
  · exact .fail (fun _ h => h.strays hc)
  · cases hcontent : fh.content with
    | error err => exact .fail (fun _ h => h.strays hc)
    | ok src =>
      have hbrought : brought (rel, fh) = (target rel, src.data) := by
        unfold brought
        rw [hcontent]
        rfl
      refine .bind (meets_bring hup hc) ?_
      intro _
      rw [List.map_singleton, hbrought]
      exact .pure (fun _ h => h)

theorem meets_extractZipUpload : Meets (Brought f (resolve os.cwd staging) c []) (extractZipUpload os staging fh)
    (fun _ => Brought f (resolve os.cwd staging) c (packed (fh.archive.getD []))) (Strays f (resolve os.cwd staging)) := by
  unfold extractZipUpload
  cases fh.content with
  | error err => exact .fail (fun _ h => h.strays hc)
  | ok _ =>
    cases fh.archive with
    | none => exact .fail (fun _ h => h.strays hc)
    | some entries =>
      dsimp only
      cases declared entries with
      | none => exact .fail (fun _ h => h.strays hc)
      | some total =>
        change Meets _ (if _ then _ else _) _ _
        split
        · exact .fail (fun _ h => h.strays hc)
        · refine .bind (.mono (meets_mkdirAll_self hup hc) (fun _ h => h.2) (fun _ _ h => h) (fun _ h => h)) ?_
          intro _
          refine .mono (P := Brought f (resolve os.cwd staging) c []) ?_ (fun t h => ⟨fun u hu => absurd hu List.not_mem_nil, h⟩) (fun _ _ h => h) (fun _ h => h)
          refine .foldlM (fun done _ => Brought f (resolve os.cwd staging) c (packed done)) ?_
          intro done e n _
          unfold packed
          rw [List.filter_append, List.map_append]
          by_cases hskip : (e.isDir || !e.isRegular) = true
          · rw [if_pos hskip, List.filter_cons_of_neg (by rw [hskip]; decide)]
            exact .pure (fun _ h => by rw [List.filter_nil, List.map_nil, List.append_nil]; exact h)
          · rw [if_neg hskip, List.filter_cons_of_pos (by rw [Bool.not_eq_true] at hskip; rw [hskip]; rfl)]
            cases hcontent : e.content with
            | error err => exact .fail (fun _ h => h.strays hc)
            | ok src =>
              refine .bind (meets_bring hup hc) ?_
              intro _
              refine .pure ?_
              intro t h
              rw [List.filter_nil, List.map_singleton, hcontent]
              exact h

theorem meets_stageUploads : Meets (Brought f (resolve os.cwd staging) c []) (stageUploads os staging form)
    (fun _ => Brought f (resolve os.cwd staging) c (uploads form)) (Strays f (resolve os.cwd staging)) := by
  unfold stageUploads uploads
  cases form.zipPart with
  | some fh => exact .mapError (meets_extractZipUpload hup hc)
  | none =>
    dsimp only
    by_cases hfiles : form.files ≠ []
    · rw [if_pos hfiles, if_pos hfiles]
      exact .mapError (meets_writeFiles hup hc)
    · rw [if_neg hfiles, if_neg hfiles]
      split
      · exact .fail (fun _ h => h.strays hc)
      · refine .mapError (.bind (meets_bring hup hc) ?_)
        intro _
        exact .pure (fun _ h => h)

end Brought

/-! ### The staged tree takes the place of the old one -/

section Commit
variable {t₁ : FileTree Name Bytes} {P : Place} {nm sm b : Name} {g : Place → Option (Node Bytes)} {dst backup : List Char}

theorem eq_of_sibling {x y : Name} (h : P ++ [x] <+: P ++ [y] ++ r) : x = y := by
  rw [List.append_assoc, List.prefix_append_right_inj, List.singleton_append, List.cons_prefix_cons] at h
  exact h.1

/-- What was at one name is at another one. -/
structure Aside (f g : Place → Option (Node Bytes)) (P : Place) (nm b : Name) : Prop where
  gone : ∀ r, g (P ++ [nm] ++ r) = none
  kept : ∀ r, g (P ++ [b] ++ r) = f (P ++ [nm] ++ r)
  rest : ∀ q, ¬ P ++ [nm] <+: q → ¬ P ++ [b] <+: q → g q = f q

theorem Aside.back {h : Place → Option (Node Bytes)} (hg : Aside f g P nm b) (hb : ∀ r, f (P ++ [b] ++ r) = none) (hh : Aside g h P b nm) : h = f := by
  funext q
  by_cases hq : P ++ [nm] <+: q
  · obtain ⟨r, rfl⟩ := hq
    rw [hh.kept, hg.kept]
  · by_cases hqb : P ++ [b] <+: q
    · obtain ⟨r, rfl⟩ := hqb
      rw [hh.gone, hb]
    · rw [hh.rest q hqb hq, hg.rest q hq hqb]

theorem aside_none (hnm : ∀ r, f (P ++ [nm] ++ r) = none) (hb : ∀ r, f (P ++ [b] ++ r) = none) : Aside f f P nm b :=
  ⟨hnm, fun r => (hb r).trans (hnm r).symm, fun _ _ _ => rfl⟩

theorem aside_rename (hne : nm ≠ b)
    (hnode : ∀ q, g q = if P ++ [b] <+: q then f (P ++ [nm] ++ q.drop (P ++ [b]).length) else if P ++ [nm] <+: q then none else f q) :
    Aside f g P nm b := by
  refine ⟨?_, ?_, ?_⟩
  · intro r
    rw [hnode, if_neg (fun h => hne (eq_of_sibling h).symm), if_pos (List.prefix_append _ r)]
  · intro r
    rw [hnode, if_pos (List.prefix_append _ r), List.drop_left]
  · intro q hnm hb
    rw [hnode, if_neg hb, if_neg hnm]

theorem meets_renameBack (hdst : resolve os.cwd dst = P ++ [nm]) (hbackup : resolve os.cwd backup = P ++ [b]) (hne : nm ≠ b)
    (hold : f (P ++ [nm]) ≠ none) (hb : ∀ r, f (P ++ [b] ++ r) = none) (hparent : f P = some .dir) (hback : os.renameBackFails = false) :
    Meets (fun t => Aside f t.node P nm b) (renameBack os backup dst) (fun _ t => t.node = f) (fun _ => False) := by
  unfold renameBack
  rw [hback, hdst, hbackup, if_neg Bool.false_ne_true]
  refine .update ?_ ?_
  · intro t t' hpre hop
    obtain ⟨-, -, -, hnode⟩ := FileTree.rename_spec hop
    exact hpre.back hb (aside_rename hne.symm hnode)
  · intro t hpre hop
    refine FileTree.rename_isSome ?_ ?_ ?_ ?_ hop
    · have hkept := hpre.kept []
      rw [List.append_nil, List.append_nil] at hkept
      rw [hkept]
      exact hold
    · have hgone := hpre.gone []
      rw [List.append_nil] at hgone
      exact hgone
    · have hout : ∀ x : Name, ¬ P ++ [x] <+: P := by
        intro x h
        have hlength := h.length_le
        rw [List.length_append, List.length_singleton] at hlength
        omega
      rw [List.dropLast_concat, hpre.rest P (hout nm) (hout b), hparent]
    · intro h
      rw [← List.append_nil (P ++ [nm])] at h
      exact hne (eq_of_sibling h).symm

theorem meets_mkdirTemp {dir pattern : List Char} : Meets (fun t => t.node = f) (Api.Projects.mkdirTemp os dir pattern)
    (fun path t => ∃ n : Name, path = inside dir n.val ∧ (∃ k, n.val = pattern ++ os.random k) ∧ f (resolve os.cwd dir) = some .dir ∧
      f (resolve os.cwd dir ++ [n]) = none ∧ t.node = fun q => if q = resolve os.cwd dir ++ [n] then some .dir else f q)
    (fun t => t.node = f) := by
  refine .bind Sys.meets_mkdirTemp ?_
  intro n
  refine .pure ?_
  rintro t ⟨⟨k, hname⟩, hparent, hnone, hnode⟩
  split at hname
  · cases hname
    exact ⟨_, rfl, ⟨k, rfl⟩, hparent, hnone, hnode⟩
  · cases hname

/-- The old tree is set aside, if there is one. -/
theorem meets_aside {old : Option (Node Bytes)} (hdst : resolve os.cwd dst = P ++ [nm]) (hbackup : resolve os.cwd backup = P ++ [b]) (hne : nm ≠ b)
    (hold : old = f (P ++ [nm])) (hb : ∀ r, f (P ++ [b] ++ r) = none) (hnm : f (P ++ [nm]) = none → ∀ r, f (P ++ [nm] ++ r) = none) :
    Meets (fun t => t.node = f)
      (if old.isSome then Sys.rename os.faults (resolve os.cwd dst) (resolve os.cwd backup) else pure () : Disk Unit)
      (fun _ t => Aside f t.node P nm b) (fun t => t.node = f) := by
  rw [hdst, hbackup]
  cases old with
  | none =>
    refine .pure ?_
    intro t h
    rw [h]
    exact aside_none (hnm hold.symm) hb
  | some node =>
    refine .mono meets_rename (fun _ h => h) ?_ (fun _ h => h)
    rintro _ t ⟨-, -, hnode⟩
    exact aside_rename hne hnode

theorem meets_swap (hg : ∀ r, g (P ++ [sm] ++ r) = f (P ++ [sm] ++ r)) (hne : sm ≠ nm) :
    Meets (fun t => t.node = g) (Sys.rename os.faults (P ++ [sm]) (P ++ [nm]) : Disk Unit)
      (fun _ t => (∀ r, t.node (P ++ [nm] ++ r) = f (P ++ [sm] ++ r)) ∧ ∀ q, ¬ P ++ [nm] <+: q → ¬ P ++ [sm] <+: q → t.node q = g q)
      (fun t => t.node = g) := by
  refine .mono meets_rename (fun _ h => h) ?_ (fun _ h => h)
  rintro _ t ⟨-, -, hnode⟩
  have haside := aside_rename hne hnode
  refine ⟨?_, ?_⟩
  · intro r
    rw [haside.kept, hg]
  · intro q hnm hsm
    exact haside.rest q hsm hnm

theorem meets_commitProjectTree (hdst : resolve os.cwd dst = P ++ [nm]) (hdir : resolve os.cwd (dir dst) = P) (hbase : base dst = nm.val)
    (hdirne : dir dst ≠ []) (hS : resolve os.cwd staging = P ++ [sm]) (hsm : sm ≠ nm) (hstaged : t₁.node (P ++ [sm]) = some .dir)
    (hback : os.renameBackFails = false) : Meets (fun t => t.node = t₁.node) (commitProjectTree os dst staging)
      (fun _ t => (∀ r, t.node (P ++ [nm] ++ r) = t₁.node (P ++ [sm] ++ r)) ∧
        ∀ q, ¬ P ++ [nm] <+: q → ¬ P ++ [sm] <+: q → t₁.node q ≠ none → t.node q = t₁.node q)
      (fun t => ∀ q, P ++ [nm] <+: q ∨ t₁.node q ≠ none → t.node q = t₁.node q) := by
  have hbelow : ∀ x : Name, t₁.node (P ++ [x]) = none → ∀ r, t₁.node (P ++ [x] ++ r) = none := by
    intro x hx r
    exact FileTree.none_below hx (List.prefix_append _ r)
  unfold commitProjectTree
  refine .bind (.mono meets_mkdirTemp (fun _ h => h) (fun _ _ h => h) (fun t h q _ => congrFun h q)) ?_
  intro backup
  refine .of_exists ?_
  intro b
  refine .of_and ?_
  intro hpath
  refine .of_and ?_
  rintro ⟨k, hname⟩
  rw [hdir]
  refine .of_and ?_
  intro hparent
  refine .of_and ?_
  intro hfresh
  have hb : ∀ r, t₁.node (P ++ [b] ++ r) = none := hbelow b hfresh
  have hne : nm ≠ b := by
    intro heq
    rw [← heq, hbase] at hname
    have hlength := congrArg List.length hname
    simp only [List.length_append, List.length_cons] at hlength
    omega
  have hbackup : resolve os.cwd backup = P ++ [b] := by rw [hpath, resolve_inside os.cwd hdirne, hdir]
  have hspare : ∀ q, P ++ [nm] <+: q ∨ t₁.node q ≠ none → ¬ P ++ [b] <+: q := by
    rintro q hq ⟨r, rfl⟩
    rcases hq with hq | hq
    · exact hne (eq_of_sibling hq)
    · exact hq (hb r)
  refine .bind (Q := fun _ t => t.node = t₁.node) (.change ?_ ?_) ?_
  · intro t t' hpre hop
    rw [hbackup] at hop
    funext q
    rw [FileTree.remove_spec hop, hpre]
    split
    · rename_i hq
      rw [hq, hfresh]
    · rename_i hq
      exact if_neg hq
  · intro t hpre q hq
    rw [hpre]
    refine if_neg ?_
    intro heq
    rw [heq] at hq
    exact hspare _ hq (List.prefix_refl _)
  intro _
  refine .bind (Q := fun old t => old = t₁.node (P ++ [nm]) ∧ t.node = t₁.node) (.mono meets_stat (fun _ h => h) ?_ (fun t h q _ => congrFun h q)) ?_
  · rintro old t ⟨hnode, rfl⟩
    rw [hdst, hnode]
    exact ⟨rfl, rfl⟩
  intro old
  refine .of_and ?_
  intro hold
  refine .bind (.mono (meets_aside hdst hbackup hne hold hb (hbelow nm)) (fun _ h => h) (fun _ _ h => h) (fun t h q _ => congrFun h q)) ?_
  intro _
  have hswap : Meets (fun t => Aside t₁.node t.node P nm b) (Sys.rename os.faults (resolve os.cwd staging) (resolve os.cwd dst) : Disk Unit)
      (fun _ t => (∀ r, t.node (P ++ [nm] ++ r) = t₁.node (P ++ [sm] ++ r)) ∧
        ∀ q, ¬ P ++ [nm] <+: q → ¬ P ++ [sm] <+: q → ¬ P ++ [b] <+: q → t.node q = t₁.node q)
      (fun t => Aside t₁.node t.node P nm b) := by
    refine .of_start ?_
    intro t₂ hpre
    have hbsm : b ≠ sm := by
      intro heq
      rw [heq, hstaged] at hfresh
      exact Option.some_ne_none _ hfresh
    have hkeep : ∀ r, t₂.node (P ++ [sm] ++ r) = t₁.node (P ++ [sm] ++ r) := by
      intro r
      exact hpre.rest _ (fun h => hsm (eq_of_sibling h).symm) (fun h => hbsm (eq_of_sibling h))
    rw [hS, hdst]
    refine .mono (meets_swap hkeep hsm) (fun t h => congrArg FileTree.node h) ?_ ?_
    · rintro _ t ⟨hin, hout⟩
      refine ⟨hin, ?_⟩
      intro q hnm hsm hbq
      rw [hout q hnm hsm, hpre.rest q hnm hbq]
    · intro t h
      rw [h]
      exact hpre
  refine .bind (.outcome hswap) ?_
  intro moved
  cases moved with
  | error err =>
    have hrestore : Meets (fun t => Aside t₁.node t.node P nm b) (if old.isSome then renameBack os backup dst else pure ())
        (fun _ t => t.node = t₁.node) (fun _ => False) := by
      cases hcase : old with
      | none =>
        refine .pure ?_
        intro t h
        have hnm := hbelow nm (by rw [← hold, hcase])
        exact h.back hb (aside_none (fun r => (h.kept r).trans (hnm r)) h.gone)
      | some node => exact meets_renameBack hdst hbackup hne (by rw [← hold, hcase]; exact Option.some_ne_none _) hb hparent hback
    refine .mono (.bind (.outcome hrestore) ?_) ?_ (fun _ _ h => h) (fun _ h => h)
    · intro restored
      refine .fail ?_
      rintro t (⟨_, -, h⟩ | ⟨_, -, h⟩)
      · exact fun q _ => congrFun h q
      · exact h.elim
    · rintro t (⟨_, hok, -⟩ | ⟨_, -, h⟩)
      · cases hok
      · exact h
  | ok _ =>
    refine .bind (Q := fun _ t => (∀ r, t.node (P ++ [nm] ++ r) = t₁.node (P ++ [sm] ++ r)) ∧
        ∀ q, ¬ P ++ [nm] <+: q → ¬ P ++ [sm] <+: q → ¬ P ++ [b] <+: q → t.node q = t₁.node q) (.mono (.ignored ?_) ?_ (fun _ _ h => h) (fun _ h => h)) ?_
    · rw [hbackup]
      split
      · refine meets_removeAll_of ?_
        rintro t t' ⟨hin, hout⟩ houtside
        refine ⟨?_, ?_⟩
        · intro r
          rw [houtside _ (fun h => hne (eq_of_sibling h).symm), hin]
        · intro q hnm hsm hbq
          rw [houtside q hbq, hout q hnm hsm hbq]
      · exact .pure (fun _ h => h)
    · rintro t (⟨_, -, h⟩ | ⟨_, herr, -⟩)
      · exact h
      · cases herr
    · intro _
      refine .pure ?_
      rintro t ⟨hin, hout⟩
      exact ⟨hin, fun q hnm hsm hsome => hout q hnm hsm (hspare q (.inr hsome))⟩

end Commit

/-! ### The whole request -/

section Request
variable {t₀ : FileTree Name Bytes} {P : Place} {nm sm : Name} {projectsDir : List Char} {form : Form} {old : Place → Option (Node Bytes)}
  {ups : List (Place × Bytes)}

/-- What the staged tree has before the uploads. -/
structure Staged (os : Os) (old c : Place → Option (Node Bytes)) : Prop where
  root : c [] = some .dir
  plain : PlainFiles c
  unseen : os.statFails = true → c = withRoot (fun _ => none)
  whole : os.statFails = false → PlainFiles old → c = withRoot old

/-- A tree with files over it, in order. -/
def overlay (old : Place → Option (Node Bytes)) (ups : List (Place × Bytes)) : Place → Option (Node Bytes) := ups.foldl put (withRoot old)

/-- All that the project has gets into the staged tree, or gets replaced there. -/
def Carried (os : Os) (old : Place → Option (Node Bytes)) (ups : List (Place × Bytes)) : Prop :=
  (os.statFails = true → ∀ q, q ≠ [] → old q ≠ none → ∃ u ∈ ups, q <+: u.1) ∧ (os.statFails = false → PlainFiles old)

theorem Staged.carried (hc : Staged os old c) (hups : ∀ u ∈ ups, u.1 ≠ [] ∧ Plain u.1) (h : ups.foldl put c = overlay old ups) : Carried os old ups := by
  refine ⟨?_, ?_⟩
  · intro hstat q hq hold
    by_contra haway
    have haway : ∀ u ∈ ups, ¬ q <+: u.1 := fun u hu hpre => haway ⟨u, hu, hpre⟩
    have hthis := congrFun h q
    unfold overlay at hthis
    rw [foldl_put_away haway, foldl_put_away haway, hc.unseen hstat] at hthis
    unfold withRoot at hthis
    rw [if_neg hq, if_neg hq] at hthis
    exact hold hthis.symm
  · intro _ q data hold
    by_cases hq : q = []
    · rw [hq]
      exact fun n hn => absurd hn List.not_mem_nil
    · by_cases htouched : ∃ u ∈ ups, q <+: u.1
      · obtain ⟨u, hu, hpre⟩ := htouched
        exact fun n hn => (hups u hu).2 n (hpre.subset hn)
      · have haway : ∀ u ∈ ups, ¬ q <+: u.1 := fun u hu hpre => htouched ⟨u, hu, hpre⟩
        have hthis := congrFun h q
        unfold overlay at hthis
        rw [foldl_put_away haway, foldl_put_away haway] at hthis
        unfold withRoot at hthis
        rw [if_neg hq, hold] at hthis
        exact hc.plain q data hthis

theorem Staged.overlay (hc : Staged os old c) (h : Carried os old ups) : ups.foldl put c = overlay old ups := by
  cases hstat : os.statFails with
  | false =>
    rw [hc.whole hstat (h.2 hstat)]
    rfl
  | true =>
    funext q
    by_cases htouched : ∃ u ∈ ups, q <+: u.1
    · exact foldl_put_on htouched
    · have haway : ∀ u ∈ ups, ¬ q <+: u.1 := fun u hu hpre => htouched ⟨u, hu, hpre⟩
      unfold Uploads.overlay
      rw [foldl_put_away haway, foldl_put_away haway, hc.unseen hstat]
      unfold withRoot
      split
      · rfl
      · rename_i hq
        by_contra hold
        exact htouched (h.1 hstat q hq (Ne.symm hold))

theorem meets_uploadStaged (hdst : resolve os.cwd (join projectsDir name) = P ++ [nm]) (hdir : resolve os.cwd (dir (join projectsDir name)) = P)
    (hbase : base (join projectsDir name) = nm.val) (hdirne : dir (join projectsDir name) ≠ []) (hstaging : staging ≠ [])
    (hS : resolve os.cwd staging = P ++ [sm]) (hsm : sm ≠ nm) (hstaged : t₀.node (P ++ [sm]) = some .dir)
    (hfresh : ∀ q, q ≠ [] → t₀.node (P ++ [sm] ++ q) = none) (hold : t₀.node (P ++ [nm]) = none ∨ t₀.node (P ++ [nm]) = some .dir)
    (hback : os.renameBackFails = false) : Meets (fun t => t.node = t₀.node) (uploadStaged os projectsDir name staging form)
      (fun _ t => (∃ c, Staged os (treeAt t₀ (P ++ [nm])) c ∧ (∀ u ∈ uploads form, u.1 ≠ [] ∧ Plain u.1) ∧
          treeAt t (P ++ [nm]) = (uploads form).foldl put c) ∧
        ∀ q, ¬ P ++ [nm] <+: q → ¬ P ++ [sm] <+: q → t₀.node q ≠ none → t.node q = t₀.node q)
      (fun t => ∀ q, ¬ P ++ [sm] <+: q → P ++ [nm] <+: q ∨ t₀.node q ≠ none → t.node q = t₀.node q) := by
  have hup : ∀ q, q <+: resolve os.cwd staging → q ≠ resolve os.cwd staging → t₀.node q = some .dir := by
    intro q hq hne
    rw [hS] at hq hne
    exact FileTree.dir_above (by rw [hstaged]; exact Option.some_ne_none _) hq hne
  have hapart : ∀ q, ¬ resolve os.cwd staging <+: resolve os.cwd (join projectsDir name) ++ q := by
    intro q h
    rw [hS, hdst] at h
    exact hsm (eq_of_sibling h)
  have hstrays : ∀ t : FileTree Name Bytes, Strays t₀.node (resolve os.cwd staging) t →
      ∀ q, ¬ P ++ [sm] <+: q → P ++ [nm] <+: q ∨ t₀.node q ≠ none → t.node q = t₀.node q := by
    intro t h q hq _
    rw [← hS] at hq
    exact h.1 q hq
  unfold uploadStaged
  refine .bind (.mapError (.mono (meets_stageExisting hstaging (by rw [hS]; exact hstaged) (by rw [hS]; exact hfresh) hapart (by rw [hdst]; exact hold))
    (fun _ h => h) (fun _ _ h => h) hstrays)) ?_
  intro _
  refine .of_exists ?_
  intro c
  refine .of_start ?_
  rintro t ⟨hroot, hplain, hunseen, hwhole, hnode⟩
  have hc : Staged os (treeAt t₀ (P ++ [nm])) c := by
    rw [hdst] at hwhole
    exact ⟨hroot, hplain, hunseen, hwhole⟩
  refine .bind (.mono (meets_stageUploads hup hroot) ?_ (fun _ _ h => h) hstrays) ?_
  · intro t' ht'
    rw [ht']
    exact ⟨fun u hu => absurd hu List.not_mem_nil, hnode⟩
  intro written
  have hbrought : ∀ t : FileTree Name Bytes, Brought t₀.node (resolve os.cwd staging) c (uploads form) t →
      ∀ q, ¬ P ++ [sm] <+: q → P ++ [nm] <+: q ∨ t₀.node q ≠ none → t.node q = t₀.node q := fun t h => hstrays t (h.strays hroot)
  refine .bind (.mapError (.mono meets_dirStats (fun _ h => h) (fun _ _ h => h) hbrought)) ?_
  intro stats
  split
  · exact .fail hbrought
  refine .of_start ?_
  intro t₁ ht₁
  have hin : ∀ r, t₁.node (P ++ [sm] ++ r) = (uploads form).foldl put c r := by
    intro r
    rw [ht₁.2, hS, graft_append]
  have hout : ∀ q, ¬ P ++ [sm] <+: q → t₁.node q = t₀.node q := by
    intro q hq
    rw [ht₁.2, hS, graft_outside hq]
  have hmade : t₁.node (P ++ [sm]) = some .dir := by
    have hthis := hin []
    rw [List.append_nil, foldl_put_root hroot (fun u hu => (ht₁.1 u hu).1)] at hthis
    exact hthis
  refine .bind (.mapError (.mono (P := fun t => t.node = t₁.node) (meets_commitProjectTree hdst hdir hbase hdirne hS hsm hmade hback) ?_ (fun _ _ h => h) ?_)) ?_
  · intro t h
    rw [h]
  · intro t h q hq hsome
    have hthis := hout q hq
    rw [← hthis] at hsome ⊢
    exact h q hsome
  · intro _
    refine .pure ?_
    rintro t ⟨hnew, hrest⟩
    refine ⟨⟨c, hc, ht₁.1, ?_⟩, ?_⟩
    · funext r
      unfold treeAt
      rw [hnew, hin]
    · intro q hnm hq hsome
      have hthis := hout q hq
      rw [← hthis] at hsome ⊢
      exact hrest q hnm hq hsome

/-- What there was, and all of the project, is as in `t₀`. -/
def Spares (t₀ : FileTree Name Bytes) (place : Place) (t : FileTree Name Bytes) : Prop := ∀ q, place <+: q ∨ t₀.node q ≠ none → t.node q = t₀.node q

theorem Spares.trans {t t₁ : FileTree Name Bytes} (h₁ : Spares t₀ p t₁) (h : Spares t₁ p t) : Spares t₀ p t := by
  intro q hq
  have hthis := h₁ q hq
  rw [← hthis] at hq ⊢
  exact h q hq

theorem proper_of_valid (h : validProjectName name = true) : Proper name := by
  unfold validProjectName at h
  simp only [Bool.and_eq_true, decide_eq_true_eq, List.all_eq_true] at h
  obtain ⟨⟨⟨hdot, hdots⟩, hne⟩, hall⟩ := h
  refine ⟨hne, hdot, hdots, ?_⟩
  intro hslash
  exact absurd (hall '/' hslash) (by decide)

/-- The uploads are over what was staged, and nothing else that there was has changed. -/
structure Done (os : Os) (t₀ : FileTree Name Bytes) (place : Place) (ups : List (Place × Bytes)) (t : FileTree Name Bytes) : Prop where
  project : ∃ c, Staged os (treeAt t₀ place) c ∧ (∀ u ∈ ups, u.1 ≠ [] ∧ Plain u.1) ∧ treeAt t place = ups.foldl put c
  rest : ∀ q, ¬ place <+: q → t₀.node q ≠ none → t.node q = t₀.node q

/-- A request that fails leaves all that there was, and one that is carried out changes the project only. -/
theorem meets_uploadProject {requested : Option Form} (hold : t₀.node (resolve os.cwd (join projectsDir name)) = none ∨
      t₀.node (resolve os.cwd (join projectsDir name)) = some .dir) (hback : os.renameBackFails = false) :
    Meets (fun t => t.node = t₀.node) (uploadProject os projectsDir name requested)
      (fun _ => Done os t₀ (resolve os.cwd (join projectsDir name)) (requested.elim [] uploads))
      (Spares t₀ (resolve os.cwd (join projectsDir name))) := by
  have hsame : ∀ t : FileTree Name Bytes, t.node = t₀.node → Spares t₀ (resolve os.cwd (join projectsDir name)) t := fun t h q _ => congrFun h q
  unfold uploadProject
  split
  · exact .fail hsame
  rename_i hprojectsDir
  split
  · exact .fail hsame
  rename_i hname
  cases requested with
  | none => exact .fail hsame
  | some form =>
    obtain ⟨nm, hnm⟩ : ∃ nm : Name, nm.val = name := ⟨⟨name, proper_of_valid (Bool.not_eq_false _ ▸ hname)⟩, rfl⟩
    have hspell : spell ([] ++ [nm]) = name := by
      unfold spell
      rw [List.nil_append, List.map_singleton, List.intercalate_singleton, hnm]
    have hdst : resolve os.cwd (join projectsDir name) = resolve os.cwd projectsDir ++ [nm] := by
      rw [← hspell, resolve_join, List.nil_append]
    have hdir : resolve os.cwd (dir (join projectsDir name)) = resolve os.cwd projectsDir := by
      rw [← hspell, resolve_dir_join, List.append_nil]
    have hbase : base (join projectsDir name) = nm.val := by rw [← hspell, base_join]
    rw [hdst] at hold ⊢
    refine .bind (Q := fun _ => Spares t₀ (resolve os.cwd projectsDir ++ [nm])) (.mapError (.mono (meets_mkdirAll t₀.root) (fun _ h => h) ?_ ?_)) ?_
    · rintro _ t ⟨hkept, hnode⟩ q hq
      rcases hq with hq | hsome
      · rw [hnode, if_neg]
        intro habove
        have hlength := (hq.trans habove).length_le
        rw [List.length_append, List.length_singleton] at hlength
        omega
      · exact (hkept q).resolve_right hsome
    · intro t hnode q hq
      rcases hnode q with hsame | ⟨habove, hnone, -⟩
      · exact hsame
      · rcases hq with hq | hsome
        · have hlength := (hq.trans habove).length_le
          rw [List.length_append, List.length_singleton] at hlength
          omega
        · exact absurd hnone hsome
    intro _
    refine .of_start ?_
    intro t₁ h₁
    refine .bind (.mapError (.mono meets_mkdirTemp (fun _ h => congrArg FileTree.node h) (fun _ _ h => h) (fun t h => h₁.trans (fun q _ => congrFun h q)))) ?_
    intro staging
    refine .of_exists ?_
    intro sm
    refine .of_and ?_
    intro hpath
    refine .of_and ?_
    rintro ⟨k, hrandom⟩
    refine .of_and ?_
    intro _
    refine .of_and ?_
    intro hfree
    refine .of_start ?_
    intro t₂ hnode
    have hsm : sm ≠ nm := by
      intro heq
      rw [heq, ← hnm] at hrandom
      have hlength := congrArg List.length hrandom
      simp only [List.length_append, List.length_cons] at hlength
      omega
    have hS : resolve os.cwd staging = resolve os.cwd projectsDir ++ [sm] := by rw [hpath, resolve_inside os.cwd hprojectsDir]
    have hstaging : staging ≠ [] := by
      rw [hpath]
      exact inside_ne_nil hprojectsDir sm.val
    have hspare : ∀ q, resolve os.cwd projectsDir ++ [nm] <+: q ∨ t₁.node q ≠ none → ¬ resolve os.cwd projectsDir ++ [sm] <+: q := by
      rintro q hq ⟨r, rfl⟩
      rcases hq with hq | hsome
      · exact hsm (eq_of_sibling hq).symm
      · exact hsome (FileTree.none_below hfree (List.prefix_append _ r))
    have h₂ : Spares t₁ (resolve os.cwd projectsDir ++ [nm]) t₂ := by
      intro q hq
      rw [hnode]
      refine if_neg ?_
      intro heq
      exact hspare q hq (heq ▸ List.prefix_refl _)
    have h₁₂ : Spares t₀ (resolve os.cwd projectsDir ++ [nm]) t₂ := h₁.trans h₂
    have haway : ∀ q, resolve os.cwd projectsDir ++ [nm] <+: q ∨ t₀.node q ≠ none → ¬ resolve os.cwd projectsDir ++ [sm] <+: q := by
      intro q hq
      have hsame := h₁ q hq
      rw [← hsame] at hq
      exact hspare q hq
    have hstaged : t₂.node (resolve os.cwd projectsDir ++ [sm]) = some .dir := by
      rw [hnode]
      exact if_pos rfl
    have hfresh : ∀ q, q ≠ [] → t₂.node (resolve os.cwd projectsDir ++ [sm] ++ q) = none := by
      intro q hq
      rw [hnode]
      refine (if_neg ?_).trans (FileTree.none_below hfree (List.prefix_append _ q))
      intro heq
      exact hq (List.append_cancel_left (heq.trans (List.append_nil _).symm))
    have hold₂ : treeAt t₂ (resolve os.cwd projectsDir ++ [nm]) = treeAt t₀ (resolve os.cwd projectsDir ++ [nm]) := by
      funext q
      exact h₁₂ _ (.inl (List.prefix_append _ q))
    have hthere : t₂.node (resolve os.cwd projectsDir ++ [nm]) = none ∨ t₂.node (resolve os.cwd projectsDir ++ [nm]) = some .dir := by
      rw [h₁₂ _ (.inl (List.prefix_refl _))]
      exact hold
    have hdirne : dir (join projectsDir name) ≠ [] := clean_ne_nil _
    refine .bind (.outcome (Q := fun _ => Done os t₀ (resolve os.cwd projectsDir ++ [nm]) (uploads form))
      (R := Spares t₀ (resolve os.cwd projectsDir ++ [nm]))
      (.mono (meets_uploadStaged hdst hdir hbase hdirne hstaging hS hsm hstaged hfresh hthere hback)
      (fun _ h => congrArg FileTree.node h) ?_ ?_)) ?_
    · rintro _ t ⟨hproject, hrest⟩
      rw [hold₂] at hproject
      refine ⟨hproject, ?_⟩
      intro q hq hsome
      have hsame := h₁₂ q (.inr hsome)
      rw [← hsame] at hsome ⊢
      exact hrest q hq (haway q (.inr (by rw [← hsame]; exact hsome))) hsome
    · intro t h q hq
      have hout := haway q hq
      have hsame := h₁₂ q hq
      rw [← hsame] at hq ⊢
      exact h q hout hq
    intro answer
    rw [hS]
    cases answer with
    | ok response =>
      refine .mono (P := Done os t₀ (resolve os.cwd projectsDir ++ [nm]) (uploads form))
        (.bind (.ignored (meets_removeAll_of ?_)) (fun _ => .pure (fun _ h => h))) ?_ (fun _ _ h => h) (fun _ h => h)
      · rintro t t' ⟨⟨c, hc, hups, hnew⟩, hrest⟩ hout
        refine ⟨⟨c, hc, hups, ?_⟩, ?_⟩
        · rw [← hnew]
          funext r
          exact hout _ (haway _ (.inl (List.prefix_append _ r)))
        · intro q hq hsome
          rw [hout q (haway q (.inr hsome)), hrest q hq hsome]
      · rintro t (⟨_, -, h⟩ | ⟨_, herr, -⟩)
        · exact h
        · cases herr
    | error response =>
      refine .mono (P := Spares t₀ (resolve os.cwd projectsDir ++ [nm]))
        (.bind (.ignored (meets_removeAll_of ?_)) (fun _ => .fail (fun _ h => h))) ?_ (fun _ _ h => h) (fun _ h => h)
      · intro t t' h hout q hq
        rw [hout q (haway q hq), h q hq]
      · rintro t (⟨_, hok, -⟩ | ⟨_, -, h⟩)
        · cases hok
        · exact h

/-- An error leaves the project as it was, and otherwise it has the uploads over what it had. -/
def AllOrNothing (os : Os) (projectsDir name : List Char) (requested : Option Form) (h : Host Name Bytes) : Prop :=
  (∀ e h', uploadProject os projectsDir name requested h = (.error e, h') →
    treeAt h'.files (resolve os.cwd (join projectsDir name)) = treeAt h.files (resolve os.cwd (join projectsDir name))) ∧
  ∀ answer h', uploadProject os projectsDir name requested h = (.ok answer, h') →
    treeAt h'.files (resolve os.cwd (join projectsDir name)) =
      overlay (treeAt h.files (resolve os.cwd (join projectsDir name))) (requested.elim [] uploads)

/-- A path that is let through leads below the directory that it is joined with. A request that
fails leaves what there was; one that is carried out puts the uploads over the project, and over
all of it just if all of it is staged. -/
theorem uploadProject_spec (os : Os) (projectsDir name : List Char) (requested : Option Form) (h : Host Name Bytes)
    (hold : h.files.node (resolve os.cwd (join projectsDir name)) = none ∨ h.files.node (resolve os.cwd (join projectsDir name)) = some .dir)
    (hback : os.renameBackFails = false) :
    (∀ upload rel, cleanRelPath upload = .ok rel →
      isAbs rel = false ∧ ∀ cwd root, ∃ below, below ≠ [] ∧ resolve cwd (join root rel) = resolve cwd root ++ below) ∧
    (∀ e h', uploadProject os projectsDir name requested h = (.error e, h') →
      treeAt h'.files (resolve os.cwd (join projectsDir name)) = treeAt h.files (resolve os.cwd (join projectsDir name)) ∧
      ∀ q, h.files.node q ≠ none → h'.files.node q = h.files.node q) ∧
    ∀ answer h', uploadProject os projectsDir name requested h = (.ok answer, h') →
      (treeAt h'.files (resolve os.cwd (join projectsDir name)) =
          overlay (treeAt h.files (resolve os.cwd (join projectsDir name))) (requested.elim [] uploads) ↔
        Carried os (treeAt h.files (resolve os.cwd (join projectsDir name))) (requested.elim [] uploads)) ∧
      ∀ q, ¬ resolve os.cwd (join projectsDir name) <+: q → h.files.node q ≠ none → h'.files.node q = h.files.node q := by
  have hmeets : Meets _ (uploadProject os projectsDir name requested) _ _ := meets_uploadProject hold hback
  obtain ⟨hok, herr⟩ := hmeets h rfl
  refine ⟨fun _ _ => cleanRelPath_below, ?_, ?_⟩
  · intro e h' hrun
    rw [hrun] at herr
    have hspares := herr e rfl
    exact ⟨funext (fun q => hspares _ (.inl (List.prefix_append _ q))), fun q hq => hspares q (.inr hq)⟩
  · intro answer h' hrun
    rw [hrun] at hok
    obtain ⟨⟨c, hc, hups, hnew⟩, hrest⟩ := hok answer rfl
    refine ⟨?_, hrest⟩
    rw [hnew]
    exact ⟨hc.carried hups, hc.overlay⟩

end Request

/-! ### A project with a script, and one with a backslash in a file name -/

/-- Nothing fails. -/
def quietOs : Os where
  cwd := []
  faults := ⟨fun _ => none, fun _ => 0, .other "refused"⟩
  random := fun _ => ['1']
  statFails := false
  renameBackFails := false

def projectWith (entry : Name) : Host Name Bytes where
  files := ((((FileTree.empty Name Bytes).mkdir [⟨['d'], by decide⟩]).bind (·.mkdir [⟨['d'], by decide⟩, ⟨['p'], by decide⟩])).bind
    (·.write [⟨['d'], by decide⟩, ⟨['p'], by decide⟩, entry] [7])).getD (FileTree.empty Name Bytes)
  calls := 0

def script : Form := { filename := ['s'], content := [1, 2] }

theorem eq_of_fst {α β : Type} {x : α × β} {a : α} (h : x.1 = a) : x = (a, x.2) := by
  rw [← h]

theorem uploadProject_spec_script : ∃ h', uploadProject quietOs ['/', 'd'] ['p'] (some script) (projectWith ⟨['r'], by decide⟩) = (.ok ⟨['p'], 1⟩, h') ∧
    (treeAt h'.files (resolve quietOs.cwd (join ['/', 'd'] ['p'])) =
        overlay (treeAt (projectWith ⟨['r'], by decide⟩).files (resolve quietOs.cwd (join ['/', 'd'] ['p']))) ((some script).elim [] uploads) ↔
      Carried quietOs (treeAt (projectWith ⟨['r'], by decide⟩).files (resolve quietOs.cwd (join ['/', 'd'] ['p']))) ((some script).elim [] uploads)) := by
  have hok : (uploadProject quietOs ['/', 'd'] ['p'] (some script) (projectWith ⟨['r'], by decide⟩)).1 = .ok ⟨['p'], 1⟩ := by decide +kernel
  have hrun := eq_of_fst hok
  have hspec := uploadProject_spec quietOs ['/', 'd'] ['p'] (some script) (projectWith ⟨['r'], by decide⟩) (by decide +kernel) rfl
  exact ⟨_, hrun, (hspec.2.2 _ _ hrun).1⟩

/-- The upload of a script, and the other file of the project is not where it was. -/
theorem upload_loses_backslash : ¬ AllOrNothing quietOs ['/', 'd'] ['p'] (some script) (projectWith ⟨['a', '\\', 'b'], by decide⟩) := by
  have hok : (uploadProject quietOs ['/', 'd'] ['p'] (some script) (projectWith ⟨['a', '\\', 'b'], by decide⟩)).1 = .ok ⟨['p'], 1⟩ := by
    decide +kernel
  have hrun := eq_of_fst hok
  have hgone : treeAt (uploadProject quietOs ['/', 'd'] ['p'] (some script) (projectWith ⟨['a', '\\', 'b'], by decide⟩)).2.files
      (resolve quietOs.cwd (join ['/', 'd'] ['p'])) [⟨['a', '\\', 'b'], by decide⟩] = none := by decide +kernel
  have hkept : overlay (treeAt (projectWith ⟨['a', '\\', 'b'], by decide⟩).files (resolve quietOs.cwd (join ['/', 'd'] ['p'])))
      ((some script).elim [] uploads) [⟨['a', '\\', 'b'], by decide⟩] = some (.file [7]) := by decide +kernel
  intro h
  have hat := congrFun (h.2 _ _ hrun) [⟨['a', '\\', 'b'], by decide⟩]
  exact Option.some_ne_none _ (hkept.symm.trans (hat.symm.trans hgone))

end Cronova.Properties.Uploads
