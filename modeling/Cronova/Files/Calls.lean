import Mathlib.Data.List.Sort
import Cronova.Files.Tree

/-! Programs that work on a tree by calls, of which any can fail. What a program has done
before a call fails stays done. -/
namespace Cronova.Files

/-- A tree, and how many calls there were. -/
structure Host (ν δ : Type) where
  files : FileTree ν δ
  calls : ℕ

/-- Which calls fail. -/
structure Faults (ε : Type) where
  fails : ℕ → Option ε
  /-- how much a failing call has written -/
  written : ℕ → ℕ
  /-- for what the tree does not allow -/
  refused : ε

def Sys (ν δ ε α : Type) : Type := Host ν δ → Except ε α × Host ν δ

namespace Sys
variable {ν δ ε α β : Type}

instance : Monad (Sys ν δ ε) where
  pure a := fun h => (.ok a, h)
  bind x f := fun h =>
    match x h with
    | (.ok a, h') => f a h'
    | (.error e, h') => (.error e, h')

def fail (e : ε) : Sys ν δ ε α := fun h => (.error e, h)

def look : Sys ν δ ε (FileTree ν δ) := fun h => (.ok h.files, h)

/-- The outcome of a program; it may have failed. -/
def outcome {ε' : Type} (x : Sys ν δ ε α) : Sys ν δ ε' (Except ε α) := fun h => (.ok (x h).1, (x h).2)

def mapError {ε' : Type} (f : ε → ε') (x : Sys ν δ ε α) : Sys ν δ ε' α := fun h =>
  match x h with
  | (.ok a, h') => (.ok a, h')
  | (.error e, h') => (.error (f e), h')

/-- One more call; its number is returned. -/
def call (faults : Faults ε) : Sys ν δ ε ℕ := fun h =>
  (match faults.fails h.calls with
    | some e => .error e
    | none => .ok h.calls, { h with calls := h.calls + 1 })

/-- A change of the tree, where the tree allows it. -/
def update (refused : ε) (op : FileTree ν δ → Option (FileTree ν δ)) : Sys ν δ ε Unit := fun h =>
  match op h.files with
  | some t => (.ok (), { h with files := t })
  | none => (.error refused, h)

def change (faults : Faults ε) (op : FileTree ν δ → Option (FileTree ν δ)) : Sys ν δ ε Unit := do
  let _ ← call faults
  update faults.refused op

/-! ### What programs do to the tree -/

/-- From a tree with `P`, a program ends with `Q`, or fails with `R`. -/
def Meets (P : FileTree ν δ → Prop) (x : Sys ν δ ε α) (Q : α → FileTree ν δ → Prop) (R : FileTree ν δ → Prop) : Prop :=
  ∀ h, P h.files → (∀ a, (x h).1 = .ok a → Q a (x h).2.files) ∧ (∀ e, (x h).1 = .error e → R (x h).2.files)

namespace Meets
variable {P P' : FileTree ν δ → Prop} {Q : α → FileTree ν δ → Prop} {R : FileTree ν δ → Prop} {x : Sys ν δ ε α}

theorem mono {Q' : α → FileTree ν δ → Prop} {R' : FileTree ν δ → Prop} (hx : Meets P x Q R) (hP : ∀ t, P' t → P t)
    (hQ : ∀ a t, Q a t → Q' a t) (hR : ∀ t, R t → R' t) : Meets P' x Q' R' := by
  intro h hpre
  obtain ⟨hok, herr⟩ := hx h (hP _ hpre)
  exact ⟨fun a ha => hQ a _ (hok a ha), fun e he => hR _ (herr e he)⟩

/-- With the tree that the program starts from. -/
theorem of_start (h : ∀ t, P t → Meets (fun t' => t' = t) x Q R) : Meets P x Q R := fun s hpre => h s.files hpre s rfl

theorem of_exists {ι : Sort*} {F : ι → FileTree ν δ → Prop} (h : ∀ i, Meets (F i) x Q R) : Meets (fun t => ∃ i, F i t) x Q R := by
  rintro s ⟨i, hi⟩
  exact h i s hi

theorem of_false : Meets (fun _ => False) x Q R := fun _ h => h.elim

theorem of_and {fact : Prop} (h : fact → Meets P x Q R) : Meets (fun t => fact ∧ P t) x Q R := by
  rintro s ⟨hfact, hpre⟩
  exact h hfact s hpre

theorem pure {a : α} (h : ∀ t, P t → Q a t) : Meets P (Pure.pure a : Sys ν δ ε α) Q R := by
  intro s hpre
  refine ⟨?_, nofun⟩
  intro b hb
  cases hb
  exact h _ hpre

theorem fail {e : ε} (h : ∀ t, P t → R t) : Meets P (Sys.fail e : Sys ν δ ε α) Q R := fun _ hpre =>
  ⟨nofun, fun _ _ => h _ hpre⟩

theorem bind {f : α → Sys ν δ ε β} {Q' : β → FileTree ν δ → Prop} (hx : Meets P x Q R)
    (hf : ∀ a, Meets (Q a) (f a) Q' R) : Meets P (x >>= f) Q' R := by
  intro h hpre
  obtain ⟨hok, herr⟩ := hx h hpre
  have hrun : (x >>= f) h = match x h with
    | (.ok a, h') => f a h'
    | (.error e, h') => (.error e, h') := rfl
  rw [hrun]
  cases hout : x h with
  | mk r h' =>
    rw [hout] at hok herr
    cases r with
    | ok a => exact hf a h' (hok a rfl)
    | error e =>
      refine ⟨nofun, ?_⟩
      intro e' _
      exact herr e rfl

theorem look {Q : FileTree ν δ → FileTree ν δ → Prop} {R : FileTree ν δ → Prop} (h : ∀ t, P t → Q t t) :
    Meets P (Sys.look : Sys ν δ ε (FileTree ν δ)) Q R := by
  intro s hpre
  refine ⟨?_, nofun⟩
  intro t ht
  cases ht
  exact h _ hpre

theorem outcome {ε' : Type} {R' : FileTree ν δ → Prop} (hx : Meets P x Q R) :
    Meets P (x.outcome : Sys ν δ ε' (Except ε α)) (fun r t => (∃ a, r = .ok a ∧ Q a t) ∨ ∃ e, r = .error e ∧ R t) R' := by
  intro h hpre
  obtain ⟨hok, herr⟩ := hx h hpre
  refine ⟨?_, nofun⟩
  intro r hr
  have hfirst : (x h).1 = r := Except.ok.inj hr
  cases r with
  | ok a => exact .inl ⟨a, rfl, hok a hfirst⟩
  | error e => exact .inr ⟨e, rfl, herr e hfirst⟩

/-- A program that may have failed, where this makes no difference. -/
theorem ignored {ε' : Type} {R' : FileTree ν δ → Prop} (hx : Meets P x (fun _ => P) P) :
    Meets P (x.outcome : Sys ν δ ε' (Except ε α)) (fun _ => P) R' := by
  refine mono (outcome hx) (fun _ h => h) ?_ (fun _ h => h)
  rintro r t (⟨_, -, h⟩ | ⟨_, -, h⟩)
  · exact h
  · exact h

theorem mapError {ε' : Type} {g : ε → ε'} (hx : Meets P x Q R) : Meets P (x.mapError g) Q R := by
  intro h hpre
  obtain ⟨hok, herr⟩ := hx h hpre
  unfold Sys.mapError
  cases hout : x h with
  | mk r h' =>
    rw [hout] at hok herr
    cases r with
    | ok a =>
      refine ⟨?_, nofun⟩
      intro b hb
      cases hb
      exact hok a rfl
    | error e => exact ⟨nofun, fun _ _ => herr e rfl⟩

/-- What holds of the part of a list that a loop has done holds of the list behind the loop. -/
theorem foldlM {f : α → β → Sys ν δ ε α} {l : List β} {a : α} (I : List β → α → FileTree ν δ → Prop)
    (hstep : ∀ done b a, b ∈ l → Meets (I done a) (f a b) (I (done ++ [b])) R) : Meets (I [] a) (l.foldlM f a) (I l) R := by
  have hloop : ∀ (rest done : List β) (a : α), (∀ b ∈ rest, b ∈ l) → Meets (I done a) (rest.foldlM f a) (I (done ++ rest)) R := by
    intro rest
    induction rest with
    | nil =>
      intro done a _
      rw [List.append_nil]
      exact pure (fun _ h => h)
    | cons b rest ih =>
      intro done a hmem
      rw [List.foldlM_cons, List.append_cons]
      exact bind (hstep done b a (hmem b List.mem_cons_self)) (fun a' => ih (done ++ [b]) a' (fun c hc => hmem c (List.mem_cons_of_mem b hc)))
  exact hloop l [] a (fun _ h => h)

theorem call {faults : Faults ε} : Meets P (Sys.call faults) (fun _ => P) P := fun _ hpre => ⟨fun _ _ => hpre, fun _ _ => hpre⟩

theorem update {refused : ε} {op : FileTree ν δ → Option (FileTree ν δ)} {Q : Unit → FileTree ν δ → Prop}
    (hok : ∀ t t', P t → op t = some t' → Q () t') (herr : ∀ t, P t → op t = none → R t) : Meets P (Sys.update refused op) Q R := by
  intro h hpre
  unfold Sys.update
  cases hop : op h.files with
  | none => exact ⟨nofun, fun _ _ => herr _ hpre hop⟩
  | some t => exact ⟨fun _ _ => hok _ _ hpre hop, nofun⟩

theorem change {faults : Faults ε} {op : FileTree ν δ → Option (FileTree ν δ)} {Q : Unit → FileTree ν δ → Prop}
    (hok : ∀ t t', P t → op t = some t' → Q () t') (herr : ∀ t, P t → R t) : Meets P (Sys.change faults op) Q R :=
  bind (mono call (fun _ h => h) (fun _ _ h => h) herr) (fun _ => update hok (fun t hpre _ => herr t hpre))

end Meets

/-! ### Calls -/

section Calls
variable (faults : Faults ε)

def stat (p : List ν) : Sys ν δ ε (Option (Node δ)) := do
  let _ ← call faults
  let t ← look
  pure (t.node p)

variable [DecidableEq ν]

def remove (p : List ν) : Sys ν δ ε Unit := change faults (·.remove p)

/-- What is below goes first, the deepest before the others. -/
def removeAll (p : List ν) : Sys ν δ ε Unit := do
  let t ← look
  ((t.below p).insertionSort (fun a b => b.length ≤ a.length)).foldlM (fun _ r => remove faults (p ++ r)) ()
  if (t.node p).isSome then remove faults p else pure ()

variable [DecidableEq δ]

def rename (src dst : List ν) : Sys ν δ ε Unit := change faults (·.rename src dst)

/-- A directory, made if there is nothing. -/
def ensureDir (p : List ν) : Sys ν δ ε Unit := do
  let t ← look
  match t.node p with
  | some .dir => pure ()
  | some (.file _) => fail faults.refused
  | none => change faults (·.mkdir p)

/-- The directories on the way from `parent` down. -/
def mkdirFrom : List ν → List ν → Sys ν δ ε Unit
  | _, [] => pure ()
  | parent, n :: rest => do
    ensureDir faults (parent ++ [n])
    mkdirFrom (parent ++ [n]) rest

def mkdirAll (p : List ν) : Sys ν δ ε Unit := mkdirFrom faults [] p

/-- A directory under a new name, which can depend on the number of the call. -/
def mkdirTemp (name : ℕ → Option ν) (p : List ν) : Sys ν δ ε ν := fun h =>
  match name h.calls with
  | none => (.error faults.refused, h)
  | some n => (do
    change faults (·.mkdir (p ++ [n]))
    pure n) h

end Calls

section Data
variable [DecidableEq ν] [DecidableEq β] (faults : Faults ε)

/-- An empty file, in place of a file if there is one. -/
def openFile (p : List ν) : Sys ν (List β) ε Unit := change faults (·.write p [])

/-- Data into a file. A call that fails may have written some of it. -/
def writeData (p : List ν) (data : List β) : Sys ν (List β) ε Unit := fun h =>
  match faults.fails h.calls with
  | some e => (.error e, ⟨(h.files.write p (data.take (faults.written h.calls))).getD h.files, h.calls + 1⟩)
  | none => update faults.refused (·.write p data) ⟨h.files, h.calls + 1⟩

end Data
/-! ### What the calls do -/

section Specs
variable {faults : Faults ε} {p r : List ν} {f : List ν → Option (Node δ)} {P R : FileTree ν δ → Prop}

theorem meets_stat : Meets P (stat faults p) (fun n t => P t ∧ n = t.node p) P := by
  refine .bind .call ?_
  intro _
  refine .bind (.look (Q := fun t' t => P t ∧ t' = t) (fun _ h => ⟨h, rfl⟩)) ?_
  intro t'
  refine .pure ?_
  rintro t ⟨hpre, rfl⟩
  exact ⟨hpre, rfl⟩

/-- All that is not below a place is as in `f`. -/
def Outside (p : List ν) (f : List ν → Option (Node δ)) (t : FileTree ν δ) : Prop := ∀ q, ¬ p <+: q → t.node q = f q

variable [DecidableEq ν]

theorem meets_remove : Meets (Outside p f) (remove faults (p ++ r)) (fun _ => Outside p f) (Outside p f) := by
  refine .change ?_ (fun _ h => h)
  intro t t' hpre hop q hq
  have hne : q ≠ p ++ r := by
    intro heq
    rw [heq] at hq
    exact hq (List.prefix_append p r)
  rw [FileTree.remove_spec hop, if_neg hne]
  exact hpre q hq

theorem meets_removeAll : Meets (Outside p f) (removeAll faults p) (fun _ => Outside p f) (Outside p f) := by
  refine .bind (.look (Q := fun _ => Outside p f) (fun _ h => h)) ?_
  intro t
  refine .bind (.foldlM (fun _ _ => Outside p f) (fun _ _ _ _ => meets_remove)) ?_
  intro _
  have hremove : Meets (Outside p f) (remove faults (p ++ [])) (fun _ => Outside p f) (Outside p f) := meets_remove
  rw [List.append_nil] at hremove
  split
  · exact hremove
  · exact .pure (fun _ h => h)

/-- What does not depend on what is below a place still holds when this is removed. -/
theorem meets_removeAll_of (hP : ∀ t t', P t → Outside p t.node t' → P t') : Meets P (removeAll faults p) (fun _ => P) P := by
  refine .of_start ?_
  intro t hpre
  refine .mono meets_removeAll ?_ (fun _ t' => hP t t' hpre) (fun t' => hP t t' hpre)
  intro t' h q _
  rw [h]

variable [DecidableEq δ]

theorem meets_rename {src dst : List ν} : Meets (fun t => t.node = f) (rename faults src dst)
    (fun _ t => f src ≠ none ∧ f dst = none ∧
      ∀ q, t.node q = if dst <+: q then f (src ++ q.drop dst.length) else if src <+: q then none else f q)
    (fun t => t.node = f) := by
  refine .change ?_ (fun _ h => h)
  intro t t' hpre hop
  obtain ⟨hsrc, hdst, -, hnode⟩ := FileTree.rename_spec hop
  rw [hpre] at hsrc hdst hnode
  exact ⟨hsrc, hdst, hnode⟩

theorem meets_ensureDir : Meets (fun t => t.node = f) (ensureDir faults p)
    (fun _ t => (f p = none ∨ f p = some .dir) ∧ t.node = fun q => if q = p then some .dir else f q) (fun t => t.node = f) := by
  refine .bind (.look (Q := fun t' t => t.node = f ∧ t' = t) (fun _ h => ⟨h, rfl⟩)) ?_
  intro t'
  cases hnode : t'.node p with
  | none =>
    refine .change ?_ (fun _ h => h.1)
    rintro t t'' ⟨hpre, rfl⟩ hop
    obtain ⟨-, -, hnew⟩ := FileTree.mkdir_spec hop
    rw [hpre] at hnew hnode
    exact ⟨.inl hnode, funext hnew⟩
  | some node =>
    cases node with
    | file data => exact .fail (fun _ h => h.1)
    | dir =>
      refine .pure ?_
      rintro t ⟨hpre, rfl⟩
      rw [hpre] at hnode
      refine ⟨.inr hnode, ?_⟩
      rw [hpre]
      funext q
      split
      · rename_i hq
        rw [hq, hnode]
      · rfl

theorem meets_mkdirFrom (parent rest : List ν) (f : List ν → Option (Node δ)) :
    Meets (fun t => t.node = f) (mkdirFrom faults parent rest)
      (fun _ t => (∀ q, t.node q = f q ∨ f q = none) ∧ ∀ q, t.node q = if q <+: parent ++ rest ∧ ¬ q <+: parent then some .dir else f q)
      (fun t => ∀ q, t.node q = f q ∨ q <+: parent ++ rest ∧ f q = none ∧ t.node q = some .dir) := by
  induction rest generalizing parent f with
  | nil =>
    refine .pure ?_
    intro t hpre
    refine ⟨fun q => .inl (congrFun hpre q), ?_⟩
    intro q
    rw [hpre, List.append_nil, if_neg (fun h => h.2 h.1)]
  | cons n rest ih =>
    have hparent : parent ++ n :: rest = parent ++ [n] ++ rest := List.append_cons parent n rest
    refine .bind (.mono meets_ensureDir (fun _ h => h) (fun _ _ h => h) (fun t h q => .inl (congrFun h q))) ?_
    intro _
    by_cases hf : f (parent ++ [n]) = none ∨ f (parent ++ [n]) = some .dir
    · refine .mono (ih (parent ++ [n]) (fun q => if q = parent ++ [n] then some .dir else f q)) (fun _ h => h.2) ?_ ?_
      · rintro _ t ⟨hold, hnode⟩
        refine ⟨?_, ?_⟩
        · intro q
          have hthis := hold q
          by_cases hq : q = parent ++ [n]
          · rw [if_pos hq] at hthis
            rw [← hq] at hf
            rcases hf with hnone | hsome
            · exact .inr hnone
            · rw [hsome]
              exact .inl (hthis.resolve_right (Option.some_ne_none _))
          · rw [if_neg hq] at hthis
            exact hthis
        intro q
        rw [hnode, hparent]
        by_cases hq : q = parent ++ [n]
        · rw [if_neg (by rw [hq]; exact fun h => h.2 (List.prefix_refl _)), if_pos hq, if_pos]
          rw [hq]
          refine ⟨List.prefix_append _ _, ?_⟩
          intro h
          have hlength := h.length_le
          rw [List.length_append, List.length_singleton] at hlength
          omega
        · have hout : q <+: parent ++ [n] ↔ q <+: parent := by
            rw [List.prefix_concat_iff]
            exact or_iff_right hq
          simp only [hq, hout, if_false]
      · intro t hnode q
        rw [hparent]
        by_cases hq : q = parent ++ [n]
        · have hthis := hnode q
          rw [if_pos hq] at hthis
          have hdir : t.node q = some .dir := by
            rcases hthis with h | h
            · exact h
            · exact h.2.2
          rw [← hq] at hf
          rcases hf with hnone | hsome
          · exact .inr ⟨by rw [hq]; exact List.prefix_append _ _, hnone, hdir⟩
          · exact .inl (by rw [hdir, hsome])
        · have hthis := hnode q
          rw [if_neg hq] at hthis
          exact hthis
    · intro h hpre
      exact absurd hpre.1 hf

theorem meets_mkdirAll (hroot : f [] = some .dir) : Meets (fun t => t.node = f) (mkdirAll faults p)
    (fun _ t => (∀ q, t.node q = f q ∨ f q = none) ∧ ∀ q, t.node q = if q <+: p then some .dir else f q)
    (fun t => ∀ q, t.node q = f q ∨ q <+: p ∧ f q = none ∧ t.node q = some .dir) := by
  refine .mono (meets_mkdirFrom [] p f) (fun _ h => h) ?_ (fun _ h => h)
  rintro _ t ⟨hold, hnode⟩
  refine ⟨hold, ?_⟩
  intro q
  rw [hnode, List.nil_append]
  by_cases hq : q = []
  · rw [hq, if_neg (fun h => h.2 (List.prefix_refl _)), if_pos List.nil_prefix, hroot]
  · simp only [List.prefix_nil, hq, not_false_eq_true, and_true]

theorem meets_mkdirTemp {name : ℕ → Option ν} : Meets (fun t => t.node = f) (mkdirTemp faults name p)
    (fun n t => (∃ k, name k = some n) ∧ f p = some .dir ∧ f (p ++ [n]) = none ∧ t.node = fun q => if q = p ++ [n] then some .dir else f q)
    (fun t => t.node = f) := by
  intro h hpre
  unfold mkdirTemp
  cases hname : name h.calls with
  | none => exact ⟨nofun, fun _ _ => hpre⟩
  | some n =>
    have hmade : Meets (fun t => t.node = f) (do change faults (·.mkdir (p ++ [n])); pure n)
        (fun n t => (∃ k, name k = some n) ∧ f p = some .dir ∧ f (p ++ [n]) = none ∧ t.node = fun q => if q = p ++ [n] then some .dir else f q)
        (fun t => t.node = f) := by
      refine .bind (.change (Q := fun _ t => f p = some .dir ∧ f (p ++ [n]) = none ∧
        t.node = fun q => if q = p ++ [n] then some .dir else f q) ?_ (fun _ h => h)) ?_
      · intro t t' hpre hop
        obtain ⟨hnone, hparent, hnew⟩ := FileTree.mkdir_spec hop
        rw [hpre] at hnone hparent hnew
        rw [List.dropLast_concat] at hparent
        exact ⟨hparent, hnone, funext hnew⟩
      · intro _
        exact .pure (fun _ hdir => ⟨⟨_, hname⟩, hdir⟩)
    exact hmade h hpre

end Specs

section DataSpecs
variable [DecidableEq ν] [DecidableEq β] {faults : Faults ε} {p : List ν} {f : List ν → Option (Node (List β))} {data : List β}

theorem meets_openFile : Meets (fun t => t.node = f) (openFile faults p)
    (fun _ t => t.node = fun q => if q = p then some (.file []) else f q) (fun t => t.node = f) := by
  refine .change ?_ (fun _ h => h)
  intro t t' hpre hop
  obtain ⟨-, -, hnew⟩ := FileTree.write_spec hop
  rw [hpre] at hnew
  exact funext hnew

theorem meets_writeData : Meets (fun t => t.node = f) (writeData faults p data)
    (fun _ t => t.node = fun q => if q = p then some (.file data) else f q) (fun t => ∀ q, q ≠ p → t.node q = f q) := by
  intro h hpre
  unfold writeData
  cases faults.fails h.calls with
  | some e =>
    refine ⟨nofun, ?_⟩
    intro _ _ q hq
    change ((h.files.write p (data.take (faults.written h.calls))).getD h.files).node q = f q
    cases hop : h.files.write p (data.take (faults.written h.calls)) with
    | none => exact congrFun hpre q
    | some t =>
      obtain ⟨-, -, hnew⟩ := FileTree.write_spec hop
      change t.node q = f q
      rw [hnew, if_neg hq]
      exact congrFun hpre q
  | none =>
    refine Meets.update (P := fun t => t.node = f) (Q := fun _ t => t.node = fun q => if q = p then some (.file data) else f q)
      (R := fun t => ∀ q, q ≠ p → t.node q = f q) ?_ (fun _ h _ q _ => congrFun h q) ⟨h.files, h.calls + 1⟩ hpre
    intro t t' hpre hop
    obtain ⟨-, -, hnew⟩ := FileTree.write_spec hop
    rw [hpre] at hnew
    exact funext hnew

end DataSpecs
end Sys
end Cronova.Files
