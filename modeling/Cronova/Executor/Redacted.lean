import Cronova.Executor.Redact
import Mathlib.Data.List.DropRight

/-! What the redacting writer does over a sink that takes every write: the pass is the
masking of words, each write cuts the buffer behind its last newline, and a relation
between the bytes taken, the bytes passed on and the buffer holds over a whole run when
complete lines and flushes keep it. -/
namespace Cronova.Executor
open Cronova.Text Cronova.Text.Rewriting

theorem containsBytes_iff {b s : Bytes} : containsBytes b s = true ↔ s <:+: b := by
  rw [containsBytes, List.any_eq_true, List.infix_iff_prefix_suffix]
  constructor
  · rintro ⟨t, ht, hpre⟩
    exact ⟨t, List.isPrefixOf_iff_prefix.mp hpre, (List.mem_tails _ _).mp ht⟩
  · rintro ⟨t, hpre, hsuffix⟩
    exact ⟨t, (List.mem_tails _ _).mpr hsuffix, List.isPrefixOf_iff_prefix.mpr hpre⟩

theorem redactPass_eq (secrets : List Bytes) (b : Bytes) : ∀ skip,
    redactPass secrets b skip = render (fun _ => redactMask) (pieces (Masking.finder secrets) b skip) := by
  induction b with
  | nil => intro skip; cases skip <;> rfl
  | cons c b ih =>
    intro skip
    cases skip with
    | succ skip => exact ih skip
    | zero =>
      rw [redactPass, pieces, show (Masking.finder secrets).find (c :: b) = (hasSecret secrets (c :: b)).map List.length from rfl]
      cases hat : hasSecret secrets (c :: b) with
      | none => exact congrArg _ (ih 0)
      | some s =>
        dsimp only [Option.map_some]
        rw [render_inr, ih]

/-- The fast path changes nothing. -/
theorem redactBytes_eq (b : Bytes) (secrets : List Bytes) : redactBytes b secrets = Masking.mask 42 secrets b := by
  unfold redactBytes
  split
  · exact redactPass_eq secrets b 0
  · rename_i hnone
    have hfree : ∀ s ∈ secrets, s ≠ [] → ¬ s <:+: b := by
      intro s hs hne hpart
      refine hnone (List.any_eq_true.mpr ⟨s, hs, ?_⟩)
      rw [Bool.and_eq_true, decide_eq_true_iff]
      exact ⟨hne, containsBytes_iff.mpr hpart⟩
    exact (Masking.mask_free hfree).symm

/-- A sort that orders secrets of one length differently makes no difference. -/
theorem redactBytes_order {secrets secrets' : List Bytes} (hsorted : secrets.Pairwise (fun s t => t.length ≤ s.length))
    (hsorted' : secrets'.Pairwise (fun s t => t.length ≤ s.length)) (hmem : ∀ s, s ∈ secrets ↔ s ∈ secrets') (b : Bytes) :
    redactBytes b secrets = redactBytes b secrets' := by
  have hfinder : Masking.finder secrets = Masking.finder secrets' := by
    have hfind : (Masking.finder secrets).find = (Masking.finder secrets').find := by
      funext t
      change (Masking.wordAt secrets t).map List.length = (Masking.wordAt secrets' t).map List.length
      rw [Masking.wordAt_order hsorted hsorted' hmem]
    cases hleft : Masking.finder secrets
    cases hright : Masking.finder secrets'
    rw [hleft, hright] at hfind
    cases hfind
    rfl
  rw [redactBytes_eq, redactBytes_eq, Masking.mask, Masking.mask, hfinder]

/-- The sink takes every write; `passed` is what it has been given. -/
structure Accepts {σ : Type} (sink : LogSink σ) (passed : σ → Bytes) : Prop where
  taken : ∀ w p, (sink w p).2 = none
  appended : ∀ w p, passed (sink w p).1 = passed w ++ p

/-- The bytes behind the last newline. -/
def lastLine (b : Bytes) : Bytes := b.rtakeWhile (fun c => c ≠ newline)

/-- What a write passes on of a buffer without a newline, and what it keeps. -/
def cutBuffer (secrets : List Bytes) (maxLen : Nat) (b : Bytes) : Bytes × Bytes :=
  if redactBufCap < b.length then
    let red := redactBytes b secrets
    let keep := min (maxLen - 1) red.length
    (red.take (red.length - keep), red.drop (red.length - keep))
  else ([], b)

/-- The writer after a write that succeeds. -/
def RedactWriter.next (rw : RedactWriter) (p : Bytes) : RedactWriter :=
  { rw with buf := (cutBuffer rw.secrets rw.maxLen (lastLine (rw.buf ++ p))).2 }

section LastLine
variable {l r b : Bytes}

theorem lastLine_plain (h : newline ∉ b) : lastLine b = b := by
  rw [lastLine, List.rtakeWhile_eq_self_iff]
  intro c hc
  rw [decide_eq_true_iff]
  rintro rfl
  exact h hc

theorem lastLine_newline (l r : Bytes) : lastLine (l ++ newline :: r) = lastLine r := by
  unfold lastLine
  induction r using List.reverseRecOn with
  | nil => exact List.rtakeWhile_concat_neg _ _ _ (by decide)
  | append_singleton r x ih =>
    rw [← List.cons_append, ← List.append_assoc, List.rtakeWhile_concat, List.rtakeWhile_concat, ih]

theorem lastLine_no_newline (b : Bytes) : newline ∉ lastLine b := by
  intro hmem
  have hcond := List.mem_rtakeWhile_imp hmem
  rw [decide_eq_true_iff] at hcond
  exact hcond rfl

end LastLine

/-- What complete lines keep of a relation between the bytes taken, those passed on and
the buffer. -/
structure Carries (secrets : List Bytes) (I : (taken passed buf : Bytes) → Prop) : Prop where
  append : ∀ {taken out b} (p : Bytes), I taken out b → I (taken ++ p) out (b ++ p)
  line : ∀ {taken out l r}, newline ∉ l → I taken out (l ++ newline :: r) →
    I taken (out ++ redactBytes (l ++ [newline]) secrets) r

section Accepted
variable {σ : Type} {sink : LogSink σ} {passed : σ → Bytes} {I : Bytes → Bytes → Bytes → Prop} {rw : RedactWriter} {taken : Bytes}

theorem writeLines_accepted {secrets : List Bytes} (hsink : Accepts sink passed) (hI : Carries secrets I) {w : σ} (line rest : Bytes)
    (hline : newline ∉ line) (h : I taken (passed w) (line ++ rest)) :
    ∃ w', writeLines sink secrets w line rest = (w', lastLine (line ++ rest), none) ∧
      I taken (passed w') (lastLine (line ++ rest)) := by
  induction rest generalizing w line with
  | nil =>
    rw [List.append_nil] at h ⊢
    rw [lastLine_plain hline]
    exact ⟨w, rfl, h⟩
  | cons c rest ih =>
    rw [writeLines]
    by_cases hc : c = newline
    · subst hc
      have hkept := hI.line hline h
      rw [← hsink.appended] at hkept
      obtain ⟨w', heq, hw'⟩ := ih [] nofun hkept
      rw [if_pos rfl, lastLine_newline]
      cases hwrite : sink w (redactBytes (line ++ [newline]) secrets) with
      | mk w₁ err =>
        have herr := hsink.taken w (redactBytes (line ++ [newline]) secrets)
        rw [hwrite] at herr heq
        cases herr
        exact ⟨w', heq, hw'⟩
    · have hmore : line ++ c :: rest = line ++ [c] ++ rest := by rw [List.append_assoc, List.singleton_append]
      rw [if_neg hc, hmore]
      apply ih (line ++ [c])
      · rw [List.mem_append, List.mem_singleton]
        rintro (hmem | hmem)
        · exact hline hmem
        · exact hc hmem.symm
      · rw [← hmore]
        exact h

/-- The buffers that are flushed without a newline in the course of some writes. -/
def Flushed (Q : Bytes → Prop) : RedactWriter → (writes : List Bytes) → Prop
  | _, [] => True
  | rw, p :: writes =>
    (redactBufCap < (lastLine (rw.buf ++ p)).length → Q (lastLine (rw.buf ++ p))) ∧ Flushed Q (rw.next p) writes

/-- A flush keeps the relation when the buffer is as `Q` says. -/
def Flushes (rw : RedactWriter) (Q : Bytes → Prop) (I : (taken passed buf : Bytes) → Prop) : Prop :=
  ∀ taken out b, newline ∉ b → redactBufCap < b.length → Q b → I taken out b →
    I taken (out ++ (cutBuffer rw.secrets rw.maxLen b).1) (cutBuffer rw.secrets rw.maxLen b).2

theorem write_accepted {Q : Bytes → Prop} (hsink : Accepts sink passed) (hI : Carries rw.secrets I) (hflush : Flushes rw Q I) {w : σ}
    {p : Bytes} (hQ : redactBufCap < (lastLine (rw.buf ++ p)).length → Q (lastLine (rw.buf ++ p)))
    (taken : Bytes) (h : I taken (passed w) rw.buf) :
    ∃ w', rw.write sink w p = (w', rw.next p, .ok p.length) ∧ I (taken ++ p) (passed w') (rw.next p).buf := by
  obtain ⟨w₁, hlines, h₁⟩ := writeLines_accepted hsink hI [] (rw.buf ++ p) nofun (hI.append p h)
  rw [List.nil_append] at hlines h₁
  unfold RedactWriter.write
  rw [hlines]
  dsimp only
  unfold flushCapped
  by_cases hcap : redactBufCap < (lastLine (rw.buf ++ p)).length
  · have hkept := hflush _ _ _ (lastLine_no_newline _) hcap (hQ hcap) h₁
    have hcut : cutBuffer rw.secrets rw.maxLen (lastLine (rw.buf ++ p)) = _ := if_pos hcap
    rw [if_pos hcap]
    dsimp only at hcut ⊢
    rw [RedactWriter.next, hcut]
    rw [hcut, ← hsink.appended] at hkept
    dsimp only at hkept ⊢
    cases hwrite : sink w₁ _ with
    | mk w₂ err =>
      have herr := hsink.taken w₁ ((redactBytes (lastLine (rw.buf ++ p)) rw.secrets).take
        ((redactBytes (lastLine (rw.buf ++ p)) rw.secrets).length -
          min (rw.maxLen - 1) (redactBytes (lastLine (rw.buf ++ p)) rw.secrets).length))
      rw [hwrite] at herr hkept
      cases herr
      exact ⟨w₂, rfl, hkept⟩
  · have hcut : cutBuffer rw.secrets rw.maxLen (lastLine (rw.buf ++ p)) = _ := if_neg hcap
    rw [if_neg hcap, RedactWriter.next, hcut]
    exact ⟨w₁, rfl, h₁⟩

/-- A whole run ends with the masked buffer. -/
theorem log_accepted {Q : Bytes → Prop} (hsink : Accepts sink passed) (hI : Carries rw.secrets I)
    (hflush : Flushes rw Q I) {writes : List Bytes} {w : σ} (hQ : Flushed Q rw writes) (taken : Bytes) (h : I taken (passed w) rw.buf) :
    ∃ out b, I (taken ++ writes.flatten) out b ∧
      passed ((TaskLogSink.redacting rw).log sink w writes) = out ++ redactBytes b rw.secrets := by
  induction writes generalizing rw w taken with
  | nil =>
    rw [List.flatten_nil, List.append_nil]
    refine ⟨passed w, rw.buf, h, ?_⟩
    rw [TaskLogSink.log, TaskLogSink.close, RedactWriter.close]
    by_cases hempty : rw.buf = []
    · rw [if_pos hempty, hempty, redactBytes_eq, Masking.mask_nil, List.append_nil]
    · rw [if_neg hempty]
      exact hsink.appended w _
  | cons p writes ih =>
    obtain ⟨w', hwrite, h'⟩ := write_accepted hsink hI hflush hQ.1 taken h
    have hI' : Carries (rw.next p).secrets I := hI
    have hflush' : Flushes (rw.next p) Q I := hflush
    obtain ⟨out, b, hout, hlog⟩ := ih hI' hflush' hQ.2 (taken ++ p) h'
    rw [List.append_assoc] at hout
    refine ⟨out, b, hout, ?_⟩
    rw [TaskLogSink.log, TaskLogSink.write, hwrite]
    exact hlog

end Accepted
end Cronova.Executor
