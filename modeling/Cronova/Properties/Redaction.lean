import Cronova.Executor.Redacted

/-! Secrets in the log of a task. No secret reaches the log, however its output is cut
into writes. What the log shows instead is each line with its secrets masked, unless a
buffer without a newline is flushed while a secret has begun in it that holds another. -/
namespace Cronova.Properties.Redaction
open Cronova.Executor Cronova.Text

/-- The secrets are not empty and have neither a newline nor a mask character. -/
def Redactable (secrets : List Bytes) : Prop := ∀ s ∈ secrets, s ≠ [] ∧ newline ∉ s ∧ 42 ∉ s

/-- A sink that keeps what it is given. -/
def collect : LogSink Bytes := fun w p => (w ++ p, none)

theorem collect_accepts : Accepts collect id := ⟨fun _ _ => rfl, fun _ _ => rfl⟩

section Writer
variable {secrets redact : List Bytes} {s : Bytes}

theorem Redactable.maskable (h : Redactable secrets) : Masking.Maskable 42 secrets := fun s hs => ⟨(h s hs).1, (h s hs).2.2⟩

theorem mem_newRedactWriter : s ∈ (newRedactWriter redact).secrets ↔ s ∈ redact := List.mem_mergeSort

theorem sorted_newRedactWriter (redact : List Bytes) :
    (newRedactWriter redact).secrets.Pairwise (fun s t => t.length ≤ s.length) := by
  have hsorted : (newRedactWriter redact).secrets.Pairwise (fun s t => decide (t.length ≤ s.length) = true) := by
    apply List.pairwise_mergeSort
    · intro a b c hab hbc
      rw [decide_eq_true_iff] at hab hbc ⊢
      omega
    · intro a b
      rw [Bool.or_eq_true, decide_eq_true_iff, decide_eq_true_iff]
      omega
  exact hsorted.imp of_decide_eq_true

theorem Redactable.sorted (h : Redactable redact) : Redactable (newRedactWriter redact).secrets :=
  fun s hs => h s (mem_newRedactWriter.mp hs)

theorem length_le_foldl (ss : List Bytes) : ∀ m, m ≤ ss.foldl (fun m s => max m s.length) m ∧
    ∀ s ∈ ss, s.length ≤ ss.foldl (fun m s => max m s.length) m := by
  induction ss with
  | nil => exact fun m => ⟨Nat.le_refl m, nofun⟩
  | cons t ss ih =>
    intro m
    obtain ⟨hstart, hall⟩ := ih (max m t.length)
    refine ⟨Nat.le_trans (Nat.le_max_left m t.length) hstart, fun s hs => ?_⟩
    rcases List.mem_cons.mp hs with rfl | hs
    · exact Nat.le_trans (Nat.le_max_right m s.length) hstart
    · exact hall s hs

theorem length_le_maxLen (h : s ∈ (newRedactWriter redact).secrets) : s.length ≤ (newRedactWriter redact).maxLen :=
  (length_le_foldl redact 0).2 s (mem_newRedactWriter.mp h)

end Writer

section Cut
variable {secrets : List Bytes} {maxLen : Nat} {b s : Bytes}

/-- A flush cuts the masked buffer, and keeps as much as a begun secret can take. -/
theorem cutBuffer_spec (hlong : ∀ s ∈ secrets, s.length ≤ maxLen) (hcap : redactBufCap < b.length) :
    Masking.mask 42 secrets b = (cutBuffer secrets maxLen b).1 ++ (cutBuffer secrets maxLen b).2 ∧
    ((cutBuffer secrets maxLen b).1 = [] ∨ ∀ s ∈ secrets, s.length ≤ (cutBuffer secrets maxLen b).2.length + 1) := by
  have hcut : cutBuffer secrets maxLen b = _ := if_pos hcap
  dsimp only at hcut
  rw [hcut, ← redactBytes_eq]
  refine ⟨(List.take_append_drop _ _).symm, ?_⟩
  by_cases hkeep : maxLen - 1 ≤ (redactBytes b secrets).length
  · right
    intro s hs
    have hle := hlong s hs
    rw [List.length_drop]
    omega
  · left
    have hzero : (redactBytes b secrets).length - min (maxLen - 1) (redactBytes b secrets).length = 0 := by omega
    rw [hzero, List.take_zero]

/-- A text without a newline in front of one ends before it. -/
theorem prefix_of_line {c z : Bytes} (hs : newline ∉ s) (h : s <+: c ++ newline :: z) : s <+: c := by
  have hline : c ++ [newline] <+: c ++ newline :: z := ⟨z, by rw [List.append_assoc, List.singleton_append]⟩
  rcases List.prefix_or_prefix_of_prefix h hline with hin | hover
  · rcases List.prefix_concat_iff.mp hin with rfl | hin
    · exact absurd (List.mem_append_right c List.mem_cons_self) hs
    · exact hin
  · exact absurd (hover.subset (List.mem_append_right c List.mem_cons_self)) hs

/-- The masked line with its newline. -/
theorem mask_line (h : Redactable secrets) (l : Bytes) :
    Masking.mask 42 secrets (l ++ [newline]) = Masking.mask 42 secrets l ++ [newline] := by
  rw [Masking.mask_barrier 42 (fun s hs => (h s hs).2.1), Masking.mask_nil]

end Cut

/-! No secret in the log -/

section Hidden
variable {secrets redact : List Bytes}

theorem sealed_carries (h : Redactable secrets) : Carries secrets (fun _ out b => Masking.Sealed secrets out b) where
  append p hout := hout.more p
  line := by
    intro taken out l r hl hout
    have hsplit : l ++ newline :: r = l ++ [newline] ++ r := by rw [List.append_assoc, List.singleton_append]
    rw [hsplit] at hout
    rw [redactBytes_eq]
    refine hout.emit h.maskable (List.append_nil _).symm ?_
    intro s hs c hne hsuffix z hpre
    rw [mask_line h] at hsuffix
    rcases List.suffix_concat_iff.mp hsuffix with rfl | ⟨c, rfl, -⟩
    · exact absurd rfl hne
    · rw [List.append_assoc, List.singleton_append, List.nil_append] at hpre
      exact (prefix_of_line (h s hs).2.1 hpre).trans ((List.prefix_append c _).trans (List.prefix_append _ _))

theorem sealed_flushes (h : Redactable redact) :
    Flushes (newRedactWriter redact) (fun _ => True) (fun _ out b => Masking.Sealed (newRedactWriter redact).secrets out b) := by
  intro _ out b hb hcap _ hout
  obtain ⟨hcut, hlong⟩ := cutBuffer_spec (fun s hs => length_le_maxLen hs) hcap
  rw [← List.append_nil b] at hout
  rw [← List.append_nil (cutBuffer _ _ b).2]
  refine hout.emit h.sorted.maskable hcut ?_
  intro s hs c hne hsuffix z hpre
  rcases hlong with hnil | hlong
  · rw [hnil] at hsuffix
    exact absurd (List.suffix_nil.mp hsuffix) hne
  · have hle := hlong s hs
    have hpos := List.length_pos_iff.mpr hne
    rw [← List.append_assoc] at hpre
    refine List.prefix_of_prefix_length_le hpre (List.prefix_append _ _) ?_
    rw [List.length_append]
    omega

theorem flushed_any (rw : RedactWriter) (writes : List Bytes) : Flushed (fun _ => True) rw writes := by
  induction writes generalizing rw with
  | nil => trivial
  | cons p writes ih => exact ⟨fun _ => trivial, ih (rw.next p)⟩

/-- However the output of a task is cut into writes, the bytes that reach the sink hold
no secret. -/
theorem log_hides_secrets {σ : Type} {sink : LogSink σ} {passed : σ → Bytes} (hsink : Accepts sink passed)
    (h : Redactable redact) {w : σ} (hw : passed w = []) (writes : List Bytes) :
    ∀ s ∈ redact, ¬ s <:+: passed ((newLogSink redact).log sink w writes) := by
  intro s hs
  have hne : redact ≠ [] := List.ne_nil_of_mem hs
  have hstart : Masking.Sealed (newRedactWriter redact).secrets (passed w) (newRedactWriter redact).buf := by
    rw [hw]
    exact Masking.sealed_nil _ _
  obtain ⟨out, b, hout, hlog⟩ := log_accepted hsink (sealed_carries h.sorted) (sealed_flushes h)
    (flushed_any _ writes) [] hstart
  rw [newLogSink, if_neg hne, hlog, redactBytes_eq]
  exact hout.hides h.sorted.maskable (mem_newRedactWriter.mpr hs)

/-- Two secrets that overlap, cut in the middle of both. -/
theorem log_hides_secrets_overlap :
    ¬ [65, 66] <:+: (newLogSink [[65, 66], [66, 67, 68]]).log collect [] [[65], [66, 67], [68, 10, 65, 66]] ∧
      ¬ [66, 67, 68] <:+: (newLogSink [[65, 66], [66, 67, 68]]).log collect [] [[65], [66, 67], [68, 10, 65, 66]] := by
  have hredactable : Redactable [[65, 66], [66, 67, 68]] := by
    unfold Redactable
    decide
  have h := log_hides_secrets collect_accepts hredactable rfl [[65], [66, 67], [68, 10, 65, 66]]
  exact ⟨h [65, 66] (by simp), h [66, 67, 68] (by simp)⟩

end Hidden
end Cronova.Properties.Redaction
