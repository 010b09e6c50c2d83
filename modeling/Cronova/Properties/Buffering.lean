import Cronova.Properties.Redaction

/-! Redaction and the line buffer. The log shows each line of the output with its
secrets masked, whatever the writes, as long as no flush of an overlong line falls into
a secret that holds another one already. Over all outputs that is so exactly when no
secret occurs in another before its last byte. -/
namespace Cronova.Properties.Buffering
open Cronova.Executor Cronova.Text Cronova.Properties.Redaction

/-- The lines of a stream, each with its newline, and what is left behind the last. -/
def splitLines (line : Bytes) : (stream : Bytes) → List Bytes
  | [] => if line = [] then [] else [line]
  | c :: rest => if c = newline then (line ++ [c]) :: splitLines [] rest else splitLines (line ++ [c]) rest

/-- A stream with each line redacted by itself. -/
def redactLines (secrets : List Bytes) (stream : Bytes) : Bytes := (splitLines [] stream).flatMap (redactBytes · secrets)

/-- What a task with these writes leaves in its log. -/
def logged (redact : List Bytes) (writes : List Bytes) : Bytes := (newLogSink redact).log collect [] writes

/-- The log depends on the output only, and shows it line by line. -/
structure Unbuffered (redact : List Bytes) : Prop where
  same : ∀ a b : List Bytes, a.flatten = b.flatten → logged redact a = logged redact b
  lines : ∀ writes, logged redact writes = redactLines (newRedactWriter redact).secrets writes.flatten

section Lines
variable {secrets redact : List Bytes}

theorem redactLines_eq (h : Redactable secrets) (stream : Bytes) : redactLines secrets stream = Masking.mask 42 secrets stream := by
  have hlines : ∀ line, (splitLines line stream).flatMap (redactBytes · secrets) = Masking.mask 42 secrets (line ++ stream) := by
    induction stream with
    | nil =>
      intro line
      rw [splitLines, List.append_nil]
      split
      · rename_i hline
        rw [hline]
        rfl
      · rw [List.flatMap_singleton, redactBytes_eq]
    | cons c stream ih =>
      intro line
      rw [splitLines]
      split
      · rename_i hc
        rw [hc, List.flatMap_cons, ih, redactBytes_eq, mask_line h, Masking.mask_barrier 42 (fun s hs => (h s hs).2.1),
          List.append_assoc, List.singleton_append, List.nil_append]
      · rw [ih, List.append_assoc, List.singleton_append]
  exact hlines []

/-- What is passed on is what the whole pass gives first, and the buffer is what it has
yet to read. -/
def Resumes (secrets : List Bytes) (taken out b : Bytes) : Prop :=
  ∀ z, Masking.mask 42 secrets (taken ++ z) = out ++ Masking.mask 42 secrets (b ++ z)

theorem resumes_carries (h : Redactable secrets) : Carries secrets (Resumes secrets) where
  append := by
    intro taken out b p hres z
    rw [List.append_assoc, List.append_assoc]
    exact hres (p ++ z)
  line := by
    intro taken out l r hl hres z
    rw [hres z, redactBytes_eq, mask_line h, List.append_assoc l, List.cons_append,
      Masking.mask_barrier 42 (fun s hs => (h s hs).2.1)]
    simp only [List.append_assoc, List.singleton_append]

theorem resumes_flushes (h : Redactable redact) :
    Flushes (newRedactWriter redact) (Masking.Unsplit (newRedactWriter redact).secrets) (Resumes (newRedactWriter redact).secrets) := by
  intro taken out b hb hcap hsplit hres z
  obtain ⟨hcut, hlong⟩ := cutBuffer_spec (fun s hs => length_le_maxLen hs) hcap
  rw [hres z, Masking.mask_resume h.sorted.maskable hsplit hcut hlong, List.append_assoc]

theorem log_plain (w : Bytes) (writes : List Bytes) : TaskLogSink.plain.log collect w writes = w ++ writes.flatten := by
  induction writes generalizing w with
  | nil => exact (List.append_nil w).symm
  | cons p writes ih => exact (ih (w ++ p)).trans (by rw [List.append_assoc, List.flatten_cons])

theorem logged_eq (h : Redactable redact) {writes : List Bytes}
    (hsplit : Flushed (Masking.Unsplit (newRedactWriter redact).secrets) (newRedactWriter redact) writes) :
    logged redact writes = redactLines (newRedactWriter redact).secrets writes.flatten := by
  rw [redactLines_eq h.sorted, logged, newLogSink]
  split
  · rename_i hnone
    rw [log_plain, hnone]
    exact (Masking.mask_free (fun s hs => absurd (mem_newRedactWriter.mp hs) List.not_mem_nil)).symm
  · have hstart : Resumes (newRedactWriter redact).secrets [] [] (newRedactWriter redact).buf := fun z => rfl
    obtain ⟨out, b, hres, hlog⟩ := log_accepted collect_accepts (resumes_carries h.sorted) (resumes_flushes h) hsplit [] hstart
    have hend := hres []
    rw [List.append_nil, List.append_nil, List.nil_append] at hend
    rw [hend, ← redactBytes_eq]
    exact hlog

end Lines

/-! When it holds of every output -/

section Nested
variable {redact : List Bytes}

/-- No secret occurs in another before its last byte. -/
def Unnested (redact : List Bytes) : Prop := ∀ s ∈ redact, ∀ t ∈ redact, ¬ t <:+: s.dropLast

instance (redact : List Bytes) : Decidable (Unnested redact) := inferInstanceAs (Decidable (∀ s ∈ redact, ∀ t ∈ redact, _))

theorem unsplit_of_unnested (h : Unnested redact) (b : Bytes) : Masking.Unsplit (newRedactWriter redact).secrets b := by
  rintro q - ⟨s, hs, hpre, hne⟩ t ht hpart
  have hlast : q <+: s.dropLast := by
    obtain ⟨r, rfl⟩ := hpre
    have hr : r ≠ [] := by
      rintro rfl
      exact hne (List.append_nil q).symm
    rw [List.dropLast_append_of_ne_nil hr]
    exact List.prefix_append q r.dropLast
  exact h s (mem_newRedactWriter.mp hs) t (mem_newRedactWriter.mp ht) (hpart.trans hlast.isInfix)

theorem flushed_all {Q : Bytes → Prop} (hQ : ∀ b, Q b) (rw : RedactWriter) (writes : List Bytes) : Flushed Q rw writes := by
  induction writes generalizing rw with
  | nil => trivial
  | cons p writes ih => exact ⟨fun _ => hQ _, ih (rw.next p)⟩

/-- A buffer is as it was, or it has four mask characters more. -/
def MoreMasked (b b' : Bytes) : Prop := b' = b ∨ b.count 42 + 4 ≤ b'.count 42

theorem MoreMasked.append {b b' : Bytes} (h : MoreMasked b b') (p : Bytes) : MoreMasked (b ++ p) (b' ++ p) := by
  rcases h with rfl | h
  · exact .inl rfl
  · right
    rw [List.count_append, List.count_append]
    omega

theorem MoreMasked.behind {b b' : Bytes} (h : MoreMasked b b') (p : Bytes) : MoreMasked (p ++ b) (p ++ b') := by
  rcases h with rfl | h
  · exact .inl rfl
  · right
    rw [List.count_append, List.count_append]
    omega

theorem MoreMasked.trans {a b c : Bytes} (hab : MoreMasked a b) (hbc : MoreMasked b c) : MoreMasked a c := by
  rcases hab with rfl | hab
  · exact hbc
  · rcases hbc with rfl | hbc
    · exact .inr hab
    · right
      omega

theorem mask_more {secrets : List Bytes} (h : Redactable secrets) (b : Bytes) : MoreMasked b (Masking.mask 42 secrets b) := by
  induction b using Masking.mask_induction secrets with
  | nil => exact .inl rfl
  | found s b hfound ih =>
    have hs : s.count 42 = 0 := List.count_eq_zero.mpr (h s (Masking.wordAt_some hfound).1).2.2
    have hstars : (Masking.stars (42 : UInt8)).count 42 = 4 := rfl
    right
    rw [Masking.mask_found hfound, List.count_append, List.count_append, hs, hstars]
    rcases ih with heq | hmore
    · rw [heq]
      omega
    · omega
  | none c b hnone ih =>
    rw [Masking.mask_none hnone]
    rcases ih with heq | hmore
    · exact .inl (by rw [heq])
    · right
      rw [List.count_cons, List.count_cons]
      omega

/-- Over a run, mask characters are only added. -/
theorem more_carries {secrets : List Bytes} (h : Redactable secrets) :
    Carries secrets (fun taken out b => MoreMasked taken (out ++ b)) where
  append := by
    intro taken out b p hmore
    rw [← List.append_assoc]
    exact hmore.append p
  line := by
    intro taken out l r hl hmore
    have hline : MoreMasked (out ++ (l ++ newline :: r)) (out ++ redactBytes (l ++ [newline]) secrets ++ r) := by
      have hmask := ((mask_more h (l ++ [newline])).append r).behind out
      rw [redactBytes_eq, List.append_assoc]
      rw [List.append_assoc l, List.singleton_append] at hmask
      exact hmask
    exact hmore.trans hline

theorem more_flushes (h : Redactable redact) :
    Flushes (newRedactWriter redact) (fun _ => True) (fun taken out b => MoreMasked taken (out ++ b)) := by
  intro taken out b hb hcap _ hmore
  obtain ⟨hcut, -⟩ := cutBuffer_spec (fun s hs => length_le_maxLen hs) hcap
  rw [List.append_assoc, ← hcut]
  exact hmore.trans ((mask_more h.sorted b).behind out)

/-- With the longest secrets first, a secret is masked as a whole. -/
theorem mask_secret (h : Redactable redact) {s : Bytes} (hs : s ∈ redact) :
    Masking.mask 42 (newRedactWriter redact).secrets s = redactMask := by
  have hmem := mem_newRedactWriter.mpr hs
  have hat : Masking.wordAt (newRedactWriter redact).secrets s = some s := by
    cases hfind : Masking.wordAt (newRedactWriter redact).secrets s with
    | none => exact absurd (List.prefix_refl s) (Masking.wordAt_none hfind hmem (h s hs).1)
    | some t =>
      have hpre := (Masking.wordAt_some hfind).2.2
      have hle := Masking.wordAt_longest (sorted_newRedactWriter redact) hfind hmem (h s hs).1 (List.prefix_refl s)
      rw [hpre.eq_of_length_le hle]
  have hmask : Masking.mask 42 (newRedactWriter redact).secrets (s ++ []) =
      Masking.stars 42 ++ Masking.mask 42 (newRedactWriter redact).secrets [] :=
    Masking.mask_found (by rw [List.append_nil]; exact hat)
  rw [List.append_nil] at hmask
  exact hmask

theorem mask_filler {secrets : List Bytes} (h : Redactable secrets) (n : Nat) (b : Bytes) :
    Masking.mask 42 secrets (List.replicate n 42 ++ b) = List.replicate n 42 ++ Masking.mask 42 secrets b := by
  induction n with
  | zero => rfl
  | succ n ih =>
    rw [List.replicate_succ, List.cons_append, List.cons_append, ← ih]
    exact Masking.mask_barrier 42 (fun s hs => (h s hs).2.2) [] _

/-- A write without a newline passes on the head of what it makes of the buffer. -/
theorem write_plain {rw : RedactWriter} {p w : Bytes} (hplain : newline ∉ rw.buf ++ p) (hcap : redactBufCap < (rw.buf ++ p).length) :
    (rw.write collect w p).1 = w ++ (cutBuffer rw.secrets rw.maxLen (rw.buf ++ p)).1 := by
  have hlines : ∀ line rest : Bytes, newline ∉ rest → writeLines collect rw.secrets w line rest = (w, line ++ rest, none) := by
    intro line rest
    induction rest generalizing line with
    | nil =>
      intro _
      rw [writeLines, List.append_nil]
    | cons c rest ih =>
      intro hrest
      have hc : c ≠ newline := fun hc => hrest (hc ▸ List.mem_cons_self)
      rw [writeLines, if_neg hc, ih (line ++ [c]) (fun hmem => hrest (List.mem_cons_of_mem c hmem)), List.append_assoc,
        List.singleton_append]
  have hcut : cutBuffer rw.secrets rw.maxLen (rw.buf ++ p) = _ := if_pos hcap
  rw [RedactWriter.write, hlines [] (rw.buf ++ p) hplain, hcut]
  dsimp only [List.nil_append]
  rw [flushCapped, if_pos hcap]
  rfl

/-- An output that ends a line that is too long in a secret, before its last byte. -/
def cutOutput (s : Bytes) : List Bytes :=
  [List.replicate (redactBufCap + 1) 42 ++ s.dropLast, [s.getLastD 0]]

/-- The first write of that output is flushed with a masked secret in it. -/
theorem cutOutput_first (h : Redactable redact) {s t : Bytes} (hs : s ∈ redact) (ht : t ∈ redact) (hin : t <:+: s.dropLast) :
    ∃ w rw, (∀ l, logged redact [List.replicate (redactBufCap + 1) 42 ++ s.dropLast, l] =
        (TaskLogSink.redacting rw).log collect w [l]) ∧
      rw.secrets = (newRedactWriter redact).secrets ∧ rw.maxLen = (newRedactWriter redact).maxLen ∧
      redactBufCap + 5 ≤ (w ++ rw.buf).count 42 := by
  let rw := newRedactWriter redact
  obtain ⟨b, hb⟩ : ∃ b, b = List.replicate (redactBufCap + 1) 42 ++ s.dropLast := ⟨_, rfl⟩
  rw [← hb]
  have hplain : newline ∉ b := by
    intro hmem
    rw [hb] at hmem
    rcases List.mem_append.mp hmem with hmem | hmem
    · exact absurd (List.eq_of_mem_replicate hmem) (by decide)
    · exact (h s hs).2.1 (List.dropLast_subset s hmem)
  have hcap : redactBufCap < b.length := by
    rw [hb, List.length_append, List.length_replicate]
    omega
  have htriv : Carries rw.secrets (fun _ _ _ => True) := ⟨fun _ _ => trivial, fun _ _ => trivial⟩
  have hflush : Flushes rw (fun _ => True) (fun _ _ _ => True) := fun _ _ _ _ _ _ _ => trivial
  obtain ⟨w, hwrite, -⟩ : ∃ w, rw.write collect [] b = (w, rw.next b, .ok b.length) ∧ True :=
    write_accepted collect_accepts htriv hflush (fun _ => trivial) [] trivial
  have hfirst : w = (cutBuffer rw.secrets rw.maxLen b).1 := by
    have hout : (rw.write collect [] b).1 = [] ++ (cutBuffer rw.secrets rw.maxLen b).1 := write_plain hplain hcap
    rw [hwrite] at hout
    exact hout
  have hbuf : (rw.next b).buf = (cutBuffer rw.secrets rw.maxLen b).2 := by
    change (cutBuffer rw.secrets rw.maxLen (lastLine b)).2 = _
    rw [lastLine_plain hplain]
  have hne : redact ≠ [] := List.ne_nil_of_mem hs
  refine ⟨w, rw.next b, fun l => ?_, rfl, rfl, ?_⟩
  · rw [logged, newLogSink, if_neg hne, TaskLogSink.log, TaskLogSink.write, hwrite]
  · obtain ⟨hcut, -⟩ := cutBuffer_spec (fun s hs => length_le_maxLen hs) hcap
    rw [hfirst, hbuf, ← hcut, hb, mask_filler h.sorted, List.count_append, List.count_replicate_self]
    rcases mask_more h.sorted s.dropLast with heq | hmore
    · have hhide := Masking.mask_hides h.sorted.maskable (mem_newRedactWriter.mpr ht) s.dropLast
      rw [heq] at hhide
      exact absurd hin hhide
    · omega

/-- Cut in a secret that holds another one, the log is not that of the lines. -/
theorem cutOutput_differs (h : Redactable redact) {s t : Bytes} (hs : s ∈ redact) (ht : t ∈ redact) (hin : t <:+: s.dropLast) :
    logged redact (cutOutput s) ≠ redactLines (newRedactWriter redact).secrets (cutOutput s).flatten := by
  intro heq
  have hlast : s.getLastD 0 ∈ s ∧ s.dropLast ++ [s.getLastD 0] = s := by
    have hne := (h s hs).1
    rw [List.getLastD_eq_getLast?, List.getLast?_eq_some_getLast hne]
    exact ⟨List.getLast_mem hne, List.dropLast_concat_getLast hne⟩
  have hspec : redactLines (newRedactWriter redact).secrets (cutOutput s).flatten =
      List.replicate (redactBufCap + 1) 42 ++ redactMask := by
    have hflat : (cutOutput s).flatten = List.replicate (redactBufCap + 1) 42 ++ s := by
      rw [cutOutput, List.flatten_cons, List.flatten_cons, List.flatten_nil, List.append_nil, List.append_assoc, hlast.2]
    rw [hflat, redactLines_eq h.sorted, mask_filler h.sorted, mask_secret h hs]
  obtain ⟨w, rw, hlog, hsecrets, hlong, hcount⟩ := cutOutput_first h hs ht hin
  rw [hspec, cutOutput, hlog] at heq
  -- what follows the first write adds its byte, or more mask characters
  have hcarry : Carries rw.secrets (fun taken out b => MoreMasked taken (out ++ b)) := by
    rw [hsecrets]
    exact more_carries h.sorted
  have hflush : Flushes rw (fun _ => True) (fun taken out b => MoreMasked taken (out ++ b)) := by
    unfold Flushes
    rw [hsecrets, hlong]
    exact more_flushes h
  obtain ⟨out, b, hmore, hend⟩ := log_accepted collect_accepts hcarry hflush (flushed_all (fun _ => trivial) rw [[s.getLastD 0]])
    (w ++ rw.buf) (.inl rfl)
  have hall : MoreMasked (w ++ rw.buf ++ [s.getLastD 0]) (List.replicate (redactBufCap + 1) 42 ++ redactMask) := by
    have hmask := (mask_more h.sorted b).behind out
    rw [← hsecrets, ← redactBytes_eq] at hmask
    rw [← heq]
    have hend : (TaskLogSink.redacting rw).log collect w [[s.getLastD 0]] = out ++ redactBytes b rw.secrets := hend
    rw [hend]
    exact hmore.trans hmask
  rcases hall with hsame | hmore
  · have hmem : s.getLastD 0 ∈ List.replicate (redactBufCap + 1) 42 ++ redactMask := by
      rw [hsame]
      exact List.mem_append_right _ List.mem_cons_self
    have hstar : s.getLastD 0 = 42 := by
      rcases List.mem_append.mp hmem with hmem | hmem
      · exact List.eq_of_mem_replicate hmem
      · simpa [redactMask] using hmem
    rw [hstar] at hlast
    exact (h s hs).2.2 hlast.1
  · have hmask : redactMask.count 42 = 4 := rfl
    have hspec : (List.replicate (redactBufCap + 1) 42 ++ redactMask).count 42 = redactBufCap + 1 + 4 := by
      rw [List.count_append, List.count_replicate_self, hmask]
    rw [hspec, List.count_append] at hmore
    omega

end Nested

/-- Every run whose overlong lines are flushed outside of such secrets logs the masked
lines. All runs do exactly when no secret occurs in another before its last byte. -/
theorem unbuffered_iff {redact : List Bytes} (h : Redactable redact) :
    (∀ writes, Flushed (Masking.Unsplit (newRedactWriter redact).secrets) (newRedactWriter redact) writes →
      logged redact writes = redactLines (newRedactWriter redact).secrets writes.flatten) ∧
    (Unbuffered redact ↔ Unnested redact) := by
  refine ⟨fun writes => logged_eq h, fun hall s hs t ht hin => ?_, fun hnest => ?_⟩
  · exact cutOutput_differs h hs ht hin (hall.lines (cutOutput s))
  · have hlines : ∀ writes, logged redact writes = redactLines (newRedactWriter redact).secrets writes.flatten :=
      fun writes => logged_eq h (flushed_all (unsplit_of_unnested hnest) _ writes)
    refine ⟨fun a b hab => ?_, hlines⟩
    rw [hlines, hlines, hab]

/-- Two secrets of which neither begins the other. -/
theorem unbuffered_two : Unbuffered [[112, 119], [120, 119, 112]] :=
  (unbuffered_iff (by unfold Redactable; decide)).2.mpr (by decide)

def pass : Bytes := [112, 97, 115, 115]

def password : Bytes := [112, 97, 115, 115, 119, 111, 114, 100]

/-- With `pass` and `password`, a flush after `passwor` leaves a last letter in the log. -/
theorem unbuffered_nested : ¬ ∀ redact, Redactable redact → Unbuffered redact := by
  intro h
  have hred : Redactable [pass, password] := by
    unfold Redactable
    decide
  have hin : pass <:+: password.dropLast := by decide
  have hpass : pass ∈ [pass, password] := List.mem_cons_self
  have hpassword : password ∈ [pass, password] := List.mem_cons_of_mem pass List.mem_cons_self
  have hdiffers := cutOutput_differs hred hpassword hpass hin
  exact hdiffers ((h [pass, password] hred).lines (cutOutput password))

end Cronova.Properties.Buffering
