import Cronova.Properties.LogDelivery
import Cronova.Remote.TaskLog

/-! The log of a task instance across restarts of the hub: the mark that adoption
takes from the size of the file is right as long as the attempt is the only one
that has bytes in the file. -/
namespace Cronova.Properties
open Cronova.Model Cronova.Concurrency Cronova.Remote

/-- Every byte in the file comes from the current attempt. -/
def Alone (j : TaskLog) : Prop := ∀ b ∈ j.file, b.1 = j.attempt

/-- The log goes on after an adoption as the attempt's own: the mark counts its
bytes, and the worker's resend leaves each of them in the file once. -/
def Resumes (j : TaskLog) (listing : Option (List TaskInstance)) : Prop :=
  (j.adoptedEntry listing).logHW = j.own.length ∧
    TaskLog.own (TaskLog.resend { j with entry := some (j.adoptedEntry listing), named := j.named, distinct := j.distinct }) =
      j.spool

/-- What holds of the file whatever the attempts. -/
structure InFile (j : TaskLog) : Prop where
  earlier : ∀ b ∈ j.file, b.1 ≤ j.attempt
  /-- A file that is the attempt's own holds its spool up to some point. -/
  file : j.remote = true → Alone j → j.file = tagged j.attempt (j.spool.take j.file.length) ∧ j.file.length ≤ j.spool.length
  /-- The hub has no file for the attempt, or knows its size when it is the attempt's own. -/
  entry : j.remote = true → ∀ rs, j.entry = some rs →
    rs.logPath = "" ∧ rs.logOpen = false ∨ (Alone j → rs.logHW = j.file.length)

section Tagged
variable {n : Nat} {data data' : Bytes}

theorem tagged_append : tagged n (data ++ data') = tagged n data ++ tagged n data' := List.map_append

theorem tagged_length : (tagged n data).length = data.length := List.length_map _

theorem mem_tagged {b : Written} (hb : b ∈ tagged n data) : b.1 = n := by
  obtain ⟨x, -, rfl⟩ := List.mem_map.1 hb
  rfl

theorem untag (hown : ∀ b ∈ tagged n data, b.1 = n) :
    ((tagged n data).filter (fun b => b.1 = n)).map (·.2) = data := by
  rw [List.filter_eq_self.2 (by simpa using hown), tagged, List.map_map]
  exact List.map_id data

end Tagged

section Chunk
variable {rs : RefState} {c : LogChunk}

/-- A record without a file appends nothing. -/
theorem onChunk_pathless (disk : RefState.Disk) (hpath : rs.logPath = "" ∧ rs.logOpen = false) :
    (rs.onChunk c disk).appended = [] ∧ (rs.onChunk c disk).state.logPath = "" ∧ (rs.onChunk c disk).state.logOpen = false := by
  obtain ⟨hnone, hclosed⟩ := hpath
  unfold RefState.onChunk
  dsimp only
  split
  · exact ⟨rfl, hnone, hclosed⟩
  · split
    · exact ⟨rfl, hnone, hclosed⟩
    · split
      · exact ⟨rfl, hnone, hclosed⟩
      · cases c.eof <;> simp [hnone, hclosed, RefState.closeLog]

theorem onChunk_path (disk : RefState.Disk) : (rs.onChunk c disk).state.logPath = rs.logPath := by
  unfold RefState.onChunk
  dsimp only
  split
  · rfl
  · split
    · rfl
    · split
      · rfl
      · split <;> split <;> rfl

/-- A chunk that leaves no gap is in the file when the disk has done its work. -/
theorem onChunk_reaches (hpath : rs.logPath ≠ "") (hstart : c.offset ≤ rs.logHW) :
    c.offset + c.data.length ≤ (rs.onChunk c {}).state.logHW := by
  unfold RefState.onChunk
  dsimp only
  split
  case isTrue hold =>
    dsimp only
    omega
  case isFalse hnew =>
    split
    case isTrue hgap =>
      dsimp only
      omega
    case isFalse =>
      split
      case isTrue hfail => exact absurd hfail.2.2 (by decide)
      case isFalse =>
        have hdata : (if c.offset < (rs.logHW : Int) then c.data.drop (rs.logHW - c.offset).toNat else c.data).length =
            c.data.length - (rs.logHW - c.offset).toNat := by
          split
          · exact List.length_drop
          · omega
        cases c.eof <;> simp [hpath, RefState.closeLog, hdata] <;> omega

end Chunk

/-- The record that a listing leads to: the row is there with its file, or nothing was listed. -/
theorem adoptedEntry_cases (j : TaskLog) {listing : Option (List TaskInstance)} (hlists : j.Lists listing) :
    listing = none ∧ (j.adoptedEntry listing).logPath = "" ∧ (j.adoptedEntry listing).logOpen = false ∧
        (j.adoptedEntry listing).logHW = 0 ∨
      listing.isSome = true ∧ (j.adoptedEntry listing).logPath = j.row.logPath ∧
        (j.adoptedEntry listing).logHW = j.file.length := by
  cases listing with
  | none => exact .inl ⟨rfl, rfl, rfl, rfl⟩
  | some rows =>
    right
    have hperm := hlists rows rfl
    have hfind : rows.find? (fun ti => decide (ti.taskID = j.row.taskID ∧ ti.executorRef = j.row.executorRef)) = some j.row := by
      cases hfound : rows.find? (fun ti => decide (ti.taskID = j.row.taskID ∧ ti.executorRef = j.row.executorRef)) with
      | none =>
        have hnot := List.find?_eq_none.1 hfound j.row (hperm.mem_iff.2 (List.mem_cons_self ..))
        simp at hnot
      | some ti =>
        have hmatch := List.find?_some hfound
        have hmem := hperm.mem_iff.1 (List.mem_of_find?_eq_some hfound)
        rw [decide_eq_true_eq] at hmatch
        rcases List.mem_cons.1 hmem with h | h
        · rw [h]
        · exact absurd hmatch.1 (j.distinct ti h)
    have hentry : j.adoptedEntry (some rows) =
        { workerID := j.workerID, logPath := j.row.logPath, outputPath := outputPath j.row.logPath j.attempt,
          logHW := j.file.length } := by
      unfold TaskLog.adoptedEntry adopted
      dsimp only [Option.getD_some]
      rw [hfind]
      dsimp only
      rw [if_neg j.named, if_pos rfl]
      rfl
    rw [hentry]
    exact ⟨rfl, rfl, rfl⟩

section Steps
variable {j j' : TaskLog}

theorem dispatchRemote_tidy (ht : InFile j) {entry : RefState} (hentry : entry.logHW = 0) :
    InFile (j.dispatch true j.file 0 (some entry)) := by
  have hempty : Alone (j.dispatch true j.file 0 (some entry)) → j.file = [] := by
    intro halone
    by_contra hsome
    obtain ⟨b, hb⟩ := List.exists_mem_of_ne_nil _ hsome
    have hle := ht.earlier b hb
    have heq : b.1 = j.attempt + 1 := halone b hb
    omega
  refine ⟨?_, ?_, ?_⟩
  · intro b hb
    exact Nat.le_succ_of_le (ht.earlier b hb)
  · intro _ halone
    have hfile := hempty halone
    have hsame : (j.dispatch true j.file 0 (some entry)).file = [] := hfile
    rw [hsame]
    exact ⟨rfl, Nat.zero_le _⟩
  · intro _ rs hrs
    right
    intro halone
    cases hrs
    have hsame : (j.dispatch true j.file 0 (some entry)).file = [] := hempty halone
    rw [hsame, hentry]
    rfl

theorem mem_writeAt {file data : List Written} {offset : Nat} {b : Written} (hb : b ∈ TaskLog.writeAt file offset data) :
    b ∈ file ∨ b ∈ data := by
  rcases List.mem_append.1 hb with h | h
  · rcases List.mem_append.1 h with h | h
    · exact .inl (List.mem_of_mem_take h)
    · exact .inr h
  · exact .inl (List.mem_of_mem_drop h)

theorem receive_tidy (ht : InFile j) (hremote : j.remote = true) {rs : RefState} (hrs : j.entry = some rs) {c : LogChunk}
    (hslice : c.SliceOf j.spool) (disk : RefState.Disk) : InFile (j.receive rs c disk) := by
  have hfile : (j.receive rs c disk).file = j.file ++ tagged j.attempt (rs.onChunk c disk).appended := rfl
  have hbefore : Alone (j.receive rs c disk) → Alone j := by
    intro halone b hb
    exact halone b (List.mem_append_left _ hb)
  refine ⟨?_, ?_, ?_⟩
  · intro b hb
    rcases List.mem_append.1 hb with h | h
    · exact ht.earlier b h
    · exact (mem_tagged h).le
  · intro _ halone
    obtain ⟨hheld, hbound⟩ := ht.file hremote (hbefore halone)
    rw [hfile]
    rcases ht.entry hremote rs hrs with hpath | hmark
    · rw [(onChunk_pathless disk hpath).1, tagged, List.map_nil, List.append_nil]
      exact ⟨hheld, hbound⟩
    · have hmark := hmark (hbefore halone)
      obtain ⟨-, hreach, hnew, -⟩ := onChunk_exact disk hslice (by rw [hmark]; exact hbound)
      rw [hmark] at hreach hnew
      rw [List.length_append, tagged_length]
      refine ⟨?_, hreach⟩
      change j.file ++ tagged j.attempt (rs.onChunk c disk).appended = tagged j.attempt (j.spool.take _)
      rw [List.take_add, tagged_append, ← hnew]
      exact congrArg (· ++ tagged j.attempt (rs.onChunk c disk).appended) hheld
  · intro _ rs' hrs'
    cases hrs'
    rcases ht.entry hremote rs hrs with hpath | hmark
    · exact .inl (onChunk_pathless disk hpath).2
    · right
      intro halone
      have hmark := hmark (hbefore halone)
      obtain ⟨hmoved, -⟩ := onChunk_exact disk hslice (by rw [hmark]; exact (ht.file hremote (hbefore halone)).2)
      rw [hfile, hmoved, hmark, List.length_append, tagged_length]

theorem stray_tidy (ht : InFile j) {n : Nat} (hn : n < j.attempt) (data : Bytes) :
    InFile { j with file := j.file ++ tagged n data, named := j.named, distinct := j.distinct } := by
  have hnothing : Alone { j with file := j.file ++ tagged n data, named := j.named, distinct := j.distinct } →
      tagged n data = [] ∧ Alone j := by
    intro halone
    refine ⟨?_, fun b hb => halone b (List.mem_append_left _ hb)⟩
    by_contra hsome
    obtain ⟨b, hb⟩ := List.exists_mem_of_ne_nil _ hsome
    have heq : b.1 = j.attempt := halone b (List.mem_append_right _ hb)
    rw [mem_tagged hb] at heq
    omega
  refine ⟨?_, ?_, ?_⟩
  · intro b hb
    rcases List.mem_append.1 hb with h | h
    · exact ht.earlier b h
    · rw [mem_tagged h]
      exact hn.le
  · intro hremote halone
    obtain ⟨hnone, halone⟩ := hnothing halone
    dsimp only
    rw [hnone, List.append_nil]
    exact ht.file hremote halone
  · intro hremote rs hrs
    rcases ht.entry hremote rs hrs with h | h
    · exact .inl h
    · right
      intro halone
      obtain ⟨hnone, halone⟩ := hnothing halone
      dsimp only
      rw [hnone, List.append_nil]
      exact h halone

theorem step_tidy (ht : InFile j) {e : LogEvent} (hstep : j.step e = some j') : InFile j' := by
  cases e with
  | dispatchLocal head =>
    obtain ⟨-, hnext⟩ := Option.ite_none_right_eq_some.1 hstep
    cases hnext
    refine ⟨?_, (fun h => by cases h), fun h => by cases h⟩
    intro b hb
    exact (mem_tagged hb).le
  | dispatchRemote =>
    cases hstep
    exact dispatchRemote_tidy ht rfl
  | writeLocal data =>
    obtain ⟨hlocal, hnext⟩ := Option.ite_none_right_eq_some.1 hstep
    cases hnext
    refine ⟨?_, ?_, ?_⟩
    · intro b hb
      rcases mem_writeAt hb with h | h
      · exact ht.earlier b h
      · exact (mem_tagged h).le
    · intro hremote
      rw [hlocal] at hremote
      cases hremote
    · intro hremote
      rw [hlocal] at hremote
      cases hremote
  | writeSpool data =>
    obtain ⟨hremote, hnext⟩ := Option.ite_none_right_eq_some.1 hstep
    cases hnext
    refine ⟨ht.earlier, ?_, ht.entry⟩
    intro _ halone
    obtain ⟨hheld, hbound⟩ := ht.file hremote halone
    dsimp only
    rw [List.take_append_of_le_length hbound, List.length_append]
    exact ⟨hheld, Nat.le_add_right_of_le hbound⟩
  | chunk c disk =>
    simp only [TaskLog.step] at hstep
    split at hstep
    case h_1 rs hrs =>
      obtain ⟨⟨hremote, hslice⟩, hnext⟩ := Option.ite_none_right_eq_some.1 hstep
      cases hnext
      exact receive_tidy ht hremote hrs hslice disk
    case h_2 => cases hstep
  | stray attempt data =>
    obtain ⟨hn, hnext⟩ := Option.ite_none_right_eq_some.1 hstep
    cases hnext
    exact stray_tidy ht hn data
  | restart =>
    cases hstep
    refine ⟨ht.earlier, ht.file, ?_⟩
    intro _ rs hrs
    cases hrs
  | adopt listing =>
    obtain ⟨⟨-, -, -, hlists⟩, hnext⟩ := Option.ite_none_right_eq_some.1 hstep
    cases hnext
    refine ⟨ht.earlier, ht.file, ?_⟩
    intro _ rs hrs
    cases hrs
    rcases adoptedEntry_cases j hlists with ⟨-, hpath, hclosed, -⟩ | ⟨-, -, hmark⟩
    · exact .inl ⟨hpath, hclosed⟩
    · exact .inr (fun _ => hmark)

theorem fresh_tidy {row : TaskInstance} {others : List TaskInstance} (named : row.logPath ≠ "")
    (distinct : ∀ ti ∈ others, ti.taskID ≠ row.taskID) (workerID : String) :
    InFile (TaskLog.fresh row others named distinct workerID) :=
  ⟨(fun _ h => by cases h), (fun h => by cases h), fun h => by cases h⟩

end Steps

section Resend

/-- One chunk of the resend. -/
def resendOne (j : TaskLog) (c : LogChunk) : TaskLog :=
  match j.entry with
  | some rs => j.receive rs c {}
  | none => j

theorem resend_eq (j : TaskLog) : j.resend = (TaskLog.resendChunks j.row.executorRef j.spool).foldl resendOne j := rfl

/-- The file is the attempt's own and holds the first `n` bytes of its spool, as
the hub's record has it. -/
structure Received (j : TaskLog) (rs : RefState) (n : Nat) : Prop where
  entry : j.entry = some rs
  path : rs.logPath ≠ ""
  mark : rs.logHW = n
  bound : n ≤ j.spool.length
  file : j.file = tagged j.attempt (j.spool.take n)

theorem Received.chunk {j : TaskLog} {rs : RefState} {n : Nat} (hh : Received j rs n) {c : LogChunk} (hslice : c.SliceOf j.spool)
    (hstart : c.offset ≤ n) : ∃ rs' n', Received (resendOne j c) rs' n' ∧ n ≤ n' ∧ c.offset + c.data.length ≤ n' ∧
      (resendOne j c).spool = j.spool ∧ (resendOne j c).attempt = j.attempt := by
  have hone : resendOne j c = j.receive rs c {} := by
    unfold resendOne
    rw [hh.entry]
  have hmark := hh.mark
  subst hmark
  obtain ⟨hmoved, hbound, hnew, -⟩ := onChunk_exact {} hslice hh.bound
  have hreach := onChunk_reaches hh.path hstart
  rw [hone]
  refine ⟨(rs.onChunk c {}).state, rs.logHW + (rs.onChunk c {}).appended.length, ⟨rfl, ?_, hmoved, hbound, ?_⟩, by omega,
    by omega, rfl, rfl⟩
  · rw [onChunk_path]
    exact hh.path
  · change j.file ++ tagged j.attempt (rs.onChunk c {}).appended = tagged j.attempt (j.spool.take _)
    rw [List.take_add, tagged_append, ← hnew, hh.file]

theorem resendChunk_slice (ref : String) (spool : Bytes) {i : Nat} (hi : i ≤ spool.length / chunkSize) :
    (TaskLog.resendChunk ref spool i).SliceOf spool := by
  have hin : i * chunkSize ≤ spool.length := (Nat.mul_le_mul_right _ hi).trans (Nat.div_mul_le_self _ _)
  have hlength : ((spool.drop (i * chunkSize)).take chunkSize).length ≤ spool.length - i * chunkSize := by
    rw [List.length_take, List.length_drop]
    exact min_le_right _ _
  refine ⟨Int.natCast_nonneg _, ?_, ?_⟩
  · simp only [TaskLog.resendChunk]
    omega
  · simp only [TaskLog.resendChunk, Int.toNat_natCast, List.length_take, List.take_eq_take_iff]
    omega

/-- The chunks of a resend before number `m` bring everything up to there. -/
theorem Received.resend {j : TaskLog} {rs : RefState} {n : Nat} (hh : Received j rs n) (ref : String) (m : Nat)
    (hm : m ≤ j.spool.length / chunkSize + 1) : ∃ j' rs' n',
      ((List.range m).map (TaskLog.resendChunk ref j.spool)).foldl resendOne j = j' ∧ Received j' rs' n' ∧
        min (m * chunkSize) j.spool.length ≤ n' ∧ j'.spool = j.spool ∧ j'.attempt = j.attempt := by
  induction m with
  | zero => exact ⟨j, rs, n, rfl, hh, by rw [Nat.zero_mul, Nat.zero_min]; exact Nat.zero_le _, rfl, rfl⟩
  | succ m ih =>
    obtain ⟨j', rs', n', hfold, hh', hreach, hspool, hattempt⟩ := ih (by omega)
    have hslice : (TaskLog.resendChunk ref j.spool m).SliceOf j'.spool := by
      rw [hspool]
      exact resendChunk_slice ref j.spool (by omega)
    have hin : m * chunkSize ≤ j.spool.length :=
      (Nat.mul_le_mul_right _ (by omega : m ≤ j.spool.length / chunkSize)).trans (Nat.div_mul_le_self _ _)
    obtain ⟨rs'', n'', hh'', -, hend, hspool', hattempt'⟩ := hh'.chunk hslice (by
      simp only [TaskLog.resendChunk]
      omega)
    refine ⟨_, rs'', n'', rfl, ?_, ?_, ?_, ?_⟩
    · rw [List.range_succ, List.map_append, List.foldl_append, hfold]
      exact hh''
    · have hlength : (TaskLog.resendChunk ref j.spool m).data.length = min chunkSize (j.spool.length - m * chunkSize) := by
        simp only [TaskLog.resendChunk, List.length_take, List.length_drop]
      simp only [TaskLog.resendChunk] at hend hlength
      rw [hlength] at hend
      rw [Nat.succ_mul]
      omega
    · rw [List.range_succ, List.map_append, List.foldl_append, hfold]
      exact hspool'.trans hspool
    · rw [List.range_succ, List.map_append, List.foldl_append, hfold]
      exact hattempt'.trans hattempt

/-- After the whole resend the file holds the whole spool. -/
theorem Received.complete {j : TaskLog} {rs : RefState} {n : Nat} (hh : Received j rs n) : j.resend.own = j.spool := by
  obtain ⟨j', rs', n', hfold, hh', hreach, hspool, hattempt⟩ :=
    hh.resend j.row.executorRef (j.spool.length / chunkSize + 1) le_rfl
  have hall : n' = j.spool.length := by
    have hbound := hh'.bound
    have hover : j.spool.length < (j.spool.length / chunkSize + 1) * chunkSize := by
      rw [Nat.succ_mul]
      exact Nat.lt_div_mul_add (by decide)
    rw [hspool] at hbound
    omega
  have hfile : j'.file = tagged j'.attempt j.spool := by
    rw [hh'.file, hall, hspool, List.take_length]
  rw [resend_eq, TaskLog.resendChunks, hfold, TaskLog.own, hfile]
  exact untag (fun b hb => mem_tagged hb)

/-- A record without a file brings nothing. -/
theorem pathless_resend {j : TaskLog} {rs : RefState} (hrs : j.entry = some rs) (hpath : rs.logPath = "" ∧ rs.logOpen = false) :
    j.resend.own = j.own := by
  have hfold : ∀ (cs : List LogChunk) (j : TaskLog) (rs : RefState), j.entry = some rs →
      rs.logPath = "" ∧ rs.logOpen = false →
        (cs.foldl resendOne j).file = j.file ∧ (cs.foldl resendOne j).attempt = j.attempt := by
    intro cs
    induction cs with
    | nil => exact fun _ _ _ _ => ⟨rfl, rfl⟩
    | cons c cs ih =>
      intro j rs hrs hpath
      have hone : resendOne j c = j.receive rs c {} := by
        unfold resendOne
        rw [hrs]
      obtain ⟨hnone, hstill⟩ := onChunk_pathless (c := c) {} hpath
      have hfile : (j.receive rs c {}).file = j.file := by
        change j.file ++ tagged j.attempt (rs.onChunk c {}).appended = j.file
        rw [hnone, tagged, List.map_nil, List.append_nil]
      rw [List.foldl_cons, hone]
      obtain ⟨hsame, hattempt⟩ := ih (j.receive rs c {}) _ rfl hstill
      exact ⟨hsame.trans hfile, hattempt⟩
  obtain ⟨hsame, hattempt⟩ := hfold (TaskLog.resendChunks j.row.executorRef j.spool) j rs hrs hpath
  rw [resend_eq, TaskLog.own, TaskLog.own, hsame, hattempt]

end Resend

theorem alone_of_length {j : TaskLog} (hcount : j.file.length = j.own.length) : Alone j := by
  rw [TaskLog.own, List.length_map] at hcount
  have hall := List.length_filter_eq_length_iff.1 hcount.symm
  intro b hb
  simpa using hall b hb

theorem resumes_iff {j : TaskLog} (ht : InFile j) (hremote : j.remote = true) (hbegun : j.spool ≠ [])
    {listing : Option (List TaskInstance)} (hlists : j.Lists listing) :
    Resumes j listing ↔ listing.isSome = true ∧ Alone j := by
  rcases adoptedEntry_cases j hlists with ⟨rfl, hpath, hclosed, hzero⟩ | ⟨hlisted, hpath, hmark⟩
  · constructor
    · rintro ⟨hcount, hall⟩
      rw [pathless_resend rfl ⟨hpath, hclosed⟩] at hall
      rw [hzero] at hcount
      refine absurd ?_ hbegun
      rw [← hall]
      exact List.eq_nil_of_length_eq_zero hcount.symm
    · rintro ⟨h, -⟩
      cases h
  · constructor
    · rintro ⟨hcount, -⟩
      rw [hmark] at hcount
      exact ⟨hlisted, alone_of_length hcount⟩
    · rintro ⟨-, halone⟩
      obtain ⟨hheld, hbound⟩ := ht.file hremote halone
      refine ⟨?_, ?_⟩
      · rw [hmark, TaskLog.own, List.filter_eq_self.2 (fun b hb => decide_eq_true (halone b hb)), List.length_map]
      · have hholds : Received { j with entry := some (j.adoptedEntry listing), named := j.named, distinct := j.distinct }
            (j.adoptedEntry listing) j.file.length := by
          refine ⟨rfl, ?_, hmark, hbound, hheld⟩
          rw [hpath]
          exact j.named
        exact hholds.complete

/-- At every adoption of a running attempt: the log goes on as the attempt's own
exactly when the run could be listed and no other attempt has bytes in the file. -/
theorem log_resumes (row : TaskInstance) (others : List TaskInstance) (named : row.logPath ≠ "")
    (distinct : ∀ ti ∈ others, ti.taskID ≠ row.taskID) (workerID : String) (j : TaskLog)
    (hrun : Reaches TaskLog.step anyEvent (TaskLog.fresh row others named distinct workerID) j)
    (listing : Option (List TaskInstance)) (hadopts : (j.step (.adopt listing)).isSome) :
    Resumes j listing ↔ listing.isSome = true ∧ Alone j := by
  have ht : InFile j := hrun.keeps (fresh_tidy named distinct workerID) (fun _ _ _ ht _ hstep => step_tidy ht hstep)
  obtain ⟨j', hstep⟩ := Option.isSome_iff_exists.1 hadopts
  obtain ⟨⟨hremote, -, hbegun, hlists⟩, -⟩ := Option.ite_none_right_eq_some.1 hstep
  exact resumes_iff ht hremote hbegun hlists

def exampleRow : TaskInstance := { runID := "run", taskID := "task", state := .scheduled, logPath := "task.log" }

/-- The first attempt runs on a worker and is adopted twice. -/
theorem log_resumes_first : ∃ (j : TaskLog) (listing : Option (List TaskInstance)), j.own = [1, 2] ∧ Resumes j listing := by
  obtain ⟨j, hrun, hfacts⟩ := play_any TaskLog.step anyEvent (TaskLog.fresh exampleRow [] (by decide) (by simp) "w")
    [.dispatchRemote, .writeSpool [1, 2, 3], .chunk { ref := "run/task/1", offset := 0, data := [1] } {}, .restart,
      .adopt (some [TaskLog.dispatched exampleRow]), .chunk { ref := "run/task/1", offset := 0, data := [1, 2] } {}, .restart]
    (fun j => j.own = [1, 2] ∧ (j.step (.adopt (some [TaskLog.dispatched exampleRow]))).isSome ∧
      j.file.all (fun b => b.1 = j.attempt)) (by decide +kernel)
  simp only [decide_eq_true_eq] at hfacts
  obtain ⟨hown, hadopts, hall⟩ := hfacts
  refine ⟨j, _, hown, ((log_resumes exampleRow [] (by decide) (by simp) "w" j hrun _ hadopts).2 ⟨rfl, ?_⟩)⟩
  intro b hb
  exact of_decide_eq_true (List.all_eq_true.1 hall b hb)

/-- The second attempt shares the file with the first: the mark counts the bytes
of both. -/
theorem log_resumes_wrong : ¬ ∀ j, Reaches TaskLog.step anyEvent (TaskLog.fresh exampleRow [] (by decide) (by simp) "w") j →
    ∀ listing, (j.step (.adopt listing)).isSome → listing.isSome = true → Resumes j listing := by
  intro hall
  obtain ⟨j, hrun, hfacts⟩ := play_any TaskLog.step anyEvent (TaskLog.fresh exampleRow [] (by decide) (by simp) "w")
    [.dispatchRemote, .writeSpool [1, 2], .chunk { ref := "run/task/1", offset := 0, data := [1, 2] } {}, .dispatchRemote,
      .writeSpool [1, 2, 3], .chunk { ref := "run/task/2", offset := 0, data := [1] } {}, .restart]
    (fun j => (j.step (.adopt (some [TaskLog.dispatched (TaskLog.dispatched exampleRow)]))).isSome ∧
      (j.adoptedEntry (some [TaskLog.dispatched (TaskLog.dispatched exampleRow)])).logHW = 3 ∧ j.own = [1]) (by decide +kernel)
  simp only [decide_eq_true_eq] at hfacts
  obtain ⟨hadopts, hmark, hown⟩ := hfacts
  have hresumes := (hall j hrun _ hadopts rfl).1
  rw [hmark, hown] at hresumes
  cases hresumes

end Cronova.Properties
