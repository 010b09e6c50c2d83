import Cronova.Text.Masking
import Mathlib.Algebra.Order.Ring.Int

/-! Redaction of a task's log: a writer in front of the log file that buffers by line
and masks every secret in what it passes on. -/
namespace Cronova.Executor

abbrev Bytes := List UInt8

def newline : UInt8 := 10

/-- The line buffer is flushed past this size even without a newline. -/
def redactBufCap : Nat := 2 ^ 20

/-- What replaces a secret. -/
def redactMask : Bytes := [42, 42, 42, 42]

/-- The first secret that the bytes begin with. -/
def hasSecret (secrets : List Bytes) (b : Bytes) : Option Bytes := secrets.find? (fun s => s ≠ [] && s.isPrefixOf b)

/-- The pass of `redactBytes`; `skip` counts the bytes of a secret that is masked already. -/
def redactPass (secrets : List Bytes) : Bytes → (skip : Nat) → Bytes
  | [], _ => []
  | _ :: b, skip + 1 => redactPass secrets b skip
  | c :: b, 0 =>
    match hasSecret secrets (c :: b) with
    | some s => redactMask ++ redactPass secrets b (s.length - 1)
    | none => c :: redactPass secrets b 0

def containsBytes (b s : Bytes) : Bool := b.tails.any (fun t => s.isPrefixOf t)

/-- Mask every secret in a single pass from left to right. -/
def redactBytes (b : Bytes) (secrets : List Bytes) : Bytes :=
  if secrets.any (fun s => s ≠ [] && containsBytes b s) then redactPass secrets b 0 else b

/-- Where a log goes: a write leaves a new state, and an error when it fails. -/
abbrev LogSink (σ : Type) := σ → Bytes → σ × Option String

structure RedactWriter where
  secrets : List Bytes
  /-- The length of the longest secret. -/
  maxLen : Nat
  buf : Bytes := []
  deriving DecidableEq, Repr

/-- The secrets with the longest first. -/
def newRedactWriter (redact : List Bytes) : RedactWriter where
  secrets := redact.mergeSort (fun s t => t.length ≤ s.length)
  maxLen := redact.foldl (fun m s => max m s.length) 0

section Writer
variable {σ : Type} (sink : LogSink σ)

/-- Pass on each complete line; `line` is the line read so far. A failed write leaves
its line in the buffer. -/
def writeLines (secrets : List Bytes) (w : σ) (line : Bytes) : (rest : Bytes) → σ × Bytes × Option String
  | [] => (w, line, none)
  | c :: rest =>
    if c = newline then
      match sink w (redactBytes (line ++ [c]) secrets) with
      | (w, some err) => (w, line ++ c :: rest, some err)
      | (w, none) => writeLines secrets w [] rest
    else writeLines secrets w (line ++ [c]) rest

/-- Pass on all but the last bytes of a buffer without a newline that is too long. -/
def flushCapped (secrets : List Bytes) (maxLen : Nat) (w : σ) (buf : Bytes) : σ × Bytes × Option String :=
  if redactBufCap < buf.length then
    let red := redactBytes buf secrets
    let keep := min (maxLen - 1) red.length
    match sink w (red.take (red.length - keep)) with
    | (w, some err) => (w, buf, some err)
    | (w, none) => (w, red.drop (red.length - keep), none)
  else (w, buf, none)

/-- Take bytes to log. -/
def RedactWriter.write (rw : RedactWriter) (w : σ) (p : Bytes) : σ × RedactWriter × Except String Nat :=
  match writeLines sink rw.secrets w [] (rw.buf ++ p) with
  | (w, buf, some err) => (w, { rw with buf := buf }, .error err)
  | (w, buf, none) =>
    match flushCapped sink rw.secrets rw.maxLen w buf with
    | (w, buf, some err) => (w, { rw with buf := buf }, .error err)
    | (w, buf, none) => (w, { rw with buf := buf }, .ok p.length)

/-- Pass on what is left; the log file is closed after it. -/
def RedactWriter.close (rw : RedactWriter) (w : σ) : σ × RedactWriter :=
  if rw.buf = [] then (w, rw) else ((sink w (redactBytes rw.buf rw.secrets)).1, { rw with buf := [] })

/-- The log of a task: plain when there is nothing to redact. -/
inductive TaskLogSink where
  | plain
  | redacting (rw : RedactWriter)
  deriving DecidableEq, Repr

def newLogSink (redact : List Bytes) : TaskLogSink := if redact = [] then .plain else .redacting (newRedactWriter redact)

def TaskLogSink.write (w : σ) (p : Bytes) : TaskLogSink → σ × TaskLogSink × Except String Nat
  | .plain =>
    match sink w p with
    | (w, some err) => (w, .plain, .error err)
    | (w, none) => (w, .plain, .ok p.length)
  | .redacting rw =>
    match rw.write sink w p with
    | (w, rw, out) => (w, .redacting rw, out)

def TaskLogSink.close (w : σ) : TaskLogSink → σ × TaskLogSink
  | .plain => (w, .plain)
  | .redacting rw => let (w, rw) := rw.close sink w; (w, .redacting rw)

/-- The writes of a task's output, up to the first that fails, and the close after them. -/
def TaskLogSink.log (w : σ) : TaskLogSink → (writes : List Bytes) → σ
  | l, [] => (l.close sink w).1
  | l, p :: writes =>
    match l.write sink w p with
    | (w, l, .error _) => (l.close sink w).1
    | (w, l, .ok _) => l.log w writes

end Writer
end Cronova.Executor
