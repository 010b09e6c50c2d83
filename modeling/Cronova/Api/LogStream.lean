import Cronova.Text.Lines

/-! The live log of a task: a drain reads what has been appended to the file since the last
one, and sends the lines in it as events. -/
namespace Cronova.Api.LogStream
open Cronova.Text

abbrev Bytes := List UInt8

def sseInitialTailBytes : Nat := 1048576

def sseLineChunkBytes : Nat := 65536

def sseReadPerDrain : Nat := 1048576

/-- The size of the buffer of a read. -/
def readBytes : Nat := 32768

def newline : UInt8 := 10

def carriageReturn : UInt8 := 13

inductive Event where
  | truncated (offset size : Nat)
  | data (line : Bytes)
  | done
  deriving DecidableEq

structure Stream where
  offset : Nat := 0
  /-- An incomplete line at the end of what has been read. -/
  lineBuf : Bytes := []
  /-- What has been sent. -/
  sent : List Event := []
  deriving DecidableEq

/-- What a drain finds: a file that cannot be opened, or its size, if that can be had, and
what is in it at the time of each read. -/
inductive Look where
  | missing
  | file (size : Option Nat) (holds : Nat → Bytes)

/-- A carriage return ends a line of an event as well. -/
def emit (line : Bytes) : Event := .data (line.filter (· ≠ carriageReturn))

/-- The size of the log when the stream starts decides where it starts. -/
def start (size : Option Nat) : Stream :=
  match size with
  | some size =>
    if sseInitialTailBytes < size then
      { offset := size - sseInitialTailBytes, sent := [.truncated (size - sseInitialTailBytes) size] }
    else {}
  | none => {}

namespace Stream

/-- A file that has shrunk is read from its start, and one that has grown too much from
further on. -/
def follow (s : Stream) : (size : Option Nat) → Stream
  | none => s
  | some size =>
    if size < s.offset then { s with offset := 0, lineBuf := [] }
    else if sseInitialTailBytes < size - s.offset then
      { offset := size - sseInitialTailBytes, lineBuf := [], sent := s.sent ++ [.truncated (size - sseInitialTailBytes) size] }
    else s

/-- Reads until the end of the file, `remaining` bytes at most. -/
def readNew (holds : Nat → Bytes) (i remaining : Nat) (s : Stream) : Stream :=
  if h : ((holds i).drop s.offset).take (min readBytes remaining) = [] then s
  else
    let chunk := ((holds i).drop s.offset).take (min readBytes remaining)
    readNew holds (i + 1) (remaining - chunk.length) { s with offset := s.offset + chunk.length, lineBuf := s.lineBuf ++ chunk }
termination_by remaining
decreasing_by
  have hchunk := List.length_pos_iff.mpr h
  have hlength := List.length_take_le (min readBytes remaining) ((holds i).drop s.offset)
  omega

/-- Pieces are taken off as long as there is more than one. -/
def longPieces (line : Bytes) : List Bytes × Bytes :=
  if sseLineChunkBytes < line.length then
    (line.take sseLineChunkBytes :: (longPieces (line.drop sseLineChunkBytes)).1, (longPieces (line.drop sseLineChunkBytes)).2)
  else ([], line)
termination_by line.length
decreasing_by all_goals (rw [List.length_drop]; unfold sseLineChunkBytes at *; omega)

/-- The pieces of the lines that are complete, and what is behind the last newline. -/
def completeLines (buf : Bytes) : List Bytes × Bytes :=
  if newline ∈ buf then
    let line := longPieces (buf.take (buf.idxOf newline))
    let more := completeLines (buf.drop (buf.idxOf newline + 1))
    (line.1 ++ line.2 :: more.1, more.2)
  else ([], buf)
termination_by buf.length
decreasing_by
  have hmem := List.length_pos_of_mem ‹newline ∈ buf›
  rw [List.length_drop]
  omega

/-- Sends the lines that are complete, and with the last drain the rest. -/
def sendLines (final : Bool) (s : Stream) : Stream :=
  let complete := completeLines s.lineBuf
  let long := longPieces complete.2
  let sent := s.sent ++ complete.1.map emit ++ long.1.map emit
  if final ∧ long.2 ≠ [] then { s with lineBuf := [], sent := sent ++ [emit long.2] }
  else { s with lineBuf := long.2, sent := sent }

def drain (final : Bool) (s : Stream) : Look → Stream
  | .missing => s
  | .file size holds => sendLines final (readNew holds 0 sseReadPerDrain (s.follow size))

end Stream

/-- What is sent from the start of the stream to the end of the task. `last` is what the
drain finds that comes after the task has ended. -/
def streamLog (size : Option Nat) (looks : List Look) (last : Look) : List Event :=
  ((looks.foldl (Stream.drain false) (start size)).drain true last).sent ++ [.done]

end Cronova.Api.LogStream
