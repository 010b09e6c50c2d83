import Mathlib.Data.List.Basic
import Mathlib.Control.Monad.Basic

/-! Command templates: a text is cut into literal characters and placeholders, and
each placeholder is replaced once by what a resolver knows of its key. -/
namespace Cronova.Text.Template

/-- `\s` of a regular expression. -/
def isBlank (c : Char) : Bool := c = ' ' || c = '\t' || c = '\n' || c = '\x0c' || c = '\r'

/-- `[\w.]` of a regular expression. -/
def isKeyChar (c : Char) : Bool := c.isAlphanum || c = '_' || c = '.'

/-- What follows `\s*\}\}` at the start of a text. -/
def closes (cs : List Char) : Option (List Char) :=
  match cs.dropWhile isBlank with
  | '}' :: '}' :: rest => some rest
  | _ => none

/-- `[^{}\n]*?` before the closing braces. -/
def lazyKey : List Char → Option (List Char × List Char)
  | [] => none
  | c :: cs =>
    match closes (c :: cs) with
    | some rest => some ([], rest)
    | none =>
      if c = '{' || c = '}' || c = '\n' then none else (lazyKey cs).map (fun p => (c :: p.1, p.2))

/-- `[\w.]+` before the closing braces. -/
def wordKey (cs : List Char) : Option (List Char × List Char) :=
  let key := cs.takeWhile isKeyChar
  if key = [] then none else (closes (cs.dropWhile isKeyChar)).map (fun rest => (key, rest))

def dateName : List Char := "logical_date".toList

/-- The key of a placeholder after its opening braces, and what follows it: a date
expression, or dotted words. -/
def matchKey (cs : List Char) : Option (List Char × List Char) :=
  let cs := cs.dropWhile isBlank
  let date := if dateName.isPrefixOf cs then (lazyKey (cs.drop dateName.length)).map (fun p => (dateName ++ p.1, p.2)) else none
  date.or (wordKey cs)

/-- A placeholder at the start of a text. -/
def matchHole : List Char → Option (List Char × List Char)
  | '{' :: '{' :: cs => matchKey cs
  | _ => none

inductive Piece where
  | text (c : Char)
  | hole (key : String) (source : List Char)
  deriving DecidableEq, Repr

/-- Cut a text into pieces; the first `skip` characters belong to a placeholder
that is already cut. -/
def pieces : (skip : Nat) → List Char → List Piece
  | _, [] => []
  | skip + 1, _ :: cs => pieces skip cs
  | 0, c :: cs =>
    match matchHole (c :: cs) with
    | some (key, rest) =>
      .hole (String.ofList key) ((c :: cs).take (cs.length + 1 - rest.length)) :: pieces (cs.length - rest.length) cs
    | none => .text c :: pieces 0 cs

/-- The keys that a template names. -/
def keysOf : List Piece → List String
  | [] => []
  | .text _ :: ps => keysOf ps
  | .hole key _ :: ps => key :: keysOf ps

def placeholders (cmd : String) : List String := keysOf (pieces 0 cmd.toList)

variable {m : Type → Type} [Monad m]

/-- Replace the placeholders from left to right. An unknown one is left as it is. -/
def renderPieces (resolve : String → m (Option String)) : List Piece → m (List Char)
  | [] => pure []
  | .text c :: ps => do
    let rest ← renderPieces resolve ps
    return c :: rest
  | .hole key source :: ps => do
    let value ← resolve key
    let rest ← renderPieces resolve ps
    return (value.map String.toList).getD source ++ rest

def renderCommand (cmd : String) (resolve : String → m (Option String)) : m String := do
  return String.ofList (← renderPieces resolve (pieces 0 cmd.toList))

/-- What a template renders to depends on the keys that it names, not on what
their values look like. -/
theorem renderPieces_congr {f g : String → m (Option String)} {ps : List Piece} (h : ∀ key ∈ keysOf ps, f key = g key) :
    renderPieces f ps = renderPieces g ps := by
  induction ps with
  | nil => rfl
  | cons p ps ih =>
    cases p with
    | text c => rw [renderPieces, renderPieces, ih h]
    | hole key source =>
      have hrest := ih (fun k hk => h k (List.mem_cons_of_mem _ hk))
      rw [renderPieces, renderPieces, h key List.mem_cons_self, hrest]

theorem renderCommand_congr {f g : String → m (Option String)} {cmd : String} (h : ∀ key ∈ placeholders cmd, f key = g key) :
    renderCommand cmd f = renderCommand cmd g := by
  rw [renderCommand, renderPieces_congr h, renderCommand]

example : placeholders "echo \x7b\x7b conn.db.password \x7d\x7d \x7b\x7b \x7b\x7brun_id\x7d\x7d \x7b\x7blogical_date - 1d | %Y \x7d\x7d" =
    ["conn.db.password", "run_id", "logical_date - 1d | %Y"] := by decide +kernel

end Cronova.Text.Template
