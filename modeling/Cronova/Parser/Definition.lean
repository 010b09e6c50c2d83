import Cronova.Text.DateTmpl

/-! The YAML document of a workflow definition as it is decoded, before any
validation, and what the parser takes from the libraries it uses. -/
namespace Cronova.Parser
open Cronova.Model Cronova.Text

structure DependsOnDagYAML where
  dag : String := ""
  offset : String := ""
  timeout : Int := 0
  onTimeout : String := ""
  deriving DecidableEq, Repr

structure TaskYAML where
  id : String := ""
  type : String := ""
  command : String := ""
  deps : List String := []
  pool : String := ""
  priority : Int := 0
  retries : Option Int := none
  retryDelay : Option Int := none
  retryBackoff : String := ""
  retryDelayMax : Int := 0
  timeout : Int := 0
  sla : Int := 0
  triggerRule : String := ""
  when_ : String := ""
  workerGroup : String := ""
  dependsOnDag : Option DependsOnDagYAML := none
  foreach : List String := []
  conn : String := ""
  project : String := ""
  subdag : String := ""
  http : Option HTTPSpec := none
  deriving DecidableEq, Repr

structure NotifyYAML where
  url : String := ""
  on : List String := []
  format : String := ""
  group : String := ""
  deriving DecidableEq, Repr

structure DagYAML where
  dagID : String := ""
  schedule : String := ""
  timezone : String := ""
  startDate : String := ""
  catchup : Bool := false
  maxActiveRuns : Int := 0
  executionPolicy : String := ""
  workerGroup : String := ""
  maxActiveTasks : Int := 0
  defaultRetries : Int := 0
  defaultRetryDelay : Int := 0
  sla : Int := 0
  dagrunTimeout : Int := 0
  tasks : List TaskYAML := []
  triggerAfter : List String := []
  triggerOnEvent : List String := []
  notify : NotifyYAML := {}
  deriving DecidableEq, Repr

/-- What follows the first document of a YAML stream. -/
inductive Trailing where
  | eof | document | broken (reason : String)
  deriving DecidableEq, Repr

/-- The libraries behind the parser: YAML decoding with unknown fields refused,
cron expressions, the time zone database, date layouts, the wall clock and the
Unicode classes of letters and digits. -/
structure Env where
  decode : String → Except String (DagYAML × Trailing)
  cronParse : String → Except String Schedule
  loadLocation : String → Option Zone
  utc : Zone
  parseInLocation : (layout text : String) → Zone → Option Time
  now : Time
  isWord : Char → Bool

def maxDefinitionBytes : Nat := 2 ^ 20
def maxTasks : Nat := 1000
def maxActiveRunsLimit : Int := 1000
def maxIdentifierBytes : Nat := 128
def maxDependencies : Nat := 10000
def maxDepsPerTask : Nat := 256
def maxRetries : Int := 100
def maxDurationSeconds : Int := 365 * 24 * 3600
def maxCommandBytes : Nat := 256 * 2 ^ 10

/-- Cron fields are read in the named zone unless the expression carries its own. -/
def parseScheduleIn (env : Env) (spec tz : String) : Except String Schedule :=
  if tz = "" || hasPrefix spec "@" || hasPrefix spec "CRON_TZ=" || hasPrefix spec "TZ=" then env.cronParse spec
  else env.cronParse ("CRON_TZ=" ++ tz ++ " " ++ spec)

def parseStartDate (env : Env) (s : String) (loc : Zone) : Except String Time :=
  let day := 24 * 3600 * second
  if s = "" then .ok (env.now - (env.now - zeroTime) % day)
  else
    match env.parseInLocation "2006-01-02" s loc with
    | some t => .ok t
    | none =>
      match env.parseInLocation "2006-01-02 15:04:05" s loc with
      | some t => .ok t
      | none =>
        match env.parseInLocation "2006-01-02T15:04:05Z07:00" s env.utc with
        | some t => .ok t
        | none => .error ("invalid start_date " ++ quote s)

/-- White space of the placeholder patterns. -/
def isPatternSpace (c : Char) : Bool := c = ' ' || c = '\t' || c = '\n' || c.toNat == 12 || c = '\r'

/-- The placeholder for `name` at the head of a text, and the text after it. -/
def matchPlaceholder (name : String) (text : List Char) : Option (List Char × List Char) :=
  match text with
  | '\x7b' :: '\x7b' :: rest =>
    let rest := rest.dropWhile isPatternSpace
    if name.toList.isPrefixOf rest then
      match (rest.drop name.toList.length).dropWhile isPatternSpace with
      | '\x7d' :: '\x7d' :: after => some (text.take (text.length - after.length), after)
      | _ => none
    else none
  | _ => none

/-- The replacement template of a pattern without groups: a dollar sign followed
by a name stands for a group, and only group 0 has a text. `skip` counts the
characters already consumed. -/
def expandTemplate (isWord : Char → Bool) (whole : List Char) : (template : List Char) → (skip : Nat) → List Char
  | [], _ => []
  | _ :: cs, skip + 1 => expandTemplate isWord whole cs skip
  | c :: cs, 0 =>
    if c ≠ '$' then c :: expandTemplate isWord whole cs 0
    else
      match cs with
      | [] => ['$']
      | d :: ds =>
        if d = '$' then '$' :: expandTemplate isWord whole cs 1
        else
          let braced := d = '\x7b'
          let body := if braced then ds else cs
          let name := body.takeWhile isWord
          let closed := !braced || (body.drop name.length).head? == some '\x7d'
          if name = [] || !closed then '$' :: expandTemplate isWord whole cs 0
          else
            (if name = ['0'] then whole else []) ++
              expandTemplate isWord whole cs (name.length + if braced then 2 else 0)

/-- Replace every placeholder for `name`, expanding the replacement as a template. -/
def replacePlaceholder (isWord : Char → Bool) (name replacement : String) : (text : List Char) → (skip : Nat) → List Char
  | [], _ => []
  | _ :: cs, skip + 1 => replacePlaceholder isWord name replacement cs skip
  | c :: cs, 0 =>
    match matchPlaceholder name (c :: cs) with
    | some (whole, _) =>
      expandTemplate isWord whole replacement.toList 0 ++
        replacePlaceholder isWord name replacement cs (whole.length - 1)
    | none => c :: replacePlaceholder isWord name replacement cs 0

/-- The text of one shard: `item` first, then its index. -/
def substituteItem (env : Env) (text item index : String) : String :=
  let isWord (c : Char) : Bool := env.isWord c || c = '_'
  let replaced := replacePlaceholder isWord "item" item text.toList 0
  String.ofList (replacePlaceholder isWord "item_index" index replaced 0)

/-- The shards of one task: its copies, one for each item. -/
def shardsOf (env : Env) (t : TaskYAML) : List TaskYAML :=
  t.foreach.mapIdx (fun i item =>
    { t with
      foreach := []
      id := t.id ++ "_" ++ toString i
      command := substituteItem env t.command item (toString i)
      when_ := substituteItem env t.when_ item (toString i) })

/-- One entry of the task list before its dependencies are rewritten. -/
def expandEntry (env : Env) (dagID : String) (t : TaskYAML) : Except String (List TaskYAML) :=
  if t.foreach = [] then .ok [t]
  else if t.id = "" then .error ("dag " ++ quote dagID ++ ": foreach task needs an id")
  else if maxTasks < t.foreach.length then
    .error ("dag " ++ quote dagID ++ ": task " ++ quote t.id ++ " foreach expands to more than " ++
      toString maxTasks ++ " shards")
  else .ok (shardsOf env t)

/-- A dependency on a task with shards is a dependency on each of them. -/
def rewriteDep (env : Env) (tasks : List TaskYAML) (dep : String) : List String :=
  let shards := (tasks.filter (fun t => t.id = dep ∧ t.foreach ≠ [])).flatMap (fun t => (shardsOf env t).map (·.id))
  if shards = [] then [dep] else shards

/-- Fan every `foreach` task out into one task per item. -/
def expandForeach (env : Env) (dagID : String) (tasks : List TaskYAML) : Except String (List TaskYAML) :=
  if tasks.all (fun t => t.foreach = []) then .ok tasks
  else
    match tasks.mapM (expandEntry env dagID) with
    | .error e => .error e
    | .ok parts =>
      let out := parts.flatten
      if maxTasks < out.length then
        .error ("dag " ++ quote dagID ++ ": foreach expansion exceeds " ++ toString maxTasks ++ " tasks")
      else .ok (out.map (fun t => { t with deps := t.deps.flatMap (rewriteDep env tasks) }))

end Cronova.Parser
