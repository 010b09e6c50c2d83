import Cronova.Graph.Colouring
import Cronova.Text.Strings

/-! The graph of the editor: what its events make of the tasks and their dependencies. -/
namespace Cronova.Web

structure GraphTask where
  id : String
  deps : List String
  deriving DecidableEq, Repr

/-- The names that an empty object has already. -/
def inherited : List String := ["constructor", "hasOwnProperty", "isPrototypeOf", "propertyIsEnumerable", "toLocaleString", "toString",
  "valueOf", "__proto__", "__defineGetter__", "__defineSetter__", "__lookupGetter__", "__lookupSetter__"]

/-- `byId[id]?.deps`, where `byId[id]` is there. -/
def byId (tasks : List GraphTask) (id : String) : Option (List String) :=
  match tasks.reverse.find? (fun t => t.id = id) with
  | some t => some t.deps
  | none => if id ∈ inherited then some [] else none

/-- The dependencies that `visit` follows. -/
def followed (tasks : List GraphTask) (id : String) : List String :=
  ((byId tasks id).getD []).filter (fun d => (byId tasks d).isSome)

/-- The colour of an inherited name is not `undefined`. -/
def hasCycle (tasks : List GraphTask) : Option Bool :=
  (Graph.colour (followed tasks) (tasks.length + 1) ((tasks.map (·.id)).filter (fun id => id ≠ "" ∧ id ∉ inherited))).map (·.cyc)

/-! ### The order of the steps -/

/-- One round of the loop: a task is put out once its dependencies are, or are not there. -/
def topoRound (tasks : List GraphTask) : List GraphTask → List GraphTask → List GraphTask
  | out, [] => out
  | out, tk :: rest =>
    if tk.id ∈ out.map (·.id) then topoRound tasks out rest
    else if tk.deps.all (fun d => d ∈ out.map (·.id) || (byId tasks d).isNone) then topoRound tasks (out ++ [tk]) rest
    else topoRound tasks out rest

/-- The rounds, as long as each puts a task out. -/
def topoRounds (tasks : List GraphTask) : ℕ → List GraphTask → List GraphTask
  | 0, out => out
  | fuel + 1, out =>
    if out.length < tasks.length then
      let next := topoRound tasks out tasks
      if next.length = out.length then out else topoRounds tasks fuel next
    else out

def topoOrder (tasks : List GraphTask) : List GraphTask :=
  let out := topoRounds tasks tasks.length []
  out ++ tasks.filter (fun tk => tk.id ∉ out.map (·.id))

/-! ### Sessions -/

/-- Change the dependencies of the first task with an id. -/
def withDeps (id : String) (f : List String → List String) : List GraphTask → List GraphTask
  | [] => []
  | t :: tasks => if t.id = id then { t with deps := f t.deps } :: tasks else t :: withDeps id f tasks

def toggled (dep : String) (deps : List String) : List String := if dep ∈ deps then deps.erase dep else deps ++ [dep]

/-- `D.tasks`, and what it was before the graph session. -/
structure GraphSession where
  tasks : List GraphTask
  graphBase : Option (List GraphTask) := none
  deriving DecidableEq, Repr

inductive GraphEvent where
  | toggleDep (up down : String) (allowRemove : Bool)
  /-- The chip of a dependency on the page of a task. -/
  | chip (id dep : String)
  | addTaskFromGraph (id : String)
  | addTask (id : String)
  | nvAddStep (id : String)
  | duplicateTask (taskID nid : String)
  | deleteTask (taskID : String)
  | rename (oldId newId : String)
  | saveSession
  | discardSession
  deriving DecidableEq, Repr

namespace GraphSession

def ids (s : GraphSession) : List String := s.tasks.map (·.id)

def graphMutate (s : GraphSession) (tasks : List GraphTask) : GraphSession :=
  { tasks := tasks, graphBase := some (s.graphBase.getD s.tasks) }

def graphToggleDep (s : GraphSession) (up down : String) (allowRemove : Bool) : Option GraphSession :=
  match s.tasks.find? (fun t => t.id = down) with
  | none => some s
  | some dt =>
    if up = down then some s
    else if up ∈ dt.deps then
      if allowRemove then some (s.graphMutate (withDeps down (fun deps => deps.erase up) s.tasks)) else some s
    else
      let pushed := withDeps down (fun deps => deps ++ [up]) s.tasks
      (hasCycle (pushed.filter (fun t => t.id ≠ ""))).map (fun cyc => if cyc then s else s.graphMutate pushed)

/-- The chip is put back where it closes a cycle. -/
def chip (s : GraphSession) (id dep : String) : Option GraphSession :=
  match s.tasks.find? (fun t => t.id = id) with
  | none => some s
  | some _ =>
    let tasks := withDeps id (toggled dep) s.tasks
    (hasCycle (tasks.filter (fun t => t.id ≠ ""))).map (fun cyc => { s with tasks := if cyc then withDeps id (toggled dep) tasks else tasks })

def duplicateTask (s : GraphSession) (taskID nid : String) : Option GraphSession :=
  match s.tasks.find? (fun t => t.id = taskID) with
  | none => some s
  | some src => if nid ∈ s.ids then none else some { s with tasks := s.tasks ++ [{ id := nid, deps := src.deps }] }

/-- A step behind the one that is last now. -/
def nvAddStep (s : GraphSession) (id : String) : Option GraphSession :=
  let ordered := topoOrder (s.tasks.filter (fun t => t.id ≠ ""))
  if id ∈ s.ids then none else some { s with tasks := s.tasks ++ [{ id := id, deps := (ordered.getLast?.map (·.id)).toList }] }

def deleteTask (s : GraphSession) (taskID : String) : GraphSession :=
  { s with tasks := (s.tasks.filter (fun t => t.id ≠ taskID)).map (fun t => { t with deps := t.deps.filter (fun dep => dep ≠ taskID) }) }

end GraphSession

def relink (oldId newId : String) (t : GraphTask) : GraphTask := { t with deps := t.deps.replace oldId newId }

/-- The first task with the old id gets the new one, and the others follow it. -/
def renamed (oldId newId : String) : List GraphTask → List GraphTask
  | [] => []
  | t :: tasks =>
    if t.id = oldId then { t with id := newId } :: tasks.map (relink oldId newId) else relink oldId newId t :: renamed oldId newId tasks

namespace GraphSession

def renameActiveTask (s : GraphSession) (oldId newId : String) : GraphSession :=
  if newId = oldId ∨ Text.idPattern newId = false ∨ newId ∈ s.ids then s else { s with tasks := renamed oldId newId s.tasks }

def step (s : GraphSession) : GraphEvent → Option GraphSession
  | .toggleDep up down allowRemove => s.graphToggleDep up down allowRemove
  | .chip id dep => s.chip id dep
  | .addTaskFromGraph id =>
    if Text.idPattern id = false ∨ id ∈ s.ids then some s else some (s.graphMutate (s.tasks ++ [{ id := id, deps := [] }]))
  | .addTask id => if id ∈ s.ids then none else some { s with tasks := s.tasks ++ [{ id := id, deps := [] }] }
  | .nvAddStep id => s.nvAddStep id
  | .duplicateTask taskID nid => s.duplicateTask taskID nid
  | .deleteTask taskID => some (s.deleteTask taskID)
  | .rename oldId newId => some (s.renameActiveTask oldId newId)
  | .saveSession => some { s with graphBase := none }
  | .discardSession => some { tasks := s.graphBase.getD s.tasks, graphBase := none }

end GraphSession
end Cronova.Web
