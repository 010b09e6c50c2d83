import Cronova.Api.Routes
import Cronova.Http.Template

/-! The client of the API: a path template, filled, becomes the path of the request as it is
sent. -/
namespace Cronova.Api.Client
open Cronova.Http

/-- A segment of a template. -/
def segment (s : Bytes) : Piece := if s.head? = some '{' then .slot s.tail.dropLast else .text s

def segments (template : String) : List Piece := (template.toList.tail.splitOn '/').map segment

def slotName : Piece → Option Bytes
  | .slot name => some name
  | .text _ => none

/-- The names of the placeholders. -/
def slots (template : String) : List Bytes := (segments template).filterMap slotName

/-- The server reads the path that is sent. -/
def receive (method : String) : Bytes → Option Request
  | '/' :: rest =>
    match h : pathUnescape ('/' :: rest) with
    | some path => some { method := method, rest := rest, path := path, unescapes := h }
    | none => none
  | _ => none

/-- `Call`, as far as the path goes. -/
def Call (method template : String) (params : List (Bytes × Bytes)) : Option Request :=
  receive method (expand params template.toList)

end Cronova.Api.Client
