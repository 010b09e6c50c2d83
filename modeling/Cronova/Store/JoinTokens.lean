import Cronova.Relational.Table
import Cronova.Store.Timestamp
import Mathlib.Algebra.Order.Ring.Int
import Mathlib.Data.List.Lex

/-! The tokens that workers join with. Each is one row and is used up by one statement. -/
namespace Cronova.Store
open Cronova.Model Cronova.Relational

structure JoinToken where
  tokenHash : String
  createdBy : String
  expiresAt : Time
  usedAt : Option Time := none
  deriving DecidableEq

abbrev JoinTokens := Table JoinToken (·.tokenHash) (· = ·)

namespace JoinTokens
variable (t : JoinTokens)

def CreateJoinToken (tokenHash createdBy : String) (expiresAt : Time) : Option JoinTokens :=
  t.insert? { tokenHash := tokenHash, createdBy := createdBy, expiresAt := expiresAt }

/-- `token_hash = ? AND used_at IS NULL AND expires_at > ?`, where texts are compared. -/
def usable (tokenHash : String) (now : Time) (row : JoinToken) : Bool :=
  row.tokenHash = tokenHash ∧ row.usedAt = none ∧ fmtTime now < fmtTime row.expiresAt

theorem tokenHash_use (now : Time) (row : JoinToken) : ({ row with usedAt := some now } : JoinToken).tokenHash = row.tokenHash := rfl

/-- `none` if no row has been changed. -/
def ConsumeJoinToken (tokenHash : String) (now : Time) : Option JoinTokens :=
  if t.rows.any (usable tokenHash now) then
    some (t.modify (usable tokenHash now) (fun row => { row with usedAt := some now }) (tokenHash_use now))
  else none

end JoinTokens

/-- The tokens, and who has come in by them and when. -/
structure Joining where
  tokens : JoinTokens
  joined : List (String × Time) := []

inductive JoinEvent where
  | createJoinToken (tokenHash createdBy : String) (expiresAt : Time)
  | consumeJoinToken (tokenHash : String) (now : Time)
  deriving DecidableEq

namespace Joining

def new : Joining := { tokens := .empty }

def step (s : Joining) : JoinEvent → Option Joining
  | .createJoinToken tokenHash createdBy expiresAt =>
    (s.tokens.CreateJoinToken tokenHash createdBy expiresAt).map (fun tokens => { s with tokens := tokens })
  | .consumeJoinToken tokenHash now =>
    (s.tokens.ConsumeJoinToken tokenHash now).map (fun tokens => { tokens := tokens, joined := s.joined ++ [(tokenHash, now)] })

end Joining
end Cronova.Store
