import Cronova.Concurrency.Registry
import Cronova.Text.Strings
import Cronova.Model.Types

/-! The login limiter: failures are counted by key, and from some number of them on every
failure locks the key for a time. The table is pruned when it has grown large. -/
namespace Cronova.Api.RateLimit
open Cronova.Model Cronova.Text Cronova.Concurrency

structure LoginFails where
  fails : Nat := 0
  /-- The end of the lockout; the zero time if there has been none. -/
  lockedUntil : Time := zeroTime
  deriving DecidableEq

abbrev LoginLimiter := Registry String LoginFails

def loginUserFreeFails : Nat := 2

def loginUserLockMax : Int := 30 * second

def loginIPFreeFails : Nat := 10

def loginIPLockMax : Int := 5 * 60 * second

def loginLockBase : Int := 2 * second

def loginLimiterSize : Nat := 10000

def isIP (key : String) : Bool := hasPrefix key "ip:"

/-- The failures that are free, and the longest lockout. -/
def keyParams (key : String) : Nat × Int :=
  if isIP key then (loginIPFreeFails, loginIPLockMax) else (loginUserFreeFails, loginUserLockMax)

def newLoginLimiter : LoginLimiter := ∅

namespace LoginLimiter

/-- How long the keys have to wait. -/
def retryAfter (l : LoginLimiter) (now : Time) (keys : List String) : Int :=
  keys.foldl
    (fun wait k =>
      match l.lookup k with
      | some f => if now < f.lockedUntil then (if wait < f.lockedUntil - now then f.lockedUntil - now else wait) else wait
      | none => wait)
    0

/-- Entries go whose lockout is over, or that never had one. -/
def prune (l : LoginLimiter) (now : Time) : LoginLimiter :=
  if loginLimiterSize < l.entries.length then Registry.keep l (fun _ f => ¬ f.lockedUntil < now) else l

/-- One more failure of the key. -/
def record (key : String) (now : Time) (f : LoginFails) : LoginFails :=
  let fails := f.fails + 1
  let free := (keyParams key).1
  let cap := (keyParams key).2
  if free < fails then
    let beyond := if 9 < fails - free then 9 else fails - free
    let lock := loginLockBase * 2 ^ (beyond - 1)
    { fails := fails, lockedUntil := now + (if cap < lock then cap else lock) }
  else { f with fails := fails }

def failOne (now : Time) (l : LoginLimiter) (key : String) : LoginLimiter :=
  l.insert key (record key now ((l.lookup key).getD {}))

def fail (l : LoginLimiter) (now : Time) (keys : List String) : LoginLimiter := keys.foldl (failOne now) (l.prune now)

/-- A success clears its keys, but not the one of the address. -/
def ok (l : LoginLimiter) (keys : List String) : LoginLimiter := keys.foldl (fun l k => if isIP k then l else l.erase k) l

end LoginLimiter

inductive Call where
  | retryAfter (now : Time) (keys : List String)
  | fail (now : Time) (keys : List String)
  | ok (keys : List String)
  deriving DecidableEq

namespace LoginLimiter

def step (l : LoginLimiter) : Call → LoginLimiter
  | .retryAfter _ _ => l
  | .fail now keys => l.fail now keys
  | .ok keys => l.ok keys

def run (l : LoginLimiter) (calls : List Call) : LoginLimiter := calls.foldl step l

end LoginLimiter
end Cronova.Api.RateLimit
