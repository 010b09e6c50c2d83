import Cronova.Text.Scripts

/-! The line diff of the graph editor. -/
namespace Cronova.Web
open Cronova.Text

abbrev Text := List Char

/-- Lines of a text. -/
def lines (s : Text) : List Text := s.splitOn '\n'

section Table
variable {α : Type} [DecidableEq α]

/-- One row of `dp`, from the row below. -/
def fillRow (a : α) : List α → List ℕ → List ℕ
  | [], _ => [0]
  | b :: bs, below =>
    let rest := fillRow a bs below.tail
    (if a = b then below.tail.headD 0 + 1 else max (below.headD 0) (rest.headD 0)) :: rest

/-- `dp`, from the last row up. -/
def dpTable : List α → List α → List (List ℕ)
  | [], bs => [List.replicate (bs.length + 1) 0]
  | a :: as, bs => fillRow a bs ((dpTable as bs).headD []) :: dpTable as bs

def entry (dp : List (List ℕ)) (i j : ℕ) : ℕ := (dp.getD i []).getD j 0

/-- The loop over both texts, at line `i` of one and line `j` of the other. -/
def walk (dp : List (List ℕ)) (i j : ℕ) : List α → List α → List (Edit α)
  | [], bs => bs.map .ins
  | a :: as, [] => (a :: as).map .del
  | a :: as, b :: bs =>
    if a = b then .keep a :: walk dp (i + 1) (j + 1) as bs
    else if entry dp i (j + 1) ≤ entry dp (i + 1) j then .del a :: walk dp (i + 1) j as (b :: bs)
    else .ins b :: walk dp i (j + 1) (a :: as) bs
termination_by as bs => as.length + bs.length

end Table

def diffLines (a b : Text) : List (Edit Text) := walk (dpTable (lines a) (lines b)) 0 0 (lines a) (lines b)

end Cronova.Web
