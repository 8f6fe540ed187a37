import IndexAlgebra.Analysis.Query
/-!
# Constraints

A constraint that is known to hold for a while refines the bounds of the variables it compares.
`Analyzer.enter` takes it apart into facts about single variables, one after the other, so that
each fact sees the bounds that the earlier ones left. A fact that contradicts the bound of its
variable is left out and reported. The scope that it opens remembers what was recorded before, and
`Analyzer.exit` puts that back, the latest refinement first.
-/

namespace IndexAlgebra

/-- What was recorded for each refined variable before it was refined, the latest refinement
first. -/
structure Scope where
  saved : List (Var × Option Bound) := []
deriving Inhabited

/-- The number of refinements made when the scope was opened. -/
def Scope.refinements (s : Scope) : Nat := s.saved.length

/-- The bound of a variable `v` of which `v op b` holds for some value of bound `b`, if the operator
sets one. -/
def Bound.assumed? (op : BinaryOp) (b : Bound) : Option Bound :=
  match op with
  | .eq => some (make b.lo b.hi)
  | .lt => some (make Endpoint.negInf ((Endpoint.add? b.hi (-1)).getD Endpoint.posInf))
  | .le => some (make Endpoint.negInf b.hi)
  | .gt => some (make ((Endpoint.add? b.lo 1).getD Endpoint.negInf) Endpoint.posInf)
  | .ge => some (make b.lo Endpoint.posInf)
  | _ => none

namespace Analyzer

/-- What opening a scope has gathered so far. -/
structure Opening where
  scope : Scope := {}
  /-- The notices in order. -/
  notices : List Notice := []
deriving Inhabited

/-- Assumes the fact `v op other`. -/
def assumeFact (v : Var) (op : BinaryOp) (other : Expr) (opening : Opening) : Analysis Opening := do
  let b ← analyze other
  match b.assumed? op with
  | none => return opening
  | some assumed =>
    let a ← get
    let current := a.boundOf v
    match current.intersect? assumed with
    | none =>
      return { opening with
        notices := opening.notices ++ [.ignoring v op other current assumed] }
    | some refined =>
      set { a with bounds := a.bounds.insert v refined }
      return { opening with scope := ⟨(v, a.bound? v) :: opening.scope.saved⟩ }

/-- Assumes a constraint: both sides of a conjunction, and a comparison as a fact about each side
that is a variable. Other constraints say nothing. -/
def assume : Expr → Opening → Analysis Opening
  | .binary _ .and a b, opening => do
    let opening ← assume a opening
    assume b opening
  | .binary _ op a b, opening => do
    if op.isComparison then
      let opening ← match a.var? with
        | some v => assumeFact v op b opening
        | none => pure opening
      match b.var? with
      | some v => assumeFact v op.converse a opening
      | none => return opening
    else return opening
  | _, opening => return opening

/-- Opens a scope in which a constraint holds, with notices of the facts left out. -/
def enter (constraint : Expr) : Analysis (Scope × List Notice) := do
  let opening ← assume constraint {}
  return (opening.scope, opening.notices)

/-- The table of bounds with those that a scope remembers put back. -/
def restore (bounds : Table Var Bound) (saved : List (Var × Option Bound)) : Table Var Bound :=
  saved.foldl (fun bounds (v, previous) => bounds.set v previous) bounds

def exit (scope : Scope) : Analysis Unit :=
  modify fun a => { a with bounds := restore a.bounds scope.saved }

end Analyzer

end IndexAlgebra
