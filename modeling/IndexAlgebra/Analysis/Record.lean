import IndexAlgebra.Analysis.Query
import IndexAlgebra.Expr.Range
/-!
# Recording bounds

A bound is normalised before it is recorded. One without values is refused, and so is one that
differs from the bound recorded already, unless overriding is allowed.
-/

namespace IndexAlgebra.Analyzer

open Endpoint

/-- Records a bound, and reports if it replaces another. -/
def update (v : Var) (b : Bound) (allowOverride : Bool) :
    Analysis (Except BoundError (Option Notice)) := do
  let new := Bound.make b.lo b.hi
  if new.hi < new.lo then return .error (.empty v.name new.lo new.hi)
  match (← get).bound? v with
  | none => record new none
  | some recorded =>
    if recorded = new then record new none
    else if allowOverride then record new (some (.overriding v recorded new))
    else return .error (.conflicting v.name recorded new)
where
  /-- Enters a bound into the table. -/
  record (new : Bound) (notice : Option Notice) : Analysis (Except BoundError (Option Notice)) := do
    modify fun a => { a with bounds := a.bounds.insert v new }
    return .ok notice

/-- The bound of the elements of a range, from the bounds of its first element and its extent. An
empty range still has its start. -/
def rangeBound (min extent : Bound) : Bound :=
  let last := ((add? extent.hi (-1)).bind fun offset => add? min.hi offset).getD posInf
  .make min.lo (max last min.lo)

/-- Records for a variable the bound of the elements of a range. -/
def bind (v : Var) (range : Range) (allowOverride : Bool) :
    Analysis (Except BoundError (Option Notice)) := do
  let min ← analyze range.min
  let extent ← analyze range.extent
  update v (rangeBound min extent) allowOverride

end IndexAlgebra.Analyzer
