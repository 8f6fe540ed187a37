import IndexAlgebra.Bound.Endpoint
/-!
# Bounds

A bound `[lo : hi]` says of an integer expression that its values lie between two endpoints. The
endpoints `Endpoint.negInf` and `Endpoint.posInf` stand for the absence of a limit.

`Bound.make` normalises a pair of endpoints, so that no bound lies entirely at an infinity. The
structure itself holds any pair: the operations of a bound are defined on all of them, and a bound
with `hi < lo` has no values.
-/

namespace IndexAlgebra

/-- A pair of endpoints between which the values of an expression lie. -/
structure Bound where
  lo : Int
  hi : Int
deriving DecidableEq, Inhabited

namespace Bound

open Endpoint

/-- The bound that admits every value. -/
def everything : Bound := ⟨negInf, posInf⟩

/-- The bound with the given endpoints, normalised: a lower endpoint below `negInf` moves up to it
and one at `posInf` moves one down, and an upper endpoint at `negInf` or below moves to the one
above `negInf`. -/
def make (lo hi : Int) : Bound where
  lo := if lo < negInf then negInf else if posInf ≤ lo then posInf - 1 else lo
  hi := if hi ≤ negInf then negInf + 1 else if posInf < hi then posInf else hi

/-- The bound of a single value. -/
def unit (value : Int) : Bound := make value value

def unboundedAbove (b : Bound) : Bool := b.hi == posInf

def unboundedBelow (b : Bound) : Bool := b.lo == negInf

/-- Whether every value of the bound is nonnegative. -/
def nonneg (b : Bound) : Bool := decide (0 ≤ b.lo)

/-- The value of a bound whose endpoints are equal. -/
def value? (b : Bound) : Option Int := if b.lo = b.hi then some b.lo else none

/-- Whether the bound has no limit on either side. -/
def isTop (b : Bound) : Bool := b.unboundedBelow && b.unboundedAbove

/-- Whether a value lies between the endpoints. -/
def contains (b : Bound) (value : Int) : Bool := decide (b.lo ≤ value ∧ value ≤ b.hi)

/-- Whether the endpoints of `b` lie between those of `a`. -/
def subsumes (a b : Bound) : Bool := decide (a.lo ≤ b.lo ∧ b.hi ≤ a.hi)

/-- The smallest bound around two bounds. -/
def union (a b : Bound) : Bound := ⟨min a.lo b.lo, max a.hi b.hi⟩

/-- The common part of two bounds, if they overlap. -/
def intersect? (a b : Bound) : Option Bound :=
  let lo := max a.lo b.lo
  let hi := min a.hi b.hi
  if lo ≤ hi then some ⟨lo, hi⟩ else none

def text (b : Bound) : String := "[" ++ Endpoint.text b.lo ++ " : " ++ Endpoint.text b.hi ++ "]"

end Bound

end IndexAlgebra
