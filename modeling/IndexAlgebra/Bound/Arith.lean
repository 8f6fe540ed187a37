import IndexAlgebra.Bound.Basic
/-!
# Arithmetic on bounds

For each arithmetic operator, a bound on its results from bounds on its operands. Where an operator
is monotone in each operand while the other is held fixed, the extreme results lie at the four
corners of the box of operands (`Bound.corners`); the other operators have rules of their own, and
give up, with `Bound.everything`, on divisors that may be zero.
-/

namespace IndexAlgebra.Bound

open Endpoint

/-- The bound around the results of `op` at the four corners of `a × b`. -/
def corners (op : Int → Int → Int) (a b : Bound) : Bound :=
  let p := op a.lo b.lo
  let q := op a.hi b.lo
  let r := op a.lo b.hi
  let s := op a.hi b.hi
  make (min (min p q) (min r s)) (max (max p q) (max r s))

/-- A bound on sums. A sum of opposite infinities sets no limit. -/
def add (a b : Bound) : Bound :=
  make ((add? a.lo b.lo).getD negInf) ((add? a.hi b.hi).getD posInf)

def neg (a : Bound) : Bound := ⟨Endpoint.neg a.hi, Endpoint.neg a.lo⟩

def sub (a b : Bound) : Bound := a.add b.neg

def mul (a b : Bound) : Bound := corners Endpoint.mul a b

/-- Whether zero lies outside the bound. -/
def excludesZero (b : Bound) : Bool := decide (0 < b.lo ∨ b.hi < 0)

/-- A bound on quotients rounded towards zero. -/
def div (a b : Bound) : Bound :=
  if b.excludesZero then corners Endpoint.div a b else everything

/-- A bound on quotients rounded down. -/
def floorDiv (a b : Bound) : Bound :=
  if b.excludesZero then corners Endpoint.floorDiv a b else everything

/-- A bound on remainders of the division that rounds towards zero. By a positive divisor the
remainder has the sign of the dividend and is smaller than the divisor. -/
def mod (a b : Bound) : Bound :=
  let cap := b.hi - 1
  if b.lo ≤ 0 then everything
  else if 0 ≤ a.lo then make 0 (min a.hi cap)
  else make (max a.lo (Endpoint.neg cap)) (min (max a.hi 0) cap)

/-- A bound on remainders of the division that rounds down. By a positive divisor the remainder is
nonnegative and smaller than the divisor. -/
def floorMod (a b : Bound) : Bound :=
  let cap := b.hi - 1
  if b.lo ≤ 0 then everything
  else if 0 ≤ a.lo then make 0 (min a.hi cap)
  else make 0 cap

def minimum (a b : Bound) : Bound := ⟨min a.lo b.lo, min a.hi b.hi⟩

def maximum (a b : Bound) : Bound := ⟨max a.lo b.lo, max a.hi b.hi⟩

/-- A bound on values shifted to the left. The rule covers nonnegative operands. -/
def leftShift (a b : Bound) : Bound :=
  if a.lo < 0 ∨ b.lo < 0 then everything else corners Endpoint.leftShift a b

/-- A bound on values shifted to the right. The rule covers nonnegative amounts. -/
def rightShift (a b : Bound) : Bound :=
  if b.lo < 0 then everything else corners Endpoint.rightShift a b

/-- A bound on bitwise conjunctions, which are no larger than any nonnegative operand. -/
def bitAnd (a b : Bound) : Bound :=
  match a.nonneg, b.nonneg with
  | true, true => make 0 (min a.hi b.hi)
  | true, false => make 0 a.hi
  | false, true => make 0 b.hi
  | false, false => everything

end IndexAlgebra.Bound
