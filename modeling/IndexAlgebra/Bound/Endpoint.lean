/-!
# Endpoints

The endpoints of a bound are integers in the signed 64-bit range. Two of them stand for the absence
of a limit: `posInf`, the largest signed 64-bit integer, and `negInf`, its negation. The range is
taken symmetric so that negation exchanges the two; the one integer below `negInf` is never the
endpoint of a normalised bound.

Arithmetic on endpoints is exact where the result lies between the two and stops at them where it
does not. An infinite endpoint absorbs whatever is added to it, and stays infinite when it is
divided or shifted.
-/

namespace IndexAlgebra.Endpoint

/-- The endpoint that stands for the absence of an upper limit. -/
def posInf : Int := 9223372036854775807

/-- The endpoint that stands for the absence of a lower limit. -/
def negInf : Int := -posInf

/-- Whether an endpoint stands for the absence of a limit. -/
def isInf (x : Int) : Bool := x == posInf || x == negInf

/-- The endpoint nearest to an integer. -/
def clamp (x : Int) : Int := max negInf (min x posInf)

/-- Whether an integer fits in a signed word of 64 bits. -/
def fits (x : Int) : Bool := decide (-0x8000000000000000 ≤ x ∧ x < 0x8000000000000000)

/-- The sum of two endpoints. Opposite infinities have none. Where the sum does not fit in a word,
both operands have its sign. -/
def add? (x y : Int) : Option Int :=
  if isInf x then if x = -y then none else some x
  else if isInf y then some y
  else if fits (x + y) then some (clamp (x + y))
  else if 0 < x then some posInf
  else some negInf

/-- The product of two endpoints. Where the product does not fit in a word, or is the lowest one, no
factor is zero, and the product is positive if both factors are or neither is. -/
def mul (x y : Int) : Int :=
  if fits (x * y) ∧ negInf ≤ x * y ∧ x * y ≤ posInf then x * y
  else if 0 < x ↔ 0 < y then posInf
  else negInf

/-- The negation of an endpoint. -/
def neg (x : Int) : Int := min (-x) posInf

/-- An infinite endpoint `x` divided by `y`, which keeps its size and takes the sign of the
quotient. -/
def divInf (x y : Int) : Int := if 0 < y then x else neg x

/-- The quotient of an endpoint by a nonzero one, rounded towards zero. -/
def div (x y : Int) : Int := if isInf x then divInf x y else x.tdiv y

/-- The quotient of an endpoint by a nonzero one, rounded down. The result is reduced to the signed
64-bit range, which it leaves only for the lowest integer of that range divided by `-1`. -/
def floorDiv (x y : Int) : Int :=
  if isInf x then divInf x y else (x.fdiv y).bmod 0x10000000000000000

/-- The number of binary digits of a nonnegative endpoint. -/
def bitLength (x : Int) : Nat := if x = 0 then 0 else x.toNat.log2 + 1

/-- A nonnegative endpoint shifted to the left by a nonnegative amount. -/
def leftShift (x y : Int) : Int :=
  if x = 0 ∨ isInf x then x
  else if bitLength x + y < 64 then x <<< y.toNat
  else posInf

/-- An endpoint shifted to the right by a nonnegative amount, rounded down. Past 63 places nothing
but the sign is left, so larger amounts count as 63. -/
def rightShift (x y : Int) : Int :=
  if isInf x then x else x >>> (max 0 (min y 63)).toNat

/-- The written form of an endpoint, in which the infinities have names. -/
def text (x : Int) : String :=
  if x = posInf then "+inf" else if x = negInf then "-inf" else toString x

end IndexAlgebra.Endpoint
