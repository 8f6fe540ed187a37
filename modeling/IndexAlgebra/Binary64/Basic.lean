/-!
# Binary floating point numbers of 64 bits

A number is the word of its bits: a sign, an exponent of 11 bits and a fraction of 52. Comparison
is defined on the bits, by an integer key that orders all numbers and makes the two zeros one, so
that it can be reasoned about. Sums, products and quotients are those of the machine; the remainder
is exact.
-/

namespace IndexAlgebra

/-- A binary floating point number, as its bits. -/
structure Binary64 where
  bits : UInt64
deriving DecidableEq, Inhabited

namespace Binary64

/-- The weight of the sign bit. -/
def signWeight : Nat := 0x8000000000000000

/-- The weight of the lowest bit of the exponent. -/
def exponentWeight : Nat := 0x10000000000000

/-- The bits without the sign. -/
def magnitude (x : Binary64) : Nat := x.bits.toNat % signWeight

def isNegative (x : Binary64) : Bool := decide (signWeight ≤ x.bits.toNat)

/-- The biased exponent. -/
def exponent (x : Binary64) : Nat := x.magnitude / exponentWeight

def fraction (x : Binary64) : Nat := x.magnitude % exponentWeight

/-- Whether the bits stand for no number. -/
def isNaN (x : Binary64) : Bool := x.exponent == 2047 && x.fraction != 0

def isInfinite (x : Binary64) : Bool := x.exponent == 2047 && x.fraction == 0

/-- Whether the number is zero, of either sign. -/
def isZero (x : Binary64) : Bool := x.magnitude == 0

/-- The absolute value of a finite number is `significand * 2 ^ scale`. -/
def significand (x : Binary64) : Nat :=
  if x.exponent = 0 then x.fraction else exponentWeight + x.fraction

/-- The power of two that goes with the significand. -/
def scale (x : Binary64) : Int :=
  if x.exponent = 0 then -1074 else (x.exponent : Int) - 1075

/-- The order of the numbers that are not NaN is the order of their keys. -/
def key (x : Binary64) : Int := if x.isNegative then -(x.magnitude : Int) else x.magnitude

/-- Numeric equality. A NaN equals nothing, and the zeros are equal. -/
def equal (x y : Binary64) : Bool := !x.isNaN && !y.isNaN && x.key == y.key

/-- Numeric order. A NaN is not below anything, nor is anything below it. -/
def less (x y : Binary64) : Bool := !x.isNaN && !y.isNaN && decide (x.key < y.key)

def lessEqual (x y : Binary64) : Bool := less x y || equal x y

def zero : Binary64 := ⟨0⟩

def one : Binary64 := ⟨0x3ff0000000000000⟩

def nan : Binary64 := ⟨0x7ff8000000000000⟩

/-- The smaller of two numbers, or the one that is a number. -/
def minimum (x y : Binary64) : Binary64 :=
  if x.isNaN then y else if y.isNaN then x else if less y x then y else x

/-- The larger of two numbers, or the one that is a number. -/
def maximum (x y : Binary64) : Binary64 :=
  if x.isNaN then y else if y.isNaN then x else if less x y then y else x

/-- The number with the other sign. -/
def neg (x : Binary64) : Binary64 := ⟨x.bits ^^^ 0x8000000000000000⟩

/-- The machine's number with these bits. -/
def toFloat (x : Binary64) : Float := .ofBits x.bits

/-- The bits of a machine number. -/
def ofFloat (x : Float) : Binary64 := ⟨x.toBits⟩

/-- The number that a word of 32 bits writes. -/
def ofSingle (bits : UInt32) : Binary64 := ofFloat (Float32.ofBits bits).toFloat

def add (x y : Binary64) : Binary64 := ofFloat (x.toFloat + y.toFloat)

def sub (x y : Binary64) : Binary64 := ofFloat (x.toFloat - y.toFloat)

def mul (x y : Binary64) : Binary64 := ofFloat (x.toFloat * y.toFloat)

def div (x y : Binary64) : Binary64 := ofFloat (x.toFloat / y.toFloat)

/-- The largest integer that is no larger. -/
def floor (x : Binary64) : Binary64 := ofFloat x.toFloat.floor

/-- The number `n * 2 ^ scale`, with a sign. The significand has to fit: either 53 binary digits
hold it, or the digits that do not fit are zeros. -/
def ofScaled (negative : Bool) (n : Nat) (scale : Int) : Binary64 :=
  let shifted := max (scale + n.log2 - 52) (-1074)
  let m := if shifted ≤ scale then n <<< (scale - shifted).toNat else n >>> (shifted - scale).toNat
  let word :=
    if m < exponentWeight then m
    else (shifted + 1075).toNat * exponentWeight + (m - exponentWeight)
  ⟨.ofNat (if negative then signWeight + word else word)⟩

/-- The remainder of the quotient rounded towards zero, which has the sign of `x` and is exact. -/
def rem (x y : Binary64) : Binary64 :=
  if x.isNaN || y.isNaN || x.isInfinite || y.isZero then nan
  else if y.isInfinite then x
  else
    let scale := min x.scale y.scale
    let a := x.significand <<< (x.scale - scale).toNat
    let b := y.significand <<< (y.scale - scale).toNat
    ofScaled x.isNegative (a % b) scale

end Binary64

end IndexAlgebra
