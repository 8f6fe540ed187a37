import IndexAlgebra.Binary64.Basic
/-!
# The shortest decimal

A finite number other than zero is the nearest one to every decimal in an interval around it.
`Binary64.shortest` finds the decimal in that interval with the fewest digits, and of several with
equally few the one nearest to the number; of two that are equally near, the larger. It tests, for
each count of digits, the two neighbours of the number among the decimals with that many digits, in
exact arithmetic.
-/

namespace IndexAlgebra.Binary64

/-- The decimal `digits * 10 ^ exponent`. -/
structure Decimal where
  digits : Nat
  exponent : Int
deriving DecidableEq, Inhabited

/-- A positive number between the ends of the interval that rounds to it, all as numerators over one
denominator. The ends belong to the interval if `closed` holds. -/
structure Neighbourhood where
  low : Nat
  value : Nat
  high : Nat
  denominator : Nat
  closed : Bool

/-- The neighbourhood of a finite number. The ends lie half way to its neighbours, of which the
lower one is nearer below a power of two, and ties go to the even significand. -/
def neighbourhood (x : Binary64) : Neighbourhood :=
  let m := x.significand
  let numerator := 1 <<< (x.scale - 2).toNat
  { low := (if x.fraction = 0 ∧ 1 < x.exponent then 4 * m - 1 else 4 * m - 2) * numerator
    value := 4 * m * numerator
    high := (4 * m + 2) * numerator
    denominator := 1 <<< (2 - x.scale).toNat
    closed := m % 2 == 0 }

/-- Whether the fraction `n / d` lies in the neighbourhood. -/
def Neighbourhood.contains (h : Neighbourhood) (n d : Nat) : Bool :=
  let a := n * h.denominator
  if h.closed then h.low * d ≤ a && a ≤ h.high * d else h.low * d < a && a < h.high * d

/-- The number of decimal digits of a natural number. -/
def decimalLength (n : Nat) : Nat := (Nat.toDigits 10 n).length

/-- The power of ten of the first digit of the value. -/
def Neighbourhood.magnitude (h : Neighbourhood) : Int :=
  if h.denominator ≤ h.value then decimalLength (h.value / h.denominator) - 1
  else -(decimalLength ((h.denominator + h.value - 1) / h.value - 1) : Int)

/-- The decimal of at most `count` digits next to the value that lies in its neighbourhood, if there
is one. -/
def Neighbourhood.decimal? (h : Neighbourhood) (count : Nat) : Option Decimal :=
  let exponent := h.magnitude - count + 1
  let up := Nat.pow 10 exponent.toNat
  let down := Nat.pow 10 (-exponent).toNat
  let below := h.value * down / (h.denominator * up)
  let above := below + 1
  let hitsBelow := h.contains (below * up) down
  let hitsAbove := h.contains (above * up) down
  if hitsBelow && hitsAbove then
    -- Twice the value against the sum of the two decimals.
    if 2 * h.value * down < (below + above) * up * h.denominator then some ⟨below, exponent⟩
    else some ⟨above, exponent⟩
  else if hitsBelow then some ⟨below, exponent⟩
  else if hitsAbove then some ⟨above, exponent⟩
  else none

/-- The shortest decimal of a finite number other than zero, without its sign. Seventeen digits are
always enough. -/
def shortest (x : Binary64) : Decimal :=
  let h := x.neighbourhood
  ((List.range 17).findSome? fun n => h.decimal? (n + 1)).getD ⟨0, 0⟩

end IndexAlgebra.Binary64
