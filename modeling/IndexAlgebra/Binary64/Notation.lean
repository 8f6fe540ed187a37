import IndexAlgebra.Binary64.Shortest
/-!
# The written form of a number

The digits of a number are those of its shortest decimal. From `1e-4` up to `1e16` they are written
around a point with at least one digit after it, and outside that range with an exponent, without a
point where there is one digit only. Both zeros keep their sign.
-/

namespace IndexAlgebra.Binary64

def zeros (n : Nat) : List Char := List.replicate n '0'

/-- The digits of a decimal without the zeros at its end. -/
def trimmed (digits : List Char) : List Char :=
  (digits.reverse.dropWhile (· == '0')).reverse

/-- Digits around a point, given the power of ten of the first digit. -/
def positional (digits : List Char) (power : Int) : List Char :=
  if power < 0 then '0' :: '.' :: zeros (-power - 1).toNat ++ digits
  else
    let whole := power.toNat + 1
    let tail := digits.drop whole
    digits.take whole ++ zeros (whole - digits.length) ++ ['.'] ++
      if tail.isEmpty then ['0'] else tail

/-- Digits with the point after the first, and an exponent. -/
def scientific (digits : List Char) (power : Int) : List Char :=
  let tail := digits.drop 1
  digits.take 1 ++ (if tail.isEmpty then [] else '.' :: tail) ++ 'e' :: (toString power).toList

/-- The written form of the absolute value of a finite number. -/
def absText (x : Binary64) : List Char :=
  if x.isZero then ['0', '.', '0']
  else
    let d := x.shortest
    let written := Nat.toDigits 10 d.digits
    let power := d.exponent + written.length - 1
    let digits := trimmed written
    if -4 ≤ power ∧ power < 16 then positional digits power else scientific digits power

def text (x : Binary64) : String :=
  if x.isNaN then "NaN"
  else
    let sign := if x.isNegative then "-" else ""
    if x.isInfinite then sign ++ "inf" else sign ++ String.ofList x.absText

end IndexAlgebra.Binary64
