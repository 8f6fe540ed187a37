/-!
# Arithmetic of 64-bit words

Operations on signed 64-bit integers beyond those of `Int64`. Each is the operation on integers,
reduced to 64 bits; the reduction shows only where the lowest integer is divided by `-1` and where a
shift to the left pushes out digits.
-/

namespace IndexAlgebra.Word

/-- The quotient rounded towards zero. -/
def truncDiv (a b : Int64) : Int64 := .ofInt (a.toInt.tdiv b.toInt)

/-- The remainder of `truncDiv`, which has the sign of the dividend. -/
def truncMod (a b : Int64) : Int64 := .ofInt (a.toInt.tmod b.toInt)

/-- The quotient rounded down. -/
def floorDiv (a b : Int64) : Int64 := .ofInt (a.toInt.fdiv b.toInt)

/-- The remainder of `floorDiv`, which has the sign of the divisor. -/
def floorMod (a b : Int64) : Int64 := .ofInt (a.toInt.fmod b.toInt)

/-- A word shifted to the left. From 64 places on, nothing is left of it. -/
def shiftLeft (a : Int64) (amount : Nat) : Int64 :=
  if amount < 64 then .ofInt (a.toInt <<< amount) else 0

/-- A word shifted to the right, rounded down. From 63 places on, only the sign is left of it. -/
def shiftRight (a : Int64) (amount : Nat) : Int64 :=
  .ofInt (a.toInt >>> min amount 63)

end IndexAlgebra.Word
