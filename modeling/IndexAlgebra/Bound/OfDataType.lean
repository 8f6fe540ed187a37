import IndexAlgebra.Bound.Basic
import IndexAlgebra.DataType.Basic
/-!
# The bounds of data types
-/

namespace IndexAlgebra

open Endpoint in
/-- The bound on the values of a data type. A width of zero counts as one, and the types that are
not integers or truth values have no limits. -/
def Bound.ofDataType (ty : DataType) : Bound :=
  let bits := max 1 ty.bits.toNat
  match ty.kind with
  | .bool => .make 0 1
  | .int => if 64 ≤ bits then .everything else .make (-(1 <<< (bits - 1))) ((1 <<< (bits - 1)) - 1)
  | .uint => if 63 ≤ bits then .make 0 posInf else .make 0 ((1 <<< bits) - 1)
  | .float | .handle => .everything

end IndexAlgebra
