import IndexAlgebra.Expr.Text
/-!
# Ranges

The half-open range of the integers from `min` up to, and without, `min + extent`.
-/

namespace IndexAlgebra

/-- A range, given by its first element and the number of its elements. -/
structure Range where
  min : Expr
  extent : Expr
deriving Inhabited

namespace Range

/-- Whether two ranges are given by the same nodes. -/
def sameAs (r s : Range) : Bool := r.min.sameAs s.min && r.extent.sameAs s.extent

def text (r : Range) : String := "range(min=" ++ r.min.text ++ ", extent=" ++ r.extent.text ++ ")"

end Range

end IndexAlgebra
