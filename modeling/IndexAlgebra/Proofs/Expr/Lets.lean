import IndexAlgebra.Expr.Basic
/-!
# Fresh local definitions

A variable that is recorded, or defined further out, keeps its bound when a local definition within
defines it again, although it has another value there. `e.LetsFresh p` rules this out: no local
definition in `e` defines a variable with the property `p`, or one whose scope it is in.
-/

namespace IndexAlgebra.Expr

mutual

/-- No local definition defines a variable with a property, or one that is defined around it. -/
def LetsFresh : (Var → Prop) → Expr → Prop
  | _, var _ => True
  | _, int .. => True
  | _, float .. => True
  | _, str .. => True
  | p, cast _ value _ => LetsFresh p value
  | p, binary _ _ a b => LetsFresh p a ∧ LetsFresh p b
  | p, not _ a => LetsFresh p a
  | p, select _ cond yes no => LetsFresh p cond ∧ LetsFresh p yes ∧ LetsFresh p no
  | p, ramp _ base stride lanes => LetsFresh p base ∧ LetsFresh p stride ∧ LetsFresh p lanes
  | p, broadcast _ value lanes => LetsFresh p value ∧ LetsFresh p lanes
  | p, letIn _ v value body =>
    ¬ p v ∧ LetsFresh p value ∧ LetsFresh (fun w => p w ∨ w = v) body
  | p, call _ _ args => LetsFreshAll p args
  | p, shuffle _ vectors indices => LetsFreshAll p vectors ∧ LetsFreshAll p indices

/-- `LetsFresh` of each of several expressions. -/
def LetsFreshAll : (Var → Prop) → List Expr → Prop
  | _, [] => True
  | p, e :: es => LetsFresh p e ∧ LetsFreshAll p es

end

end IndexAlgebra.Expr
