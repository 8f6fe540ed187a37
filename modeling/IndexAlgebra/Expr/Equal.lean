import IndexAlgebra.Expr.Basic
/-!
# Structural equality

Two expressions are structurally equal if they are built alike from the same variables and operators
and from equal literals. Variables and operators are the same if their handles are, and floating
point literals are equal as numbers.

`Expr.structEq` first looks whether the two are the same node, and then whether they are of one
kind. `Expr.rootEq` compares the roots at once; it is what is left when these two tests are not
made at the root.
-/

namespace IndexAlgebra.Expr

inductive Kind where
  | var
  | sizeVar
  | int
  | float
  | str
  | cast
  | binary
  | not
  | select
  | ramp
  | broadcast
  | letIn
  | call
  | shuffle
deriving DecidableEq, Inhabited

def kind : Expr → Kind
  | var v => if v.isSize then .sizeVar else .var
  | int .. => .int
  | float .. => .float
  | str .. => .str
  | cast .. => .cast
  | binary .. => .binary
  | not .. => .not
  | select .. => .select
  | ramp .. => .ramp
  | broadcast .. => .broadcast
  | letIn .. => .letIn
  | call .. => .call
  | shuffle .. => .shuffle

/-- Whether two expressions are the same node, or of one kind and equal by a further test. -/
@[macro_inline]
def sameOr (a b : Expr) (further : Bool) : Bool :=
  a.sameAs b || (a.kind == b.kind && further)

mutual

/-- Whether two expressions have equal roots and structurally equal children. -/
def rootEq : Expr → Expr → Bool
  | var v, b => (var v).sameAs b
  | int _ value, b => b.int? == some value
  | float _ value, b => b.float?.any value.equal
  | str _ value, str _ value' => value == value'
  | cast _ value type, cast _ value' type' =>
    type == type' && sameOr value value' (rootEq value value')
  | binary _ op a b, binary _ op' a' b' =>
    op == op' && sameOr a a' (rootEq a a') && sameOr b b' (rootEq b b')
  | not _ a, not _ a' => sameOr a a' (rootEq a a')
  | select _ cond yes no, select _ cond' yes' no' =>
    sameOr cond cond' (rootEq cond cond') && sameOr yes yes' (rootEq yes yes') &&
      sameOr no no' (rootEq no no')
  | ramp _ base stride lanes, ramp _ base' stride' lanes' =>
    sameOr base base' (rootEq base base') && sameOr stride stride' (rootEq stride stride') &&
      sameOr lanes lanes' (rootEq lanes lanes')
  | broadcast _ value lanes, broadcast _ value' lanes' =>
    sameOr value value' (rootEq value value') && sameOr lanes lanes' (rootEq lanes lanes')
  | letIn _ v value body, letIn _ v' value' body' =>
    v.handle == v'.handle && sameOr value value' (rootEq value value') &&
      sameOr body body' (rootEq body body')
  | call _ op args, call _ op' args' => op.handle == op'.handle && listEq args args'
  | shuffle _ vectors indices, shuffle _ vectors' indices' =>
    listEq vectors vectors' && listEq indices indices'
  | _, _ => false

/-- Whether two lists of expressions are of one length and structurally equal item by item. -/
def listEq : List Expr → List Expr → Bool
  | [], [] => true
  | a :: as, b :: bs => sameOr a b (rootEq a b) && listEq as bs
  | _, _ => false

end

/-- Whether two expressions are structurally equal. -/
def structEq (a b : Expr) : Bool := sameOr a b (rootEq a b)

end IndexAlgebra.Expr
