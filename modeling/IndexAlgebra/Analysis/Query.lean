import IndexAlgebra.Analysis.Basic
import IndexAlgebra.Bound.Arith
import IndexAlgebra.Bound.OfDataType
/-!
# Queries

`Analyzer.analyze` finds the bound of an expression by a rule for each kind of node. A local
definition of a variable without a recorded bound records the bound of its value while it looks at
the body; a variable that has one keeps it, and the value is not looked at.

A query may use a table of known bounds, which it reads and extends. Variables are not entered, and
within a local definition the table is not used at all, since there a node may have another bound
than elsewhere.
-/

namespace IndexAlgebra

/-- The bound of an operator's application, from the bounds of the operands. Comparisons and
connectives have no limits. -/
def Bound.binary (op : BinaryOp) (a b : Bound) : Bound :=
  match op with
  | .add => a.add b
  | .sub => a.sub b
  | .mul => a.mul b
  | .div => a.div b
  | .mod => a.mod b
  | .floorDiv => a.floorDiv b
  | .floorMod => a.floorMod b
  | .min => a.minimum b
  | .max => a.maximum b
  | _ => .everything

/-- Whether the bound of an operator's application depends on its operands. -/
def BinaryOp.isArithmetic : BinaryOp → Bool
  | .add | .sub | .mul | .div | .mod | .floorDiv | .floorMod | .min | .max => true
  | _ => false

/-- The bound of a named operator's application to two operands. -/
def Bound.call (builtins : Builtins) (op : Op) (a b : Bound) : Bound :=
  if op = builtins.rightShift then a.rightShift b
  else if op = builtins.leftShift then a.leftShift b
  else if op = builtins.bitAnd then a.bitAnd b
  else .everything

/-- The bound of a conversion to a data type, which is that of the value if it fits. -/
def Bound.cast (ty : DataType) (b : Bound) : Bound :=
  let target := ofDataType ty
  if target.subsumes b then b else target

/-- The bound of a vector of equidistant values: of the first value and the last. -/
def Bound.ramp (base stride lanes : Bound) : Bound :=
  base.union (base.add ((lanes.sub (make 1 1)).mul stride))

namespace Analyzer

/-- Whether the table of known bounds is used for an expression. -/
def memoizes (a : Analyzer) (e : Expr) : Bool := a.depth == 0 && e.var?.isNone

/-- The known bound of an expression, if the table is used for it. -/
def known? (a : Analyzer) (e : Expr) : Option Bound :=
  if a.memoizes e then a.memo.bind (·.get? e) else none

/-- The state in which the bound of an expression is known, if the table is used for it. -/
def learn (a : Analyzer) (e : Expr) (b : Bound) : Analyzer :=
  if a.memoizes e then { a with memo := a.memo.map (·.insert e b) } else a

/-- The bound of an expression: the known one, or else the result of a computation, which is then
entered into the table. -/
@[inline]
def remember (e : Expr) (compute : Analysis Bound) : Analysis Bound := fun a =>
  match a.known? e with
  | some b => (b, a)
  | none =>
    let (b, a) := compute.run a
    (b, a.learn e b)

/-- The state within a local definition. -/
def enterLet (a : Analyzer) (v : Var) (b : Bound) : Analyzer :=
  { a with bounds := a.bounds.insert v b, depth := a.depth + 1 }

/-- The state after a local definition. -/
def leaveLet (a : Analyzer) (v : Var) : Analyzer :=
  { a with bounds := a.bounds.erase v, depth := a.depth - 1 }

/-- The bound of an expression. -/
def analyze : Expr → Analysis Bound
  | .var v => return (← get).boundOf v
  | e@(.int _ value) => remember e do return .unit value.toInt
  | e@(.float ..) => remember e do return .everything
  | e@(.str ..) => remember e do return .everything
  | e@(.cast _ value ty) => remember e do
    if ty.isInteger then return (← analyze value).cast ty else return .ofDataType ty
  | e@(.binary _ op x y) => remember e do
    if op.isArithmetic then
      let a ← analyze x
      let b ← analyze y
      return a.binary op b
    else return .everything
  | e@(.not ..) => remember e do return .everything
  | e@(.select _ _ yes no) => remember e do
    let a ← analyze yes
    let b ← analyze no
    return a.union b
  | e@(.ramp _ base stride lanes) => remember e do
    let first ← analyze base
    let step ← analyze stride
    let count ← analyze lanes
    return first.ramp step count
  | e@(.broadcast _ value _) => remember e do analyze value
  | e@(.letIn _ v value body) => remember e do
    if (← get).isBound v then analyze body
    else
      let b ← analyze value
      modify (·.enterLet v b)
      let result ← analyze body
      modify (·.leaveLet v)
      return result
  | e@(.call _ op [x, y]) => remember e do
    let builtins := (← get).builtins
    if op = builtins.ifThenElse then return .everything
    else
      let a ← analyze x
      let b ← analyze y
      return a.call builtins op b
  | e@(.call _ op [_, yes, no]) => remember e do
    if op = (← get).builtins.ifThenElse then
      let a ← analyze yes
      let b ← analyze no
      return a.union b
    else return .everything
  | e@(.call ..) => remember e do return .everything
  | e@(.shuffle ..) => remember e do return .everything

/-- The bound of an expression and the table of known bounds extended by those found on the way. -/
def analyzeWith (memo : Memo) (e : Expr) : Analysis (Bound × Memo) := do
  let outer := (← get).memo
  modify fun a => { a with memo := some memo }
  let b ← analyze e
  let filled := (← get).memo.getD memo
  modify fun a => { a with memo := outer }
  return (b, filled)

end Analyzer

end IndexAlgebra
