import IndexAlgebra.Expr.Basic
import IndexAlgebra.Table
/-!
# Contexts

A context owns the named operators that expressions are built with. It gives out one operator for
each name, however often the name is asked for, and different contexts give out different operators.
It also owns two variables that stand for the infinities where the smaller or larger of two values
is taken.
-/

namespace IndexAlgebra

/-- The operators that the library knows the meaning of. -/
structure Builtins where
  leftShift : Op
  rightShift : Op
  bitAnd : Op
  bitOr : Op
  bitXor : Op
  bitNot : Op
  /-- A choice of which only the chosen value is evaluated. -/
  ifThenElse : Op
deriving DecidableEq, Inhabited

/-- Operators by their names. -/
abbrev Registry := Table String Op

/-- The operator of a registry with a name, which is made if there is none. -/
def Registry.intern (name : String) : StateT Registry Build Op := do
  match (← get).get? name with
  | some op => return op
  | none =>
    let op ← Build.op name
    modify (·.insert name op)
    return op

/-- The operators in use, and the variables that stand for the infinities. -/
structure Context where
  registry : Registry
  builtins : Builtins
  posInf : Var
  negInf : Var
deriving Inhabited

namespace Context

/-- Registers the operators that the library knows. -/
def internBuiltins : StateT Registry Build Builtins := do
  let leftShift ← Registry.intern "sym.left_shift"
  let rightShift ← Registry.intern "sym.right_shift"
  let bitAnd ← Registry.intern "sym.bitwise_and"
  let bitOr ← Registry.intern "sym.bitwise_or"
  let bitXor ← Registry.intern "sym.bitwise_xor"
  let bitNot ← Registry.intern "sym.bitwise_not"
  let ifThenElse ← Registry.intern "sym.if_then_else"
  return { leftShift, rightShift, bitAnd, bitOr, bitXor, bitNot, ifThenElse }

def new : Build Context := do
  let (builtins, registry) ← internBuiltins.run .empty
  let posInf ← Build.var "pos_inf"
  let negInf ← Build.var "neg_inf"
  return { registry, builtins, posInf, negInf }

/-- The operator of a context with a name, if there is one. -/
def find? (ctx : Context) (name : String) : Option Op := ctx.registry.get? name

/-- The operator of a context with a name, which is made if there is none, and the context in which
it is registered. -/
def register (ctx : Context) (name : String) : Build (Op × Context) := do
  let (op, registry) ← (Registry.intern name).run ctx.registry
  return (op, { ctx with registry })

/-- The operator of a context with a name, and the context in which it is registered. It is looked
for before anything is changed. -/
def operator (ctx : Context) (name : String) : Build (Op × Context) :=
  match ctx.find? name with
  | some op => return (op, ctx)
  | none => ctx.register name

/-- Whether an expression stands for the positive infinity. -/
def isPosInf (ctx : Context) (e : Expr) : Bool := e.sameAs (.var ctx.posInf)

/-- Whether an expression stands for the negative infinity. -/
def isNegInf (ctx : Context) (e : Expr) : Bool := e.sameAs (.var ctx.negInf)

end Context

end IndexAlgebra
