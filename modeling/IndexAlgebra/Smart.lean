import IndexAlgebra.Context
import IndexAlgebra.Folding
/-!
# Smart constructors

Constructors that fold where they can and make a node only where they cannot, so that `x + 0` is `x`
itself. Those that need named operators, or that know the infinities, belong to a context.
-/

namespace IndexAlgebra

namespace Smart

/-- What an application folds to, or the node made by `otherwise`. -/
def orElse (folded : Option Reduct) (otherwise : Build Expr) : Build Expr :=
  match folded with
  | some r => Build.reduct r
  | none => otherwise

/-- What an application folds to, or the node made by `otherwise`, unless the application is
refused. -/
def tryOrElse (folded : Except FoldError (Option Reduct)) (otherwise : Build Expr) :
    ExceptT FoldError Build Expr :=
  match folded with
  | .ok r => (orElse r otherwise : Build Expr)
  | .error e => throw e

/-- The application of an operator that may be refused. -/
def tryBinary (op : BinaryOp) (a b : Expr) : ExceptT FoldError Build Expr :=
  tryOrElse (Folding.binary? op a b) (Build.binary op a b)

def add (a b : Expr) : Build Expr := orElse (Folding.add? a b) (Build.binary .add a b)

def sub (a b : Expr) : Build Expr := orElse (Folding.sub? a b) (Build.binary .sub a b)

def mul (a b : Expr) : Build Expr := orElse (Folding.mul? a b) (Build.binary .mul a b)

/-- A negation. What is not a literal is subtracted from zero. -/
def neg (a : Expr) : Build Expr := do
  match a with
  | .int _ x => Build.int (-x)
  | .float _ x => Build.float x.neg
  | _ => sub (← Build.int 0) a

/-- A quotient rounded towards zero. -/
def truncDiv (a b : Expr) : ExceptT FoldError Build Expr := tryBinary .div a b

/-- The remainder of `truncDiv`. -/
def truncMod (a b : Expr) : ExceptT FoldError Build Expr := tryBinary .mod a b

/-- A quotient rounded down. -/
def floorDiv (a b : Expr) : ExceptT FoldError Build Expr := tryBinary .floorDiv a b

/-- The remainder of `floorDiv`. -/
def floorMod (a b : Expr) : ExceptT FoldError Build Expr := tryBinary .floorMod a b

/-- A quotient rounded up, as `(a + b - 1) / b` rounded down. -/
def ceilDiv (a b : Expr) : ExceptT FoldError Build Expr := do
  let sum ← add a b
  let numerator ← sub sum (← Build.int 1)
  floorDiv numerator b

def comparison (op : BinaryOp) (a b : Expr) : Build Expr :=
  orElse (Folding.comparison? op a b) (Build.binary op a b)

def greater (a b : Expr) : Build Expr := comparison .gt a b

def greaterEqual (a b : Expr) : Build Expr := comparison .ge a b

def less (a b : Expr) : Build Expr := comparison .lt a b

def lessEqual (a b : Expr) : Build Expr := comparison .le a b

def equal (a b : Expr) : Build Expr := comparison .eq a b

def notEqual (a b : Expr) : Build Expr := comparison .ne a b

def logicalAnd (a b : Expr) : Build Expr :=
  orElse (Folding.logical? true a b) (Build.binary .and a b)

def logicalOr (a b : Expr) : Build Expr :=
  orElse (Folding.logical? false a b) (Build.binary .or a b)

def logicalNot (a : Expr) : Build Expr := orElse (Folding.not? a) (Build.not a)

end Smart

instance : HAdd Expr Expr (Build Expr) := ⟨Smart.add⟩

instance : HSub Expr Expr (Build Expr) := ⟨Smart.sub⟩

instance : HMul Expr Expr (Build Expr) := ⟨Smart.mul⟩

instance : HAdd Expr Int64 (Build Expr) := ⟨fun a n => do Smart.add a (← Build.int n)⟩

instance : HSub Expr Int64 (Build Expr) := ⟨fun a n => do Smart.sub a (← Build.int n)⟩

instance : HMul Expr Int64 (Build Expr) := ⟨fun a n => do Smart.mul a (← Build.int n)⟩

namespace Context

open Smart

/-- The smaller of two values. The infinities are taken out before folding. -/
def min (ctx : Context) (a b : Expr) : Build Expr :=
  if ctx.isPosInf a || ctx.isNegInf b then return b
  else if ctx.isNegInf a || ctx.isPosInf b then return a
  else orElse (Folding.min? a b) (Build.binary .min a b)

/-- The larger of two values. The infinities are taken out before folding. -/
def max (ctx : Context) (a b : Expr) : Build Expr :=
  if ctx.isPosInf a || ctx.isNegInf b then return a
  else if ctx.isNegInf a || ctx.isPosInf b then return b
  else orElse (Folding.max? a b) (Build.binary .max a b)

/-- A choice between two values, which is made at once if the condition is an integer literal. -/
def ifThenElse (ctx : Context) (cond yes no : Expr) : Build Expr :=
  match cond.int? with
  | some x => return if x = 0 then no else yes
  | none => Build.call ctx.builtins.ifThenElse [cond, yes, no]

def leftShift (ctx : Context) (a b : Expr) : ExceptT FoldError Build Expr :=
  tryOrElse (Folding.leftShift? a b) (Build.call ctx.builtins.leftShift [a, b])

def rightShift (ctx : Context) (a b : Expr) : ExceptT FoldError Build Expr :=
  tryOrElse (Folding.rightShift? a b) (Build.call ctx.builtins.rightShift [a, b])

def bitAnd (ctx : Context) (a b : Expr) : Build Expr :=
  orElse (Folding.bitwise? (· &&& ·) a b) (Build.call ctx.builtins.bitAnd [a, b])

def bitOr (ctx : Context) (a b : Expr) : Build Expr :=
  orElse (Folding.bitwise? (· ||| ·) a b) (Build.call ctx.builtins.bitOr [a, b])

def bitXor (ctx : Context) (a b : Expr) : Build Expr :=
  orElse (Folding.bitwise? (· ^^^ ·) a b) (Build.call ctx.builtins.bitXor [a, b])

def bitNot (ctx : Context) (a : Expr) : Build Expr :=
  match a.int? with
  | some x => Build.int (~~~x)
  | none => Build.call ctx.builtins.bitNot [a]

end Context

end IndexAlgebra
