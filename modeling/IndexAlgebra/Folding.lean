import IndexAlgebra.Expr.Basic
import IndexAlgebra.Word
/-!
# Folding

Folding replaces the application of an operator by something simpler where its operands say
enough. The rules of each operator are tried in order: two integer literals, two floating point
literals, and then identities with one literal operand, such as `x + 0`. An identity gives back
one of the operands as it is. Literal integers are computed in 64 bits, and a division by a
literal zero is refused before anything else.

A fold does not make nodes. Its outcome (`Reduct`) is an operand or the value of a literal still
to be made.
-/

namespace IndexAlgebra

/-- The causes for which an application is refused. -/
inductive FoldError where
  | divideByZero
  | negativeShift (amount : Int64)
deriving DecidableEq, Inhabited

/-- What is said of an application that is refused. -/
def FoldError.message : FoldError → String
  | .divideByZero => "Divide by zero"
  | .negativeShift amount =>
    "Shift amount must be non-negative, but got: " ++ toString amount.toInt

/-- What an application folds to. -/
inductive Reduct where
  | operand (e : Expr)
  | int (value : Int64)
  | float (value : Binary64)
deriving Inhabited

/-- The expression that an application folds to. -/
def Build.reduct : Reduct → Build Expr
  | .operand e => return e
  | .int value => Build.int value
  | .float value => Build.float value

namespace Expr

def isZero : Expr → Bool
  | int _ value => value == 0
  | float _ value => value.equal .zero
  | _ => false

def isOne : Expr → Bool
  | int _ value => value == 1
  | float _ value => value.equal .one
  | _ => false

end Expr

namespace Reduct

/-- The literal for a truth value. -/
def bool (value : Bool) : Reduct := .int (if value then 1 else 0)

end Reduct

namespace Folding

def add? (a b : Expr) : Option Reduct :=
  match a, b with
  | .int _ x, .int _ y => some (.int (x + y))
  | .float _ x, .float _ y => some (.float (x.add y))
  | _, _ =>
    if a.isZero then some (.operand b)
    else if b.isZero then some (.operand a)
    else none

def sub? (a b : Expr) : Option Reduct :=
  match a, b with
  | .int _ x, .int _ y => some (.int (x - y))
  | .float _ x, .float _ y => some (.float (x.sub y))
  | _, _ => if b.isZero then some (.operand a) else none

/-- Folds a product. A zero operand is given back as it is, so that it keeps its kind. -/
def mul? (a b : Expr) : Option Reduct :=
  match a, b with
  | .int _ x, .int _ y => some (.int (x * y))
  | .float _ x, .float _ y => some (.float (x.mul y))
  | _, _ =>
    if a.isOne || b.isZero then some (.operand b)
    else if a.isZero || b.isOne then some (.operand a)
    else none

/-- Folds a division, given the quotients of words and of floating point numbers. -/
def division? (word : Int64 → Int64 → Int64) (number : Binary64 → Binary64 → Binary64)
    (a b : Expr) : Except FoldError (Option Reduct) :=
  if b.isZero then .error .divideByZero
  else
    match a, b with
    | .int _ x, .int _ y => .ok (some (.int (word x y)))
    | .float _ x, .float _ y => .ok (some (.float (number x y)))
    | _, _ => .ok (if a.isZero || b.isOne then some (.operand a) else none)

/-- What a remainder by a literal one folds to. -/
def modOne? : Expr → Option Reduct
  | .int _ y => if y = 1 then some (.int 0) else none
  | .float _ y => if y.equal .one then some (.float .zero) else none
  | _ => none

/-- Folds a remainder, given the remainders of words and of floating point numbers. -/
def modulo? (word : Int64 → Int64 → Int64) (number : Binary64 → Binary64 → Binary64)
    (a b : Expr) : Except FoldError (Option Reduct) :=
  if b.isZero then .error .divideByZero
  else
    match a, b with
    | .int _ x, .int _ y => .ok (some (.int (word x y)))
    | .float _ x, .float _ y => .ok (some (.float (number x y)))
    | _, _ => .ok (if a.isZero then some (.operand a) else modOne? b)

/-- The quotient of floating point numbers rounded down. -/
def floorQuotient (x y : Binary64) : Binary64 := (x.div y).floor

/-- The remainder that goes with `floorQuotient`. -/
def floorRemainder (x y : Binary64) : Binary64 := x.sub (y.mul (floorQuotient x y))

/-- Folds the smaller of two values. The smaller of a value and itself is that value. -/
def min? (a b : Expr) : Option Reduct :=
  match a, b with
  | .int _ x, .int _ y => some (.int (if y < x then y else x))
  | .float _ x, .float _ y => some (.float (x.minimum y))
  | _, _ => if a.sameAs b then some (.operand a) else none

/-- Folds the larger of two values. The larger of a value and itself is that value. -/
def max? (a b : Expr) : Option Reduct :=
  match a, b with
  | .int _ x, .int _ y => some (.int (if x < y then y else x))
  | .float _ x, .float _ y => some (.float (x.maximum y))
  | _, _ => if a.sameAs b then some (.operand a) else none

/-- Whether two words compare as an operator says, for operators that compare. -/
def compareWords? (op : BinaryOp) (x y : Int64) : Option Bool :=
  match op with
  | .eq => some (x == y)
  | .ne => some (x != y)
  | .lt => some (decide (x < y))
  | .le => some (decide (x ≤ y))
  | .gt => some (decide (y < x))
  | .ge => some (decide (y ≤ x))
  | _ => none

/-- Whether two floating point numbers compare as an operator says, for operators that compare. -/
def compareNumbers? (op : BinaryOp) (x y : Binary64) : Option Bool :=
  match op with
  | .eq => some (x.equal y)
  | .ne => some !x.equal y
  | .lt => some (x.less y)
  | .le => some (x.lessEqual y)
  | .gt => some (y.less x)
  | .ge => some (y.lessEqual x)
  | _ => none

/-- Folds a comparison of two literals of one kind. -/
def comparison? (op : BinaryOp) (a b : Expr) : Option Reduct :=
  match a, b with
  | .int _ x, .int _ y => (compareWords? op x y).map .bool
  | .float _ x, .float _ y => (compareNumbers? op x y).map .bool
  | _, _ => none

/-- Folds a connective with an integer literal as one operand, the first if both are. If the literal
does not decide the result, the other operand does. -/
def logical? (isAnd : Bool) (a b : Expr) : Option Reduct :=
  match a.int?, b.int? with
  | some x, _ => some (.operand (if (x != 0) == isAnd then b else a))
  | none, some y => some (.operand (if (y != 0) == isAnd then a else b))
  | none, none => none

def binary? (op : BinaryOp) (a b : Expr) : Except FoldError (Option Reduct) :=
  match op with
  | .add => .ok (add? a b)
  | .sub => .ok (sub? a b)
  | .mul => .ok (mul? a b)
  | .div => division? Word.truncDiv .div a b
  | .floorDiv => division? Word.floorDiv floorQuotient a b
  | .mod => modulo? Word.truncMod .rem a b
  | .floorMod => modulo? Word.floorMod floorRemainder a b
  | .min => .ok (min? a b)
  | .max => .ok (max? a b)
  | .eq | .ne | .lt | .le | .gt | .ge => .ok (comparison? op a b)
  | .and => .ok (logical? true a b)
  | .or => .ok (logical? false a b)

def not? (a : Expr) : Option Reduct := a.int?.map fun x => .bool (x == 0)

/-- The number of places of a shift. An amount that does not fit in 32 bits without a sign is
refused. -/
def shiftAmount (y : Int64) : Except FoldError Nat :=
  if 0 ≤ y.toInt ∧ y.toInt < 0x100000000 then .ok y.toInt.toNat else .error (.negativeShift y)

/-- Folds a shift of literals, given the shift of words. -/
def shift? (word : Int64 → Nat → Int64) (a b : Expr) : Except FoldError (Option Reduct) :=
  match a.int?, b.int? with
  | some x, some y => (shiftAmount y).map fun amount => some (.int (word x amount))
  | _, _ => .ok none

def leftShift? (a b : Expr) : Except FoldError (Option Reduct) := shift? Word.shiftLeft a b

def rightShift? (a b : Expr) : Except FoldError (Option Reduct) := shift? Word.shiftRight a b

/-- Folds a bitwise operation on literals, given the operation on words. -/
def bitwise? (word : Int64 → Int64 → Int64) (a b : Expr) : Option Reduct :=
  match a.int?, b.int? with
  | some x, some y => some (.int (word x y))
  | _, _ => none

end Folding

end IndexAlgebra
