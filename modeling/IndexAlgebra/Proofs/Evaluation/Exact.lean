import IndexAlgebra.Context
import IndexAlgebra.DataType.Basic
import Mathlib.Algebra.Order.Ring.Int
/-!
# The meaning of operators

What operators, conversions and the known named operators compute, on integers of any size. An
evaluation over words takes these results and says what becomes of one that does not fit.
-/

namespace IndexAlgebra

/-- A truth value as an integer. -/
def truth (b : Bool) : Int := if b then 1 else 0

/-- Whether a comparison holds of two integers. -/
def BinaryOp.holds (op : BinaryOp) (x y : Int) : Bool :=
  match op with
  | .eq => x == y
  | .ne => x != y
  | .lt => decide (x < y)
  | .le => decide (x ≤ y)
  | .gt => decide (y < x)
  | .ge => decide (y ≤ x)
  | _ => false

/-- The result of an operator. Divisions by zero have none, and truth values are zero and one. -/
def BinaryOp.result? (op : BinaryOp) (x y : Int) : Option Int :=
  match op with
  | .add => some (x + y)
  | .sub => some (x - y)
  | .mul => some (x * y)
  | .div => if y = 0 then none else some (x.tdiv y)
  | .mod => if y = 0 then none else some (x.tmod y)
  | .floorDiv => if y = 0 then none else some (x.fdiv y)
  | .floorMod => if y = 0 then none else some (x.fmod y)
  | .min => some (if x ≤ y then x else y)
  | .max => some (if x ≤ y then y else x)
  | .and => some (truth (x != 0 && y != 0))
  | .or => some (truth (x != 0 || y != 0))
  | op => some (truth (op.holds x y))

theorem BinaryOp.result?_of_isComparison {op : BinaryOp} (h : op.isComparison = true) (x y : Int) :
    op.result? x y = some (truth (op.holds x y)) := by
  cases op <;> first | rfl | cases h

theorem BinaryOp.holds_converse {op : BinaryOp} (x y : Int) :
    op.converse.holds y x = op.holds x y := by
  cases op <;> simp [converse, holds, BEq.comm, bne_comm]

/-- The result of a conversion. Integers of one to 64 bits wrap around at their width, and the other
widths have none, nor have the kinds that are not integers or truth values. -/
def DataType.result? (ty : DataType) (x : Int) : Option Int :=
  let bits := ty.bits.toNat
  match ty.kind with
  | .bool => some (truth (x != 0))
  | .int => if 1 ≤ bits ∧ bits ≤ 64 then some (x.bmod (2 ^ bits)) else none
  | .uint => if 1 ≤ bits ∧ bits ≤ 64 then some (x % 2 ^ bits) else none
  | .float | .handle => none

namespace Builtins

/-- Whether the value of a call is determined by the values of its operands. -/
def Interprets (k : Builtins) (op : Op) : List Expr → Prop
  | [_, _] => op = k.rightShift ∨ op = k.leftShift ∨ op = k.bitAnd
  | [_, _, _] => op = k.ifThenElse
  | _ => False

/-- The result of a named operator on two words. A shift by a negative amount has none, and a shift
to the right rounds down. -/
def result? (k : Builtins) (op : Op) (x y : Int64) : Option Int :=
  if op = k.rightShift then
    if y.toInt < 0 then none else some (x.toInt / 2 ^ y.toInt.toNat)
  else if op = k.leftShift then
    if y.toInt < 0 then none else some (x.toInt * 2 ^ y.toInt.toNat)
  else if op = k.bitAnd then some (x &&& y).toInt
  else none

end Builtins

end IndexAlgebra
