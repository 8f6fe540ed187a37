/-!
# Binary operators

The operators that join two expressions: arithmetic, comparisons, and the two logical connectives.
-/

namespace IndexAlgebra

/-- An operator with two operands. `div` and `mod` round towards zero, `floorDiv` and `floorMod`
down. -/
inductive BinaryOp where
  | add
  | sub
  | mul
  | div
  | mod
  | floorDiv
  | floorMod
  | min
  | max
  | eq
  | ne
  | lt
  | le
  | gt
  | ge
  | and
  | or
deriving DecidableEq, Inhabited

namespace BinaryOp

def all : List BinaryOp :=
  [add, sub, mul, div, mod, floorDiv, floorMod, min, max, eq, ne, lt, le, gt, ge, and, or]

def name : BinaryOp → String
  | add => "Add"
  | sub => "Sub"
  | mul => "Mul"
  | div => "Div"
  | mod => "Mod"
  | floorDiv => "FloorDiv"
  | floorMod => "FloorMod"
  | min => "Min"
  | max => "Max"
  | eq => "EQ"
  | ne => "NE"
  | lt => "LT"
  | le => "LE"
  | gt => "GT"
  | ge => "GE"
  | and => "And"
  | or => "Or"

def ofName? (name : String) : Option BinaryOp := all.find? fun op => op.name == name

/-- How an operator is written in an expression: a sign, or the name of a function. -/
def text : BinaryOp → String
  | add => "+"
  | sub => "-"
  | mul => "*"
  | div => "truncdiv"
  | mod => "truncmod"
  | floorDiv => "floordiv"
  | floorMod => "floormod"
  | min => "min"
  | max => "max"
  | eq => "=="
  | ne => "!="
  | lt => "<"
  | le => "<="
  | gt => ">"
  | ge => ">="
  | and => "&&"
  | or => "||"

/-- Whether an operator is written between its operands. -/
def isBetween : BinaryOp → Bool
  | div | mod | floorDiv | floorMod | min | max => false
  | _ => true

def isComparison : BinaryOp → Bool
  | eq | ne | lt | le | gt | ge => true
  | _ => false

/-- The comparison with exchanged operands: `a op b` says the same as `b op.converse a`. -/
def converse : BinaryOp → BinaryOp
  | lt => gt
  | le => ge
  | gt => lt
  | ge => le
  | op => op

end BinaryOp

end IndexAlgebra
