/-!
# Data types

A data type describes the elements of a vector: their kind, their width in bits, and their number.
-/

namespace IndexAlgebra

inductive ScalarKind where
  | int
  | uint
  | float
  | bool
  | handle
deriving DecidableEq, Inhabited

/-- The word for a kind. -/
def ScalarKind.text : ScalarKind → String
  | .int => "int"
  | .uint => "uint"
  | .float => "float"
  | .bool => "bool"
  | .handle => "handle"

/-- The kind, width and number of the elements of a vector. -/
structure DataType where
  kind : ScalarKind
  bits : UInt8
  lanes : UInt16
deriving DecidableEq, Inhabited

namespace DataType

def int (bits : UInt8) : DataType := ⟨.int, bits, 1⟩

def uint (bits : UInt8) : DataType := ⟨.uint, bits, 1⟩

def float (bits : UInt8) : DataType := ⟨.float, bits, 1⟩

def bool : DataType := ⟨.bool, 1, 1⟩

def handle : DataType := ⟨.handle, 64, 1⟩

/-- The same elements in another number. -/
def withLanes (ty : DataType) (lanes : UInt16) : DataType := { ty with lanes }

def isInteger (ty : DataType) : Bool := ty.kind == .int || ty.kind == .uint

/-- The written form. Kinds of one width only leave the width out, and a single lane is not
mentioned. -/
def text (ty : DataType) : String :=
  let scalar :=
    if ty.kind = .bool ∨ ty.kind = .handle then ty.kind.text
    else ty.kind.text ++ toString ty.bits.toNat
  if 1 < ty.lanes then scalar ++ "x" ++ toString ty.lanes.toNat else scalar

end DataType

end IndexAlgebra
