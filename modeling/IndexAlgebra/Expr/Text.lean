import IndexAlgebra.Expr.Basic
import IndexAlgebra.Binary64.Notation
import IndexAlgebra.Text.Quoted
/-!
# The written form of expressions

`Expr.text` writes an expression for a reader: operators between their operands in parentheses,
everything else as a function of its children. `Expr.outline` writes its structure: the name of each
node's kind with the node's contents, in order, and with the names of the contents where a node has
several. Neither shows handles, so that different variables of one name are written alike.
-/

namespace IndexAlgebra

/-- Items with a comma between them. -/
def commaSeparated (items : List String) : String := ", ".intercalate items

/-- A function applied to arguments. -/
def applied (function : String) (args : List String) : String :=
  function ++ "(" ++ commaSeparated args ++ ")"

/-- A name followed by named fields. -/
def record (name : String) (fields : List (String × String)) : String :=
  name ++ " \x7b " ++ commaSeparated (fields.map fun (field, value) => field ++ ": " ++ value) ++
    " \x7d"

namespace ScalarKind

/-- The name of a kind in an outline. -/
def outline : ScalarKind → String
  | .int => "Int"
  | .uint => "UInt"
  | .float => "Float"
  | .bool => "Bool"
  | .handle => "Handle"

end ScalarKind

def DataType.outline (ty : DataType) : String :=
  record "DataType"
    [("code", ty.kind.outline), ("bits", toString ty.bits.toNat),
      ("lanes", toString ty.lanes.toNat)]

def Op.outline (op : Op) : String := applied "Op" [op.name]

def Var.outline (v : Var) : String :=
  applied (if v.isSize then "SizeVar" else "Var") [Text.quoted v.name]

/-- The structure of a variable where nothing but a variable may stand. -/
def Var.outlineAsVar (v : Var) : String := applied "Var" [v.outline]

namespace Expr

mutual

/-- The written form of an expression. -/
def text : Expr → String
  | var v => v.name
  | int _ value => toString value.toInt
  | float _ value => value.text
  | str _ value => Text.quoted value
  | cast _ value type => applied type.text [text value]
  | binary _ op a b =>
    if op.isBetween then "(" ++ text a ++ " " ++ op.text ++ " " ++ text b ++ ")"
    else applied op.text [text a, text b]
  | not _ a => "!" ++ text a
  | select _ cond yes no => applied "select" [text cond, text yes, text no]
  | ramp _ base stride lanes => applied "ramp" [text base, text stride, text lanes]
  | broadcast _ value lanes => applied "broadcast" [text value, text lanes]
  | letIn _ v value body => "(let " ++ v.name ++ " = " ++ text value ++ " in " ++ text body ++ ")"
  | call _ op args => applied op.name (texts args)
  | shuffle _ vectors indices =>
    applied "shuffle"
      ["[" ++ commaSeparated (texts vectors) ++ "]", "[" ++ commaSeparated (texts indices) ++ "]"]

def texts : List Expr → List String
  | [] => []
  | e :: es => text e :: texts es

end

mutual

/-- The structure of an expression. -/
def outline : Expr → String
  | var v => v.outline
  | int _ value => applied "IntImm" [toString value.toInt]
  | float _ value => applied "FloatImm" [value.text]
  | str _ value => applied "StringImm" [Text.quoted value]
  | cast _ value type => record "Cast" [("value", outline value), ("dtype", type.outline)]
  | binary _ op a b => applied "Binary" [op.name, outline a, outline b]
  | not _ a => applied "Not" [outline a]
  | select _ cond yes no =>
    record "Select"
      [("cond", outline cond), ("true_value", outline yes), ("false_value", outline no)]
  | ramp _ base stride lanes =>
    record "Ramp" [("base", outline base), ("stride", outline stride), ("lanes", outline lanes)]
  | broadcast _ value lanes =>
    record "Broadcast" [("value", outline value), ("lanes", outline lanes)]
  | letIn _ v value body =>
    record "Let" [("var", v.outlineAsVar), ("value", outline value), ("body", outline body)]
  | call _ op args =>
    record "Call" [("op", op.outline), ("args", "[" ++ commaSeparated (outlines args) ++ "]")]
  | shuffle _ vectors indices =>
    record "Shuffle"
      [("vectors", "[" ++ commaSeparated (outlines vectors) ++ "]"),
        ("indices", "[" ++ commaSeparated (outlines indices) ++ "]")]

def outlines : List Expr → List String
  | [] => []
  | e :: es => outline e :: outlines es

end

end Expr

end IndexAlgebra
