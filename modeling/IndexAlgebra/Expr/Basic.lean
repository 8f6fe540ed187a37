import IndexAlgebra.Binary64.Basic
import IndexAlgebra.DataType.Basic
import IndexAlgebra.Operator
/-!
# Expressions

An expression is a tree of nodes over variables and literals. Every node carries a handle that says
which node it is: two nodes made separately differ in their handles even if they look alike, and a
node that is used in several places keeps its handle in all of them. Whether two expressions are
the same node (`Expr.sameAs`) is decided by their handles alone.

Handles are given out by `Build`, the programs that make nodes: its state is the least handle not
used yet. The functions in the namespace `Build` make a node of each kind as it is given, without
any simplification.
-/

namespace IndexAlgebra

/-- The identity of a node. -/
abbrev Handle := Nat

/-- Programs that make nodes, whose state is the least unused handle. -/
abbrev Build := StateM Handle

/-- A handle that has not been used yet. -/
def Build.fresh : Build Handle := do
  let h ← get
  set (h + 1)
  return h

/-- A variable. A size variable stands for a nonnegative integer, any other for any integer.
Variables of one name are told apart by their handles. -/
structure Var where
  handle : Handle
  name : String
  isSize : Bool
deriving DecidableEq, Inhabited

/-- A named operator that is applied to a list of operands. -/
structure Op where
  handle : Handle
  name : String
deriving DecidableEq, Inhabited

/-- An expression. In `letIn h v t e` the variable `v` stands for `t` within `e`. -/
inductive Expr where
  | var (v : Var)
  | int (h : Handle) (value : Int64)
  | float (h : Handle) (value : Binary64)
  | str (h : Handle) (value : String)
  | cast (h : Handle) (value : Expr) (type : DataType)
  | binary (h : Handle) (op : BinaryOp) (a b : Expr)
  | not (h : Handle) (a : Expr)
  | select (h : Handle) (cond yes no : Expr)
  /-- The vector of `base`, `base + stride`, and so on, with as many elements as `lanes` says. -/
  | ramp (h : Handle) (base stride lanes : Expr)
  | broadcast (h : Handle) (value lanes : Expr)
  | letIn (h : Handle) (v : Var) (value body : Expr)
  | call (h : Handle) (op : Op) (args : List Expr)
  | shuffle (h : Handle) (vectors indices : List Expr)
deriving Inhabited

namespace Expr

def handle : Expr → Handle
  | var v => v.handle
  | int h _ => h
  | float h _ => h
  | str h _ => h
  | cast h _ _ => h
  | binary h _ _ _ => h
  | not h _ => h
  | select h _ _ _ => h
  | ramp h _ _ _ => h
  | broadcast h _ _ => h
  | letIn h _ _ _ => h
  | call h _ _ => h
  | shuffle h _ _ => h

/-- Whether two expressions are the same node. -/
def sameAs (a b : Expr) : Bool := a.handle == b.handle

/-- Expressions are compared as nodes. -/
instance : BEq Expr := ⟨sameAs⟩

instance : EquivBEq Expr where
  rfl := by simp [BEq.beq, sameAs]
  symm := by simp only [BEq.beq, sameAs]; grind
  trans := by simp only [BEq.beq, sameAs]; grind

/-- The name of the kind of an expression. The kind of an operator's application is the operator. -/
def kindName : Expr → String
  | var v => if v.isSize then "SizeVar" else "Var"
  | int .. => "IntImm"
  | float .. => "FloatImm"
  | str .. => "StringImm"
  | cast .. => "Cast"
  | binary _ op _ _ => op.name
  | not .. => "Not"
  | select .. => "Select"
  | ramp .. => "Ramp"
  | broadcast .. => "Broadcast"
  | letIn .. => "Let"
  | call .. => "Call"
  | shuffle .. => "Shuffle"

def int? : Expr → Option Int64
  | int _ value => some value
  | _ => none

def float? : Expr → Option Binary64
  | float _ value => some value
  | _ => none

/-- The variable that an expression is. -/
def var? : Expr → Option Var
  | var v => some v
  | _ => none

end Expr

namespace Build

def var (name : String) : Build Var := return ⟨← fresh, name, false⟩

def sizeVar (name : String) : Build Var := return ⟨← fresh, name, true⟩

def op (name : String) : Build Op := return ⟨← fresh, name⟩

def int (value : Int64) : Build Expr := return .int (← fresh) value

def float (value : Binary64) : Build Expr := return .float (← fresh) value

def str (value : String) : Build Expr := return .str (← fresh) value

/-- A new literal for a truth value, which is the integer one or zero. -/
def bool (value : Bool) : Build Expr := int (if value then 1 else 0)

def cast (value : Expr) (type : DataType) : Build Expr := return .cast (← fresh) value type

def binary (op : BinaryOp) (a b : Expr) : Build Expr := return .binary (← fresh) op a b

def not (a : Expr) : Build Expr := return .not (← fresh) a

def select (cond yes no : Expr) : Build Expr := return .select (← fresh) cond yes no

def ramp (base stride lanes : Expr) : Build Expr := return .ramp (← fresh) base stride lanes

def broadcast (value lanes : Expr) : Build Expr := return .broadcast (← fresh) value lanes

def letIn (v : Var) (value body : Expr) : Build Expr := return .letIn (← fresh) v value body

def call (op : Op) (args : List Expr) : Build Expr := return .call (← fresh) op args

def shuffle (vectors indices : List Expr) : Build Expr := return .shuffle (← fresh) vectors indices

end Build

end IndexAlgebra
