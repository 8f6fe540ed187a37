import IndexAlgebra.Bound.Basic
import IndexAlgebra.Context
import IndexAlgebra.Expr.Text
/-!
# Analyzers

An analyzer finds bounds on integer expressions from bounds on their variables. Its state holds the
bounds recorded for variables, and what a query in progress needs besides: the number of local
definitions around the present node, and the table of known bounds if the query uses one.

A variable without a recorded bound has a default one: a size variable is nonnegative, and any other
has no limits.
-/

namespace IndexAlgebra

abbrev Memo := Table Expr Bound

structure Analyzer where
  builtins : Builtins
  /-- The bounds recorded for variables. -/
  bounds : Table Var Bound := .empty
  /-- The table of known bounds, while a query uses one. -/
  memo : Option Memo := none
  /-- The number of local definitions around the present node. -/
  depth : Nat := 0
deriving Inhabited

/-- What an analyzer does, with its state. -/
abbrev Analysis := StateM Analyzer

/-- The bound of a variable that has none recorded. -/
def Bound.default (v : Var) : Bound :=
  if v.isSize then .make 0 Endpoint.posInf else .everything

namespace Analyzer

/-- An analyzer that knows the operators of a context and has recorded nothing. -/
def new (ctx : Context) : Analyzer := { builtins := ctx.builtins }

def bound? (a : Analyzer) (v : Var) : Option Bound := a.bounds.get? v

def isBound (a : Analyzer) (v : Var) : Bool := a.bounds.contains v

/-- The bound of a variable, recorded or default. -/
def boundOf (a : Analyzer) (v : Var) : Bound := (a.bound? v).getD (.default v)

end Analyzer

/-- The causes for which a bound is not recorded. -/
inductive BoundError where
  /-- Another bound is recorded already. -/
  | conflicting (name : String) (recorded new : Bound)
  /-- The bound has no values. -/
  | empty (name : String) (lo hi : Int)
deriving DecidableEq, Inhabited

/-- What is said of a bound that is not recorded. -/
def BoundError.message : BoundError → String
  | .conflicting name recorded new =>
    "Trying to update var '" ++ name ++ "' with a different const bound: original=" ++
      recorded.text ++ ", new=" ++ new.text
  | .empty name lo hi =>
    "Bound [" ++ toString lo ++ " : " ++ toString hi ++ "] of var '" ++ name ++ "' is empty"

/-- What an analyzer reports besides its results. -/
inductive Notice where
  /-- A recorded bound gives way to another. -/
  | overriding (v : Var) (recorded new : Bound)
  /-- A fact that contradicts the bound of its variable is left out. -/
  | ignoring (v : Var) (op : BinaryOp) (other : Expr) (current assumed : Bound)
deriving Inhabited

namespace Notice

def level : Notice → String
  | overriding .. => "DEBUG"
  | ignoring .. => "WARN"

def text : Notice → String
  | overriding v recorded new =>
    "Overriding bound of " ++ v.name ++ ": " ++ recorded.text ++ " -> " ++ new.text
  | ignoring v op other current assumed =>
    "Ignoring constraint " ++ v.name ++ " " ++ op.text ++ " " ++ other.text ++ ": " ++ v.name ++
      " is " ++ current.text ++ ", which is disjoint from " ++ assumed.text

/-- A notice as it is written into a log. -/
def line (n : Notice) : String := n.level ++ " " ++ n.text

end Notice

end IndexAlgebra
