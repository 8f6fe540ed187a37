import IndexAlgebra.Analysis.Scope
import IndexAlgebra.Analysis.Record
import IndexAlgebra.Exchange.Instances
import IndexAlgebra.Smart
/-!
# The report on a tiled loop

A loop over the index `i` from zero up to an extent, split into tiles, has an outer index `i /
tile`, an inner index `i % tile`, and the access `outer * tile + inner`. The report gives a bound
for each of the three, and under a limit also the bound that holds where `i` is below the limit.
-/

namespace IndexAlgebra.Report

/-- What a report is asked for. -/
structure Options where
  extent : Int64 := 64
  tile : Int64 := 4
  limit : Option Int64 := none
  json : Bool := false
deriving Inhabited

/-- The line of a report on one expression. -/
structure Row where
  name : String
  expr : String
  bound : Bound
  guarded : Option Bound
deriving DecidableEq, Inhabited

/-- What went wrong where there is no report. -/
inductive Failure where
  | tile (size : Int64)
  /-- The outer index cannot be built. -/
  | outer (cause : FoldError)
  /-- The inner index cannot be built. -/
  | inner (cause : FoldError)
  /-- The loop's index cannot be bound to its range. -/
  | binding (cause : BoundError)
deriving Inhabited

/-- What the report was about to do, or what is wrong with what it was asked for. -/
def Failure.message : Failure → String
  | .tile size => "tile size must be positive, got " ++ toString size.toInt
  | .outer _ => "building the outer index"
  | .inner _ => "building the inner index"
  | .binding _ => "binding the loop variable"

/-- What the step that failed says about it. -/
def Failure.cause? : Failure → Option String
  | .tile _ => none
  | .outer cause | .inner cause => some cause.message
  | .binding cause => some cause.message

/-- What is said where there is no report: the message, and below it the cause. -/
def Failure.text (failure : Failure) : String :=
  match failure.cause? with
  | none => failure.message
  | some cause => failure.message ++ "\n\nCaused by:\n    " ++ cause

/-- The three expressions over the loop's index, with their names. -/
def accesses (i : Var) (size : Int64) : ExceptT Failure Build (List (String × Expr)) := do
  let tile ← Build.int size
  let outer ← (Smart.floorDiv (.var i) tile).adapt .outer
  let inner ← (Smart.floorMod (.var i) tile).adapt .inner
  let flat ← Smart.add (← Smart.mul outer tile) inner
  return [("outer", outer), ("inner", inner), ("flat", flat)]

/-- The bounds of expressions. -/
def bounds (exprs : List (String × Expr)) : Analysis (List Bound) :=
  exprs.mapM fun (_, e) => Analyzer.analyze e

/-- The bounds of expressions where a guard holds. -/
def guardedBounds (guard : Expr) (exprs : List (String × Expr)) : Analysis (List Bound) := do
  let (scope, _) ← Analyzer.enter guard
  let found ← bounds exprs
  Analyzer.exit scope
  return found

/-- The lines of a report, from the expressions, the guard, and the range of the loop. -/
def rowsOf (i : Var) (range : Range) (exprs : List (String × Expr)) (guard : Option Expr) :
    Analysis (Except BoundError (List Row)) := do
  match ← Analyzer.bind i range false with
  | .error e => return .error e
  | .ok _ =>
    let plain ← bounds exprs
    let guarded ← match guard with
      | none => pure (exprs.map fun _ => none)
      | some g => do pure ((← guardedBounds g exprs).map some)
    return .ok <| (exprs.zip (plain.zip guarded)).map fun ((name, e), bound, guarded) =>
      ⟨name, e.text, bound, guarded⟩

def rows (o : Options) : ExceptT Failure Build (List Row) := do
  if o.tile ≤ 0 then throw (.tile o.tile)
  let ctx ← Context.new
  let i ← Build.var "i"
  let exprs ← accesses i o.tile
  let range : Range := ⟨← Build.int 0, ← Build.int o.extent⟩
  let guard ← o.limit.mapM fun limit => do Smart.less (.var i) (← Build.int limit)
  match ((rowsOf i range exprs guard).run (.new ctx)).1 with
  | .error e => throw (.binding e)
  | .ok rows => return rows

/-- A text with blanks after it up to a width. Longer text stays as it is. -/
def padded (width : Nat) (s : String) : String :=
  s ++ String.ofList (List.replicate (width - s.length) ' ')

def Row.text (r : Row) : String :=
  padded 6 r.name ++ " " ++ padded 40 r.expr ++ " " ++ r.bound.text ++
    match r.guarded with
    | some guarded => " (guarded: " ++ guarded.text ++ ")"
    | none => ""

def Row.encode (r : Row) : Json :=
  .object [("name", .text r.name), ("expr", .text r.expr), ("bound", Exchange.encode r.bound),
    ("guarded", (r.guarded.map Exchange.encode).getD .null)]

/-- What a run of the program leaves behind. -/
structure Outcome where
  exitCode : UInt32
  output : String
  errors : String
deriving Inhabited

/-- Writes a report, or says why there is none. -/
def run (o : Options) : Outcome :=
  match ((rows o).run.run 0).1 with
  | .error failure => ⟨1, "", "Error: " ++ failure.text ++ "\n"⟩
  | .ok rows =>
    if o.json then ⟨0, (Json.array (rows.map Row.encode)).pretty ++ "\n", ""⟩
    else ⟨0, String.join (rows.map fun r => r.text ++ "\n"), ""⟩

end IndexAlgebra.Report
