import IndexAlgebra.Proofs.Analysis.Plain
import IndexAlgebra.Proofs.Expr.Walker
/-!
# What a query depends on

The bound of an expression depends on what is recorded for the variables that a walk through the
expression comes to, and on nothing else that is recorded (`Analyzer.analyze_congr_visited`). The
walk comes to more variables than a query looks at: it goes through conditions and comparisons as
well. But it has to come to the variables of local definitions, since a query asks whether they are
recorded.
-/

namespace IndexAlgebra.Analyzer

/-- Two analyzers of one context find the same bound if they have recorded the same for each
variable that a walk through the expression comes to. -/
theorem analyze_congr_visited {a b : Analyzer} (hbuiltins : a.builtins = b.builtins)
    (ha : a.memo = none) (hb : b.memo = none) {e : Expr}
    (h : ∀ v ∈ e.visited, a.bound? v = b.bound? v) :
    ((analyze e).run a).1 = ((analyze e).run b).1 := by
  rw [Expr.visited_eq_occurring] at h
  rw [analyze_run e (.inl ha), analyze_run e (.inl hb), hbuiltins]
  exact e.bound_congr b.builtins h

namespace Guarded

def x : Var := ⟨9, "x", false⟩

def y : Var := ⟨10, "y", true⟩

def t : Var := ⟨11, "t", false⟩

/-- The successor of `x`, or zero if `y` is not below three. -/
def choice : Expr :=
  .letIn 18 t (.binary 13 .add (.var x) (.int 12 1))
    (.select 17 (.binary 15 .lt (.var y) (.int 14 3)) (.var t) (.int 16 0))

/-- An analyzer that has recorded `[0 : 7]` for `x`. -/
def analyzer : Analyzer where
  builtins := (Context.new.run 0).1.builtins
  bounds := ⟨[(x, .make 0 7)]⟩

/-- The analyzer with a bound for a variable that is not in `choice`, recorded before. -/
def other : Analyzer :=
  { analyzer with bounds := ⟨[(⟨19, "t", false⟩, .make 1 2), (x, .make 0 7)]⟩ }

end Guarded

/-- Another variable of the same name as one that is defined does not matter. -/
theorem analyze_congr_visited_choice :
    Guarded.choice.visited = [Guarded.t, Guarded.x, Guarded.y, Guarded.t] ∧
      (∀ v ∈ Guarded.choice.visited, Guarded.analyzer.bound? v = Guarded.other.bound? v) ∧
      ((analyze Guarded.choice).run Guarded.analyzer).1 = .make 0 8 ∧
      ((analyze Guarded.choice).run Guarded.analyzer).1 =
        ((analyze Guarded.choice).run Guarded.other).1 := by
  have hvisited : Guarded.choice.visited = [Guarded.t, Guarded.x, Guarded.y, Guarded.t] := by decide
  have hsame : ∀ v ∈ Guarded.choice.visited,
      Guarded.analyzer.bound? v = Guarded.other.bound? v := by
    rw [hvisited]
    decide
  exact ⟨hvisited, hsame, by decide,
    analyze_congr_visited (a := Guarded.analyzer) (b := Guarded.other) rfl rfl rfl hsame⟩

end IndexAlgebra.Analyzer
