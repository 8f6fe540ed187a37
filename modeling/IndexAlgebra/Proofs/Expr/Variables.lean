import IndexAlgebra.Proofs.Expr.Coherent
/-!
# The variables of an expression

A variable occurs in an expression where it is used and where a local definition defines it.
`e.occurring` lists both, and `e.defined` the latter only, in the order in which a walk through all
parts of the expression comes to them, also those that a query does not look at.
-/

namespace IndexAlgebra.Expr

mutual

/-- What `used` lists for each use of a variable and `defining` for each local definition, taken
together. -/
def collect (used defining : Var → List Var) : Expr → List Var
  | var v => used v
  | int .. => []
  | float .. => []
  | str .. => []
  | cast _ value _ => collect used defining value
  | binary _ _ a b => collect used defining a ++ collect used defining b
  | not _ a => collect used defining a
  | select _ cond yes no =>
    collect used defining cond ++ (collect used defining yes ++ collect used defining no)
  | ramp _ base stride lanes =>
    collect used defining base ++ (collect used defining stride ++ collect used defining lanes)
  | broadcast _ value lanes => collect used defining value ++ collect used defining lanes
  | letIn _ v value body =>
    defining v ++ (collect used defining value ++ collect used defining body)
  | call _ _ args => collectAll used defining args
  | shuffle _ vectors indices =>
    collectAll used defining indices ++ collectAll used defining vectors

/-- `collect` of each of several expressions. -/
def collectAll (used defining : Var → List Var) : List Expr → List Var
  | [] => []
  | e :: es => collect used defining e ++ collectAll used defining es

end

section Collect

variable {used defining : Var → List Var} {e c : Expr}

theorem collectAll_subset : ∀ {es : List Expr}, c ∈ es →
    c.collect used defining ⊆ collectAll used defining es
  | e :: es, hc => by
    rw [collectAll]
    rcases List.mem_cons.1 hc with rfl | hc
    · exact List.subset_append_left ..
    · exact List.subset_append_of_subset_right _ (collectAll_subset hc)

theorem collect_subset (hc : c ∈ e.children) :
    c.collect used defining ⊆ e.collect used defining := by
  cases e with
  | var | int | float | str => cases hc
  | call h op args => exact collectAll_subset hc
  | shuffle h vectors indices =>
    rcases List.mem_append.1 hc with hc | hc
    · exact List.subset_append_of_subset_right _ (collectAll_subset hc)
    · exact List.subset_append_of_subset_left _ (collectAll_subset hc)
  | _ =>
    simp only [children, List.mem_cons, List.not_mem_nil, or_false] at hc
    grind [collect]

end Collect

/-- The variables of the local definitions in an expression. -/
def defined : Expr → List Var := collect (fun _ => []) fun v => [v]

/-- The variables that occur in an expression, those of local definitions included. -/
def occurring : Expr → List Var := collect (fun v => [v]) fun v => [v]

theorem defined_subset {e c : Expr} (hc : c ∈ e.children := by simp [Expr.children]) :
    c.defined ⊆ e.defined :=
  collect_subset hc

theorem occurring_subset {e c : Expr} (hc : c ∈ e.children := by simp [Expr.children]) :
    c.occurring ⊆ e.occurring :=
  collect_subset hc

end IndexAlgebra.Expr
