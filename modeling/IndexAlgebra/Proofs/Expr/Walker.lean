import IndexAlgebra.Expr.Walker
import IndexAlgebra.Proofs.Expr.Position
import IndexAlgebra.Proofs.Expr.Variables
/-!
# Walks through variables

A walker whose only rule of its own is for variables comes to each variable that occurs in an
expression, local definitions included, as often as it occurs and in the order of `Expr.occurring`.
So the list of the variables that it comes to, `Expr.visited`, is that list.
-/

namespace IndexAlgebra

variable {m : Type → Type u} [Monad m]

/-- The walker that does something at each variable, of either kind, and nothing else. -/
def Walker.atVariables (f : Var → m Unit) : Walker m where
  var := f

theorem Walker.atVar_atVariables (f : Var → m Unit) (v : Var) :
    (atVariables f).atVar v = f v := by
  cases h : v.isSize <;> simp [Algebra.atVar, atVariables, h, Thunk.get]

namespace Expr

section

variable [LawfulMonad m] {f : Var → m Unit}

/-- Walking through several expressions is doing something at the variables of all of them. -/
theorem walkAll_atVariables (es : List Expr)
    (h : ∀ e ∈ es, (Walker.atVariables f).walk e = forM e.occurring f) :
    walkAll (foldList (Walker.atVariables f).toAlgebra es) =
      forM (collectAll (fun v => [v]) (fun v => [v]) es) f := by
  induction es with
  | nil => rfl
  | cons e es ih =>
    have hrest := ih fun c hc => h c (.tail _ hc)
    calc walkAll (foldList (Walker.atVariables f).toAlgebra (e :: es))
      _ = (do (Walker.atVariables f).walk e
              walkAll (foldList (Walker.atVariables f).toAlgebra es)) := rfl
      _ = forM (collectAll (fun v => [v]) (fun v => [v]) (e :: es)) f := by
        rw [h e (.head _), hrest, collectAll, List.forM_append]
        rfl

/-- A walk does at the variables of an expression, one after the other, what it does at a
variable. -/
theorem walk_atVariables (f : Var → m Unit) (e : Expr) :
    (Walker.atVariables f).walk e = forM e.occurring f := by
  induction e using childrenInduction with
  | step e ih =>
    cases e with
    | var v =>
      refine (Walker.atVar_atVariables f v).trans ?_
      simp [occurring, collect]
    | int | float | str => rfl
    | cast h value ty => exact ih value (.head _)
    | not h a => exact ih a (.head _)
    | binary h op a b =>
      refine (walkAll_atVariables [a, b] ih).trans ?_
      simp [occurring, collect, collectAll]
    | select h cond yes no =>
      refine (walkAll_atVariables [cond, yes, no] ih).trans ?_
      simp [occurring, collect, collectAll]
    | ramp h base stride lanes =>
      refine (walkAll_atVariables [base, stride, lanes] ih).trans ?_
      simp [occurring, collect, collectAll]
    | broadcast h value lanes =>
      refine (walkAll_atVariables [value, lanes] ih).trans ?_
      simp [occurring, collect, collectAll]
    | letIn h v value body =>
      have hrest := walkAll_atVariables [value, body] ih
      have hvar := Walker.atVar_atVariables f v
      calc (Walker.atVariables f).walk (letIn h v value body)
        _ = (do (Walker.atVariables f).atVar v
                walkAll (foldList (Walker.atVariables f).toAlgebra [value, body])) := rfl
        _ = forM (letIn h v value body).occurring f := by
          rw [hvar, hrest]
          simp [occurring, collect, collectAll]
    | call h op args => exact walkAll_atVariables args ih
    | shuffle h vectors indices =>
      have hindices := walkAll_atVariables indices fun c hc =>
        ih c (List.mem_append_right vectors hc)
      have hvectors := walkAll_atVariables vectors fun c hc =>
        ih c (List.mem_append_left indices hc)
      calc (Walker.atVariables f).walk (shuffle h vectors indices)
        _ = (do walkAll (foldList (Walker.atVariables f).toAlgebra indices)
                walkAll (foldList (Walker.atVariables f).toAlgebra vectors)) := rfl
        _ = forM (shuffle h vectors indices).occurring f := by
          rw [hindices, hvectors, occurring, collect, List.forM_append]

end

/-- The variables that a walk comes to, in order. -/
def visited (e : Expr) : List Var :=
  (((Walker.atVariables fun v => modify (· ++ [v]) : Walker (StateM (List Var))).walk e).run []).2

theorem forM_append_run (vs ws : List Var) :
    ((forM vs fun v => modify (· ++ [v]) : StateM (List Var) Unit).run ws).2 = ws ++ vs := by
  induction vs generalizing ws with
  | nil => exact (List.append_nil ws).symm
  | cons v vs ih =>
    rw [List.forM_cons]
    exact (ih (ws ++ [v])).trans (List.append_assoc ..)

theorem visited_eq_occurring (e : Expr) : e.visited = e.occurring := by
  rw [visited, walk_atVariables]
  exact forM_append_run e.occurring []

end Expr

end IndexAlgebra
