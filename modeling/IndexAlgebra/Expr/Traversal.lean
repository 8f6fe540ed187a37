import IndexAlgebra.Expr.Basic
/-!
# Traversals

A traversal of expressions is given by a rule for each kind of node (`Algebra`), and `Expr.fold`
applies the rules from the root down. A rule is handed the node, its contents, and for each child
the result of the traversal below that child, which is computed only if the rule asks for it. So a
rule decides whether the traversal descends, in which order, and what it does before and after.
-/

namespace IndexAlgebra

/-- A child of a node and the result of a traversal below it. -/
structure Child (α : Type u) where
  expr : Expr
  result : Thunk α

/-- The rules of a traversal with results in `α`. -/
structure Algebra (α : Type u) where
  /-- What happens at every node around the rule for its kind. -/
  enter : Expr → Thunk α → α := fun _ rest => rest.get
  var : Var → α
  sizeVar : Var → α
  int : Expr → Int64 → α
  float : Expr → Binary64 → α
  str : Expr → String → α
  cast : Expr → Child α → DataType → α
  binary : Expr → BinaryOp → Child α → Child α → α
  not : Expr → Child α → α
  select : Expr → Child α → Child α → Child α → α
  ramp : Expr → Child α → Child α → Child α → α
  broadcast : Expr → Child α → Child α → α
  /-- The children are the variable, the value and the body. -/
  letIn : Expr → Var → Child α → Child α → Child α → α
  call : Expr → Op → List (Child α) → α
  shuffle : Expr → List (Child α) → List (Child α) → α

namespace Algebra

variable {α : Type u}

/-- The rule for a variable, of either kind. -/
def atVar (r : Algebra α) (v : Var) : α :=
  r.enter (.var v) (.mk fun _ => if v.isSize then r.sizeVar v else r.var v)

end Algebra

namespace Expr

variable {α : Type u}

mutual

/-- The result of a traversal. -/
def fold (r : Algebra α) : Expr → α
  | var v => r.atVar v
  | e@(int _ value) => r.enter e (.mk fun _ => r.int e value)
  | e@(float _ value) => r.enter e (.mk fun _ => r.float e value)
  | e@(str _ value) => r.enter e (.mk fun _ => r.str e value)
  | e@(cast _ value type) =>
    r.enter e (.mk fun _ => r.cast e ⟨value, .mk fun _ => fold r value⟩ type)
  | e@(binary _ op a b) =>
    r.enter e (.mk fun _ =>
      r.binary e op ⟨a, .mk fun _ => fold r a⟩ ⟨b, .mk fun _ => fold r b⟩)
  | e@(not _ a) => r.enter e (.mk fun _ => r.not e ⟨a, .mk fun _ => fold r a⟩)
  | e@(select _ cond yes no) =>
    r.enter e (.mk fun _ =>
      r.select e ⟨cond, .mk fun _ => fold r cond⟩ ⟨yes, .mk fun _ => fold r yes⟩
        ⟨no, .mk fun _ => fold r no⟩)
  | e@(ramp _ base stride lanes) =>
    r.enter e (.mk fun _ =>
      r.ramp e ⟨base, .mk fun _ => fold r base⟩ ⟨stride, .mk fun _ => fold r stride⟩
        ⟨lanes, .mk fun _ => fold r lanes⟩)
  | e@(broadcast _ value lanes) =>
    r.enter e (.mk fun _ =>
      r.broadcast e ⟨value, .mk fun _ => fold r value⟩ ⟨lanes, .mk fun _ => fold r lanes⟩)
  | e@(letIn _ v value body) =>
    r.enter e (.mk fun _ =>
      r.letIn e v ⟨var v, .mk fun _ => r.atVar v⟩ ⟨value, .mk fun _ => fold r value⟩
        ⟨body, .mk fun _ => fold r body⟩)
  | e@(call _ op args) => r.enter e (.mk fun _ => r.call e op (foldList r args))
  | e@(shuffle _ vectors indices) =>
    r.enter e (.mk fun _ => r.shuffle e (foldList r vectors) (foldList r indices))

/-- Children with the results of a traversal below them. -/
def foldList (r : Algebra α) : List Expr → List (Child α)
  | [] => []
  | e :: es => ⟨e, .mk fun _ => fold r e⟩ :: foldList r es

end

end Expr

end IndexAlgebra
