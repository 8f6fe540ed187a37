import IndexAlgebra.Expr.Traversal
/-!
# Transformers

A transformer is a traversal whose result is again an expression. Each of its rules, unless it is
replaced, keeps the node if all children came back as the nodes that they were, and otherwise
makes a new node of the same kind from the new children, without any simplification. So a
transformer that changes nothing gives back the very expression, and what lies beside a change is
shared. The variable of a local definition stays as it is. Size variables count as variables.
-/

namespace IndexAlgebra

/-- The nodes that children are replaced by, in order. -/
def transformAll : List (Child (Build Expr)) → Build (List Expr)
  | [] => return []
  | child :: children => do
    let new ← child.result.get
    let rest ← transformAll children
    return new :: rest

/-- Whether each child was replaced by itself. -/
def unchanged : List (Child (Build Expr)) → List Expr → Bool
  | child :: children, new :: rest => new.sameAs child.expr && unchanged children rest
  | _, _ => true

/-- The rules of a traversal that replaces nodes. -/
structure Transformer extends Algebra (Build Expr) where
  var := fun v => return .var v
  sizeVar := var
  int := fun e _ => return e
  float := fun e _ => return e
  str := fun e _ => return e
  cast := fun e value type => do
    let value' ← value.result.get
    if value'.sameAs value.expr then return e else Build.cast value' type
  binary := fun e op a b => do
    let a' ← a.result.get
    let b' ← b.result.get
    if a'.sameAs a.expr && b'.sameAs b.expr then return e else Build.binary op a' b'
  not := fun e a => do
    let a' ← a.result.get
    if a'.sameAs a.expr then return e else Build.not a'
  select := fun e cond yes no => do
    let cond' ← cond.result.get
    let yes' ← yes.result.get
    let no' ← no.result.get
    if cond'.sameAs cond.expr && yes'.sameAs yes.expr && no'.sameAs no.expr then return e
    else Build.select cond' yes' no'
  ramp := fun e base stride lanes => do
    let base' ← base.result.get
    let stride' ← stride.result.get
    let lanes' ← lanes.result.get
    if base'.sameAs base.expr && stride'.sameAs stride.expr && lanes'.sameAs lanes.expr then
      return e
    else Build.ramp base' stride' lanes'
  broadcast := fun e value lanes => do
    let value' ← value.result.get
    let lanes' ← lanes.result.get
    if value'.sameAs value.expr && lanes'.sameAs lanes.expr then return e
    else Build.broadcast value' lanes'
  letIn := fun e v _ value body => do
    let value' ← value.result.get
    let body' ← body.result.get
    if value'.sameAs value.expr && body'.sameAs body.expr then return e
    else Build.letIn v value' body'
  call := fun e op args => do
    let args' ← transformAll args
    if unchanged args args' then return e else Build.call op args'
  shuffle := fun e vectors indices => do
    let vectors' ← transformAll vectors
    let indices' ← transformAll indices
    if unchanged vectors vectors' && unchanged indices indices' then return e
    else Build.shuffle vectors' indices'

/-- The expression that a transformer makes of an expression. -/
def Transformer.transform (transformer : Transformer) (e : Expr) : Build Expr :=
  e.fold transformer.toAlgebra

end IndexAlgebra
