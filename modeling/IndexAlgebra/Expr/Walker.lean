import IndexAlgebra.Expr.Traversal
/-!
# Walkers

A walker is a traversal that is run for its effects. Each of its rules, unless it is replaced, walks
through the children of the node in order: the variable, the value and the body of a local
definition, and the indices of a rearrangement before its vectors. Size variables count as
variables.
-/

namespace IndexAlgebra

/-- Walks through children one after the other. -/
def walkAll {m : Type → Type u} [Monad m] : List (Child (m Unit)) → m Unit
  | [] => pure ()
  | child :: children => do
    child.result.get
    walkAll children

/-- The rules of a traversal that is run for its effects. -/
structure Walker (m : Type → Type u) [Monad m] extends Algebra (m Unit) where
  var := fun _ => pure ()
  sizeVar := var
  int := fun _ _ => pure ()
  float := fun _ _ => pure ()
  str := fun _ _ => pure ()
  cast := fun _ value _ => value.result.get
  binary := fun _ _ a b => walkAll [a, b]
  not := fun _ a => a.result.get
  select := fun _ cond yes no => walkAll [cond, yes, no]
  ramp := fun _ base stride lanes => walkAll [base, stride, lanes]
  broadcast := fun _ value lanes => walkAll [value, lanes]
  letIn := fun _ _ v value body => walkAll [v, value, body]
  call := fun _ _ args => walkAll args
  shuffle := fun _ vectors indices => do
    walkAll indices
    walkAll vectors

def Walker.walk {m : Type → Type u} [Monad m] (walker : Walker m) (e : Expr) : m Unit :=
  e.fold walker.toAlgebra

end IndexAlgebra
