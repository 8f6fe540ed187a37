import IndexAlgebra.Expr.Basic
/-!
# Sharing

The nodes of an expression, each listed once although it may be reached along several paths. A node
that has been listed is not entered again, so the number of steps follows the number of different
nodes and not the size of the tree.
-/

namespace IndexAlgebra.Expr

/-- Whether a list holds a node. -/
def listed (nodes : List Expr) (e : Expr) : Bool := nodes.any (·.sameAs e)

/-- A list of nodes with one more node, unless it is listed. -/
def listNode (e : Expr) (nodes : List Expr) : List Expr :=
  if listed nodes e then nodes else e :: nodes

mutual

/-- A list of nodes with those of an expression added. The variable of a local definition counts
as one of its nodes. -/
def listNodes : Expr → List Expr → List Expr
  | e@(var _), nodes => listNode e nodes
  | e@(int ..), nodes => listNode e nodes
  | e@(float ..), nodes => listNode e nodes
  | e@(str ..), nodes => listNode e nodes
  | e@(cast _ value _), nodes =>
    if listed nodes e then nodes else listNodes value (e :: nodes)
  | e@(binary _ _ a b), nodes =>
    if listed nodes e then nodes else listNodes b (listNodes a (e :: nodes))
  | e@(not _ a), nodes => if listed nodes e then nodes else listNodes a (e :: nodes)
  | e@(select _ cond yes no), nodes =>
    if listed nodes e then nodes
    else listNodes no (listNodes yes (listNodes cond (e :: nodes)))
  | e@(ramp _ base stride lanes), nodes =>
    if listed nodes e then nodes
    else listNodes lanes (listNodes stride (listNodes base (e :: nodes)))
  | e@(broadcast _ value lanes), nodes =>
    if listed nodes e then nodes else listNodes lanes (listNodes value (e :: nodes))
  | e@(letIn _ v value body), nodes =>
    if listed nodes e then nodes
    else listNodes body (listNodes value (listNode (var v) (e :: nodes)))
  | e@(call _ _ args), nodes =>
    if listed nodes e then nodes else listNodesOf args (e :: nodes)
  | e@(shuffle _ vectors indices), nodes =>
    if listed nodes e then nodes
    else listNodesOf indices (listNodesOf vectors (e :: nodes))

/-- A list of nodes with those of several expressions added. -/
def listNodesOf : List Expr → List Expr → List Expr
  | [], nodes => nodes
  | e :: es, nodes => listNodesOf es (listNodes e nodes)

end

/-- The nodes of an expression. -/
def nodes (e : Expr) : List Expr := listNodes e []

end IndexAlgebra.Expr
