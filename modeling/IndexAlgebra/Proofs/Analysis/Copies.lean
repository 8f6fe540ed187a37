import IndexAlgebra.Proofs.Analysis.Plain
import IndexAlgebra.Proofs.Expr.Equal
/-!
# Queries of copies

Structurally equal expressions have the same bound in every analyzer, whatever nodes they share
(`Analyzer.analyze_structEq`).

The bound of a node is found from what the node holds besides its children, and from the bounds of
these. The induction goes down both expressions at once, under whatever bounds the local definitions
around the two nodes have recorded. It needs to know that a handle stands for one variable and for
one operator, since structural equality compares these by their handles.
-/

namespace IndexAlgebra

namespace Expr

/-- The variable that a node defines. -/
def local? : Expr → Option Var
  | letIn _ v _ _ => some v
  | _ => none

/-- The operator that a node calls. -/
def operator? : Expr → Option Op
  | call _ op _ => some op
  | _ => none

/-- A coherent set of nodes which also holds the variables that its nodes define, and in which
different operators have different handles. -/
structure Identified (nodes : Set Expr) : Prop extends Coherent nodes where
  local_mem : ∀ e ∈ nodes, ∀ v, e.local? = some v → var v ∈ nodes
  operator_inj : ∀ e ∈ nodes, ∀ e' ∈ nodes, ∀ op op', e.operator? = some op →
    e'.operator? = some op' → op.handle = op'.handle → op = op'

namespace Identified

variable {nodes : Set Expr}

theorem local_inj (h : Identified nodes) {e e' : Expr} (he : e ∈ nodes) (he' : e' ∈ nodes)
    {v v' : Var} (hv : e.local? = some v) (hv' : e'.local? = some v') (hs : v.handle = v'.handle) :
    v = v' := by
  have heq := h.handle_inj (var v) (h.local_mem e he v hv) (var v') (h.local_mem e' he' v' hv') hs
  exact var.inj heq

end Identified

section Copies

variable {nodes : Set Expr} {l r : Expr} {k : Builtins}

/-- The bound of a call is found from the bounds of the operands. -/
theorem bound_call_congr {args args' : List Expr}
    (h : List.Forall₂ (fun a b => ∀ β, a.bound k β = b.bound k β) args args')
    (e e' : Handle) (op : Op) (β : Recorded) :
    (call e op args).bound k β = (call e' op args').bound k β := by
  rcases h with - | ⟨ha, - | ⟨hb, - | ⟨hc, - | _⟩⟩⟩
  · rfl
  · rfl
  · rw [Expr.bound, Expr.bound, ha, hb]
  · rw [Expr.bound, Expr.bound, hb, hc]
  · rfl

/-- Nodes with roots that match have the same bound if their children have. -/
theorem bound_eq_of_rootsMatch (hnodes : Identified nodes) (hl : l ∈ nodes) (hr : r ∈ nodes)
    (hroots : l.rootsMatch r = true)
    (hchildren : List.Forall₂ (fun a b => ∀ β, a.bound k β = b.bound k β) l.children r.children)
    (β : Recorded) : l.bound k β = r.bound k β := by
  have hlocal (v v') (hv : l.local? = some v) (hv' : r.local? = some v') :=
    hnodes.local_inj hl hr hv hv'
  have hoperator := hnodes.operator_inj l hl r hr
  have hsame := hnodes.handle_inj l hl r hr
  fun_cases rootsMatch l r <;> simp only [rootsMatch, beq_iff_eq, Bool.false_eq_true] at hroots
  case case1 v v' => rw [hsame hroots]
  case case2 => rw [Expr.bound, Expr.bound, hroots]
  case case5 h value ty h' value' ty' =>
    obtain - | ⟨hvalue, -⟩ := hchildren
    rw [Expr.bound, Expr.bound, hroots, hvalue]
  case case6 h op a b h' op' a' b' =>
    obtain - | ⟨ha, - | ⟨hb, -⟩⟩ := hchildren
    rw [Expr.bound, Expr.bound, hroots, ha, hb]
  case case8 h cond yes no h' cond' yes' no' =>
    obtain - | ⟨-, - | ⟨hyes, - | ⟨hno, -⟩⟩⟩ := hchildren
    rw [Expr.bound, Expr.bound, hyes, hno]
  case case9 h base stride lanes h' base' stride' lanes' =>
    obtain - | ⟨hbase, - | ⟨hstride, - | ⟨hlanes, -⟩⟩⟩ := hchildren
    rw [Expr.bound, Expr.bound, hbase, hstride, hlanes]
  case case10 h value lanes h' value' lanes' =>
    obtain - | ⟨hvalue, -⟩ := hchildren
    rw [Expr.bound, Expr.bound, hvalue]
  case case11 h v value body h' v' value' body' =>
    obtain - | ⟨hvalue, - | ⟨hbody, -⟩⟩ := hchildren
    rw [Expr.bound, Expr.bound, hlocal v v' rfl rfl hroots, hvalue]
    split
    · exact hbody β
    · exact hbody _
  case case12 h op args h' op' args' =>
    rw [hoperator op op' rfl rfl hroots]
    exact bound_call_congr hchildren h h' op' β
  all_goals rfl

/-- Structurally equal nodes have the same bound, whatever is recorded for the variables. -/
theorem bound_eq_of_structEq (hnodes : Identified nodes) (hl : l ∈ nodes) (hr : r ∈ nodes)
    (h : l.structEq r = true) (β : Recorded) : l.bound k β = r.bound k β := by
  induction l using childrenInduction generalizing r β with
  | step l ih =>
    rcases structEq_iff.1 h with hs | ⟨hroots, hchildren⟩
    · rw [hnodes.eq_of_sameAs hl hr hs]
    · refine bound_eq_of_rootsMatch hnodes hl hr hroots ?_ β
      refine forall₂_imp (fun a ha b hb hab γ => ?_) hchildren
      exact ih a ha (hnodes.child hl ha) (hnodes.child hr hb) hab γ

end Copies

end Expr

namespace Analyzer

/-- Queries for structurally equal expressions find the same bound. -/
theorem analyze_structEq {nodes : Set Expr} (hnodes : Expr.Identified nodes) {a : Analyzer}
    (hmemo : a.memo = none) {l r : Expr} (hl : l ∈ nodes) (hr : r ∈ nodes)
    (h : l.structEq r = true) : ((analyze l).run a).1 = ((analyze r).run a).1 := by
  rw [analyze_run l (.inl hmemo), analyze_run r (.inl hmemo)]
  exact Expr.bound_eq_of_structEq hnodes hl hr h a.bound?

namespace Halves

def builtins : Builtins := (Context.new.run 0).1.builtins

def x : Var := ⟨9, "x", false⟩

def t : Var := ⟨10, "t", false⟩

/-- Half of `t`, where `t` is five more than `x`. The two literals and the nodes above them have the
handles from `h` on. -/
def half (h : Handle) : Expr :=
  .letIn (h + 4) t (.binary (h + 1) .add (.var x) (.int h 5))
    (.call (h + 3) builtins.rightShift [.var t, .int (h + 2) 1])

/-- An analyzer that has recorded `[0 : 7]` for `x`. -/
def analyzer : Analyzer where
  builtins := builtins
  bounds := ⟨[(x, .make 0 7)]⟩

/-- The nodes of `half 11` and its copy `half 16`. -/
def nodes : Set Expr :=
  {half 16, .call 19 builtins.rightShift [.var t, .int 18 1], .int 18 1,
    .binary 17 .add (.var x) (.int 16 5), .int 16 5,
    half 11, .call 14 builtins.rightShift [.var t, .int 13 1], .int 13 1,
    .binary 12 .add (.var x) (.int 11 5), .int 11 5, .var t, .var x}

theorem made : Expr.Made nodes 21 := by
  rw [nodes, ← LawfulSingleton.insert_empty_eq]
  refine .node (.node (.node (.node (.node (.node (.node (.node (.node (.node (.node (.node
    (.start 9) rfl ?_) rfl ?_) rfl ?_) rfl ?_) rfl ?_) rfl ?_) rfl ?_) rfl ?_) rfl ?_) rfl ?_)
    rfl ?_) rfl ?_
  all_goals simp [Expr.children, half]

theorem identified : Expr.Identified nodes := by
  refine { made.coherent with local_mem := ?_, operator_inj := ?_ }
  all_goals simp [nodes, Expr.local?, Expr.operator?, half]

end Halves

/-- Half of the sum and a copy of it. -/
theorem analyze_structEq_half :
    (Halves.half 11).structEq (Halves.half 16) = true ∧
      ((analyze (Halves.half 11)).run Halves.analyzer).1 = .make 2 6 ∧
      ((analyze (Halves.half 11)).run Halves.analyzer).1 =
        ((analyze (Halves.half 16)).run Halves.analyzer).1 := by
  have heq : (Halves.half 11).structEq (Halves.half 16) = true := by decide
  have hl : Halves.half 11 ∈ Halves.nodes := by simp [Halves.nodes]
  have hr : Halves.half 16 ∈ Halves.nodes := by simp [Halves.nodes]
  exact ⟨heq, by decide, analyze_structEq Halves.identified (a := Halves.analyzer) rfl hl hr heq⟩

end Analyzer

end IndexAlgebra
