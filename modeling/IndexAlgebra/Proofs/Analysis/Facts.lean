import IndexAlgebra.Analysis.Scope
import IndexAlgebra.Proofs.Analysis.Plain
/-!
# The facts of a constraint

`c.facts` lists the facts that a constraint is taken apart into, in the order in which they are
assumed: opening a scope assumes them one after the other (`Analyzer.assume_eq_foldlM`). So what one
fact preserves, the opening of a scope preserves.
-/

namespace IndexAlgebra

/-- That a comparison holds between a variable and an expression. -/
structure Fact where
  var : Var
  op : BinaryOp
  other : Expr

/-- A fact is one of the facts of a constraint: of a side of a conjunction, or a comparison seen
from a side that is a variable. -/
inductive Fact.IsOf : Fact → Expr → Prop where
  | left {f h a b} : IsOf f a → IsOf f (.binary h .and a b)
  | right {f h a b} : IsOf f b → IsOf f (.binary h .and a b)
  | comparison {h op v b} : op.isComparison = true → IsOf ⟨v, op, b⟩ (.binary h op (.var v) b)
  | converse {h op a v} : op.isComparison = true →
      IsOf ⟨v, op.converse, a⟩ (.binary h op a (.var v))

namespace Expr

/-- The facts of a constraint, in the order in which they are assumed. -/
def facts : Expr → List Fact
  | .binary _ .and a b => a.facts ++ b.facts
  | .binary _ op a b =>
    if op.isComparison then
      (a.var?.map fun v => ⟨v, op, b⟩).toList ++ (b.var?.map fun v => ⟨v, op.converse, a⟩).toList
    else []
  | _ => []

/-- The variables that a constraint compares with something. -/
def compared (c : Expr) : List Var := c.facts.map (·.var)

theorem eq_var_of_var? {e : Expr} {v : Var} (h : e.var? = some v) : e = .var v := by
  cases e <;> cases h
  rfl

theorem isOf_of_mem_facts {f : Fact} (c : Expr) (hf : f ∈ c.facts) : f.IsOf c := by
  induction c using facts.induct
  case case1 h a b iha ihb =>
    unfold facts at hf
    rw [List.mem_append] at hf
    exact hf.elim (fun hf => .left (iha hf)) (fun hf => .right (ihb hf))
  case case2 h op a b hand hop =>
    rw [facts, if_pos hop, List.mem_append] at hf
    · simp only [Option.mem_toList, Option.map_eq_some_iff] at hf
      rcases hf with ⟨v, hv, rfl⟩ | ⟨v, hv, rfl⟩
      · rw [eq_var_of_var? hv]
        exact .comparison hop
      · rw [eq_var_of_var? hv]
        exact .converse hop
    · exact hand
  case case3 h op a b hand hop =>
    rw [facts, if_neg hop] at hf
    · cases hf
    · exact hand
  case case4 e hand hbinary =>
    rw [facts] at hf
    · cases hf
    all_goals assumption

end Expr

namespace Analyzer

/-- Assumes a fact. -/
def assumeThe (opening : Opening) (f : Fact) : Analysis Opening :=
  assumeFact f.var f.op f.other opening

/-- A scope is opened by assuming the facts of the constraint in order. -/
theorem assume_eq_foldlM (c : Expr) (opening : Opening) :
    assume c opening = c.facts.foldlM assumeThe opening := by
  induction c, opening using assume.induct
  case case1 h a b opening iha ihb =>
    unfold assume
    rw [iha, Expr.facts, List.foldlM_append]
    exact bind_congr ihb
  case case2 h op a b opening hand hop v hv =>
    rw [assume, Expr.facts, if_pos hop, if_pos hop, hv]
    · cases b.var? <;> simp [assumeThe]
    all_goals assumption
  case case3 h op a b opening hand hop hv =>
    rw [assume, Expr.facts, if_pos hop, if_pos hop, hv]
    · cases b.var? <;> simp [assumeThe]
    all_goals assumption
  case case4 h op a b opening hand hop =>
    rw [assume, Expr.facts, if_neg hop, if_neg hop]
    · rfl
    all_goals assumption
  case case5 e opening hand hbinary =>
    rw [assume, Expr.facts]
    · rfl
    all_goals assumption

/-- The effect of a fact: none if the operator sets no limit, a notice if the limit contradicts the
bound of the variable, and otherwise a refined bound and the one recorded before. -/
theorem assumeFact_run (v : Var) (op : BinaryOp) (other : Expr) (opening : Opening) (a : Analyzer) :
    (assumeFact v op other opening).run a =
      let r := (analyze other).run a
      match r.1.assumed? op with
      | none => (opening, r.2)
      | some assumed =>
        let current := r.2.boundOf v
        match current.intersect? assumed with
        | none =>
          ({ opening with
            notices := opening.notices ++ [.ignoring v op other current assumed] }, r.2)
        | some refined =>
          ({ opening with scope := ⟨(v, r.2.bound? v) :: opening.scope.saved⟩ },
            r.2.withBound v refined) := by
  rw [assumeFact, run_bind]
  generalize (analyze other).run a = r
  obtain ⟨b, a⟩ := r
  dsimp only
  cases b.assumed? op with
  | none => rfl
  | some assumed =>
    rw [run_bind, run_get]
    dsimp only
    cases (a.boundOf v).intersect? assumed <;> rfl

end Analyzer

end IndexAlgebra
