import IndexAlgebra.Analysis.Query
import IndexAlgebra.Proofs.Expr.Variables
import Mathlib.Logic.Function.Basic
/-!
# Queries without their state

`e.bound k β` is the bound of `e` under the bounds `β` recorded for variables, as a function of the
expression: a local definition extends `β` within its body, and nothing is put back afterwards.

A query that has no table in use computes this bound and leaves the analyzer as it was
(`Analyzer.analyze_run`). So what holds of `Expr.bound` holds of queries.
-/

namespace IndexAlgebra

/-- The bounds recorded for some of the variables. -/
abbrev Recorded := Var → Option Bound

/-- The bound of an expression under recorded bounds. -/
def Expr.bound (k : Builtins) (β : Recorded) : Expr → Bound
  | .var v => (β v).getD (.default v)
  | .int _ value => .unit value.toInt
  | .float .. => .everything
  | .str .. => .everything
  | .cast _ value ty => if ty.isInteger then (value.bound k β).cast ty else .ofDataType ty
  | .binary _ op x y =>
    if op.isArithmetic then (x.bound k β).binary op (y.bound k β) else .everything
  | .not .. => .everything
  | .select _ _ yes no => (yes.bound k β).union (no.bound k β)
  | .ramp _ base stride lanes => (base.bound k β).ramp (stride.bound k β) (lanes.bound k β)
  | .broadcast _ value _ => value.bound k β
  | .letIn _ v value body =>
    if (β v).isSome then body.bound k β
    else body.bound k (Function.update β v (some (value.bound k β)))
  | .call _ op [x, y] =>
    if op = k.ifThenElse then .everything else (x.bound k β).call k op (y.bound k β)
  | .call _ op [_, yes, no] =>
    if op = k.ifThenElse then (yes.bound k β).union (no.bound k β) else .everything
  | .call .. => .everything
  | .shuffle .. => .everything

namespace Recorded

variable {β γ : Recorded}

/-- The same is recorded of some variables. -/
def Agree (β γ : Recorded) (vs : List Var) : Prop := ∀ v ∈ vs, β v = γ v

theorem Agree.mono {vs ws : List Var} (h : β.Agree γ vs) (hws : ws ⊆ vs) : β.Agree γ ws :=
  fun v hv => h v (hws hv)

theorem Agree.update {vs : List Var} (h : β.Agree γ vs) (v : Var) (b : Option Bound) :
    Agree (Function.update β v b) (Function.update γ v b) vs := by
  intro w hw
  simp only [Function.update_apply, h w hw]

end Recorded

/-- What is recorded of a variable that does not occur in an expression does not matter to its
bound. -/
theorem Expr.bound_congr (k : Builtins) (e : Expr) : ∀ {β γ : Recorded},
    β.Agree γ e.occurring → e.bound k β = e.bound k γ := by
  induction e using Analyzer.analyze.induct <;> intro β γ h
  case case1 v => rw [Expr.bound, Expr.bound, h v (.head _)]
  case case5 value ty ih =>
    unfold Expr.bound
    rw [ih (h.mono occurring_subset)]
  case case6 op x y ihx ihy =>
    unfold Expr.bound
    rw [ihx (h.mono occurring_subset), ihy (h.mono occurring_subset)]
  case case8 cond yes no ihy ihn =>
    unfold Expr.bound
    rw [ihy (h.mono occurring_subset), ihn (h.mono occurring_subset)]
  case case9 base stride lanes ihb ihs ihl =>
    unfold Expr.bound
    rw [ihb (h.mono occurring_subset), ihs (h.mono occurring_subset), ihl (h.mono occurring_subset)]
  case case10 value lanes ih =>
    unfold Expr.bound
    exact ih (h.mono occurring_subset)
  case case11 v value body ihb ihv =>
    have hbody := h.mono (occurring_subset (c := body))
    unfold Expr.bound
    rw [h v (.head _), ihv (h.mono occurring_subset), ihb hbody, ihb (hbody.update v _)]
  case case12 op x y ihx ihy =>
    unfold Expr.bound
    rw [ihx (h.mono occurring_subset), ihy (h.mono occurring_subset)]
  case case13 op head yes no ihy ihn =>
    unfold Expr.bound
    rw [ihy (h.mono occurring_subset), ihn (h.mono occurring_subset)]
  case case14 op args h2 h3 =>
    rw [Expr.bound, Expr.bound]
    all_goals assumption
  all_goals rfl

namespace Analyzer

/-! ## Running one step after the other -/

theorem run_bind {α β : Type} (x : Analysis α) (f : α → Analysis β) (a : Analyzer) :
    (x >>= f).run a = (f (x.run a).1).run (x.run a).2 := rfl

theorem run_pure {α : Type} (r : α) (a : Analyzer) : (pure r : Analysis α).run a = (r, a) := rfl

theorem run_get (a : Analyzer) : (get : Analysis Analyzer).run a = (a, a) := rfl

theorem run_modify (f : Analyzer → Analyzer) (a : Analyzer) :
    (modify f : Analysis PUnit).run a = (⟨⟩, f a) := rfl

theorem remember_run (e : Expr) (compute : Analysis Bound) (a : Analyzer) :
    (remember e compute).run a =
      match a.known? e with
      | some b => (b, a)
      | none => ((compute.run a).1, (compute.run a).2.learn e (compute.run a).1) := rfl

/-- A state in which the bound of a variable is replaced. -/
def withBound (a : Analyzer) (v : Var) (b : Bound) : Analyzer :=
  { a with bounds := a.bounds.insert v b }

theorem bound?_withBound (a : Analyzer) (v : Var) (b : Bound) :
    (a.withBound v b).bound? = Function.update a.bound? v (some b) := by
  funext w
  simp only [bound?, withBound, Table.get?_insert, Function.update_apply, beq_iff_eq]
  simp only [eq_comm]

/-! ## Queries without a table -/

/-- No table of known bounds is in use, and none comes into use within the present node. -/
def Plain (a : Analyzer) : Prop := a.memo = none ∨ a.depth ≠ 0

theorem remember_run_of_plain {a : Analyzer} (ha : a.Plain) {e : Expr} {compute : Analysis Bound}
    {b : Bound} (h : compute.run a = (b, a)) : (remember e compute).run a = (b, a) := by
  have hknown : a.known? e = none := by
    rcases ha with hm | hd
    · simp [known?, hm]
    · simp [known?, memoizes, hd]
  have hlearn : a.learn e b = a := by
    cases a
    rcases ha with hm | hd
    · simp_all [learn]
    · simp_all [learn, memoizes]
  rw [remember_run, hknown]
  dsimp only
  rw [h, hlearn]

theorem bound?_enterLet (a : Analyzer) (v : Var) (b : Bound) :
    (a.enterLet v b).bound? = Function.update a.bound? v (some b) :=
  bound?_withBound a v b

theorem leaveLet_enterLet {a : Analyzer} {v : Var} (h : a.bound? v = none) (b : Bound) :
    (a.enterLet v b).leaveLet v = a := by
  simp only [leaveLet, enterLet, Table.erase_insert b h, Nat.add_sub_cancel]

theorem plain_enterLet (a : Analyzer) (v : Var) (b : Bound) : (a.enterLet v b).Plain :=
  .inr (Nat.succ_ne_zero a.depth)

/-- A query without a table finds the bound under the recorded bounds and changes nothing. -/
theorem analyze_run (e : Expr) : ∀ {a : Analyzer}, a.Plain →
    (analyze e).run a = (e.bound a.builtins a.bound?, a) := by
  induction e using analyze.induct <;> intro a ha
  case case1 v => rfl
  case case5 h value ty ih =>
    refine remember_run_of_plain ha ?_
    unfold Expr.bound
    split
    · simp only [run_bind, run_pure, ih ha]
    · rfl
  case case6 h op x y ihx ihy =>
    refine remember_run_of_plain ha ?_
    unfold Expr.bound
    split
    · simp only [run_bind, run_pure, ihx ha, ihy ha]
    · rfl
  case case8 h cond yes no ihy ihn =>
    refine remember_run_of_plain ha ?_
    simp only [Expr.bound, run_bind, run_pure, ihy ha, ihn ha]
  case case9 h base stride lanes ihb ihs ihl =>
    refine remember_run_of_plain ha ?_
    simp only [Expr.bound, run_bind, run_pure, ihb ha, ihs ha, ihl ha]
  case case10 h value lanes ih =>
    refine remember_run_of_plain ha ?_
    unfold Expr.bound
    rw [ih ha]
  case case11 h v value body ihb ihv =>
    refine remember_run_of_plain ha ?_
    unfold Expr.bound
    rw [run_bind, run_get, show a.isBound v = (a.bound? v).isSome from rfl]
    by_cases hv : (a.bound? v).isSome = true
    · rw [if_pos hv, if_pos hv, ihb ha]
    · have hnone : a.bound? v = none := Option.not_isSome_iff_eq_none.1 hv
      rw [if_neg hv, if_neg hv]
      simp only [run_bind, run_pure, run_modify, ihv ha, ihb (plain_enterLet a v _),
        bound?_enterLet, leaveLet_enterLet hnone]
      rfl
  case case12 h op x y ihx ihy =>
    refine remember_run_of_plain ha ?_
    unfold Expr.bound
    rw [run_bind, run_get]
    dsimp only
    split
    · rfl
    · simp only [run_bind, run_pure, ihx ha, ihy ha]
  case case13 h op head yes no ihy ihn =>
    refine remember_run_of_plain ha ?_
    unfold Expr.bound
    rw [run_bind, run_get]
    dsimp only
    split
    · simp only [run_bind, run_pure, ihy ha, ihn ha]
    · rfl
  case case14 h op args h2 h3 =>
    rw [analyze, Expr.bound]
    · exact remember_run_of_plain ha rfl
    all_goals assumption
  all_goals exact remember_run_of_plain ha rfl

end Analyzer

end IndexAlgebra
