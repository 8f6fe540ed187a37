import IndexAlgebra.Expr.Basic
import Mathlib.Data.Set.Insert
/-!
# Nodes and handles

A program that makes nodes gives each of them its own handle, and makes a node only from nodes that
it has. So the set of nodes it has made is coherent: it has one node for each handle, and with each
node it has the parts.
-/

namespace IndexAlgebra

namespace Expr

/-- The nodes that a node is made from. -/
def children : Expr → List Expr
  | var _ => []
  | int .. => []
  | float .. => []
  | str .. => []
  | cast _ value _ => [value]
  | binary _ _ a b => [a, b]
  | not _ a => [a]
  | select _ cond yes no => [cond, yes, no]
  | ramp _ base stride lanes => [base, stride, lanes]
  | broadcast _ value lanes => [value, lanes]
  | letIn _ _ value body => [value, body]
  | call _ _ args => args
  | shuffle _ vectors indices => vectors ++ indices

theorem sameAs_self (e : Expr) : e.sameAs e = true := beq_self_eq_true e.handle

/-- A set of nodes with their parts, in which different nodes have different handles. -/
structure Coherent (nodes : Set Expr) : Prop where
  children_mem : ∀ e ∈ nodes, ∀ c ∈ e.children, c ∈ nodes
  handle_inj : ∀ e ∈ nodes, ∀ e' ∈ nodes, e.handle = e'.handle → e = e'

theorem Coherent.child {nodes : Set Expr} (h : Coherent nodes) {e c : Expr} (he : e ∈ nodes)
    (hc : c ∈ e.children := by simp [Expr.children]) : c ∈ nodes :=
  h.children_mem e he c hc

theorem Coherent.eq_of_sameAs {nodes : Set Expr} (h : Coherent nodes) {e e' : Expr} (he : e ∈ nodes)
    (he' : e' ∈ nodes) (hs : e.sameAs e' = true) : e = e' :=
  h.handle_inj e he e' he' (beq_iff_eq.1 hs)

/-- The nodes that a program may have made, and the least handle that it has not used. -/
inductive Made : Set Expr → Handle → Prop where
  | start (next : Handle) : Made ∅ next
  | node {nodes next e} : Made nodes next → e.handle = next → (∀ c ∈ e.children, c ∈ nodes) →
      Made (insert e nodes) (next + 1)
  /-- A handle that is used for something else. -/
  | skip {nodes next} : Made nodes next → Made nodes (next + 1)

theorem Made.handle_lt {nodes : Set Expr} {next : Handle} (h : Made nodes next) :
    ∀ e ∈ nodes, e.handle < next := by
  induction h with
  | start _ => exact fun _ h => h.elim
  | node _ hnext _ ih =>
    rintro x (rfl | hx)
    · exact hnext ▸ Nat.lt_succ_self _
    · exact Nat.lt_succ_of_lt (ih x hx)
  | skip _ ih => exact fun x hx => Nat.lt_succ_of_lt (ih x hx)

/-- What a program has made is coherent. -/
theorem Made.coherent {nodes : Set Expr} {next : Handle} (h : Made nodes next) :
    Coherent nodes := by
  induction h with
  | start _ => exact ⟨fun _ h => h.elim, fun _ h => h.elim⟩
  | skip _ ih => exact ih
  | @node nodes next e hmade hnext hparts ih =>
    have hfresh (x) (hx : x ∈ nodes) : x.handle ≠ e.handle :=
      hnext ▸ Nat.ne_of_lt (hmade.handle_lt x hx)
    constructor
    · rintro x (rfl | hx) c hc
      · exact .inr (hparts c hc)
      · exact .inr (ih.children_mem x hx c hc)
    · rintro x (rfl | hx) y (rfl | hy) hxy
      · rfl
      · exact absurd hxy.symm (hfresh y hy)
      · exact absurd hxy (hfresh x hx)
      · exact ih.handle_inj x hx y hy hxy

end Expr

end IndexAlgebra
