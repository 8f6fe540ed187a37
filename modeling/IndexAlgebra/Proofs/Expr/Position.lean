import IndexAlgebra.Proofs.Expr.Coherent
/-!
# Positions

A position in an expression is a list of indices, each of which chooses a child, from the root down.
`e.at? p` is the node there. The variable of a local definition is not a child, so that it stands at
no position.

What holds at all positions holds everywhere in the expression (`Expr.Everywhere`). Inductions on an
expression need not tell the kinds of nodes apart where only the children matter
(`Expr.childrenInduction`).
-/

namespace IndexAlgebra.Expr

/-- The node at a position. -/
def at? (e : Expr) : List Nat → Option Expr
  | [] => some e
  | i :: p => e.children[i]?.bind (·.at? p)

theorem at?_cons_eq_some_iff {e x : Expr} {i : Nat} {p : List Nat} :
    e.at? (i :: p) = some x ↔ ∃ c, e.children[i]? = some c ∧ c.at? p = some x :=
  Option.bind_eq_some_iff

/-- The node at every position has a property. -/
def Everywhere (P : Expr → Prop) (e : Expr) : Prop := ∀ p x, e.at? p = some x → P x

section Everywhere

variable {P Q : Expr → Prop} {e : Expr}

/-- What holds everywhere holds at the root and everywhere in the children. -/
theorem everywhere_iff : e.Everywhere P ↔ P e ∧ ∀ c ∈ e.children, c.Everywhere P := by
  constructor
  · intro h
    refine ⟨h [] e rfl, fun c hc p x hx => ?_⟩
    obtain ⟨i, hi⟩ := List.mem_iff_getElem?.1 hc
    exact h (i :: p) x (at?_cons_eq_some_iff.2 ⟨c, hi, hx⟩)
  · rintro ⟨hroot, hchildren⟩ (_ | ⟨i, p⟩) x hx
    · cases hx
      exact hroot
    · obtain ⟨c, hc, hx⟩ := at?_cons_eq_some_iff.1 hx
      exact hchildren c (List.mem_of_getElem? hc) p x hx

theorem Everywhere.root (h : e.Everywhere P) : P e := (everywhere_iff.1 h).1

theorem Everywhere.child (h : e.Everywhere P) {c : Expr}
    (hc : c ∈ e.children := by simp [Expr.children]) : c.Everywhere P :=
  (everywhere_iff.1 h).2 c hc

theorem Everywhere.imp (hPQ : ∀ x, P x → Q x) (h : e.Everywhere P) : e.Everywhere Q :=
  fun p x hx => hPQ x (h p x hx)

end Everywhere

/-- Whether a node is a variable or a literal. -/
def isLeaf : Expr → Bool
  | var _ | int .. | float .. | str .. => true
  | _ => false

theorem children_eq_nil {e : Expr} (he : e.isLeaf = true) : e.children = [] := by
  cases e <;> first | rfl | cases he

theorem everywhere_of_isLeaf {P : Expr → Prop} {e : Expr} (he : e.isLeaf = true) (h : P e) :
    e.Everywhere P := by
  refine everywhere_iff.2 ⟨h, ?_⟩
  rw [children_eq_nil he]
  exact List.forall_mem_nil _

theorem sizeOf_lt_of_mem_children {e c : Expr} (hc : c ∈ e.children) : sizeOf c < sizeOf e := by
  cases e with
  | var | int | float | str => cases hc
  | call h op args =>
    have : sizeOf c < sizeOf args := List.sizeOf_lt_of_mem hc
    simp only [call.sizeOf_spec]
    omega
  | shuffle h vectors indices =>
    simp only [shuffle.sizeOf_spec]
    rcases List.mem_append.1 hc with hc | hc
    · have := List.sizeOf_lt_of_mem hc
      omega
    · have := List.sizeOf_lt_of_mem hc
      omega
  | _ =>
    simp only [children, List.mem_cons, List.not_mem_nil, or_false] at hc
    grind

/-- What an expression inherits from its children holds of all expressions. -/
theorem childrenInduction {P : Expr → Prop} (step : ∀ e, (∀ c ∈ e.children, P c) → P e) (e : Expr) :
    P e :=
  step e fun c _ => childrenInduction step c
termination_by sizeOf e
decreasing_by exact sizeOf_lt_of_mem_children ‹_›

/-- What holds of all nodes of a coherent set holds everywhere in each of them. -/
theorem Coherent.everywhere {nodes : Set Expr} (h : Coherent nodes) {P : Expr → Prop}
    (hP : ∀ x ∈ nodes, P x) (e : Expr) : e ∈ nodes → e.Everywhere P := by
  induction e using childrenInduction with
  | step e ih => exact fun he => everywhere_iff.2 ⟨hP e he, fun c hc => ih c hc (h.child he hc)⟩

end IndexAlgebra.Expr
