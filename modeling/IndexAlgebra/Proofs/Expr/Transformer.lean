import IndexAlgebra.Proofs.Expr.Replacement
/-!
# Replacing leaves keeps what is not touched

Where no leaf of an expression is replaced by another node, a transformer that replaces leaves gives
back the very expression, and it does so for each part of an expression (`Leaves.Shares`). Together
with the tree that comes out, this tells all about it (`Transformer.transform_replacing`).
-/

namespace IndexAlgebra

/-- No leaf of an expression is replaced by another node. -/
def Leaves.Keeps (l : Leaves) (e : Expr) : Prop :=
  e.Everywhere fun x => (l.replace x).sameAs x = true

theorem Leaves.keeps_iff {l : Leaves} {e : Expr} (he : e.isLeaf = false) :
    l.Keeps e ↔ ∀ c ∈ e.children, l.Keeps c := by
  have hroot : (l.replace e).sameAs e = true := by
    cases e with
    | var | int | float | str => cases he
    | _ => exact Expr.sameAs_self _
  exact Expr.everywhere_iff.trans (and_iff_right hroot)

/-- Where nothing is replaced in an expression, it stays the very same in the whole, and the whole
is the same only if nothing is replaced in it. -/
structure Leaves.Shares (l : Leaves) (e e' : Expr) : Prop where
  keeps : e'.sameAs e = true → l.Keeps e
  at?_eq : ∀ p x, e.at? p = some x → l.Keeps x → e'.at? p = some x

namespace Transformer

section Nodes

variable {nodes : Set Expr} {next : Handle} {l : Leaves} {e : Expr} {es : List Expr}

theorem shares_leaf (hmade : Expr.Made nodes next) (he : l.StaysIn nodes e)
    (hleaf : e.isLeaf = true) : l.Shares e (l.replace e) where
  keeps hs := Expr.everywhere_of_isLeaf hleaf hs
  at?_eq := by
    rintro (_ | ⟨i, p⟩) x hx hkeeps
    · cases hx
      rw [hmade.coherent.eq_of_sameAs he.root.2 he.root.1 hkeeps.root]
      rfl
    · obtain ⟨c, hc, -⟩ := Expr.at?_cons_eq_some_iff.1 hx
      rw [Expr.children_eq_nil hleaf] at hc
      cases hc

/-- A node whose children all came back as they were. -/
theorem shares_self (hleaf : e.isLeaf = false) (hes : List.Forall₂ l.Shares e.children es)
    (hs : List.Forall₂ (fun c c' => c'.sameAs c = true) e.children es) : l.Shares e e where
  keeps _ := by
    refine (Leaves.keeps_iff hleaf).2 fun c hc => ?_
    obtain ⟨i, hi, rfl⟩ := List.mem_iff_getElem.1 hc
    have hi' : i < es.length := hes.length_eq ▸ hi
    exact (hes.get hi hi').keeps (hs.get hi hi')
  at?_eq _ _ hx _ := hx

/-- A new node with the children that came back, some of which are not what they were. -/
theorem shares_node {n : Handle} (hleaf : e.isLeaf = false)
    (hes : List.Forall₂ l.Shares e.children es)
    (hs : ¬ List.Forall₂ (fun c c' => c'.sameAs c = true) e.children es) (hn : e.handle < n) :
    l.Shares e (e.withChildren n es) := by
  obtain ⟨hchildren, hhandle⟩ := Expr.withChildren_spec hleaf hes.length_eq.symm n
  constructor
  · intro h
    exact absurd (hhandle.symm.trans (beq_iff_eq.1 h)) (Nat.ne_of_gt hn)
  · rintro (_ | ⟨i, p⟩) x hx hkeeps
    · cases hx
      refine absurd (List.forall₂_iff_get.2 ⟨hes.length_eq, fun i hi hi' => ?_⟩) hs
      have hc := (Leaves.keeps_iff hleaf).1 hkeeps _ (List.getElem_mem hi)
      have hsame := (hes.get hi hi').at?_eq [] _ rfl hc
      rw [Option.some.inj hsame]
      exact Expr.sameAs_self _
    · obtain ⟨c, hc, hx⟩ := Expr.at?_cons_eq_some_iff.1 hx
      obtain ⟨hi, rfl⟩ := List.getElem?_eq_some_iff.1 hc
      have hi' : i < es.length := hes.length_eq ▸ hi
      refine Expr.at?_cons_eq_some_iff.2 ⟨es[i], ?_, (hes.get hi hi').at?_eq p x hx hkeeps⟩
      rw [hchildren, List.getElem?_eq_getElem hi']

theorem transform_shares (hmade : Expr.Made nodes next) (he : l.StaysIn nodes e) :
    Gives next ((replacing l).transform e) (l.Shares e) :=
  transform_gives hmade (shares_leaf hmade) shares_self shares_node e he

end Nodes

/-- A transformer that has rules of its own for variables and literals only makes the tree in which
the leaves are replaced, if what it replaces the leaves of the expression by are nodes that exist.
It gives back the expression itself exactly if no leaf of it is replaced by another node, and at each
position where no leaf below is replaced, what it makes holds the node of the expression. -/
theorem transform_replacing {nodes : Set Expr} {next : Handle} (hmade : Expr.Made nodes next)
    {l : Leaves} {e : Expr} (he : e ∈ nodes) (hl : e.Everywhere (l.replace · ∈ nodes)) :
    let e' := (((replacing l).transform e).run next).1
    Replaced l e e' ∧ (e'.sameAs e = true ↔ l.Keeps e) ∧
      ∀ p x, e.at? p = some x → l.Keeps x → e'.at? p = some x := by
  intro e'
  have hnodes : e.Everywhere (· ∈ nodes) := hmade.coherent.everywhere (fun _ hx => hx) e he
  have hstays : l.StaysIn nodes e := fun p x hx => ⟨hnodes p x hx, hl p x hx⟩
  have hreplaced : Replaced l e e' := (transform_became hmade hstays next le_rfl).1.1
  have hshares : l.Shares e e' := (transform_shares hmade hstays next le_rfl).1
  refine ⟨hreplaced, ⟨hshares.keeps, fun h => ?_⟩, hshares.at?_eq⟩
  rw [Option.some.inj (hshares.at?_eq [] e rfl h)]
  exact e.sameAs_self

namespace Renaming

def x : Var := ⟨0, "x", false⟩

def t : Var := ⟨1, "t", false⟩

def four : Expr := .int 2 4

def five : Expr := .int 3 5

def sum : Expr := .binary 4 .add (.var t) four

/-- The sum of `t` and four, where `t` is `x`. -/
def definition : Expr := .letIn 5 t (.var x) sum

/-- A vector with one element, rearranged by an index that is also part of it. -/
def vector : Expr := .shuffle 6 [definition] [.var x]

/-- A use of `t` becomes one of `x`, and a literal becomes the next one. -/
def leaves : Leaves where
  var v := if v = t then .var x else .var v
  int e n := .int (e.handle + 1) (n + 1)

def nodes : Set Expr := {vector, definition, sum, five, four, .var t, .var x}

theorem made : Expr.Made nodes 7 := by
  unfold nodes
  rw [← LawfulSingleton.insert_empty_eq]
  have hleaves : Expr.Made (insert five (insert four (insert (.var t) (insert (.var x) ∅)))) 4 :=
    .node (.node (.node (.node (.start 0) rfl nofun) rfl nofun) rfl nofun) rfl nofun
  refine .node (.node (.node hleaves rfl ?_) rfl ?_) rfl ?_
  all_goals simp [Expr.children, sum, definition, vector]

theorem replace_mem : vector.Everywhere (leaves.replace · ∈ nodes) := by
  have hvar (v : Var) (hv : v = t ∨ v = x) : (Expr.var v).Everywhere (leaves.replace · ∈ nodes) := by
    refine Expr.everywhere_of_isLeaf rfl ?_
    rcases hv with rfl | rfl <;> simp [Leaves.replace, leaves, nodes, t, x]
  have hfour : four.Everywhere (leaves.replace · ∈ nodes) :=
    Expr.everywhere_of_isLeaf rfl (.inr (.inr (.inr (.inl rfl))))
  have hsum : sum.Everywhere (leaves.replace · ∈ nodes) :=
    Expr.everywhere_iff.2 ⟨.inr (.inr (.inl rfl)),
      List.forall_mem_cons.2 ⟨hvar t (.inl rfl), List.forall_mem_singleton.2 hfour⟩⟩
  have hdefinition : definition.Everywhere (leaves.replace · ∈ nodes) :=
    Expr.everywhere_iff.2 ⟨.inr (.inl rfl),
      List.forall_mem_cons.2 ⟨hvar x (.inr rfl), List.forall_mem_singleton.2 hsum⟩⟩
  exact Expr.everywhere_iff.2 ⟨.inl rfl,
    List.forall_mem_cons.2 ⟨hdefinition, List.forall_mem_singleton.2 (hvar x (.inr rfl))⟩⟩

/-- The literal after five is not there. It need not be, since five is no leaf of the vector. -/
theorem replace_five_notMem : leaves.replace five ∉ nodes := by
  simp [Leaves.replace, leaves, nodes, vector, definition, sum, four, five]

end Renaming

/-- The body of the definition is made anew, and with it all that it is part of. The index is
shared. -/
theorem transform_replacing_renaming :
    let e' := Expr.shuffle 9 [.letIn 8 Renaming.t (.var Renaming.x)
      (.binary 7 .add (.var Renaming.x) Renaming.five)] [.var Renaming.x]
    Renaming.leaves.replace Renaming.five ∉ Renaming.nodes ∧
      (((replacing Renaming.leaves).transform Renaming.vector).run 7).1 = e' ∧
      Replaced Renaming.leaves Renaming.vector e' ∧
      (e'.sameAs Renaming.vector = true ↔ Renaming.leaves.Keeps Renaming.vector) ∧
      e'.at? [1] = some (.var Renaming.x) := by
  obtain ⟨hreplaced, hsame, hkept⟩ := transform_replacing Renaming.made (e := Renaming.vector)
    (.inl rfl) Renaming.replace_mem
  have hindex : Renaming.leaves.Keeps (.var Renaming.x) := Expr.everywhere_of_isLeaf rfl rfl
  exact ⟨Renaming.replace_five_notMem, rfl, hreplaced, hsame, hkept [1] _ rfl hindex⟩

end Transformer

end IndexAlgebra
