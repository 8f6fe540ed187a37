import IndexAlgebra.Expr.Equal
import IndexAlgebra.Proofs.Expr.Position
import Mathlib.Data.List.Forall2
/-!
# What structural equality decides

Two trees coincide (`Expr.Coincide`) if their roots match and their children coincide in pairs. Nothing
is said there of nodes that are the same, nor of kinds.

Structural equality takes two expressions to be equal if they are the same node, and descends only
otherwise (`Expr.structEq_iff`). The two ways are at odds only where a tree does not coincide with
itself, which is where it holds a literal that is not a number. Even then, structural equality is an
equivalence of the nodes that a program has made, since nodes under one handle are one
(`Expr.structEq_equivalence`).
-/

namespace IndexAlgebra

/-! ## Equality of numbers -/

namespace Binary64

variable {x y z : Binary64}

theorem equal_self_iff : x.equal x = true ↔ x.isNaN = false := by
  simp [equal]

theorem equal_symm (h : x.equal y = true) : y.equal x = true := by
  simp only [equal, Bool.and_eq_true, beq_iff_eq] at h ⊢
  exact ⟨⟨h.1.2, h.1.1⟩, h.2.symm⟩

theorem equal_trans (hxy : x.equal y = true) (hyz : y.equal z = true) : x.equal z = true := by
  simp only [equal, Bool.and_eq_true, beq_iff_eq] at hxy hyz ⊢
  exact ⟨⟨hxy.1.1, hyz.1.2⟩, hxy.2.trans hyz.2⟩

end Binary64

namespace Expr

/-! ## Trees that coincide -/

/-- Whether two nodes are of one kind and have the same contents beside their children. -/
def rootsMatch : Expr → Expr → Bool
  | var v, var v' => v.handle == v'.handle
  | int _ value, int _ value' => value == value'
  | float _ value, float _ value' => value.equal value'
  | str _ value, str _ value' => value == value'
  | cast _ _ type, cast _ _ type' => type == type'
  | binary _ op _ _, binary _ op' _ _ => op == op'
  | not .., not .. => true
  | select .., select .. => true
  | ramp .., ramp .. => true
  | broadcast .., broadcast .. => true
  | letIn _ v _ _, letIn _ v' _ _ => v.handle == v'.handle
  | call _ op _, call _ op' _ => op.handle == op'.handle
  | shuffle _ vectors _, shuffle _ vectors' _ => vectors.length == vectors'.length
  | _, _ => false

/-- Two expressions unfold to trees that coincide node by node. -/
inductive Coincide : Expr → Expr → Prop where
  | node {a b} : a.rootsMatch b = true → List.Forall₂ Coincide a.children b.children → Coincide a b

/-- Every floating point literal in an expression is a number. -/
def NoNaN (e : Expr) : Prop := e.Everywhere fun x => ∀ v, x.float? = some v → v.isNaN = false

section Roots

variable {a b c : Expr}

theorem rootsMatch_self (h : ∀ v, a.float? = some v → v.isNaN = false) :
    a.rootsMatch a = true := by
  cases a with
  | float _ v => exact Binary64.equal_self_iff.2 (h v rfl)
  | _ => simp [rootsMatch]

theorem rootsMatch_symm (h : a.rootsMatch b = true) : b.rootsMatch a = true := by
  fun_cases rootsMatch a b
  case case3 => exact Binary64.equal_symm h
  all_goals simp_all [rootsMatch]

theorem rootsMatch_trans (hab : a.rootsMatch b = true) (hbc : b.rootsMatch c = true) :
    a.rootsMatch c = true := by
  fun_cases rootsMatch a b
  case case3 =>
    cases c with
    | float => exact Binary64.equal_trans hab hbc
    | _ => cases hbc
  all_goals
    cases c <;> simp_all [rootsMatch]

end Roots

/-! ## What is compared -/

section Lists

variable {as bs cs as' bs' : List Expr} {R S : Expr → Expr → Prop}

theorem listEq_iff : listEq as bs = true ↔ List.Forall₂ (fun a b => a.structEq b = true) as bs := by
  induction as generalizing bs with
  | nil => cases bs <;> simp [listEq]
  | cons a as ih =>
    cases bs with
    | nil => simp [listEq]
    | cons b bs => simp [listEq, structEq, ih]

theorem forall₂_append_iff (h : as.length = as'.length) :
    List.Forall₂ R (as ++ bs) (as' ++ bs') ↔ List.Forall₂ R as as' ∧ List.Forall₂ R bs bs' := by
  constructor
  · intro hall
    have htake := List.forall₂_take as.length hall
    have hdrop := List.forall₂_drop as.length hall
    rw [List.take_left, h, List.take_left] at htake
    rw [List.drop_left, h, List.drop_left] at hdrop
    exact ⟨htake, hdrop⟩
  · rintro ⟨has, hbs⟩
    exact List.rel_append has hbs

theorem forall₂_imp (h : ∀ a ∈ as, ∀ b ∈ bs, R a b → S a b) (hall : List.Forall₂ R as bs) :
    List.Forall₂ S as bs := by
  induction hall with
  | nil => exact .nil
  | cons hab _ ih =>
    refine .cons (h _ (.head _) _ (.head _) hab) (ih fun a ha b hb => ?_)
    exact h a (.tail _ ha) b (.tail _ hb)

theorem forall₂_trans (h : ∀ a ∈ as, ∀ b ∈ bs, ∀ c ∈ cs, R a b → R b c → R a c)
    (hab : List.Forall₂ R as bs) (hbc : List.Forall₂ R bs cs) : List.Forall₂ R as cs := by
  induction hab generalizing cs with
  | nil =>
    cases hbc
    exact .nil
  | cons hab _ ih =>
    cases hbc with
    | cons hbc hrest =>
      refine .cons (h _ (.head _) _ (.head _) _ (.head _) hab hbc) (ih ?_ hrest)
      exact fun a ha b hb c hc => h a (.tail _ ha) b (.tail _ hb) c (.tail _ hc)

end Lists

section Compared

variable {a b c : Expr}

theorem kind_eq_of_rootsMatch (hs : a.sameAs b = false) (h : a.rootsMatch b = true) :
    a.kind = b.kind := by
  cases a with
  | var v =>
    cases b with
    | var => exact absurd h (Bool.eq_false_iff.1 hs)
    | _ => cases h
  | _ => cases b <;> first | rfl | cases h

/-- Where a handle stands for one node, nodes are compared by their roots and then by their
children. -/
theorem rootEq_iff (hs : a.sameAs b = true → a = b) :
    a.rootEq b = true ↔
      a.rootsMatch b = true ∧
        List.Forall₂ (fun a b => a.structEq b = true) a.children b.children := by
  cases a with
  | var v =>
    cases b with
    | var v' => simp [rootEq, rootsMatch, sameAs, handle, children]
    | _ =>
      have hne := mt hs Expr.noConfusion
      simp [rootEq, rootsMatch, hne]
  | int h value =>
    cases b with
    | int h' value' => simpa [rootEq, rootsMatch, children, int?] using eq_comm
    | _ => simp [rootEq, rootsMatch, int?]
  | float h value => cases b <;> simp [rootEq, rootsMatch, children, float?]
  | shuffle h vectors indices =>
    cases b with
    | shuffle h' vectors' indices' =>
      simp only [rootEq, rootsMatch, children, Bool.and_eq_true, listEq_iff, beq_iff_eq]
      constructor
      · rintro ⟨hvectors, hindices⟩
        have hlength := hvectors.length_eq
        exact ⟨hlength, (forall₂_append_iff hlength).2 ⟨hvectors, hindices⟩⟩
      · rintro ⟨hlength, h⟩
        exact (forall₂_append_iff hlength).1 h
    | _ => simp [rootEq, rootsMatch]
  | _ => cases b <;> simp [rootEq, rootsMatch, children, structEq, listEq_iff, and_assoc]

theorem structEq_iff :
    a.structEq b = true ↔
      a.sameAs b = true ∨ a.rootsMatch b = true ∧
        List.Forall₂ (fun a b => a.structEq b = true) a.children b.children := by
  cases hs : a.sameAs b with
  | true => simp [structEq, sameOr, hs]
  | false =>
    have hstruct : a.structEq b = (a.kind == b.kind && a.rootEq b) := by
      simp [structEq, sameOr, hs]
    have hiff := rootEq_iff fun h => Bool.noConfusion (hs.symm.trans h)
    simp only [hstruct, Bool.and_eq_true, beq_iff_eq, Bool.false_eq_true, false_or, hiff]
    exact and_iff_right_of_imp fun h => kind_eq_of_rootsMatch hs h.1

end Compared

/-! ## Equivalence and agreement -/

section Agreement

variable {nodes : Set Expr} {a b c : Expr}

theorem structEq_self (a : Expr) : a.structEq a = true :=
  structEq_iff.2 (.inl a.sameAs_self)

theorem structEq_of_children_eq (hroots : a.rootsMatch b = true) (h : a.children = b.children) :
    a.structEq b = true :=
  structEq_iff.2 (.inr ⟨hroots, h ▸ List.forall₂_same.2 fun c _ => structEq_self c⟩)

theorem structEq_symm (h : a.structEq b = true) : b.structEq a = true := by
  induction a using childrenInduction generalizing b with
  | step a ih =>
    rcases structEq_iff.1 h with hs | ⟨hroots, hchildren⟩
    · exact structEq_iff.2 (.inl (BEq.symm hs))
    · have hflip := forall₂_imp (fun x hx y _ => ih x hx) hchildren
      exact structEq_iff.2 (.inr ⟨rootsMatch_symm hroots, hflip.flip⟩)

/-- Where two nodes are the same, they are one and the same tree, so that the third is compared with
either. -/
theorem structEq_trans (hnodes : Coherent nodes) (ha : a ∈ nodes) (hb : b ∈ nodes) (hc : c ∈ nodes)
    (hab : a.structEq b = true) (hbc : b.structEq c = true) : a.structEq c = true := by
  induction a using childrenInduction generalizing b c with
  | step a ih =>
    rcases structEq_iff.1 hab with hs | ⟨hroots, hchildren⟩
    · rwa [hnodes.eq_of_sameAs ha hb hs]
    rcases structEq_iff.1 hbc with hs | ⟨hroots', hchildren'⟩
    · rwa [← hnodes.eq_of_sameAs hb hc hs]
    refine structEq_iff.2 (.inr ⟨rootsMatch_trans hroots hroots', ?_⟩)
    refine forall₂_trans (fun x hx y hy z hz => ?_) hchildren hchildren'
    exact ih x hx (hnodes.child ha hx) (hnodes.child hb hy) (hnodes.child hc hz)

theorem Coincide.refl (h : a.NoNaN) : Coincide a a := by
  induction a using childrenInduction with
  | step a ih =>
    refine .node (rootsMatch_self h.root) (List.forall₂_same.2 fun c hc => ?_)
    exact ih c hc (h.child hc)

theorem structEq_of_coincide (h : Coincide a b) : a.structEq b = true := by
  induction a using childrenInduction generalizing b with
  | step a ih =>
    obtain ⟨hroots, hchildren⟩ := h
    exact structEq_iff.2 (.inr ⟨hroots, forall₂_imp (fun x hx y _ => ih x hx) hchildren⟩)

theorem coincide_of_structEq (hnodes : Coherent nodes) (ha : a ∈ nodes) (hb : b ∈ nodes)
    (hnan : a.NoNaN) (h : a.structEq b = true) : Coincide a b := by
  induction a using childrenInduction generalizing b with
  | step a ih =>
    rcases structEq_iff.1 h with hs | ⟨hroots, hchildren⟩
    · rw [← hnodes.eq_of_sameAs ha hb hs]
      exact .refl hnan
    · refine .node hroots (forall₂_imp (fun x hx y hy => ?_) hchildren)
      exact ih x hx (hnodes.child ha hx) (hnodes.child hb hy) (hnan.child hx)

/-- Neither the test for the same node nor that for the kind decides anything. -/
theorem rootEq_eq_structEq (hnodes : Coherent nodes) (ha : a ∈ nodes) (hb : b ∈ nodes)
    (hnan : a.NoNaN) : a.rootEq b = a.structEq b := by
  have heq := hnodes.eq_of_sameAs ha hb
  rw [Bool.eq_iff_iff, structEq_iff, rootEq_iff heq]
  refine (or_iff_right_of_imp fun hs => ?_).symm
  rw [← heq hs]
  exact ⟨rootsMatch_self hnan.root, List.forall₂_same.2 fun c _ => structEq_self c⟩

end Agreement

/-- Structural equality is an equivalence of nodes that a program has made. On an expression without
literals that are not numbers, it says whether the trees coincide, and the two tests that it makes
first, for the same node and for the kind, may be left out. -/
theorem structEq_equivalence {nodes : Set Expr} (hnodes : Coherent nodes) :
    Equivalence (fun a b : nodes => a.1.structEq b.1 = true) ∧
      ∀ a ∈ nodes, ∀ b ∈ nodes, a.NoNaN →
        (a.structEq b = true ↔ Coincide a b) ∧ a.rootEq b = a.structEq b := by
  refine ⟨⟨fun a => structEq_self a, structEq_symm, ?_⟩, fun a ha b hb hnan => ⟨⟨?_, ?_⟩, ?_⟩⟩
  · exact fun {a b c} => structEq_trans hnodes a.2 b.2 c.2
  · exact coincide_of_structEq hnodes ha hb hnan
  · exact structEq_of_coincide
  · exact rootEq_eq_structEq hnodes ha hb hnan

namespace Copies

def x : Expr := .var ⟨0, "x", false⟩

/-- The sum of `x` and five, under other handles than in the other sum. -/
def sum : Expr := .binary 2 .add x (.int 1 5)

def sum' : Expr := .binary 4 .add x (.int 3 5)

def nan : Expr := .float 5 .nan

def nan' : Expr := .float 6 .nan

theorem made : Made {nan', nan, sum', .int 3 5, sum, .int 1 5, x} 7 := by
  rw [← LawfulSingleton.insert_empty_eq]
  have hsum : Made (insert (.int 1 5) (insert x ∅)) 2 := .node (.node (.start 0) rfl nofun) rfl nofun
  refine .node (.node (.node (.node (.node hsum rfl ?_) rfl nofun) rfl ?_) rfl nofun) rfl nofun
  all_goals simp [children, sum, sum']

theorem noNaN_sum : sum.NoNaN := by
  refine everywhere_iff.2 ⟨nofun, ?_⟩
  rintro c (_ | ⟨_, _ | ⟨_, ⟨⟩⟩⟩)
  all_goals exact everywhere_iff.2 ⟨nofun, nofun⟩

end Copies

/-- Two copies of a sum coincide. Two literals that are not numbers do not, but each of them is
equal to itself. -/
theorem structEq_equivalence_copies :
    Copies.sum.NoNaN ∧ Copies.sum.structEq Copies.sum' = true ∧
      Coincide Copies.sum Copies.sum' ∧
      Copies.nan.structEq Copies.nan' = false ∧ Copies.nan.structEq Copies.nan = true := by
  obtain ⟨hequivalence, hcoincide⟩ := structEq_equivalence Copies.made.coherent
  have hsums := hcoincide Copies.sum (by simp) Copies.sum' (by simp) Copies.noNaN_sum
  exact ⟨Copies.noNaN_sum, rfl, hsums.1.1 rfl, by decide,
    hequivalence.refl ⟨Copies.nan, by simp⟩⟩

end Expr

end IndexAlgebra
