import IndexAlgebra.Proofs.Analysis.Plain
import IndexAlgebra.Proofs.Expr.Replacement
import Mathlib.Data.List.Basic
/-!
# Inlining local definitions

A query records the bound of a local definition for its variable while it looks at the body. The
body with the value put in place of the variable has the same bound, as every use of the variable
then finds the bound again, and finds it where the same is recorded: no local definition in between
may define the variable, or one that occurs in the value. Putting the value in place of a variable
is the work of a transformer, `inlining`.
-/

namespace IndexAlgebra

/-- A leaf that is a variable becomes an expression. -/
def Leaves.inlining (x : Var) (t : Expr) : Leaves where
  var v := if v = x then t else .var v

/-- The transformer that puts an expression in place of a variable, of either kind. -/
def Transformer.inlining (x : Var) (t : Expr) : Transformer where
  var v := return if v = x then t else .var v

namespace Leaves

theorem replace_inlining_var (x : Var) (t : Expr) (v : Var) :
    (inlining x t).replace (.var v) = if v = x then t else .var v := by
  unfold replace
  exact ite_self _

theorem replace_inlining_mem {nodes : Set Expr} {x : Var} {t : Expr} (ht : t ∈ nodes) {e : Expr}
    (he : e ∈ nodes) : (inlining x t).replace e ∈ nodes := by
  cases e with
  | var v =>
    rw [replace_inlining_var]
    split
    · exact ht
    · exact he
  | _ => exact he

end Leaves

theorem Expr.disjoint_defined {e c : Expr} {vs : List Var} (h : e.defined.Disjoint vs)
    (hc : c ∈ e.children := by simp [Expr.children]) : c.defined.Disjoint vs :=
  List.disjoint_of_subset_left (defined_subset hc) h

/-- The bound of an expression in which a variable has been replaced is the one under the bound of
what it was replaced by. -/
theorem Replaced.bound_eq {x : Var} {t : Expr} (k : Builtins) {e e' : Expr}
    (h : Replaced (.inlining x t) e e') : ∀ {β : Recorded},
    e.defined.Disjoint (x :: t.occurring) →
    e'.bound k β = e.bound k (Function.update β x (some (t.bound k β))) := by
  induction e using Analyzer.analyze.induct generalizing e' <;> intro β hlets
  case case1 v =>
    cases h
    rw [Leaves.replace_inlining_var]
    by_cases hv : v = x
    · rw [if_pos hv, hv, Expr.bound, Function.update_self, Option.getD_some]
    · rw [if_neg hv, Expr.bound, Expr.bound, Function.update_of_ne hv]
  case case5 value ty ih =>
    cases h with
    | cast hvalue =>
      unfold Expr.bound
      rw [ih hvalue (Expr.disjoint_defined hlets)]
  case case6 op a b iha ihb =>
    cases h with
    | binary ha hb =>
      unfold Expr.bound
      rw [iha ha (Expr.disjoint_defined hlets),
        ihb hb (Expr.disjoint_defined hlets)]
  case case8 cond yes no ihy ihn =>
    cases h with
    | select _ hyes hno =>
      unfold Expr.bound
      rw [ihy hyes (Expr.disjoint_defined hlets),
        ihn hno (Expr.disjoint_defined hlets)]
  case case9 base stride lanes ihb ihs ihl =>
    cases h with
    | ramp hbase hstride hlanes =>
      unfold Expr.bound
      rw [ihb hbase (Expr.disjoint_defined hlets),
        ihs hstride (Expr.disjoint_defined hlets),
        ihl hlanes (Expr.disjoint_defined hlets)]
  case case10 value lanes ih =>
    cases h with
    | broadcast hvalue =>
      unfold Expr.bound
      exact ih hvalue (Expr.disjoint_defined hlets)
  case case11 v value body ihb ihv =>
    cases h with
    | @letIn _ _ _ _ value' _ _ hvalue hbody =>
      have hv : v ∉ x :: t.occurring := hlets (.head _)
      have hvx : v ≠ x := List.ne_of_not_mem_cons hv
      have hvalue := ihv hvalue (Expr.disjoint_defined hlets) (β := β)
      have ihb (γ : Recorded) := ihb hbody (Expr.disjoint_defined hlets)
        (β := γ)
      -- The bound of the value is the same within the definition, whose variable is not in it.
      have ht (b : Option Bound) : t.bound k (Function.update β v b) = t.bound k β :=
        t.bound_congr k fun w hw =>
          Function.update_of_ne (fun h : w = v => hv (.tail _ (h ▸ hw))) ..
      unfold Expr.bound
      rw [Function.update_of_ne hvx, hvalue]
      split
      · exact ihb β
      · rw [ihb, ht, Function.update_comm hvx]
  case case12 op a b iha ihb =>
    cases h with
    | call hargs =>
      obtain - | ⟨ha, - | ⟨hb, - | _⟩⟩ := hargs
      unfold Expr.bound
      rw [iha ha (Expr.disjoint_defined hlets),
        ihb hb (Expr.disjoint_defined hlets)]
  case case13 op head yes no ihy ihn =>
    cases h with
    | call hargs =>
      obtain - | ⟨_, - | ⟨hyes, - | ⟨hno, - | _⟩⟩⟩ := hargs
      unfold Expr.bound
      rw [ihy hyes (Expr.disjoint_defined hlets),
        ihn hno (Expr.disjoint_defined hlets)]
  case case14 op args h2 h3 =>
    cases h with
    | call hargs =>
      have hlength := hargs.length_eq
      rw [Expr.bound, Expr.bound]
      · exact h2
      · exact h3
      · rintro y z rfl
        obtain ⟨_, _, h⟩ := List.length_eq_two.1 hlength.symm
        exact h2 _ _ h
      · rintro y z w rfl
        obtain ⟨_, _, _, h⟩ := List.length_eq_three.1 hlength.symm
        exact h3 _ _ _ h
  all_goals
    cases h
    rfl

namespace Analyzer

/-- A local definition of a variable without a recorded bound and the body with the value in its
place have the same bound. The value and the body must be nodes that a program has made, and the
transformer goes on with the handles from there. -/
theorem analyze_inlining {nodes : Set Expr} {next : Handle} (hmade : Expr.Made nodes next)
    {a : Analyzer} (hmemo : a.memo = none) {x : Var} (hx : a.bound? x = none) {t e : Expr}
    (ht : t ∈ nodes) (he : e ∈ nodes) (hlets : e.defined.Disjoint (x :: t.occurring)) (h : Handle) :
    let e' := (((Transformer.inlining x t).transform e).run next).1
    ((analyze (.letIn h x t e)).run a).1 = ((analyze e').run a).1 := by
  intro e'
  have hstays : (Leaves.inlining x t).StaysIn nodes e :=
    hmade.coherent.everywhere (fun _ hc => ⟨hc, Leaves.replace_inlining_mem ht hc⟩) e he
  have hreplaced : Replaced (.inlining x t) e e' :=
    (Transformer.transform_became hmade hstays next le_rfl).1.1
  have hbound := hreplaced.bound_eq a.builtins hlets (β := a.bound?)
  rw [analyze_run _ (.inl hmemo), analyze_run e' (.inl hmemo), hbound, Expr.bound, hx]
  rfl

namespace Tile

def i : Var := ⟨9, "i", false⟩

def start : Var := ⟨10, "start", false⟩

def last : Var := ⟨11, "last", false⟩

/-- Four times `i`. -/
def times : Expr := .binary 13 .mul (.var i) (.int 12 4)

/-- The product of `start` and `last`, where `last` is three more than `start`. -/
def product : Expr :=
  .letIn 17 last (.binary 15 .add (.var start) (.int 14 3))
    (.binary 16 .mul (.var start) (.var last))

/-- An analyzer that has recorded `[0 : 7]` for `i`. -/
def analyzer : Analyzer where
  builtins := (Context.new.run 0).1.builtins
  bounds := ⟨[(i, .make 0 7)]⟩

theorem made : ∃ nodes, Expr.Made nodes 18 ∧ times ∈ nodes ∧ product ∈ nodes := by
  refine ⟨_, .node (.node (.node (.node (.node (.node (.node (.node (.node (.start 9)
    (e := .var i) rfl ?_) (e := .var start) rfl ?_) (e := .var last) rfl ?_)
    (e := .int 12 4) rfl ?_) (e := times) rfl ?_) (e := .int 14 3) rfl ?_)
    (e := .binary 15 .add (.var start) (.int 14 3)) rfl ?_)
    (e := .binary 16 .mul (.var start) (.var last)) rfl ?_) (e := product) rfl ?_, ?_, ?_⟩
  all_goals simp [Expr.children, times, product]

end Tile

/-- With four times `i` for the start of a tile, whose last index is defined from it within. -/
theorem analyze_inlining_tile :
    Tile.analyzer.bound? Tile.start = none ∧
      Tile.product.defined.Disjoint (Tile.start :: Tile.times.occurring) ∧
      let e' := (((Transformer.inlining Tile.start Tile.times).transform Tile.product).run 18).1
      e' = .letIn 20 Tile.last (.binary 18 .add Tile.times (.int 14 3))
          (.binary 19 .mul Tile.times (.var Tile.last)) ∧
        ((analyze (.letIn 21 Tile.start Tile.times Tile.product)).run Tile.analyzer).1 =
          .make 0 868 ∧
        ((analyze (.letIn 21 Tile.start Tile.times Tile.product)).run Tile.analyzer).1 =
          ((analyze e').run Tile.analyzer).1 := by
  obtain ⟨nodes, hmade, ht, he⟩ := Tile.made
  have hlets : Tile.product.defined.Disjoint (Tile.start :: Tile.times.occurring) := by
    unfold List.Disjoint
    decide
  exact ⟨by decide, hlets, rfl, by decide,
    analyze_inlining hmade (a := Tile.analyzer) rfl (by decide) ht he hlets 21⟩

end Analyzer

end IndexAlgebra
