import IndexAlgebra.Proofs.Analysis.Plain
import IndexAlgebra.Proofs.Analysis.Rules
import IndexAlgebra.Proofs.Evaluation.Checked
import IndexAlgebra.Proofs.Expr.Lets
import IndexAlgebra.Proofs.Table
/-!
# Soundness of queries

If the value of every variable lies within its bound, then every value of an expression lies within
the bound that a query finds.

The proof is an induction on the evaluation, for all recorded bounds at once: a local definition is
evaluated under one more variable, and its body is looked at under one more recorded bound. That
needs the definition to be fresh, since a variable that is recorded keeps its old bound.
-/

namespace IndexAlgebra

theorem Word.negInf_le (x : Int64) : Endpoint.negInf - 1 ≤ x.toInt := by
  have := x.le_toInt
  rw [Endpoint.negInf_eq]
  omega

theorem Word.le_posInf (x : Int64) : x.toInt ≤ Endpoint.posInf := by
  have := x.toInt_lt
  rw [Endpoint.posInf_eq]
  omega

namespace Recorded

/-- Every recorded bound is normal. -/
def Normal (β : Recorded) : Prop := ∀ ⦃v b⦄, β v = some b → b.Normal

/-- Every variable has a value within its bound, recorded or default. -/
def Admits (β : Recorded) (env : Assignment) : Prop :=
  ∀ v, ((β v).getD (.default v)).Admits (env v).toInt

variable {β : Recorded}

theorem Normal.getD (hβ : β.Normal) (v : Var) : ((β v).getD (.default v)).Normal := by
  cases h : β v with
  | none => exact Bound.normal_default v
  | some b => exact hβ h

theorem Normal.update (hβ : β.Normal) (v : Var) {b : Bound} (hb : b.Normal) :
    Normal (Function.update β v (some b)) := by
  intro w c hc
  rw [Function.update_apply] at hc
  split at hc
  · rwa [← Option.some.inj hc]
  · exact hβ hc

theorem Admits.update {env : Assignment} (hs : β.Admits env) (v : Var) {b : Bound} {x : Int64}
    (hx : b.Admits x.toInt) :
    Admits (Function.update β v (some b)) (Function.update env v x) := by
  intro w
  simp only [Function.update_apply]
  split
  · exact hx
  · exact hs w

/-- What holds of recorded bounds throughout an evaluation: the values of the variables lie within
them, they are normal, and `p` holds of every recorded variable, so that a local definition of a
variable without it is not recorded. -/
structure Sound (p : Var → Prop) (env : Assignment) (β : Recorded) : Prop where
  normal : β.Normal
  admits : β.Admits env
  recorded : ∀ v, (β v).isSome = true → p v

theorem Sound.update {p q : Var → Prop} {env : Assignment} (h : β.Sound p env)
    (hpq : ∀ w, p w → q w) {v : Var} (hv : q v) {b : Bound} (hb : b.Normal) {x : Int64}
    (hx : b.Admits x.toInt) :
    Sound q (Function.update env v x) (Function.update β v (some b)) where
  normal := h.normal.update v hb
  admits := h.admits.update v hx
  recorded := by
    intro w hw
    by_cases hwv : w = v
    · exact hwv ▸ hv
    · rw [Function.update_of_ne hwv] at hw
      exact hpq w (h.recorded w hw)

end Recorded

theorem Expr.normal_bound (k : Builtins) (e : Expr) :
    ∀ {β : Recorded}, β.Normal → (e.bound k β).Normal := by
  induction e using Analyzer.analyze.induct <;> intro β hβ
  case case1 v => exact hβ.getD v
  case case2 h n => exact Bound.normal_unit n.toInt
  case case5 h value ty ih =>
    unfold Expr.bound
    split
    · exact Bound.normal_cast (ih hβ) ty
    · exact Bound.normal_ofDataType ty
  case case6 h op x y ihx ihy =>
    unfold Expr.bound
    split
    · exact Bound.normal_binary (ihx hβ) (ihy hβ) op
    · exact Bound.normal_everything
  case case8 h cond yes no ihy ihn =>
    unfold Expr.bound
    exact (ihy hβ).union (ihn hβ)
  case case9 h base stride lanes ihb ihs ihl =>
    unfold Expr.bound
    exact Bound.normal_ramp (ihb hβ)
  case case10 h value lanes ih =>
    unfold Expr.bound
    exact ih hβ
  case case11 h v value body ihb ihv =>
    unfold Expr.bound
    split
    · exact ihb hβ
    · exact ihb (hβ.update v (ihv hβ))
  case case12 h op x y ihx ihy =>
    unfold Expr.bound
    split
    · exact Bound.normal_everything
    · exact Bound.normal_call (ihx hβ) (ihy hβ) k op
  case case13 h op head yes no ihy ihn =>
    unfold Expr.bound
    split
    · exact (ihy hβ).union (ihn hβ)
    · exact Bound.normal_everything
  case case14 h op args h2 h3 =>
    rw [Expr.bound]
    · exact Bound.normal_everything
    all_goals assumption
  all_goals exact Bound.normal_everything

theorem Expr.bound_call_of_not_interprets {k : Builtins} {β : Recorded} {h : Handle} {op : Op}
    {args : List Expr} (hk : ¬ k.Interprets op args) :
    (Expr.call h op args).bound k β = .everything := by
  match args with
  | [x, y] =>
    unfold Expr.bound
    rw [Bound.call_of_not_interprets hk, ite_self]
  | [_, yes, no] => rw [Expr.bound, if_neg (show ¬ op = k.ifThenElse from hk)]
  | [] | [_] | _ :: _ :: _ :: _ :: _ => simp only [Expr.bound]

theorem Recorded.Sound.normal_bound {p : Var → Prop} {env : Assignment} {β : Recorded}
    (hβ : β.Sound p env) (k : Builtins) (e : Expr) : (e.bound k β).Normal :=
  e.normal_bound k hβ.normal

/-- Every value of an expression lies within its bound. -/
theorem Evals.admits_bound {k : Builtins} {env : Assignment} {e : Expr} {x : Int64}
    (hx : Evals k env e x) : ∀ {β : Recorded} {p : Var → Prop}, β.Sound p env → e.LetsFresh p →
      (e.bound k β).Admits x.toInt := by
  induction hx with
  | var => intro β p hβ hl; exact hβ.admits _
  | @int env h n =>
    intro β p hβ hl
    exact Bound.admits_unit (Word.negInf_le n) (Word.le_posInf n)
  | @cast env h value ty x y z hv hy hz ih =>
    intro β p hβ hl
    unfold Expr.bound
    rw [Word.toInt_of_ofInt? hz]
    split
    · next hty =>
      exact Bound.admits_cast (hβ.normal_bound k value) hty x.le_toInt x.toInt_lt
        (ih hβ hl) hy
    · exact Bound.admits_ofDataType hy
  | @binary env h op a b x y w z ha hb hw hz iha ihb =>
    intro β p hβ hl
    unfold Expr.bound
    rw [Word.toInt_of_ofInt? hz]
    split
    · exact Bound.admits_binary (hβ.normal_bound k a) (hβ.normal_bound k b)
        (iha hβ hl.1) (ihb hβ hl.2) (Word.le_posInf y) hw
    · exact Bound.admits_everything w
  | not => intro β p hβ hl; exact Bound.admits_everything _
  | @selectYes env h cond yes no c x hc h0 hy ihc ihy =>
    intro β p hβ hl
    unfold Expr.bound
    exact Bound.admits_union_left (hβ.normal_bound k yes) (hβ.normal_bound k no)
      (ihy hβ hl.2.1)
  | @selectNo env h cond yes no x hc hn ihc ihn =>
    intro β p hβ hl
    unfold Expr.bound
    exact Bound.admits_union_right (hβ.normal_bound k yes) (hβ.normal_bound k no)
      (ihn hβ hl.2.2)
  | @ramp env h base stride lanes x d n i z hb hd hn h0 hi hz ihb ihd ihn =>
    intro β p hβ hl
    unfold Expr.bound
    rw [Word.toInt_of_ofInt? hz]
    exact Bound.admits_ramp (hβ.normal_bound k base) (hβ.normal_bound k stride)
      (hβ.normal_bound k lanes) (ihb hβ hl.1) (ihd hβ hl.2.1)
      (ihn hβ hl.2.2) h0 hi
  | broadcast hv ih =>
    intro β p hβ hl
    unfold Expr.bound
    exact ih hβ hl.1
  | @letIn env h v value body x y hv hb ihv ihb =>
    intro β p hβ hl
    obtain ⟨hfresh, hvalue, hbody⟩ := hl
    unfold Expr.bound
    rw [if_neg fun hv => hfresh (hβ.recorded v hv)]
    have hadmits := ihv hβ hvalue
    exact ihb (hβ.update (fun _ hw => .inl hw) (.inr rfl) (hβ.normal_bound k value) hadmits)
      hbody
  | @call env h op a b x y w z ha hb hw hz iha ihb =>
    intro β p hβ hl
    unfold Expr.bound
    rw [Word.toInt_of_ofInt? hz]
    split
    · exact Bound.admits_everything w
    · exact Bound.admits_call (hβ.normal_bound k a) (hβ.normal_bound k b)
        (iha hβ hl.1) (ihb hβ hl.2.1) hw
  | @callYes env h cond yes no c x hc h0 hy ihc ihy =>
    intro β p hβ hl
    unfold Expr.bound
    rw [if_pos rfl]
    exact Bound.admits_union_left (hβ.normal_bound k yes) (hβ.normal_bound k no)
      (ihy hβ hl.2.1)
  | @callNo env h cond yes no x hc hn ihc ihn =>
    intro β p hβ hl
    unfold Expr.bound
    rw [if_pos rfl]
    exact Bound.admits_union_right (hβ.normal_bound k yes) (hβ.normal_bound k no)
      (ihn hβ hl.2.2.1)
  | unknown hk =>
    intro β p hβ hl
    rw [Expr.bound_call_of_not_interprets hk]
    exact Bound.admits_everything _
  | shuffle => intro β p hβ hl; exact Bound.admits_everything _

namespace Analyzer

/-- Every recorded bound is normal. -/
def NormalBounds (a : Analyzer) : Prop := Recorded.Normal a.bound?

/-- Every variable has a value within its bound, recorded or default. -/
def Satisfied (a : Analyzer) (env : Assignment) : Prop := ∀ v, (a.boundOf v).Admits (env v).toInt

theorem normalBounds_of_entries {a : Analyzer} (h : ∀ p ∈ a.bounds.entries, p.2.Normal) :
    a.NormalBounds := by
  intro v b hb
  obtain ⟨w, -, hw⟩ := Table.exists_mem_of_get? hb
  exact h _ hw

theorem satisfied_of_entries {a : Analyzer} {env : Assignment}
    (h : ∀ p ∈ a.bounds.entries, p.2.Admits (env p.1).toInt)
    (h0 : ∀ v, a.bound? v = none → 0 ≤ (env v).toInt) : a.Satisfied env := by
  intro v
  unfold boundOf
  cases hv : a.bound? v with
  | none => exact Bound.admits_default v (h0 v hv)
  | some b =>
    obtain ⟨w, hw, hmem⟩ := Table.exists_mem_of_get? hv
    rw [← beq_iff_eq.1 hw]
    exact h _ hmem

/-- Every value of an expression lies within the bound that a query finds, if the values of the
variables lie within theirs and no local definition defines a variable that is recorded, or one that
is defined around it. -/
theorem analyze_sound {a : Analyzer} (hmemo : a.memo = none) (hnormal : a.NormalBounds)
    {env : Assignment} (hs : a.Satisfied env) {e : Expr} (hlets : e.LetsFresh (a.isBound · = true))
    {x : Int64} (hx : Evals a.builtins env e x) : ((analyze e).run a).1.Admits x.toInt := by
  rw [analyze_run e (.inl hmemo)]
  exact hx.admits_bound ⟨hnormal, hs, fun _ hv => hv⟩ hlets

/-! ## A point in a box -/

namespace Box

def x : Var := ⟨9, "x", false⟩

def y : Var := ⟨10, "y", false⟩

def t : Var := ⟨11, "t", false⟩

/-- An analyzer that has recorded `[-5 : 5]` for `x` and `[1 : 6]` for `y`. -/
def analyzer : Analyzer where
  builtins := (Context.new.run 0).1.builtins
  bounds := ⟨[(x, .make (-5) 5), (y, .make 1 6)]⟩

def point : Assignment := fun v => if v = x then 5 else if v = y then 6 else 0

theorem normalBounds : analyzer.NormalBounds := normalBounds_of_entries (by decide)

theorem satisfied_point : analyzer.Satisfied point := by
  refine satisfied_of_entries (by decide) fun v hv => ?_
  unfold point
  split <;> [decide; split <;> decide]

/-- The square of `x` times `y` as a byte, with the square as a local definition. -/
def squareTimes : Expr :=
  .letIn 15 t (.binary 12 .mul (.var x) (.var x))
    (.cast 14 (.binary 13 .mul (.var t) (.var y)) (.int 8))

end Box

/-- At the point, the product is 150, which wraps around to `-106` as a byte. -/
theorem analyze_sound_squareTimes :
    Box.analyzer.memo = none ∧ Box.analyzer.NormalBounds ∧ Box.analyzer.Satisfied Box.point ∧
      Box.squareTimes.LetsFresh (Box.analyzer.isBound · = true) ∧
      Evals Box.analyzer.builtins Box.point Box.squareTimes (-106) ∧
      ((analyze Box.squareTimes).run Box.analyzer).1.Admits (-106) := by
  have hlets : Box.squareTimes.LetsFresh (Box.analyzer.isBound · = true) := by
    simp only [Box.squareTimes, Expr.LetsFresh, and_true]
    decide
  have heval : Evals Box.analyzer.builtins Box.point Box.squareTimes (-106) :=
    .letIn (x := 25) (.binary .var .var rfl rfl)
      (.cast (x := 150) (.binary .var .var rfl rfl) rfl rfl)
  exact ⟨rfl, Box.normalBounds, Box.satisfied_point, hlets, heval,
    analyze_sound rfl Box.normalBounds Box.satisfied_point hlets heval⟩

end Analyzer

end IndexAlgebra
