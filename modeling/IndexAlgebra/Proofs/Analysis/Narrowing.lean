import IndexAlgebra.Proofs.Analysis.Constraint
import IndexAlgebra.Proofs.Bound.Narrowing
import IndexAlgebra.Proofs.Expr.Variables
/-!
# Narrower variables give narrower queries

If the bounds of the variables, recorded or default, lie within those of another analyzer, then the
bound that a query finds lies within the one that the other finds.

The induction takes both queries down the same path. Only local definitions could part them, since
they look at what is recorded and not at the bound of a variable. So a variable that is defined has
to be recorded in both analyzers or in neither, and after its definition it is recorded in both.
-/

namespace IndexAlgebra

namespace Bound

variable {a a' b b' c c' : Bound}

theorem Within.binary (ha : a.Within a') (hb : b.Within b') (op : BinaryOp) :
    (a.binary op b).Within (a'.binary op b') := by
  cases op
  case add => exact ha.add hb
  case sub => exact ha.sub hb
  case mul => exact ha.mul hb
  case div => exact ha.div hb
  case mod => exact ha.mod hb
  case floorDiv => exact ha.floorDiv hb
  case floorMod => exact ha.floorMod hb
  case min => exact ha.minimum hb
  case max => exact ha.maximum hb
  all_goals exact normal_everything.within_self

theorem Within.call (ha : a.Within a') (hb : b.Within b') (k : Builtins) (op : Op) :
    (a.call k op b).Within (a'.call k op b') := by
  unfold Bound.call
  split
  · exact ha.rightShift hb
  split
  · exact ha.leftShift hb
  split
  · exact ha.bitAnd hb
  · exact normal_everything.within_self

/-- A bound that does not fit into the data type gives way to the bound of the data type, which
holds every bound that fits. -/
theorem Within.cast (ha : a.Within a') (ty : DataType) : (a.cast ty).Within (a'.cast ty) := by
  have hty := normal_ofDataType ty
  simp only [Bound.cast]
  by_cases h' : (ofDataType ty).subsumes a' = true
  · have h : (ofDataType ty).subsumes a = true :=
      subsumes_trans h' (within_iff.1 ha).2.2
    rwa [if_pos h, if_pos h']
  · rw [if_neg h']
    split
    · next h => exact within_iff.2 ⟨ha.normal, hty, h⟩
    · exact hty.within_self

theorem Within.ramp (ha : a.Within a') (hb : b.Within b') (hc : c.Within c') :
    (a.ramp b c).Within (a'.ramp b' c') :=
  ha.union (ha.add ((hc.sub (normal_make (Int.le_refl 1)).within_self).mul hb))

end Bound

namespace Recorded

variable {β γ : Recorded}

/-- The bound of every variable, recorded or default, lies within the one of the second. -/
def Within (β γ : Recorded) : Prop :=
  ∀ v, ((β v).getD (.default v)).Within ((γ v).getD (.default v))

theorem Within.update (h : β.Within γ) (v : Var) {b c : Bound} (hb : b.Within c) :
    Within (Function.update β v (some b)) (Function.update γ v (some c)) := by
  intro w
  simp only [Function.update_apply]
  split
  · exact hb
  · exact h w

/-- The same of some variables are recorded in both. -/
def Alike (β γ : Recorded) (vs : List Var) : Prop := ∀ v ∈ vs, (β v).isSome = (γ v).isSome

theorem Alike.mono {vs ws : List Var} (h : β.Alike γ vs) (hws : ws ⊆ vs) : β.Alike γ ws :=
  fun v hv => h v (hws hv)

theorem Alike.update {vs : List Var} (h : β.Alike γ vs) (v : Var) (b c : Bound) :
    Alike (Function.update β v (some b)) (Function.update γ v (some c)) vs := by
  intro w hw
  simp only [Function.update_apply]
  split
  · rfl
  · exact h w hw

end Recorded

/-- Under narrower bounds of the variables the bound of an expression is narrower. -/
theorem Expr.within_bound (k : Builtins) (e : Expr) : ∀ {β γ : Recorded}, β.Within γ →
    β.Alike γ e.defined → (e.bound k β).Within (e.bound k γ) := by
  induction e using Analyzer.analyze.induct <;> intro β γ h hlets
  case case1 v => exact h v
  case case2 h n => exact (Bound.normal_unit n.toInt).within_self
  case case5 h value ty ih =>
    unfold Expr.bound
    split
    · exact (ih h hlets).cast ty
    · exact (Bound.normal_ofDataType ty).within_self
  case case6 h op x y ihx ihy =>
    have hx := ihx h (hlets.mono defined_subset)
    have hy := ihy h (hlets.mono defined_subset)
    unfold Expr.bound
    split
    · exact hx.binary hy op
    · exact Bound.normal_everything.within_self
  case case8 h cond yes no ihy ihn =>
    have hyes := ihy h (hlets.mono defined_subset)
    have hno := ihn h (hlets.mono defined_subset)
    unfold Expr.bound
    exact hyes.union hno
  case case9 h base stride lanes ihb ihs ihl =>
    have hbase := ihb h (hlets.mono defined_subset)
    have hstride := ihs h (hlets.mono defined_subset)
    have hlanes := ihl h (hlets.mono defined_subset)
    unfold Expr.bound
    exact hbase.ramp hstride hlanes
  case case10 h value lanes ih =>
    unfold Expr.bound
    exact ih h (hlets.mono defined_subset)
  case case11 h v value body ihb ihv =>
    have hv : (β v).isSome = (γ v).isSome := hlets v (by simp [defined, collect])
    have hbody := hlets.mono (defined_subset (c := body))
    unfold Expr.bound
    rw [hv]
    split
    · exact ihb h hbody
    · have hvalue := ihv h (hlets.mono defined_subset)
      exact ihb (h.update v hvalue) (hbody.update v _ _)
  case case12 h op x y ihx ihy =>
    have hx := ihx h (hlets.mono defined_subset)
    have hy := ihy h (hlets.mono defined_subset)
    unfold Expr.bound
    split
    · exact Bound.normal_everything.within_self
    · exact hx.call hy k op
  case case13 h op head yes no ihy ihn =>
    have hyes := ihy h (hlets.mono defined_subset)
    have hno := ihn h (hlets.mono defined_subset)
    unfold Expr.bound
    split
    · exact hyes.union hno
    · exact Bound.normal_everything.within_self
  case case14 h op args h2 h3 =>
    rw [Expr.bound, Expr.bound]
    · exact Bound.normal_everything.within_self
    all_goals assumption
  all_goals exact Bound.normal_everything.within_self

namespace Analyzer

/-- The bound that a query finds lies within the one that it finds in another analyzer of the
context, if the bound of every variable does, and each variable that the expression defines is
recorded in both analyzers or in neither. -/
theorem analyze_narrows {a b : Analyzer} (hbuiltins : a.builtins = b.builtins)
    (ha : a.memo = none) (hb : b.memo = none) (hna : a.NormalBounds) (hnb : b.NormalBounds)
    (hsub : ∀ v, (b.boundOf v).subsumes (a.boundOf v) = true) {e : Expr}
    (hlets : ∀ v ∈ e.defined, a.isBound v = b.isBound v) :
    ((analyze e).run b).1.subsumes ((analyze e).run a).1 = true := by
  have hwithin : Recorded.Within a.bound? b.bound? :=
    fun v => Bound.within_iff.2 ⟨hna.getD v, hnb.getD v, hsub v⟩
  rw [analyze_run e (.inl ha), analyze_run e (.inl hb), hbuiltins]
  exact (Bound.within_iff.1 (e.within_bound b.builtins hwithin hlets)).2.2

namespace Box

/-- The analyzer after it has been found that `x` is two or three. -/
def narrowed : Analyzer := analyzer.withBound x (.make 2 3)

theorem normalBounds_narrowed : narrowed.NormalBounds := normalBounds_of_entries (by decide)

end Box

/-- The product of a smaller square fits into a byte. -/
theorem analyze_narrows_squareTimes :
    (∀ v, (Box.analyzer.boundOf v).subsumes (Box.narrowed.boundOf v) = true) ∧
      (∀ v ∈ Box.squareTimes.defined, Box.narrowed.isBound v = Box.analyzer.isBound v) ∧
      ((analyze Box.squareTimes).run Box.narrowed).1 = .make 4 54 ∧
      ((analyze Box.squareTimes).run Box.analyzer).1 = .make (-128) 127 ∧
      ((analyze Box.squareTimes).run Box.analyzer).1.subsumes
        ((analyze Box.squareTimes).run Box.narrowed).1 = true := by
  have hsub : ∀ v, (Box.analyzer.boundOf v).subsumes (Box.narrowed.boundOf v) = true :=
    (refines_withBound (by decide)).subsumes
  have hlets : ∀ v ∈ Box.squareTimes.defined, Box.narrowed.isBound v = Box.analyzer.isBound v := by
    decide
  exact ⟨hsub, hlets, by decide, by decide, analyze_narrows (a := Box.narrowed) (b := Box.analyzer)
    rfl rfl rfl Box.normalBounds_narrowed Box.normalBounds hsub hlets⟩

end Analyzer

end IndexAlgebra
