import IndexAlgebra.Proofs.Analysis.Facts
import IndexAlgebra.Proofs.Analysis.Soundness
/-!
# Soundness of constraints

If the values of the variables lie within their bounds and a constraint holds of them, then they
still lie within their bounds when the scope of the constraint is opened, and no fact is left out.

Each fact sees the bounds that the earlier ones left. So the invariant of the opening is that all
values lie within their bounds, and one fact preserves it (`Analyzer.assumeThe_run`), because the
limit that it sets admits the value of its variable.
-/

namespace IndexAlgebra

/-! ## The facts of a constraint that holds -/

theorem Word.of_ofInt?_truth {p : Bool} {z : Int64} (h : ofInt? (truth p) = some z) (h0 : z ≠ 0) :
    p = true := by
  cases p with
  | true => rfl
  | false => exact absurd (Option.some.inj h).symm h0

theorem Word.ne_zero_of_and {x y z : Int64} {w : Int}
    (hw : BinaryOp.result? .and x.toInt y.toInt = some w) (hz : ofInt? w = some z) (h0 : z ≠ 0) :
    x ≠ 0 ∧ y ≠ 0 := by
  cases hw
  have h := of_ofInt?_truth hz h0
  simp only [Bool.and_eq_true, bne_iff_ne, ne_eq] at h
  exact ⟨fun hx => h.1 (congrArg Int64.toInt hx), fun hy => h.2 (congrArg Int64.toInt hy)⟩

/-- A fact holds if the comparison does, for a value that the expression may take. -/
def Fact.Holds (k : Builtins) (env : Assignment) (f : Fact) : Prop :=
  ∃ y, Evals k env f.other y ∧ f.op.holds (env f.var).toInt y.toInt = true

/-- If a constraint holds, all its facts do. -/
theorem Fact.IsOf.holds {k : Builtins} {env : Assignment} {f : Fact} {c : Expr} (hf : f.IsOf c) :
    ∀ {x : Int64}, Evals k env c x → x ≠ 0 → f.Holds k env := by
  induction hf with
  | left _ ih =>
    intro x hx h0
    obtain ⟨y, z, w, hy, hz, hw, hx⟩ := hx.of_binary
    exact ih hy (Word.ne_zero_of_and hw hx h0).1
  | right _ ih =>
    intro x hx h0
    obtain ⟨y, z, w, hy, hz, hw, hx⟩ := hx.of_binary
    exact ih hz (Word.ne_zero_of_and hw hx h0).2
  | comparison hop =>
    intro x hx h0
    obtain ⟨y, z, w, hy, hz, hw, hx⟩ := hx.of_binary
    rw [BinaryOp.result?_of_isComparison hop, Option.some.injEq] at hw
    subst hw
    refine ⟨z, hz, ?_⟩
    rw [← hy.of_var]
    exact Word.of_ofInt?_truth hx h0
  | converse hop =>
    intro x hx h0
    obtain ⟨y, z, w, hy, hz, hw, hx⟩ := hx.of_binary
    rw [BinaryOp.result?_of_isComparison hop, Option.some.injEq] at hw
    subst hw
    refine ⟨y, hy, ?_⟩
    rw [← hz.of_var, BinaryOp.holds_converse]
    exact Word.of_ofInt?_truth hx h0

theorem Fact.IsOf.letsFresh {p : Var → Prop} {f : Fact} {c : Expr} (hf : f.IsOf c)
    (h : c.LetsFresh p) : f.other.LetsFresh p := by
  induction hf with
  | left _ ih => exact ih h.1
  | right _ ih => exact ih h.2
  | comparison _ => exact h.2
  | converse _ => exact h.1

/-! ## The limits that facts set -/

/-- Whether a fact limits the values of its variable to an interval. -/
def Fact.limits (f : Fact) : Bool := f.op != .ne

namespace Bound

open Endpoint

theorem limitAbove {x hi : Int} (h : clamp x ≤ hi) :
    (make negInf hi).Normal ∧ (make negInf hi).Admits x :=
  ⟨normal_make ((negInf_le_clamp x).trans h), admits_make (negInf_le_clamp x) h⟩

theorem limitBelow {x lo : Int} (h : lo ≤ clamp x) :
    (make lo posInf).Normal ∧ (make lo posInf).Admits x :=
  ⟨normal_make (h.trans (clamp_le_posInf x)), admits_make h (clamp_le_posInf x)⟩

/-- The bound that a fact sets admits the value of the variable. -/
theorem assumed?_of_holds {b : Bound} (hb : b.Normal) {op : BinaryOp} {x y : Int}
    (hy : b.Admits y) (h : op.holds x y = true) :
    op = .ne ∨ op ≠ .ne ∧ ∃ c, b.assumed? op = some c ∧ c.Normal ∧ c.Admits x := by
  cases op <;> simp only [BinaryOp.holds, beq_iff_eq, decide_eq_true_eq, reduceCtorEq] at h
  case eq =>
    refine .inr ⟨by decide, _, rfl, ?_⟩
    rw [h, hb.make_eq]
    exact ⟨hb, hy⟩
  case ne => exact .inl rfl
  case lt =>
    have hxy : clamp x ≤ clamp (y + -1) := clamp_mono (by omega)
    have hlast := le_hi_add hb (normal_unit (-1)) hy (admits_unit (by decide) (by decide))
    exact .inr ⟨by decide, _, rfl, limitAbove (hxy.trans hlast)⟩
  case le => exact .inr ⟨by decide, _, rfl, limitAbove ((clamp_mono h).trans (hb.clamp_le hy))⟩
  case gt =>
    have hxy : clamp (y + 1) ≤ clamp x := clamp_mono (by omega)
    have hfirst := lo_add_le hb (normal_unit 1) hy (admits_unit (by decide) (by decide))
    exact .inr ⟨by decide, _, rfl, limitBelow (hfirst.trans hxy)⟩
  case ge => exact .inr ⟨by decide, _, rfl, limitBelow ((hb.le_clamp hy).trans (clamp_mono h))⟩

end Bound

namespace Analyzer

/-- The bounds of one state lie within those of another. -/
structure Refines (a b : Analyzer) : Prop where
  builtins : b.builtins = a.builtins
  subsumes : ∀ v, (a.boundOf v).subsumes (b.boundOf v) = true

theorem Refines.refl (a : Analyzer) : a.Refines a := ⟨rfl, fun _ => Bound.subsumes_refl _⟩

theorem Refines.trans {a b c : Analyzer} (hab : a.Refines b) (hbc : b.Refines c) : a.Refines c :=
  ⟨hbc.builtins.trans hab.builtins,
    fun v => Bound.subsumes_trans (hab.subsumes v) (hbc.subsumes v)⟩

/-- What each fact of a constraint preserves. -/
structure Sound (p : Var → Prop) (env : Assignment) (a : Analyzer) : Prop where
  memo : a.memo = none
  bounds : Recorded.Sound p env a.bound?

variable {p : Var → Prop} {env : Assignment} {a : Analyzer}

theorem Sound.withBound (ha : a.Sound p env) {v : Var} (hv : p v) {b : Bound} (hb : b.Normal)
    (hx : b.Admits (env v).toInt) : (a.withBound v b).Sound p env where
  memo := ha.memo
  bounds := by
    have h := ha.bounds.update (fun _ hw => hw) hv hb hx
    rwa [Function.update_eq_self, ← bound?_withBound] at h

theorem refines_withBound {v : Var} {b : Bound} (h : (a.boundOf v).subsumes b = true) :
    a.Refines (a.withBound v b) := by
  refine ⟨rfl, fun w => ?_⟩
  by_cases hw : w = v
  · subst hw
    unfold boundOf
    rwa [bound?_withBound, Function.update_self]
  · unfold boundOf
    rw [bound?_withBound, Function.update_of_ne hw]
    exact Bound.subsumes_refl _

/-- A fact that holds refines the bound of its variable if it limits it, and preserves soundness. -/
theorem assumeThe_run (ha : a.Sound p env) {f : Fact} (hf : f.Holds a.builtins env)
    (hlets : f.other.LetsFresh p) (hv : p f.var) (opening : Opening) :
    let r := (assumeThe opening f).run a
    r.2.Sound p env ∧ a.Refines r.2 ∧ r.1.notices = opening.notices ∧
      r.1.scope.saved.map (·.1) =
        (if f.limits then [f.var] else []) ++ opening.scope.saved.map (·.1) := by
  obtain ⟨y, hy, hop⟩ := hf
  have hother := Expr.normal_bound a.builtins f.other ha.bounds.normal
  have hadmits := hy.admits_bound ha.bounds hlets
  unfold assumeThe
  rw [assumeFact_run, analyze_run f.other (.inl ha.memo)]
  obtain hne | ⟨hne, b, hb, hnormal, hx⟩ := Bound.assumed?_of_holds hother hadmits hop
  · simp only [Fact.limits, hne]
    exact ⟨ha, .refl a, rfl, rfl⟩
  · obtain ⟨c, hc, hcnormal, hcx⟩ : ∃ c, (a.boundOf f.var).intersect? b = some c ∧ c.Normal ∧ _ :=
      Bound.exists_intersect? (ha.bounds.normal.getD f.var) hnormal (ha.bounds.admits f.var) hx
    have hlimits : f.limits = true := bne_iff_ne.2 hne
    simp only [hb, hc, hlimits]
    exact ⟨ha.withBound hv hcnormal hcx, refines_withBound (Bound.subsumes_of_intersect? hc),
      trivial, rfl⟩

/-- Facts that hold refine the bounds of the variables that they limit. -/
theorem foldlM_assumeThe_run {facts : List Fact} : ∀ {a : Analyzer} (opening : Opening),
    a.Sound p env →
    (∀ f ∈ facts, f.Holds a.builtins env ∧ f.other.LetsFresh p ∧ p f.var) →
    let r := (facts.foldlM assumeThe opening).run a
    r.2.Sound p env ∧ a.Refines r.2 ∧ r.1.notices = opening.notices ∧
      r.1.scope.saved.map (·.1) =
        ((facts.filter (·.limits)).map (·.var)).reverse ++ opening.scope.saved.map (·.1) := by
  induction facts with
  | nil => exact fun _ ha _ => ⟨ha, .refl _, rfl, rfl⟩
  | cons f facts ih =>
    intro a opening ha h
    obtain ⟨hf, hlets, hv⟩ := h f (.head _)
    have hstep := assumeThe_run ha hf hlets hv opening
    rw [List.foldlM_cons, run_bind]
    generalize (assumeThe opening f).run a = r at hstep ⊢
    obtain ⟨opening', a'⟩ := r
    obtain ⟨ha', hrefines, hnotices, hsaved⟩ := hstep
    dsimp only at ha' hrefines hnotices hsaved ⊢
    obtain ⟨hs, hr, hn, hm⟩ := ih opening' ha' fun g hg => by
      rw [hrefines.builtins]
      exact h g (.tail _ hg)
    refine ⟨hs, hrefines.trans hr, hn.trans hnotices, hm.trans ?_⟩
    rw [hsaved]
    cases hl : f.limits <;> simp [hl]

/-- If a constraint holds of values that lie within the bounds, then they still do when its scope is
opened, which leaves out no fact and only narrows bounds. The local definitions in the constraint
must be fresh, and must not define a variable that it compares. -/
theorem enter_sound (hmemo : a.memo = none) (hnormal : a.NormalBounds) (hs : a.Satisfied env)
    {c : Expr} (hlets : c.LetsFresh fun v => a.isBound v = true ∨ v ∈ c.compared)
    {x : Int64} (hx : Evals a.builtins env c x) (h0 : x ≠ 0) :
    let r := (enter c).run a
    r.2.Satisfied env ∧ r.1.2 = [] ∧ (∀ v, (a.boundOf v).subsumes (r.2.boundOf v) = true) ∧
      r.1.1.saved.map (·.1) = ((c.facts.filter (·.limits)).map (·.var)).reverse := by
  have hsound : a.Sound (fun v => a.isBound v = true ∨ v ∈ c.compared) env :=
    ⟨hmemo, hnormal, hs, fun _ hv => .inl hv⟩
  have hfacts (f) (hf : f ∈ c.facts) : f.Holds a.builtins env ∧
      f.other.LetsFresh (fun v => a.isBound v = true ∨ v ∈ c.compared) ∧
        (a.isBound f.var = true ∨ f.var ∈ c.compared) := by
    have hof := Expr.isOf_of_mem_facts c hf
    exact ⟨hof.holds hx h0, hof.letsFresh hlets, .inr (List.mem_map_of_mem hf)⟩
  obtain ⟨hsound', hrefines, hnotices, hsaved⟩ :=
    foldlM_assumeThe_run {} hsound hfacts
  unfold enter
  rw [assume_eq_foldlM, run_bind]
  exact ⟨hsound'.bounds.admits, hnotices, hrefines.subsumes, hsaved.trans (List.append_nil _)⟩

namespace Box

/-- That `x` is one less than `y`, in terms of a local definition, and below `y`. -/
def adjacent : Expr :=
  .binary 18 .and
    (.binary 16 .eq (.var x) (.letIn 15 t (.binary 14 .sub (.var y) (.int 13 1)) (.var t)))
    (.binary 17 .lt (.var x) (.var y))

end Box

/-- The constraint refines the bound of `x` twice, and then that of `y`. -/
theorem enter_sound_adjacent :
    Box.adjacent.LetsFresh (fun v => Box.analyzer.isBound v = true ∨ v ∈ Box.adjacent.compared) ∧
      Evals Box.analyzer.builtins Box.point Box.adjacent 1 ∧
      let r := (enter Box.adjacent).run Box.analyzer
      r.2.Satisfied Box.point ∧ r.1.2 = [] ∧ r.1.1.saved.map (·.1) = [Box.y, Box.x, Box.x] := by
  have hlets : Box.adjacent.LetsFresh
      (fun v => Box.analyzer.isBound v = true ∨ v ∈ Box.adjacent.compared) := by
    simp only [Box.adjacent, Expr.LetsFresh, and_true]
    decide
  have heval : Evals Box.analyzer.builtins Box.point Box.adjacent 1 :=
    .binary (x := 1) (y := 1)
      (.binary .var (.letIn (x := 5) (.binary .var .int rfl rfl) .var) rfl rfl)
      (.binary .var .var rfl rfl) rfl rfl
  obtain ⟨hs, hnotices, -, hsaved⟩ :=
    enter_sound rfl Box.normalBounds Box.satisfied_point hlets heval (by decide)
  exact ⟨hlets, heval, hs, hnotices, hsaved⟩

end Analyzer

end IndexAlgebra
