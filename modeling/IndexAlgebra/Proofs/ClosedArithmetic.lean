import IndexAlgebra.Proofs.Analysis.Plain
import IndexAlgebra.Proofs.Bound.Narrowing
import IndexAlgebra.Proofs.Expr.Position
import IndexAlgebra.Proofs.Reduct
/-!
# Closed arithmetic

An expression that is built from integer literals by sums, differences, products, quotients, and the
smaller or larger of two values, has an exact value (`Expr.closedValue?`), unless a divisor is zero. There
are two more ways to find it. A query computes with endpoints, which stop at the infinities, and the
constructors that fold compute with words, which wrap around. As long as all values on the way lie
between the infinities, neither happens: the query finds the bound of the single value, and folding
from the literals up ends with the literal of it (`Analyzer.analyze_exact`).
-/

namespace IndexAlgebra

open Endpoint

/-- An operator of closed arithmetic. -/
def BinaryOp.isClosed (op : BinaryOp) : Bool :=
  [add, sub, mul, div, floorDiv, min, max].contains op

/-- An integer lies between the infinities. -/
def Finite (n : Int) : Prop := negInf < n ∧ n < posInf

instance (n : Int) : Decidable (Finite n) := inferInstanceAs (Decidable (_ ∧ _))

namespace Expr

/-- The exact value of an expression of closed arithmetic. -/
def closedValue? : Expr → Option Int
  | int _ n => some n.toInt
  | binary _ op a b =>
    if op.isClosed then do op.result? (← a.closedValue?) (← b.closedValue?)
    else none
  | _ => none

/-- The values of an expression and all its parts lie between the infinities. -/
def AllFinite (e : Expr) : Prop := e.Everywhere fun x => ∀ n ∈ x.closedValue?, Finite n

theorem allFinite_int {h : Handle} {n : Int64} : (int h n).AllFinite ↔ Finite n.toInt := by
  rw [AllFinite, everywhere_iff]
  simp [closedValue?, children]

theorem allFinite_binary {h : Handle} {op : BinaryOp} {a b : Expr} :
    (binary h op a b).AllFinite ↔
      (∀ n ∈ (binary h op a b).closedValue?, Finite n) ∧ a.AllFinite ∧ b.AllFinite := by
  rw [AllFinite, everywhere_iff]
  simp [children, AllFinite]

/-- An expression made anew from its literals up, by the constructors that fold. -/
def refold (ctx : Context) : Expr → ExceptT FoldError Build Expr
  | binary _ op a b => do
    let a ← refold ctx a
    let b ← refold ctx b
    (Application.binary op a b).smart ctx
  | e => return e

theorem closedValue?_binary_eq_some {h : Handle} {op : BinaryOp} {a b : Expr} {z : Int}
    (hz : (binary h op a b).closedValue? = some z) :
    op.isClosed = true ∧
      ∃ x y, a.closedValue? = some x ∧ b.closedValue? = some y ∧ op.result? x y = some z := by
  obtain ⟨hop, hz⟩ := Option.ite_none_right_eq_some.1 hz
  obtain ⟨x, hx, hz⟩ := Option.bind_eq_some_iff.1 hz
  obtain ⟨y, hy, hz⟩ := Option.bind_eq_some_iff.1 hz
  exact ⟨hop, x, y, hx, hy, hz⟩

/-- What holds of each literal, and of an application if it holds of its operands, holds of each
expression of closed arithmetic whose values all lie between the infinities. -/
theorem closedInduction {P : Expr → Int → Prop} (hint : ∀ h n, Finite n.toInt → P (int h n) n.toInt)
    (hbinary : ∀ {h op a b x y z}, op.isClosed = true → op.result? x y = some z →
      Finite x → Finite y → Finite z → P a x → P b y → P (binary h op a b) z) :
    ∀ {e : Expr} {v : Int}, e.closedValue? = some v → e.AllFinite → P e v
  | int h n, v, hv, he => by
    cases hv
    exact hint h n (allFinite_int.1 he)
  | binary h op a b, z, hz, he => by
    obtain ⟨hop, x, y, hx, hy, hxy⟩ := closedValue?_binary_eq_some hz
    obtain ⟨hroot, ha, hb⟩ := allFinite_binary.1 he
    exact hbinary hop hxy (ha.root x hx) (hb.root y hy) (hroot z hz)
      (closedInduction hint hbinary hx ha) (closedInduction hint hbinary hy hb)

end Expr

/-! ## The bound of the value -/

namespace Bound

variable {x y z : Int}

theorem make_self (h : Finite z) : make z z = ⟨z, z⟩ := by
  have hnormal : (⟨z, z⟩ : Bound).Normal :=
    ⟨Int.le_of_lt h.1, Int.le_refl z, Int.le_of_lt h.2, Int.ne_of_lt h.2, Int.ne_of_gt h.1⟩
  exact hnormal.make_eq

/-- The corners of a single pair of operands are one. -/
theorem corners_single (op : Int → Int → Int) (x y : Int) :
    corners op ⟨x, x⟩ ⟨y, y⟩ = make (op x y) (op x y) := by
  simp [corners]

theorem neg_single (h : Finite y) : neg ⟨y, y⟩ = ⟨-y, -y⟩ := by
  obtain ⟨hl, hh⟩ := h
  simp only [neg, Endpoint.neg, mk.injEq, negInf_eq, posInf_eq] at *
  omega

theorem add_single (hx : Finite x) (hy : Finite y) (hz : Finite (x + y)) :
    add ⟨x, x⟩ ⟨y, y⟩ = ⟨x + y, x + y⟩ := by
  have hsum : add? x y = some (x + y) := by
    rw [add?_eq (Int.le_of_lt hy.1) (Int.le_of_lt hy.2), isInf_eq_false hx.1 hx.2,
      isInf_eq_false hy.1 hy.2, clamp_eq_self (Int.le_of_lt hz.1) (Int.le_of_lt hz.2)]
    rfl
  simp only [add, hsum, Option.getD_some, make_self hz]

theorem sub_single (hx : Finite x) (hy : Finite y) (hz : Finite (x - y)) :
    sub ⟨x, x⟩ ⟨y, y⟩ = ⟨x - y, x - y⟩ := by
  have hneg : Finite (-y) := by
    obtain ⟨hl, hh⟩ := hy
    simp only [Finite, negInf_eq, posInf_eq] at *
    omega
  rw [Int.sub_eq_add_neg] at hz ⊢
  rw [sub, neg_single hy, add_single hx hneg hz]

theorem mul_single (hz : Finite (x * y)) : mul ⟨x, x⟩ ⟨y, y⟩ = ⟨x * y, x * y⟩ := by
  rw [mul, corners_single, mul_eq_clamp, clamp_eq_self (Int.le_of_lt hz.1) (Int.le_of_lt hz.2),
    make_self hz]

theorem excludesZero_single (h : y ≠ 0) : excludesZero ⟨y, y⟩ = true := by
  rw [excludesZero, decide_eq_true_iff]
  exact Int.lt_or_gt_of_ne h.symm

/-- Between the infinities, an operator finds the bound of the value that its operands have. -/
theorem binary_single {op : BinaryOp} (hop : op.isClosed = true) (hxy : op.result? x y = some z)
    (hx : Finite x) (hy : Finite y) (hz : Finite z) :
    (⟨x, x⟩ : Bound).binary op ⟨y, y⟩ = ⟨z, z⟩ := by
  cases op
  case add =>
    cases hxy
    exact add_single hx hy hz
  case sub =>
    cases hxy
    exact sub_single hx hy hz
  case mul =>
    cases hxy
    exact mul_single hz
  case div =>
    obtain ⟨hy0, hxy⟩ := Option.ite_none_left_eq_some.1 hxy
    cases hxy
    rw [binary, div, if_pos (excludesZero_single hy0), corners_single,
      div_dividesAs.finite y hx.1 hx.2, make_self hz]
  case floorDiv =>
    obtain ⟨hy0, hxy⟩ := Option.ite_none_left_eq_some.1 hxy
    cases hxy
    rw [binary, floorDiv, if_pos (excludesZero_single hy0), corners_single,
      floorDiv_dividesAs.finite y hx.1 hx.2, make_self hz]
  case min =>
    cases hxy
    simp only [binary, minimum, Int.min_def]
  case max =>
    cases hxy
    simp only [binary, maximum, Int.max_def]
  all_goals cases hop

end Bound

namespace Expr

theorem bound_of_exact (k : Builtins) (β : Recorded) {e : Expr} {v : Int}
    (hv : e.closedValue? = some v) (he : e.AllFinite) : e.bound k β = ⟨v, v⟩ := by
  refine closedInduction (P := fun e v => e.bound k β = ⟨v, v⟩) ?_ ?_ hv he
  · intro h n hn
    exact Bound.make_self hn
  · intro h op a b x y z hop hxy hx hy hz ha hb
    have harith : op.isArithmetic = true := by cases op <;> first | rfl | cases hop
    rw [bound, if_pos harith, ha, hb, Bound.binary_single hop hxy hx hy hz]

end Expr

/-! ## Folding to the literal of the value -/

namespace Folding

theorem division?_literals {q : Int → Int → Int} {word : Int64 → Int64 → Int64}
    {number : Binary64 → Binary64 → Binary64} (hword : ∀ x y, word x y = .ofInt (q x.toInt y.toInt))
    {h h' : Handle} {n m : Int64} (hm : m.toInt ≠ 0) :
    division? word number (.int h n) (.int h' m) =
      .ok (some (.int (.ofInt (q n.toInt m.toInt)))) := by
  have hzero : (Expr.int h' m).isZero = false := by
    rw [Expr.isZero, beq_eq_false_iff_ne]
    rintro rfl
    exact hm rfl
  rw [division?, hzero, if_neg Bool.false_ne_true, hword]

/-- Two literals fold to the literal of their result. -/
theorem binary?_literals {op : BinaryOp} (hop : op.isClosed = true) {h h' : Handle} {n m : Int64}
    {z : Int} (hz : op.result? n.toInt m.toInt = some z) :
    binary? op (.int h n) (.int h' m) = .ok (some (.int (.ofInt z))) := by
  cases op
  case add =>
    cases hz
    simp [binary?, add?]
  case sub =>
    cases hz
    simp [binary?, sub?]
  case mul =>
    cases hz
    simp [binary?, mul?]
  case div =>
    obtain ⟨hm, hz⟩ := Option.ite_none_left_eq_some.1 hz
    cases hz
    rw [binary?]
    exact division?_literals (fun _ _ => rfl) hm
  case floorDiv =>
    obtain ⟨hm, hz⟩ := Option.ite_none_left_eq_some.1 hz
    cases hz
    rw [binary?]
    exact division?_literals (fun _ _ => rfl) hm
  case min =>
    cases hz
    simp only [binary?, min?, Word.smaller_eq]
  case max =>
    cases hz
    simp only [binary?, max?, Word.larger_eq]
  all_goals cases hop

end Folding

/-- A literal of an integer, under a handle that is not that of an infinity. -/
structure IsLiteral (ctx : Context) (e : Expr) (v : Int) : Prop where
  eq_int : ∃ h n, e = .int h n ∧ n.toInt = v
  ne_posInf : ctx.isPosInf e = false
  ne_negInf : ctx.isNegInf e = false

/-- The constructor makes a new literal of the result. -/
theorem Application.smart_literals {ctx : Context} {op : BinaryOp} {a b : Expr} {x y z : Int}
    (hop : op.isClosed = true) (hz : op.result? x y = some z) (ha : IsLiteral ctx a x)
    (hb : IsLiteral ctx b y) (next : Handle) :
    ((binary op a b).smart ctx).run.run next = (.ok (.int next (.ofInt z)), next + 1) := by
  have hinf : ¬ (binary op a b).HasInfinity ctx := by
    rintro ⟨c, hc, hinf⟩
    rcases List.mem_pair.1 hc with rfl | rfl
    · simp [ha.ne_posInf, ha.ne_negInf] at hinf
    · simp [hb.ne_posInf, hb.ne_negInf] at hinf
  obtain ⟨h, n, rfl, rfl⟩ := ha.eq_int
  obtain ⟨h', m, rfl, rfl⟩ := hb.eq_int
  have hfolds := (smart_cases (binary op (.int h n) (.int h' m)) ctx).resolve_left fun h => hinf h.1
  have hfold : (binary op (.int h n) (.int h' m)).fold? = _ := Folding.binary?_literals hop hz
  rw [hfolds, hfold]
  rfl

namespace Expr

variable {ctx : Context} {nodes : Set Expr} {next : Handle} {e : Expr} {v : Int}

/-- Folding from the literals up succeeds and ends with a literal of a value. -/
def RefoldsTo (ctx : Context) (next : Handle) (e : Expr) (v : Int) : Prop :=
  ∃ e' next', (e.refold ctx).run.run next = (.ok e', next') ∧ next ≤ next' ∧ IsLiteral ctx e' v

theorem refold_exact (hmade : Made nodes next) (hpos : .var ctx.posInf ∈ nodes)
    (hneg : .var ctx.negInf ∈ nodes) (hv : e.closedValue? = some v) (hfinite : e.AllFinite) :
    e ∈ nodes → ∀ n, next ≤ n → RefoldsTo ctx n e v := by
  refine closedInduction (P := fun e v => e ∈ nodes → ∀ n, next ≤ n → RefoldsTo ctx n e v)
    ?_ ?_ hv hfinite
  · intro h m hm he n hn
    refine ⟨_, n, rfl, Nat.le_refl n, ⟨h, m, rfl, rfl⟩, ?_, ?_⟩
    · refine Bool.eq_false_iff.2 fun hs => ?_
      cases hmade.coherent.eq_of_sameAs he hpos hs
    · refine Bool.eq_false_iff.2 fun hs => ?_
      cases hmade.coherent.eq_of_sameAs he hneg hs
  · intro h op a b x y z hop hxy _ _ hz iha ihb he n hn
    obtain ⟨a', n₁, hruna, hn₁, ha⟩ := iha (hmade.coherent.child he) n hn
    obtain ⟨b', n₂, hrunb, hn₂, hb⟩ := ihb (hmade.coherent.child he) n₁ (hn.trans hn₁)
    -- the handle of the new literal is unused, and those of the infinities are used
    have hfresh : ∀ w : Var, .var w ∈ nodes → (int n₂ (.ofInt z)).sameAs (.var w) = false := by
      intro w hw
      have hlt : w.handle < n₂ := (hmade.handle_lt _ hw).trans_le (hn.trans (hn₁.trans hn₂))
      exact beq_eq_false_iff_ne.2 hlt.ne'
    have hz' := Bound.toInt_ofInt (Int.le_of_lt hz.1) (Int.le_of_lt hz.2)
    refine ⟨.int n₂ (.ofInt z), n₂ + 1, ?_, (hn₁.trans hn₂).trans (Nat.le_succ n₂),
      ⟨n₂, _, rfl, hz'⟩, hfresh _ hpos, hfresh _ hneg⟩
    rw [refold, run_bind_of_ok hruna, run_bind_of_ok hrunb]
    exact Application.smart_literals hop hxy ha hb n₂

end Expr

/-- The bound of an expression of closed arithmetic whose values all lie between the infinities is
that of its value, whatever is recorded, and folding from its literals up ends with the literal of
the value. The expression and the infinities must be nodes that a program has made. -/
theorem Analyzer.analyze_exact {ctx : Context} {nodes : Set Expr} {next : Handle}
    (hmade : Expr.Made nodes next) (hpos : .var ctx.posInf ∈ nodes) (hneg : .var ctx.negInf ∈ nodes)
    {e : Expr} (he : e ∈ nodes) {v : Int} (hv : e.closedValue? = some v) (hfinite : e.AllFinite)
    {a : Analyzer} (hmemo : a.memo = none) :
    ((analyze e).run a).1 = ⟨v, v⟩ ∧
      ∃ h n next', (e.refold ctx).run.run next = (.ok (.int h n), next') ∧ n.toInt = v := by
  constructor
  · rw [analyze_run e (.inl hmemo)]
    exact e.bound_of_exact _ _ hv hfinite
  · obtain ⟨_, next', hrun, -, hliteral⟩ :=
      Expr.refold_exact hmade hpos hneg hv hfinite he next (Nat.le_refl next)
    obtain ⟨h, n, rfl, hn⟩ := hliteral.eq_int
    exact ⟨h, n, next', hrun, hn⟩

namespace Rounding

def ctx : Context := (Context.new.run 0).1

/-- The literal next to the lower infinity. -/
def low : Expr := .int 9 (-9223372036854775806)

def four : Expr := .int 10 4

/-- The smaller of the two quotients, of which one is rounded down and one towards zero. -/
def smaller : Expr := .binary 13 .min (.binary 11 .div low four) (.binary 12 .floorDiv low four)

theorem made : Expr.Made
    {smaller, .binary 12 .floorDiv low four, .binary 11 .div low four, four, low, .var ctx.negInf,
      .var ctx.posInf} 14 := by
  rw [← LawfulSingleton.insert_empty_eq]
  refine .node (.node (.node (.node (.node (.node (.node (.start 7) rfl nofun) rfl nofun) rfl nofun)
    rfl nofun) rfl ?_) rfl ?_) rfl ?_
  all_goals simp [smaller, Expr.children]

theorem allFinite : smaller.AllFinite := by
  have hlow : low.AllFinite := Expr.allFinite_int.2 (by decide)
  have hfour : four.AllFinite := Expr.allFinite_int.2 (by decide)
  have quotient {h : Handle} {op : BinaryOp}
      (hq : ∀ n ∈ (Expr.binary h op low four).closedValue?, Finite n) :
      (Expr.binary h op low four).AllFinite := Expr.allFinite_binary.2 ⟨hq, hlow, hfour⟩
  exact Expr.allFinite_binary.2 ⟨by decide, quotient (by decide), quotient (by decide)⟩

end Rounding

/-- The quotient is not exact, so that the two ways to round it differ. -/
theorem Analyzer.analyze_exact_rounding :
    Rounding.smaller.closedValue? = some (-2305843009213693952) ∧
      ((analyze Rounding.smaller).run (.new Rounding.ctx)).1 =
        ⟨-2305843009213693952, -2305843009213693952⟩ ∧
      ∃ h n next', (Rounding.smaller.refold Rounding.ctx).run.run 14 = (.ok (.int h n), next') ∧
        n.toInt = -2305843009213693952 := by
  have hv : Rounding.smaller.closedValue? = some (-2305843009213693952) := by decide
  exact ⟨hv, analyze_exact Rounding.made (by simp) (by simp) (by simp) hv Rounding.allFinite rfl⟩

end IndexAlgebra
