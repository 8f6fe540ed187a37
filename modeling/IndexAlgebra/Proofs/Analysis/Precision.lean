import IndexAlgebra.Proofs.Analysis.Attained
import IndexAlgebra.Proofs.Reduct
/-!
# Folding loses no precision

What a smart constructor gives back has a bound within that of the application as a node
(`Analyzer.subsumes_analyze_smart`). The rules of folding and the rules for bounds are compared word
by word: what the ones compute, the others admit (`Application.within_fold`).

At the ends of the range of words, a literal has a wider bound than its value alone. A normal bound
that admits the value holds that wider bound too (`Bound.within_unit`), since it does not lie
entirely at an infinity.

An analyzer knows the operators of its own context. Calls of operators of another context have no
limits, so that there is no precision to lose.
-/

namespace IndexAlgebra

open Endpoint

namespace Application

/-- The exact result of an application to integer literals, where it need not fit into a word. -/
def exactResult? : Application → Option Int
  | binary op a b => do op.result? (← a.int?).toInt (← b.int?).toInt
  | neg a => do return -(← a.int?).toInt
  | leftShift a b => do return (← a.int?).toInt * 2 ^ (← b.int?).toInt.toNat
  | _ => none

/-- If the operands are integer literals, the exact result fits into a word. -/
def Fits (app : Application) : Prop := ∀ n, app.exactResult? = some n → -2 ^ 63 ≤ n ∧ n < 2 ^ 63

/-- The bound of an application that is not folded, where the operators are known. -/
def bound (k : Builtins) (β : Recorded) : Application → Bound
  | binary op a b =>
    if op.isArithmetic then (a.bound k β).binary op (b.bound k β) else .everything
  | neg a => (Bound.unit 0).sub (a.bound k β)
  | not _ => .everything
  | ifThenElse _ yes no => (yes.bound k β).union (no.bound k β)
  | leftShift a b => (a.bound k β).leftShift (b.bound k β)
  | rightShift a b => (a.bound k β).rightShift (b.bound k β)
  | bitAnd a b => (a.bound k β).bitAnd (b.bound k β)
  | bitOr .. => .everything
  | bitXor .. => .everything
  | bitNot _ => .everything

end Application

section Rules

variable {k : Builtins} {β : Recorded} {a b : Expr} {r : Reduct}

/-- What a binary operator folds to has no wider bound than the operator gives. -/
theorem Folding.within_binary {op : BinaryOp} (hβ : β.Normal) (hab : a.sameAs b = true → a = b)
    (ha : a.float? = none) (hb : b.float? = none) (hfits : (Application.binary op a b).Fits)
    (hr : binary? op a b = .ok (some r)) :
    (r.bound k β).Within ((Application.binary op a b).bound k β) := by
  have hna := a.normal_bound k hβ
  have hnb := b.normal_bound k hβ
  -- Of two literals, folding computes the exact result.
  have hfit {x y w : Int64} {z : Int} (hx : a.int? = some x) (hy : b.int? = some y)
      (hz : op.result? x.toInt y.toInt = some z) (hw : w = .ofInt z) : w.toInt = z := by
    have hz := hfits z (by simp [Application.exactResult?, hx, hy, hz])
    rw [hw, Int64.toInt_ofInt_of_le hz.1 hz.2]
  have hquotient {x y w : Int64} {z : Int} (hy0 : y ≠ 0) (hx : a.int? = some x)
      (hy : b.int? = some y) (hz : op.result? x.toInt y.toInt = if y.toInt = 0 then none else some z)
      (hw : w = .ofInt z) : w.toInt = z :=
    hfit hx hy (hz.trans (if_neg (mt Int64.toInt_inj.1 hy0))) hw
  cases op
  case add =>
    refine Reduct.within_of_attains hβ (hna.add hnb) (fun v hv => ?_)
      fun x y => Bound.admits_add hna hnb
    exact attains_add (Except.ok.inj hr) ha hb (fun x y hx hy => hfit hx hy rfl (by simp)) hv
  case sub =>
    refine Reduct.within_of_attains hβ (hna.sub hnb) (fun v hv => ?_)
      fun x y => Bound.admits_sub hna hnb
    exact attains_sub (Except.ok.inj hr) ha hb (fun x y hx hy => hfit hx hy rfl (by simp)) hv
  case mul =>
    refine Reduct.within_of_attains hβ (.mul ..) (fun v hv => ?_) fun x y => Bound.admits_mul hna hnb
    exact attains_mul hβ (Except.ok.inj hr) ha hb (fun x y hx hy => hfit hx hy rfl (by simp)) hv
  case div =>
    refine Reduct.within_of_attains hβ (Bound.normal_div ..) (fun v hv => ?_)
      fun x y => Bound.admits_div hna hnb
    exact attains_division hβ Int.zero_tdiv Int.tdiv_one hr ha hb
      (fun x y hy0 hx hy => hquotient hy0 hx hy rfl rfl) hv
  case floorDiv =>
    refine Reduct.within_of_attains hβ (Bound.normal_floorDiv ..) (fun v hv => ?_)
      fun x y => Bound.admits_floorDiv hna hnb
    exact attains_division hβ Int.zero_fdiv Int.fdiv_one hr ha hb
      (fun x y hy0 hx hy => hquotient hy0 hx hy rfl rfl) hv
  case mod =>
    refine Reduct.within_of_attains hβ (hna.mod hnb) (fun v hv => ?_)
      fun x y hx hy => Bound.admits_mod hna hnb hx hy (Word.le_posInf y)
    exact attains_modulo hβ Int.zero_tmod Int.tmod_one hr ha hb
      (fun x y hy0 hx hy => hquotient hy0 hx hy rfl rfl) hv
  case floorMod =>
    refine Reduct.within_of_attains hβ (hna.floorMod hnb) (fun v hv => ?_)
      fun x y hx hy => Bound.admits_floorMod hna hnb hx hy (Word.le_posInf y)
    exact attains_modulo hβ Int.zero_fmod Int.fmod_one hr ha hb
      (fun x y hy0 hx hy => hquotient hy0 hx hy rfl rfl) hv
  case min =>
    exact Reduct.within_of_attains hβ (hna.minimum hnb)
      (fun v => attains_min hab (Except.ok.inj hr) ha) fun x y => Bound.admits_minimum hna hnb
  case max =>
    exact Reduct.within_of_attains hβ (hna.maximum hnb)
      (fun v => attains_max hab (Except.ok.inj hr) ha) fun x y => Bound.admits_maximum hna hnb
  all_goals exact (r.normal_bound hβ).within_everything

/-- What an application folds to has no wider bound than the application. -/
theorem Application.within_fold {app : Application} (hβ : β.Normal)
    (hsame : ∀ a ∈ app.operands, ∀ b ∈ app.operands, a.sameAs b = true → a = b)
    (hfloat : ∀ a ∈ app.operands, a.float? = none) (hfits : app.Fits)
    (hr : app.fold? = .ok (some r)) : (r.bound k β).Within (app.bound k β) := by
  have hn (e : Expr) := e.normal_bound k hβ
  have hnr := r.normal_bound (k := k) hβ
  cases app with
  | binary op a b =>
    exact Folding.within_binary hβ (hsame a (.head _) b (.tail _ (.head _)))
      (hfloat a (.head _)) (hfloat b (.tail _ (.head _))) hfits hr
  | neg a =>
    cases a with
    | int h x =>
      cases hr
      have hz := hfits _ rfl
      have hneg : -x = .ofInt (-x.toInt) := by simp
      refine Bound.within_unit ((Bound.normal_unit 0).sub (hn _)) ?_
      rw [hneg, Int64.toInt_ofInt_of_le hz.1 hz.2, ← Int.zero_sub]
      exact Bound.admits_sub (Bound.normal_unit 0) (hn _) (by decide) (Expr.takes_int h x)
    | float => cases hfloat _ (.head _)
    | _ => cases hr
  | ifThenElse cond yes no =>
    obtain ⟨n, -, hchosen⟩ := Option.map_eq_some_iff.1 (Except.ok.inj hr)
    cases hchosen
    refine Reduct.within hβ ((hn yes).union (hn no)) fun v hv => ?_
    simp only [Reduct.Takes] at hv
    split_ifs at hv
    · exact Bound.admits_union_right (hn yes) (hn no) hv
    · exact Bound.admits_union_left (hn yes) (hn no) hv
  | leftShift a b =>
    obtain ⟨x, y, hx, hy, rfl⟩ := Folding.shift?_eq_some hr
    have hz := hfits (x.toInt * 2 ^ y.toInt.toNat) (by simp [exactResult?, hx, hy])
    refine Bound.within_unit (Bound.normal_leftShift ..) ?_
    rw [Word.shiftLeft_eq, Int64.toInt_ofInt_of_le hz.1 hz.2]
    exact Bound.admits_leftShift (hn a) (hn b) (Expr.takes_of_int? hx) (Expr.takes_of_int? hy)
  | rightShift a b =>
    obtain ⟨x, y, hx, hy, rfl⟩ := Folding.shift?_eq_some hr
    refine Bound.within_unit (Bound.normal_rightShift ..) ?_
    rw [Word.toInt_shiftRight]
    exact Bound.admits_rightShift (hn a) (hn b) (Expr.takes_of_int? hx) (Expr.takes_of_int? hy)
  | bitAnd a b =>
    obtain ⟨x, y, hx, hy, rfl⟩ := Folding.bitwise?_eq_some (Except.ok.inj hr)
    exact Bound.within_unit ((hn a).bitAnd (hn b)) (Bound.admits_bitAnd (hn a) (hn b)
      (Expr.takes_of_int? hx) (Expr.takes_of_int? hy))
  | not | bitOr | bitXor | bitNot => exact hnr.within_everything

end Rules

/-! ## Queries -/

section Queries

variable {ctx : Context} {k : Builtins} {β : Recorded} {app : Application}

theorem Builtins.not_interprets {op : Op} (h : op ∉ k.all) (args : List Expr) :
    ¬ k.Interprets op args := by
  simp only [all, List.mem_cons, not_or, List.not_mem_nil] at h
  rcases args with - | ⟨_, - | ⟨_, - | ⟨_, - | _⟩⟩⟩ <;> simp [Interprets, h]

/-- An analyzer that knows the operators of the context. -/
theorem Application.bound_raw (hk : ctx.builtins.all.Nodup) (app : Application) (next : Handle) :
    ((app.raw ctx).run next).1.bound ctx.builtins β = app.bound ctx.builtins β := by
  simp only [Builtins.all, List.nodup_cons, List.mem_cons, not_or, List.not_mem_nil] at hk
  cases app with
  | binary | neg | not | bitNot => rfl
  | ifThenElse => exact if_pos rfl
  | leftShift a b | rightShift a b | bitAnd a b | bitOr a b | bitXor a b =>
    show (Expr.call next _ [a, b]).bound ctx.builtins β = _
    simp [Expr.bound, Bound.call, bound, hk, eq_comm]

/-- An analyzer that knows none of the operators of the context. -/
theorem Application.bound_raw_of_disjoint (hk : k.all.Disjoint ctx.builtins.all)
    (app : Application) (next : Handle) :
    ((app.raw ctx).run next).1.bound k β = app.bound k β ∨
      ((app.raw ctx).run next).1.bound k β = .everything := by
  have hcall (op : Op) (args : List Expr) (hop : op ∈ ctx.builtins.all) :
      (Expr.call next op args).bound k β = .everything :=
    Expr.bound_call_of_not_interprets (k.not_interprets (fun h => hk h hop) args)
  cases app with
  | binary | neg | not => exact .inl rfl
  | _ => exact .inr (hcall _ _ (by simp [Builtins.all]))

theorem Application.bound_raw_eq (app : Application) (m n : Handle) :
    ((app.raw ctx).run m).1.bound k β = ((app.raw ctx).run n).1.bound k β := by
  cases app <;> rfl

theorem Reduct.bound_run (r : Reduct) (next : Handle) :
    ((Build.reduct r).run next).1.bound k β = r.bound k β := by
  cases r <;> rfl

end Queries

namespace Analyzer

/-- The bound of what a smart constructor gives back lies within the bound of the application as a
node, unless it computes a literal that wraps around. The analyzer may belong to the context or to
another one; the operands are neither floating point literals nor the infinities. -/
theorem subsumes_analyze_smart {nodes : Set Expr} (hnodes : Expr.Coherent nodes) {ctx : Context}
    (hctx : ctx.Made) {a : Analyzer} (hmemo : a.memo = none) (hnormal : a.NormalBounds)
    (hknown : a.builtins = ctx.builtins ∨ a.builtins.all.Disjoint ctx.builtins.all)
    {app : Application} (happ : ∀ e ∈ app.operands, e ∈ nodes)
    (hfloat : ∀ e ∈ app.operands, e.float? = none) (hinf : ¬ app.HasInfinity ctx)
    (hfits : app.Fits) {next next' : Handle} {e : Expr}
    (hsmart : (app.smart ctx).run.run next = (.ok e, next')) (other : Handle) :
    ((analyze ((app.raw ctx).run other).1).run a).1.subsumes ((analyze e).run a).1 = true := by
  have hsame (b) (hb : b ∈ app.operands) (c) (hc : c ∈ app.operands) : b.sameAs c = true → b = c :=
    hnodes.eq_of_sameAs (happ b hb) (happ c hc)
  rw [analyze_run _ (.inl hmemo), analyze_run _ (.inl hmemo)]
  have hfolds := (app.smart_cases ctx).resolve_left fun h => hinf h.1
  rcases hfolds.outcome hsmart with ⟨-, rfl⟩ | ⟨r, hr, rfl⟩
  · rw [app.bound_raw_eq next other]
    exact Bound.subsumes_refl _
  · rw [r.bound_run]
    have hwithin := app.within_fold (k := a.builtins) hnormal hsame hfloat hfits hr
    rcases hknown with hk | hk
    · rw [hk] at hwithin ⊢
      rw [app.bound_raw hctx.nodup]
      exact (Bound.within_iff.1 hwithin).2.2
    · rcases app.bound_raw_of_disjoint hk other with h | h
      · rw [h]
        exact (Bound.within_iff.1 hwithin).2.2
      · rw [h]
        exact (Bound.within_iff.1 hwithin.normal.within_everything).2.2

namespace Lowest

def ctx : Context := (Context.new.run 0).1

def low : Expr := .int 9 (-9223372036854775807)

def one : Expr := .int 10 1

/-- One less than the literal, which is the lowest word. -/
def app : Application := .binary .sub low one

theorem made : Expr.Made {one, low} 11 := by
  rw [← LawfulSingleton.insert_empty_eq]
  exact .node (.node (.start 9) rfl nofun) rfl nofun

theorem fits : app.Fits := by
  intro n hn
  cases hn
  decide

end Lowest

/-- The lowest word lies below all endpoints, so that its own bound is wider than one value. -/
theorem subsumes_analyze_smart_lowest :
    ((Lowest.app.smart Lowest.ctx).run.run 11) = (.ok (.int 11 .minValue), 12) ∧
      ((analyze (.int 11 .minValue)).run (new Lowest.ctx)).1 =
        ⟨Endpoint.negInf, Endpoint.negInf + 1⟩ ∧
      ((analyze ((Lowest.app.raw Lowest.ctx).run 11).1).run (new Lowest.ctx)).1.subsumes
        ((analyze (.int 11 .minValue)).run (new Lowest.ctx)).1 = true := by
  have hsmart : (Lowest.app.smart Lowest.ctx).run.run 11 = (.ok (.int 11 .minValue), 12) := rfl
  refine ⟨hsmart, by decide, ?_⟩
  exact subsumes_analyze_smart Lowest.made.coherent (.new 0) rfl (normalBounds_of_entries (by decide))
    (.inl rfl) (by simp [Lowest.app, Application.operands]) (by decide) (by decide) Lowest.fits
    hsmart 11

end Analyzer

end IndexAlgebra
