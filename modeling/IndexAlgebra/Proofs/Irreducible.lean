import IndexAlgebra.Proofs.Expr.Equal
import IndexAlgebra.Proofs.Reduct
/-!
# Expressions to which no rule applies

What the constructors that fold give back is an operand, a literal, or a node that they would make
again as it is (`Expr.Settled`). So if all operands are settled throughout, the result is, and no
rule of folding applies anywhere in an expression that has been made in this way
(`SmartBuilt.everywhere_irreducible`).

The nodes of a constructor are told by `Expr.application?`. A negation has no nodes of its own: it
makes a difference, of which zero is an operand that has not been there before.
-/

namespace IndexAlgebra

/-! ## Folding gives back operands -/

namespace Folding

variable {op : BinaryOp} {a b e : Expr} {word : Int64 → Int64 → Int64}
  {number : Binary64 → Binary64 → Binary64}

theorem mem_of_division? (h : division? word number a b = .ok (some (.operand e))) :
    e ∈ [a, b] := by
  revert h
  fun_cases division? word number a b <;> simp_all

theorem mem_of_modulo? (h : modulo? word number a b = .ok (some (.operand e))) :
    e ∈ [a, b] := by
  have hone : modOne? b ≠ some (.operand e) := by
    fun_cases modOne? b <;> simp
  revert h
  fun_cases modulo? word number a b <;> grind

theorem mem_of_binary? (h : binary? op a b = .ok (some (.operand e))) : e ∈ [a, b] := by
  revert h
  cases op <;> simp only [binary?, Except.ok.injEq]
  case add => fun_cases add? a b <;> simp_all
  case sub => fun_cases sub? a b <;> simp_all
  case mul => fun_cases mul? a b <;> simp_all
  case div | floorDiv => exact mem_of_division?
  case mod | floorMod => exact mem_of_modulo?
  case min => fun_cases min? a b <;> simp_all
  case max => fun_cases max? a b <;> simp_all
  case and => fun_cases logical? true a b <;> grind
  case or => fun_cases logical? false a b <;> grind
  all_goals fun_cases comparison? _ a b <;> simp [Reduct.bool]

theorem shift?_ne_operand {word : Int64 → Nat → Int64} :
    shift? word a b ≠ .ok (some (.operand e)) := by
  fun_cases shift? word a b with
  | case1 x y hx hy => cases h : shiftAmount y <;> simp [Except.map]
  | case2 => simp

theorem bitwise?_ne_operand : bitwise? word a b ≠ some (.operand e) := by
  fun_cases bitwise? word a b <;> simp

/-- An operator that divides takes no literal zero as the divisor. -/
theorem isZero_eq_false_of_divides (hop : op ∈ [.div, .mod, .floorDiv, .floorMod])
    {folded : Option Reduct} (h : binary? op a b = .ok folded) : b.isZero = false := by
  rw [← Bool.not_eq_true]
  intro hb
  simp only [List.mem_cons, List.not_mem_nil, or_false] at hop
  rcases hop with rfl | rfl | rfl | rfl <;> simp [binary?, division?, modulo?, hb] at h

end Folding

theorem Application.mem_of_fold? {app : Application} {e : Expr}
    (h : app.fold? = .ok (some (.operand e))) : e ∈ app.operands := by
  cases app with
  | binary op a b => exact Folding.mem_of_binary? h
  | neg a => cases a <;> cases h
  | not a =>
    obtain ⟨n, -, hn⟩ := Option.map_eq_some_iff.1 (Except.ok.inj h)
    cases hn
  | ifThenElse cond yes no =>
    obtain ⟨n, -, hn⟩ := Option.map_eq_some_iff.1 (Except.ok.inj h)
    cases hn
    split_ifs <;> simp [operands]
  | bitNot a =>
    obtain ⟨n, -, hn⟩ := Option.map_eq_some_iff.1 (Except.ok.inj h)
    cases hn
  | leftShift a b => exact absurd h Folding.shift?_ne_operand
  | rightShift a b => exact absurd h Folding.shift?_ne_operand
  | bitAnd | bitOr | bitXor => exact absurd (Except.ok.inj h) Folding.bitwise?_ne_operand

/-! ## Nodes and the applications that they are -/

namespace Expr

/-- The application that a node is, if a constructor that folds makes such nodes. -/
def application? (k : Builtins) : Expr → Option Application
  | binary _ op a b => some (.binary op a b)
  | not _ a => some (.not a)
  | call _ op [a] => if op = k.bitNot then some (.bitNot a) else none
  | call _ op [a, b] =>
    if op = k.leftShift then some (.leftShift a b)
    else if op = k.rightShift then some (.rightShift a b)
    else if op = k.bitAnd then some (.bitAnd a b)
    else if op = k.bitOr then some (.bitOr a b)
    else if op = k.bitXor then some (.bitXor a b)
    else none
  | call _ op [cond, yes, no] =>
    if op = k.ifThenElse then some (.ifThenElse cond yes no) else none
  | _ => none

/-- Whether a node is a literal. -/
def isLiteral : Expr → Bool
  | int .. | float .. | str .. => true
  | _ => false

/-- No rule of folding applies to the root, and a known operator has the operands that it takes. -/
structure Irreducible (k : Builtins) (e : Expr) : Prop where
  fold? : ∀ app, e.application? k = some app → app.fold? = .ok none
  known : ∀ h op args, e = .call h op args → op ∈ k.all → (e.application? k).isSome = true

/-- A node made anew as it is. Variables and literals, which have no children, stay. -/
def remake : Expr → Build Expr
  | cast _ value type => Build.cast value type
  | binary _ op a b => Build.binary op a b
  | not _ a => Build.not a
  | select _ cond yes no => Build.select cond yes no
  | ramp _ base stride lanes => Build.ramp base stride lanes
  | broadcast _ value lanes => Build.broadcast value lanes
  | letIn _ v value body => Build.letIn v value body
  | call _ op args => Build.call op args
  | shuffle _ vectors indices => Build.shuffle vectors indices
  | e => return e

/-- A node made anew from its children, by a constructor that folds if there is one. -/
def rebuild (ctx : Context) (e : Expr) : ExceptT FoldError Build Expr :=
  match e.application? ctx.builtins with
  | some app => app.smart ctx
  | none => (e.remake : Build Expr)

/-- The constructor would make the application of the root once more as it is. -/
def Settled (ctx : Context) (e : Expr) : Prop :=
  match e.application? ctx.builtins with
  | some app => app.Folds ctx ∧ app.fold? = .ok none
  | none => ∀ h op args, e = .call h op args → op ∉ ctx.builtins.all

end Expr

section Applications

variable {ctx : Context} {app : Application} {e : Expr}

theorem Application.application?_raw (hk : ctx.builtins.all.Nodup) (hneg : ∀ a, app ≠ .neg a)
    (next : Handle) :
    ((app.raw ctx).run next).1.application? ctx.builtins = some app := by
  simp only [Builtins.all, List.nodup_cons, List.mem_cons, not_or, List.not_mem_nil] at hk
  cases app with
  | neg a => exact absurd rfl (hneg a)
  | binary | not => rfl
  | ifThenElse | bitNot => exact if_pos rfl
  | leftShift a b | rightShift a b | bitAnd a b | bitOr a b | bitXor a b =>
    show (Expr.call next _ [a, b]).application? ctx.builtins = _
    simp [Expr.application?, hk, eq_comm]

theorem Application.mem_children_raw {c : Expr} {next : Handle}
    (hc : c ∈ ((app.raw ctx).run next).1.children) : c ∈ app.operands ∨ c = .int next 0 := by
  cases app with
  | neg a =>
    rcases hc with _ | ⟨_, hc⟩
    · exact .inr rfl
    · exact .inl hc
  | _ => exact .inl hc

theorem Expr.structEq_remake (e : Expr) (next : Handle) :
    (e.remake.run next).1.structEq e = true := by
  cases e with
  | var | int | float | str => exact structEq_self _
  | not | select | ramp | broadcast => exact structEq_of_children_eq rfl rfl
  | _ => exact structEq_of_children_eq (beq_self_eq_true _) rfl

theorem Expr.remake_eq_raw (h : e.application? ctx.builtins = some app) :
    e.remake = app.raw ctx := by
  revert h
  fun_cases application? ctx.builtins e <;> rintro ⟨⟩ <;> rfl

end Applications

/-! ## What smart constructors make -/

/-- The expressions that can be made of variables and literals by the constructors that fold, those
of one context among them, and by the plain constructors of the nodes that never fold. -/
inductive SmartBuilt (ctx : Context) : Expr → Prop where
  | var {v} : SmartBuilt ctx (.var v)
  | int {h n} : SmartBuilt ctx (.int h n)
  | float {h x} : SmartBuilt ctx (.float h x)
  | str {h s} : SmartBuilt ctx (.str h s)
  | smart {app : Application} {next e next'} : (∀ a ∈ app.operands, SmartBuilt ctx a) →
      (app.smart ctx).run.run next = (.ok e, next') → SmartBuilt ctx e
  | ceilDiv {a b next e next'} : SmartBuilt ctx a → SmartBuilt ctx b →
      (Smart.ceilDiv a b).run.run next = (.ok e, next') → SmartBuilt ctx e
  | cast {h value type} : SmartBuilt ctx value → SmartBuilt ctx (.cast h value type)
  | select {h cond yes no} : SmartBuilt ctx cond → SmartBuilt ctx yes → SmartBuilt ctx no →
      SmartBuilt ctx (.select h cond yes no)
  | ramp {h base stride lanes} : SmartBuilt ctx base → SmartBuilt ctx stride →
      SmartBuilt ctx lanes → SmartBuilt ctx (.ramp h base stride lanes)
  | broadcast {h value lanes} : SmartBuilt ctx value → SmartBuilt ctx lanes →
      SmartBuilt ctx (.broadcast h value lanes)
  | letIn {h v value body} : SmartBuilt ctx value → SmartBuilt ctx body →
      SmartBuilt ctx (.letIn h v value body)
  | call {h op args} : op ∉ ctx.builtins.all → (∀ a ∈ args, SmartBuilt ctx a) →
      SmartBuilt ctx (.call h op args)
  | shuffle {h vectors indices} : (∀ a ∈ vectors, SmartBuilt ctx a) →
      (∀ a ∈ indices, SmartBuilt ctx a) → SmartBuilt ctx (.shuffle h vectors indices)

section Built

variable {ctx : Context} {app : Application} {e : Expr} {next next' : Handle}

/-- A node that no constructor which folds makes, and that is no call, is settled. -/
theorem Expr.settled_of_ne_call (hnone : e.application? ctx.builtins = none)
    (hcall : ∀ h op args, e ≠ .call h op args) : e.Settled ctx := by
  rw [Settled, hnone]
  exact fun h op args he => absurd he (hcall h op args)

theorem Expr.everywhere_settled_of_isLeaf (he : e.isLeaf = true) : e.Everywhere (·.Settled ctx) := by
  refine everywhere_of_isLeaf he ?_
  cases e with
  | var | int | float | str => exact settled_of_ne_call rfl (by simp)
  | _ => cases he

theorem Application.settled_raw (hk : ctx.builtins.all.Nodup) (hfolds : app.Folds ctx)
    (hfold : app.fold? = .ok none) (next : Handle) :
    ((app.raw ctx).run next).1.Settled ctx := by
  by_cases hneg : ∃ a, app = .neg a
  · obtain ⟨a, rfl⟩ := hneg
    -- The node is a difference, and zero minus something that is no literal does not fold either.
    refine ⟨rfl, ?_⟩
    cases a <;> first | rfl | cases hfold
  · rw [Expr.Settled, application?_raw hk (not_exists.1 hneg) next]
    exact ⟨hfolds, hfold⟩

/-- The result is an operand, a literal, or a node that the constructor would make again. -/
theorem everywhere_smart (hk : ctx.builtins.all.Nodup) (app : Application)
    (hoperands : ∀ a ∈ app.operands, a.Everywhere (·.Settled ctx)) (next : Handle)
    (hrun : (app.smart ctx).run.run next = (.ok e, next')) : e.Everywhere (·.Settled ctx) := by
  rcases app.smart_cases ctx with ⟨-, a, ha, hsmart⟩ | hfolds
  · rw [hsmart] at hrun
    cases hrun
    exact hoperands _ ha
  rcases hfolds.outcome hrun with ⟨hfold, rfl⟩ | ⟨r, hfold, rfl⟩
  · refine Expr.everywhere_iff.2 ⟨app.settled_raw hk hfolds hfold next, fun c hc => ?_⟩
    rcases Application.mem_children_raw hc with hc | rfl
    · exact hoperands c hc
    · exact Expr.everywhere_settled_of_isLeaf rfl
  · cases r with
    | operand e => exact hoperands e (Application.mem_of_fold? hfold)
    | int n => exact Expr.everywhere_settled_of_isLeaf rfl
    | float x => exact Expr.everywhere_settled_of_isLeaf rfl

theorem everywhere_ceilDiv {a b : Expr} (hk : ctx.builtins.all.Nodup)
    (ha : a.Everywhere (·.Settled ctx)) (hb : b.Everywhere (·.Settled ctx))
    (hrun : (Smart.ceilDiv a b).run.run next = (.ok e, next')) : e.Everywhere (·.Settled ctx) := by
  have pair {op : BinaryOp} {x y : Expr} (hx : x.Everywhere (·.Settled ctx))
      (hy : y.Everywhere (·.Settled ctx)) :
      ∀ c ∈ (Application.binary op x y).operands, c.Everywhere (·.Settled ctx) :=
    List.forall_mem_cons.2 ⟨hx, List.forall_mem_singleton.2 hy⟩
  let sum := (Smart.add a b).run next
  let one := (Build.int 1).run sum.2
  let numerator := (Smart.sub sum.1 one.1).run one.2
  have hsum : sum.1.Everywhere (·.Settled ctx) :=
    everywhere_smart hk (.binary .add a b) (pair ha hb) next rfl
  have hone : one.1.Everywhere (·.Settled ctx) := Expr.everywhere_settled_of_isLeaf rfl
  have hnumerator : numerator.1.Everywhere (·.Settled ctx) :=
    everywhere_smart hk (.binary .sub sum.1 one.1) (pair hsum hone) one.2 rfl
  exact everywhere_smart hk (.binary .floorDiv numerator.1 b) (pair hnumerator hb) numerator.2 hrun

theorem Expr.settled_call {h : Handle} {op : Op} {args : List Expr}
    (hop : op ∉ ctx.builtins.all) : (call h op args).Settled ctx := by
  have hnone : (call h op args).application? ctx.builtins = none := by
    simp only [Builtins.all, List.mem_cons, not_or, List.not_mem_nil] at hop
    rcases args with - | ⟨_, - | ⟨_, - | ⟨_, - | _⟩⟩⟩ <;> simp [application?, hop]
  rw [Settled, hnone]
  rintro _ _ _ ⟨⟩
  exact hop

theorem SmartBuilt.everywhere (hk : ctx.builtins.all.Nodup) (he : SmartBuilt ctx e) :
    e.Everywhere (·.Settled ctx) := by
  induction he with
  | var | int | float | str => exact Expr.everywhere_settled_of_isLeaf rfl
  | smart _ hrun ih => exact everywhere_smart hk _ ih _ hrun
  | ceilDiv _ _ hrun iha ihb => exact everywhere_ceilDiv hk iha ihb hrun
  | call hop _ ih => exact Expr.everywhere_iff.2 ⟨Expr.settled_call hop, ih⟩
  | shuffle _ _ ihv ihi =>
    exact Expr.everywhere_iff.2 ⟨Expr.settled_of_ne_call rfl (by simp),
      List.forall_mem_append.2 ⟨ihv, ihi⟩⟩
  | _ =>
    exact Expr.everywhere_iff.2 ⟨Expr.settled_of_ne_call rfl (by simp), by simp [Expr.children, *]⟩

theorem Expr.Settled.irreducible (h : e.Settled ctx) : e.Irreducible ctx.builtins := by
  unfold Settled at h
  split at h
  · next app happ =>
    refine ⟨fun app' happ' => ?_, fun _ _ _ _ _ => ?_⟩
    · cases happ.symm.trans happ'
      exact h.2
    · rw [happ, Option.isSome_some]
  · next hnone =>
    refine ⟨fun app happ => ?_, fun h' op args he hop => absurd hop (h h' op args he)⟩
    cases hnone.symm.trans happ

theorem Expr.Settled.rebuild (h : e.Settled ctx) (next : Handle) :
    ∃ e' next', (e.rebuild ctx).run.run next = (.ok e', next') ∧ e'.structEq e = true := by
  have hmade : e.rebuild ctx = (e.remake : Build Expr) := by
    unfold Settled at h
    unfold Expr.rebuild
    split at h
    · next app happ =>
      rw [show app.smart ctx = _ from h.1, h.2, remake_eq_raw happ]
      rfl
    · rfl
  rw [hmade]
  exact ⟨_, _, rfl, structEq_remake e next⟩

end Built

/-- No rule of folding applies at any node of an expression that smart constructors have made. So
no division in it is by a literal zero, and making any of its nodes anew from the children succeeds
and gives a node that is structurally equal. -/
theorem SmartBuilt.everywhere_irreducible {ctx : Context} (hctx : ctx.Made) {e : Expr}
    (he : SmartBuilt ctx e) :
    e.Everywhere fun x =>
      x.Irreducible ctx.builtins ∧
      (∀ h op a b, x = .binary h op a b → op ∈ [.div, .mod, .floorDiv, .floorMod] →
        b.isZero = false) ∧
      ∀ next, ∃ x' next', (x.rebuild ctx).run.run next = (.ok x', next') ∧
        x'.structEq x = true := by
  refine (he.everywhere hctx.nodup).imp fun x hx => ⟨hx.irreducible, ?_, hx.rebuild⟩
  rintro h op a b rfl hop
  exact Folding.isZero_eq_false_of_divides hop (hx.irreducible.fold? _ rfl)

namespace Tiles

def ctx : Context := (Context.new.run 0).1

def x : Expr := .var ⟨9, "x", false⟩

def four : Expr := .int 10 4

/-- `x` divided by four and rounded up. -/
def count : Expr :=
  .binary 14 .floorDiv (.binary 13 .sub (.binary 11 .add x four) (.int 12 1)) four

/-- The quotient, or one if that is more. -/
def atLeastOne : Expr := .binary 16 .max count (.int 15 1)

theorem smartBuilt : SmartBuilt ctx atLeastOne := by
  have hceil : (Smart.ceilDiv x four).run.run 11 = (.ok count, 15) := rfl
  have hcount : SmartBuilt ctx count := .ceilDiv .var .int hceil
  have hoperands : ∀ a ∈ (Application.binary .max count (.int 15 1)).operands, SmartBuilt ctx a :=
    List.forall_mem_cons.2 ⟨hcount, List.forall_mem_singleton.2 .int⟩
  have hmax : ((Application.binary .max count (.int 15 1)).smart ctx).run.run 16 =
      (.ok atLeastOne, 17) := rfl
  exact .smart hoperands hmax

end Tiles

/-- The quotient within the larger of two values is made anew as a node that is structurally equal,
although the handle is another one. -/
theorem SmartBuilt.everywhere_irreducible_tiles :
    SmartBuilt Tiles.ctx Tiles.atLeastOne ∧
      Tiles.atLeastOne.at? [0] = some Tiles.count ∧ Tiles.four.isZero = false ∧
      Tiles.count.Irreducible Tiles.ctx.builtins ∧
      ∃ x' next', (Tiles.count.rebuild Tiles.ctx).run.run 17 = (.ok x', next') ∧
        x'.structEq Tiles.count = true := by
  obtain ⟨hirreducible, hdivisor, hrebuild⟩ :=
    SmartBuilt.everywhere_irreducible (.new 0) Tiles.smartBuilt [0] Tiles.count rfl
  exact ⟨Tiles.smartBuilt, rfl, hdivisor _ _ _ _ rfl (by decide), hirreducible, hrebuild 17⟩

namespace Choice

/-- A choice by the float 1.5 between one and two. -/
def application : Application :=
  .ifThenElse (.float 9 ⟨0x3ff8000000000000⟩) (.int 10 1) (.int 11 2)

/-- The choice as the node that is made of it. -/
def node : Expr :=
  .call 12 Tiles.ctx.builtins.ifThenElse application.operands

theorem smartBuilt : SmartBuilt Tiles.ctx node := by
  have hoperands : ∀ a ∈ application.operands, SmartBuilt Tiles.ctx a :=
    List.forall_mem_cons.2 ⟨.float, List.forall_mem_cons.2 ⟨.int, List.forall_mem_singleton.2 .int⟩⟩
  have hsmart : (application.smart Tiles.ctx).run.run 12 = (.ok node, 13) := rfl
  exact .smart hoperands hsmart

end Choice

/-- The condition of a choice can be a literal. It is no integer then, by which the choice would have
folded. -/
theorem SmartBuilt.not_everywhere_condition_not_literal :
    ¬ ∀ (ctx : Context) (e : Expr), ctx.Made → SmartBuilt ctx e → e.Everywhere fun x =>
      ∀ h cond yes no, x = .call h ctx.builtins.ifThenElse [cond, yes, no] →
        cond.isLiteral = false := by
  intro h
  have hcond := (h Tiles.ctx Choice.node (.new 0) Choice.smartBuilt).root _ _ _ _ rfl
  exact absurd hcond (by decide)

end IndexAlgebra
