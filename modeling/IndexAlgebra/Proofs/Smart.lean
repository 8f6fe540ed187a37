import IndexAlgebra.Proofs.Context
import IndexAlgebra.Proofs.Expr.Coherent
import IndexAlgebra.Proofs.Folding
import IndexAlgebra.Smart
/-!
# Smart constructors keep values

An `Application` of one of the constructors that fold can be made as it is (`Application.raw`) or by
the constructor (`Application.smart`). Where the node as it is has a value, what the constructor
gives back has the same value, if it gives back anything; for connectives, it is zero exactly if the
node is (`Application.smart_value?`).

A constructor tells by their handles whether two operands are the same node and whether an operand
is one of the infinities, so that the operands must be nodes of a program that has the infinities
too. The infinities stand for the highest and the lowest word.
-/

namespace IndexAlgebra

/-- An application of one of the constructors that fold. -/
inductive Application where
  | binary (op : BinaryOp) (a b : Expr)
  | neg (a : Expr)
  | not (a : Expr)
  | ifThenElse (cond yes no : Expr)
  | leftShift (a b : Expr)
  | rightShift (a b : Expr)
  | bitAnd (a b : Expr)
  | bitOr (a b : Expr)
  | bitXor (a b : Expr)
  | bitNot (a : Expr)

namespace Application

def operands : Application → List Expr
  | binary _ a b => [a, b]
  | neg a => [a]
  | not a => [a]
  | ifThenElse cond yes no => [cond, yes, no]
  | leftShift a b => [a, b]
  | rightShift a b => [a, b]
  | bitAnd a b => [a, b]
  | bitOr a b => [a, b]
  | bitXor a b => [a, b]
  | bitNot a => [a]

/-- The application as a node, or as the difference of zero and the operand for a negation. -/
def raw (ctx : Context) : Application → Build Expr
  | binary op a b => Build.binary op a b
  | neg a => do Build.binary .sub (← Build.int 0) a
  | not a => Build.not a
  | ifThenElse cond yes no => Build.call ctx.builtins.ifThenElse [cond, yes, no]
  | leftShift a b => Build.call ctx.builtins.leftShift [a, b]
  | rightShift a b => Build.call ctx.builtins.rightShift [a, b]
  | bitAnd a b => Build.call ctx.builtins.bitAnd [a, b]
  | bitOr a b => Build.call ctx.builtins.bitOr [a, b]
  | bitXor a b => Build.call ctx.builtins.bitXor [a, b]
  | bitNot a => Build.call ctx.builtins.bitNot [a]

/-- The application by its smart constructor. -/
def smart (ctx : Context) : Application → ExceptT FoldError Build Expr
  | binary .add a b => Smart.add a b
  | binary .sub a b => Smart.sub a b
  | binary .mul a b => Smart.mul a b
  | binary .div a b => Smart.truncDiv a b
  | binary .mod a b => Smart.truncMod a b
  | binary .floorDiv a b => Smart.floorDiv a b
  | binary .floorMod a b => Smart.floorMod a b
  | binary .min a b => ctx.min a b
  | binary .max a b => ctx.max a b
  | binary .eq a b => Smart.equal a b
  | binary .ne a b => Smart.notEqual a b
  | binary .lt a b => Smart.less a b
  | binary .le a b => Smart.lessEqual a b
  | binary .gt a b => Smart.greater a b
  | binary .ge a b => Smart.greaterEqual a b
  | binary .and a b => Smart.logicalAnd a b
  | binary .or a b => Smart.logicalOr a b
  | neg a => Smart.neg a
  | not a => Smart.logicalNot a
  | ifThenElse cond yes no => ctx.ifThenElse cond yes no
  | leftShift a b => ctx.leftShift a b
  | rightShift a b => ctx.rightShift a b
  | bitAnd a b => ctx.bitAnd a b
  | bitOr a b => ctx.bitOr a b
  | bitXor a b => ctx.bitXor a b
  | bitNot a => ctx.bitNot a

/-- Whether a value may stand for the value of the application. -/
def Agree (app : Application) (w v : Int64) : Prop :=
  match app with
  | binary op _ _ => op.Agree w v
  | _ => w = v

end Application

section Values

variable {I : Interpretation} {env : Assignment} {p : Int64 → Prop}

/-- What a program makes, if it makes something, has a value with a property. -/
def Makes (I : Interpretation) (env : Assignment) (x : ExceptT FoldError Build Expr)
    (p : Int64 → Prop) : Prop :=
  ∀ next e next', x.run.run next = (.ok e, next') → ∃ w, e.value? I env = some w ∧ p w

theorem makes_lift_iff {x : Build Expr} :
    Makes I env x p ↔ ∀ next, ∃ w, (x.run next).1.value? I env = some w ∧ p w := by
  constructor
  · exact fun h next => h next _ _ rfl
  · intro h next e next' hrun
    cases hrun
    exact h next

theorem makes_return {e : Expr} {w : Int64} (h : e.value? I env = some w) (hp : p w) :
    Makes I env (return e : Build Expr) p :=
  makes_lift_iff.2 fun _ => ⟨w, h, hp⟩

theorem makes_tryOrElse {folded : Except FoldError (Option Reduct)} {otherwise : Build Expr}
    (hfolded : ∀ r, folded = .ok (some r) → ∃ w, r.value? I env = some w ∧ p w)
    (hotherwise : ∀ next, ∃ w, (otherwise.run next).1.value? I env = some w ∧ p w) :
    Makes I env (Smart.tryOrElse folded otherwise) p := by
  match folded with
  | .error e => nofun
  | .ok none => exact makes_lift_iff.2 hotherwise
  | .ok (some (.operand e)) => exact makes_lift_iff.2 fun _ => hfolded _ rfl
  | .ok (some (.int n)) => exact makes_lift_iff.2 fun _ => hfolded _ rfl
  | .ok (some (.float f)) =>
    obtain ⟨w, hw, -⟩ := hfolded _ rfl
    cases hw

theorem makes_orElse {folded : Option Reduct} {otherwise : Build Expr}
    (hfolded : ∀ r, folded = some r → ∃ w, r.value? I env = some w ∧ p w)
    (hotherwise : ∀ next, ∃ w, (otherwise.run next).1.value? I env = some w ∧ p w) :
    Makes I env (Smart.orElse folded otherwise) p := by
  change Makes I env (Smart.tryOrElse (.ok folded) otherwise) p
  exact makes_tryOrElse (fun r hr => hfolded r (Except.ok.inj hr)) hotherwise

variable {ctx : Context} {a b : Expr} {h : Handle} {v : Int64}

theorem makes_tryBinary (op : BinaryOp) (hab : a.sameAs b = true → a = b)
    (hv : (Expr.binary h op a b).value? I env = some v) :
    Makes I env (Smart.tryBinary op a b) (op.Agree · v) := by
  obtain ⟨x, y, z, hx, hy, hz, rfl⟩ := Expr.value?_binary_eq_some hv
  exact makes_tryOrElse (fun r hr => Folding.value?_binary hab hr hx hy hz)
    fun _ => ⟨_, hv, op.agree_self _⟩

theorem makes_sub (hv : (Expr.binary h .sub a b).value? I env = some v) :
    Makes I env (Smart.sub a b) (· = v) := by
  obtain ⟨x, y, z, hx, hy, hz, rfl⟩ := Expr.value?_binary_eq_some hv
  cases hz
  exact makes_orElse (fun r hr => ⟨_, Folding.value?_sub hr hx hy, rfl⟩) fun _ => ⟨_, hv, rfl⟩

theorem makes_neg (hv : (Expr.binary h .sub (.int h 0) a).value? I env = some v) :
    Makes I env (Smart.neg a) (· = v) := by
  have hsub (n : Handle) : Makes I env (Smart.sub (.int n 0) a) (· = v) := makes_sub (h := h) hv
  cases a with
  | int _ n =>
    cases hv
    exact makes_lift_iff.2 fun _ => ⟨-n, rfl, by simp⟩
  | float => cases hv
  | _ => exact makes_lift_iff.2 fun n => makes_lift_iff.1 (hsub n) (n + 1)

theorem makes_shift {op : Op} {word : Int64 → Nat → Int64} {f : Int → Nat → Int}
    (hword : ∀ x n, word x n = .ofInt (f x.toInt n))
    (hf : I.builtins.operation? op = some (Word.shiftBy? f))
    (hv : (Expr.call h op [a, b]).value? I env = some v) :
    Makes I env (Smart.tryOrElse (Folding.shift? word a b) (Build.call op [a, b])) (· = v) := by
  rw [Expr.value?_call hf] at hv
  refine makes_tryOrElse (fun r hr => ?_) fun _ => ⟨v, (Expr.value?_call hf).trans hv, rfl⟩
  obtain ⟨x, hx, hv⟩ := Option.bind_eq_some_iff.1 hv
  obtain ⟨y, hy, hv⟩ := Option.bind_eq_some_iff.1 hv
  obtain ⟨-, hv⟩ := Option.ite_none_left_eq_some.1 hv
  cases hv
  exact ⟨_, Folding.value?_shift hword hr hx hy, rfl⟩

theorem makes_bitwise {op : Op} {word : Int64 → Int64 → Int64}
    (hf : I.builtins.operation? op = some fun x y => some (word x y))
    (hv : (Expr.call h op [a, b]).value? I env = some v) :
    Makes I env (Smart.orElse (Folding.bitwise? word a b) (Build.call op [a, b])) (· = v) := by
  rw [Expr.value?_call hf] at hv
  refine makes_orElse (fun r hr => ?_) fun _ => ⟨v, (Expr.value?_call hf).trans hv, rfl⟩
  obtain ⟨x, hx, hv⟩ := Option.bind_eq_some_iff.1 hv
  obtain ⟨y, hy, hv⟩ := Option.bind_eq_some_iff.1 hv
  cases hv
  exact ⟨_, Folding.value?_bitwise hr hx hy, rfl⟩

theorem makes_not (hv : (Expr.not h a).value? I env = some v) :
    Makes I env (Smart.logicalNot a) (· = v) := by
  refine makes_orElse (fun r hr => ?_) fun _ => ⟨v, hv, rfl⟩
  obtain ⟨x, hx, hv⟩ := Option.bind_eq_some_iff.1 hv
  cases hv
  exact ⟨_, Folding.value?_not hr hx, rfl⟩

theorem makes_ifThenElse {cond yes no : Expr} (hk : I.builtins = ctx.builtins)
    (hv : (Expr.call h ctx.builtins.ifThenElse [cond, yes, no]).value? I env = some v) :
    Makes I env (ctx.ifThenElse cond yes no) (· = v) := by
  have hcall (h : Handle) : (Expr.call h ctx.builtins.ifThenElse [cond, yes, no]).value? I env =
      (cond.value? I env).bind fun c => if c = 0 then no.value? I env else yes.value? I env := by
    rw [Expr.value?, hk, if_pos rfl]
    rfl
  unfold Context.ifThenElse
  rw [hcall] at hv
  split
  · next n hn =>
    rw [Expr.value?_of_int? hn, Option.bind_some] at hv
    split_ifs at hv ⊢
    · exact makes_return hv rfl
    · exact makes_return hv rfl
  · exact makes_lift_iff.2 fun next => ⟨v, (hcall next).trans hv, rfl⟩

theorem makes_bitNot (hk : I.builtins = ctx.builtins)
    (hv : (Expr.call h ctx.builtins.bitNot [a]).value? I env = some v) :
    Makes I env (ctx.bitNot a) (· = v) := by
  have hcall (h : Handle) : (Expr.call h ctx.builtins.bitNot [a]).value? I env =
      (a.value? I env).map (~~~ ·) := by
    rw [Expr.value?, hk, if_pos rfl]
    cases a.value? I env <;> rfl
  unfold Context.bitNot
  rw [hcall] at hv
  split
  · next n hn =>
    rw [Expr.value?_of_int? hn] at hv
    exact makes_lift_iff.2 fun _ => ⟨_, rfl, Option.some.inj hv⟩
  · exact makes_lift_iff.2 fun next => ⟨v, (hcall next).trans hv, rfl⟩

/-- The infinities are told by their handles from the other operands, and stand for the ends of the
words. -/
structure Infinities (ctx : Context) (env : Assignment) (operands : List Expr) : Prop where
  posInf : env ctx.posInf = .maxValue
  negInf : env ctx.negInf = .minValue
  isPosInf : ∀ e ∈ operands, ctx.isPosInf e = true → e = .var ctx.posInf
  isNegInf : ∀ e ∈ operands, ctx.isNegInf e = true → e = .var ctx.negInf

theorem Infinities.le {operands : List Expr} {x y : Int64} (h : Infinities ctx env operands)
    (ha : a ∈ operands) (hb : b ∈ operands) (hx : a.value? I env = some x)
    (hy : b.value? I env = some y) (hab : (ctx.isPosInf a || ctx.isNegInf b) = true) :
    y.toInt ≤ x.toInt := by
  rcases Bool.or_eq_true_iff.1 hab with hab | hab
  · rw [h.isPosInf a ha hab] at hx
    cases hx
    rw [h.posInf]
    exact Int64.toInt_le y
  · rw [h.isNegInf b hb hab] at hy
    cases hy
    rw [h.negInf]
    exact Int64.le_toInt x

theorem makes_min (hinf : Infinities ctx env [a, b]) (hab : a.sameAs b = true → a = b)
    (hv : (Expr.binary h .min a b).value? I env = some v) :
    Makes I env (ctx.min a b) (· = v) := by
  obtain ⟨x, y, z, hx, hy, hz, hvz⟩ := Expr.value?_binary_eq_some hv
  cases hz
  rw [← Int.min_def] at hvz
  unfold Context.min
  split_ifs with hb ha
  · have hle := hinf.le (.head _) (.tail _ (.head _)) hx hy hb
    exact makes_return hy (by rw [hvz, Int.min_eq_right hle, Int64.ofInt_toInt])
  · rw [Bool.or_comm] at ha
    have hle := hinf.le (.tail _ (.head _)) (.head _) hy hx ha
    exact makes_return hx (by rw [hvz, Int.min_eq_left hle, Int64.ofInt_toInt])
  · exact makes_tryBinary .min hab hv

theorem makes_max (hinf : Infinities ctx env [a, b]) (hab : a.sameAs b = true → a = b)
    (hv : (Expr.binary h .max a b).value? I env = some v) :
    Makes I env (ctx.max a b) (· = v) := by
  obtain ⟨x, y, z, hx, hy, hz, hvz⟩ := Expr.value?_binary_eq_some hv
  cases hz
  rw [← Int.max_def] at hvz
  unfold Context.max
  split_ifs with ha hb
  · have hle := hinf.le (.head _) (.tail _ (.head _)) hx hy ha
    exact makes_return hx (by rw [hvz, Int.max_eq_left hle, Int64.ofInt_toInt])
  · rw [Bool.or_comm] at hb
    have hle := hinf.le (.tail _ (.head _)) (.head _) hy hx hb
    exact makes_return hy (by rw [hvz, Int.max_eq_right hle, Int64.ofInt_toInt])
  · exact makes_tryBinary .max hab hv

end Values

namespace Application

/-- Where the application as a node has a value, what its smart constructor gives back, if it gives
back something, has a value that may stand for it. The operands and the infinities must be nodes
that a program has made. -/
theorem smart_value? {nodes : Set Expr} (hnodes : Expr.Coherent nodes) (ctx : Context)
    (hctx : ctx.Made) (hposInf : .var ctx.posInf ∈ nodes) (hnegInf : .var ctx.negInf ∈ nodes)
    (env : Assignment) (hpos : env ctx.posInf = .maxValue) (hneg : env ctx.negInf = .minValue)
    (other : Assignment → Expr → Option Int64) (app : Application)
    (happ : ∀ e ∈ app.operands, e ∈ nodes) (next : Handle) {next' : Handle} {v : Int64}
    (hv : ((app.raw ctx).run next).1.value? ⟨ctx.builtins, other⟩ env = some v) {e : Expr}
    (hsmart : (app.smart ctx).run.run next = (.ok e, next')) :
    ∃ w, e.value? ⟨ctx.builtins, other⟩ env = some w ∧ app.Agree w v := by
  have hinf : Infinities ctx env app.operands := {
    posInf := hpos
    negInf := hneg
    isPosInf := fun a ha h => hnodes.handle_inj a (happ a ha) _ hposInf (beq_iff_eq.1 h)
    isNegInf := fun a ha h => hnodes.handle_inj a (happ a ha) _ hnegInf (beq_iff_eq.1 h) }
  have hsame (a) (ha : a ∈ app.operands) (b) (hb : b ∈ app.operands) : a.sameAs b = true → a = b :=
    fun h => hnodes.handle_inj a (happ a ha) b (happ b hb) (beq_iff_eq.1 h)
  have hop {op f} := Builtins.operation?_of_mem hctx.nodup (p := (op, f))
  suffices Makes ⟨ctx.builtins, other⟩ env (app.smart ctx) (app.Agree · v) from
    this next e next' hsmart
  cases app with
  | binary op a b =>
    have hab := hsame a (.head _) b (.tail _ (.head _))
    cases op
    case min => exact makes_min hinf hab hv
    case max => exact makes_max hinf hab hv
    all_goals exact makes_tryBinary _ hab hv
  | neg a => exact makes_neg hv
  | not a => exact makes_not hv
  | ifThenElse cond yes no => exact makes_ifThenElse rfl hv
  | leftShift a b =>
    exact makes_shift (f := fun n places => n * 2 ^ places) Word.shiftLeft_eq (hop (.head _)) hv
  | rightShift a b =>
    exact makes_shift (f := fun n places => n / 2 ^ places) Word.shiftRight_eq
      (hop (.tail _ (.head _))) hv
  | bitAnd a b => exact makes_bitwise (hop (.tail _ (.tail _ (.head _)))) hv
  | bitOr a b => exact makes_bitwise (hop (.tail _ (.tail _ (.tail _ (.head _))))) hv
  | bitXor a b => exact makes_bitwise (hop (.tail _ (.tail _ (.tail _ (.tail _ (.head _)))))) hv
  | bitNot a => exact makes_bitNot rfl hv

namespace Flag

def ctx : Context := (Context.new.run 0).1

def x : Var := ⟨9, "x", false⟩

/-- The context's infinities, and five for every other variable. -/
def env : Assignment := fun v =>
  if v = ctx.posInf then .maxValue else if v = ctx.negInf then .minValue else 5

/-- Whether `x` or a literal eight is not zero. -/
def app : Application := .binary .or (.var x) (.int 10 8)

theorem made : Expr.Made {.int 10 8, .var x, .var ctx.negInf, .var ctx.posInf} 11 := by
  rw [← LawfulSingleton.insert_empty_eq]
  exact .node (.node (.node (.node (.start 7) rfl nofun) rfl nofun) rfl nofun) rfl nofun

end Flag

/-- The literal itself stands for the truth value. -/
theorem smart_value?_flag :
    let I : Interpretation := ⟨Flag.ctx.builtins, fun _ _ => none⟩
    ((Flag.app.raw Flag.ctx).run 11).1.value? I Flag.env = some 1 ∧
      (Flag.app.smart Flag.ctx).run.run 11 = (.ok (.int 10 8), 11) ∧
      (Expr.int 10 8).value? I Flag.env = some 8 ∧
      ∃ w, (Expr.int 10 8).value? I Flag.env = some w ∧ Flag.app.Agree w 1 :=
  ⟨by decide, rfl, rfl, smart_value? Flag.made.coherent Flag.ctx (.new 0) (by simp) (by simp)
    Flag.env (by decide) (by decide) (fun _ _ => none) Flag.app (by simp [operands, Flag.app]) 11
    (by decide) rfl⟩

end Application

end IndexAlgebra
