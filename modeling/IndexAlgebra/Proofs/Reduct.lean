import IndexAlgebra.Proofs.Smart
/-!
# What an application folds to

All smart constructors follow one scheme. `Application.fold?` says what an application folds to, and
the constructor makes that, or makes the application as it is if the operands do not say enough. The
exception is the smaller or larger of two values of which one is an infinity: there the constructor
gives back an operand before it folds (`Application.smart_cases`).
-/

namespace IndexAlgebra

/-- A program that makes nodes, as one that may fail. -/
theorem run_lift {ε α : Type} {x : Build α} {r : α} {next next' : Handle}
    (h : x.run next = (r, next')) : (x : ExceptT ε Build α).run.run next = (.ok r, next') :=
  congrArg (fun p : α × Handle => ((.ok p.1 : Except ε α), p.2)) h

/-- What a program does after a step that succeeds. -/
theorem run_bind_of_ok {ε α β : Type} {x : ExceptT ε Build α} {f : α → ExceptT ε Build β} {r : α}
    {next next' : Handle} (h : x.run.run next = (.ok r, next')) :
    (x >>= f).run.run next = (f r).run.run next' := by
  rw [ExceptT.run_bind, StateT.run_bind, h]
  rfl

namespace Application

/-- What an application folds to. -/
def fold? : Application → Except FoldError (Option Reduct)
  | binary op a b => Folding.binary? op a b
  | neg (.int _ x) => .ok (some (.int (-x)))
  | neg (.float _ x) => .ok (some (.float x.neg))
  | neg _ => .ok none
  | not a => .ok (Folding.not? a)
  | ifThenElse cond yes no => .ok (cond.int?.map fun x => .operand (if x = 0 then no else yes))
  | leftShift a b => Folding.leftShift? a b
  | rightShift a b => Folding.rightShift? a b
  | bitAnd a b => .ok (Folding.bitwise? (· &&& ·) a b)
  | bitOr a b => .ok (Folding.bitwise? (· ||| ·) a b)
  | bitXor a b => .ok (Folding.bitwise? (· ^^^ ·) a b)
  | bitNot a => .ok (a.int?.map fun x => .int (~~~x))

/-- One of the operands stands for an infinity. -/
def HasInfinity (ctx : Context) (app : Application) : Prop :=
  ∃ a ∈ app.operands, (ctx.isPosInf a || ctx.isNegInf a) = true

instance (ctx : Context) (app : Application) : Decidable (app.HasInfinity ctx) :=
  inferInstanceAs (Decidable (∃ a ∈ app.operands, _))

/-- The constructor gives back one of the operands at once. -/
def GivesOperand (ctx : Context) (app : Application) : Prop :=
  ∃ a ∈ app.operands, app.smart ctx = (return a : Build Expr)

/-- The constructor makes what the operands fold to, or the application as it is. -/
def Folds (ctx : Context) (app : Application) : Prop :=
  app.smart ctx = Smart.tryOrElse app.fold? (app.raw ctx)

section Extremes

variable {ctx : Context} {a b : Expr}

theorem hasInfinity_of_left {op : BinaryOp} (h : (ctx.isPosInf a || ctx.isNegInf b) = true) :
    (binary op a b).HasInfinity ctx := by
  rcases Bool.or_eq_true_iff.1 h with h | h
  · exact ⟨a, .head _, by rw [h, Bool.true_or]⟩
  · exact ⟨b, .tail _ (.head _), by rw [h, Bool.or_true]⟩

theorem hasInfinity_of_right {op : BinaryOp} (h : (ctx.isNegInf a || ctx.isPosInf b) = true) :
    (binary op a b).HasInfinity ctx := by
  rcases Bool.or_eq_true_iff.1 h with h | h
  · exact ⟨a, .head _, by rw [h, Bool.or_true]⟩
  · exact ⟨b, .tail _ (.head _), by rw [h, Bool.true_or]⟩

theorem smart_min (ctx : Context) (a b : Expr) :
    (binary .min a b).HasInfinity ctx ∧ (binary .min a b).GivesOperand ctx ∨
      (binary .min a b).Folds ctx := by
  unfold GivesOperand Folds
  dsimp only [smart]
  unfold Context.min
  split_ifs with h h'
  · exact .inl ⟨hasInfinity_of_left h, b, .tail _ (.head _), rfl⟩
  · exact .inl ⟨hasInfinity_of_right h', a, .head _, rfl⟩
  · exact .inr rfl

theorem smart_max (ctx : Context) (a b : Expr) :
    (binary .max a b).HasInfinity ctx ∧ (binary .max a b).GivesOperand ctx ∨
      (binary .max a b).Folds ctx := by
  unfold GivesOperand Folds
  dsimp only [smart]
  unfold Context.max
  split_ifs with h h'
  · exact .inl ⟨hasInfinity_of_left h, a, .head _, rfl⟩
  · exact .inl ⟨hasInfinity_of_right h', b, .tail _ (.head _), rfl⟩
  · exact .inr rfl

end Extremes

/-- A constructor takes out an infinity, or it folds. -/
theorem smart_cases (app : Application) (ctx : Context) :
    app.HasInfinity ctx ∧ app.GivesOperand ctx ∨ app.Folds ctx := by
  cases app with
  | binary op a b =>
    cases op
    case min => exact smart_min ctx a b
    case max => exact smart_max ctx a b
    all_goals exact .inr rfl
  | neg a => cases a <;> exact .inr rfl
  | not | leftShift | rightShift | bitAnd | bitOr | bitXor => exact .inr rfl
  | ifThenElse cond yes no =>
    right
    simp only [Folds, smart, fold?, Context.ifThenElse]
    cases cond.int? <;> rfl
  | bitNot a =>
    right
    simp only [Folds, smart, fold?, Context.bitNot]
    cases a.int? <;> rfl

/-- What a constructor that folds gives back, if it gives back something. -/
theorem Folds.outcome {ctx : Context} {app : Application} (h : app.Folds ctx)
    {next next' : Handle} {e : Expr} (hrun : (app.smart ctx).run.run next = (.ok e, next')) :
    app.fold? = .ok none ∧ e = ((app.raw ctx).run next).1 ∨
      ∃ r, app.fold? = .ok (some r) ∧ e = ((Build.reduct r).run next).1 := by
  rw [h] at hrun
  revert hrun
  match app.fold? with
  | .error _ => nofun
  | .ok none =>
    rintro ⟨⟩
    exact .inl ⟨rfl, rfl⟩
  | .ok (some r) =>
    rintro ⟨⟩
    exact .inr ⟨r, rfl, rfl⟩

end Application

end IndexAlgebra
