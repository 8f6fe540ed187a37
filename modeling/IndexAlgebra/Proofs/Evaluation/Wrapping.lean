import IndexAlgebra.Proofs.Context
import IndexAlgebra.Proofs.Evaluation.Checked
/-!
# Evaluation in words

`e.value? I env` is the value of an expression in words of 64 bits, where `env` gives the values of
the variables: every result is reduced to a word, so that sums, differences and products wrap
around, and so does the quotient of the lowest word and minus one. An expression has no value if a
part that is evaluated has none; divisions by zero, shifts by a negative amount, and literals that
are not integers have none.

An expression has one value at most. The values of vectors, and of calls of operators that are not
known, are taken from elsewhere.
-/

namespace IndexAlgebra

/-- What expressions are evaluated with. -/
structure Interpretation where
  builtins : Builtins
  /-- The values of expressions that evaluation itself gives no meaning to. -/
  other : Assignment → Expr → Option Int64

/-- A shift, which has no result if the amount is negative. -/
def Word.shiftBy? (f : Int → Nat → Int) (x y : Int64) : Option Int64 :=
  if y.toInt < 0 then none else some (.ofInt (f x.toInt y.toInt.toNat))

/-- What the known operators with two operands compute. -/
def Builtins.operations (k : Builtins) : List (Op × (Int64 → Int64 → Option Int64)) :=
  [(k.leftShift, Word.shiftBy? fun n places => n * 2 ^ places),
    (k.rightShift, Word.shiftBy? fun n places => n / 2 ^ places),
    (k.bitAnd, fun x y => some (x &&& y)),
    (k.bitOr, fun x y => some (x ||| y)),
    (k.bitXor, fun x y => some (x ^^^ y))]

/-- What an operator computes from two words, if it is known. -/
def Builtins.operation? (k : Builtins) (op : Op) : Option (Int64 → Int64 → Option Int64) :=
  (k.operations.find? (·.1 = op)).map (·.2)

theorem Builtins.operation?_of_mem {k : Builtins} (h : k.all.Nodup)
    {p : Op × (Int64 → Int64 → Option Int64)} (hp : p ∈ k.operations) :
    k.operation? p.1 = some p.2 := by
  simp only [all, List.nodup_cons, List.mem_cons, not_or, List.not_mem_nil] at h
  simp only [operations, List.mem_cons, List.not_mem_nil, or_false] at hp
  rcases hp with rfl | rfl | rfl | rfl | rfl <;> simp [operation?, operations, h]

/-- The value of an expression. -/
def Expr.value? (I : Interpretation) : Assignment → Expr → Option Int64
  | env, .var v => some (env v)
  | _, .int _ n => some n
  | _, .float .. => none
  | _, .str .. => none
  | env, .cast _ value ty => do
    let x ← value.value? I env
    (ty.result? x.toInt).map .ofInt
  | env, .binary _ op a b => do
    let x ← a.value? I env
    let y ← b.value? I env
    (op.result? x.toInt y.toInt).map .ofInt
  | env, .not _ a => do
    let x ← a.value? I env
    return .ofInt (truth (x == 0))
  | env, .select _ cond yes no => do
    let c ← cond.value? I env
    if c = 0 then no.value? I env else yes.value? I env
  | env, e@(.ramp ..) => I.other env e
  | env, e@(.broadcast ..) => I.other env e
  | env, .letIn _ v value body => do
    let x ← value.value? I env
    body.value? I (Function.update env v x)
  | env, e@(.call _ op [a]) =>
    if op = I.builtins.bitNot then do
      let x ← a.value? I env
      return ~~~x
    else I.other env e
  | env, e@(.call _ op [a, b]) =>
    match I.builtins.operation? op with
    | some f => do
      let x ← a.value? I env
      let y ← b.value? I env
      f x y
    | none => I.other env e
  | env, e@(.call _ op [cond, yes, no]) =>
    if op = I.builtins.ifThenElse then do
      let c ← cond.value? I env
      if c = 0 then no.value? I env else yes.value? I env
    else I.other env e
  | env, e@(.call ..) => I.other env e
  | env, e@(.shuffle ..) => I.other env e

section Parts

variable {I : Interpretation} {env : Assignment} {h : Handle} {op : Op} {a b : Expr} {v : Int64}

theorem Expr.value?_binary_eq_some {op : BinaryOp}
    (hv : (binary h op a b).value? I env = some v) :
    ∃ x y z, a.value? I env = some x ∧ b.value? I env = some y ∧
      op.result? x.toInt y.toInt = some z ∧ v = .ofInt z := by
  obtain ⟨x, hx, hv⟩ := Option.bind_eq_some_iff.1 hv
  obtain ⟨y, hy, hv⟩ := Option.bind_eq_some_iff.1 hv
  obtain ⟨z, hz, rfl⟩ := Option.map_eq_some_iff.1 hv
  exact ⟨x, y, z, hx, hy, hz, rfl⟩

theorem Expr.value?_binary {op : BinaryOp} {x y : Int64} {z : Int} (h : Handle)
    (hx : a.value? I env = some x) (hy : b.value? I env = some y)
    (hz : op.result? x.toInt y.toInt = some z) :
    (binary h op a b).value? I env = some (.ofInt z) := by
  rw [value?, hx, hy]
  exact congrArg (Option.map Int64.ofInt) hz

theorem Expr.value?_call {f : Int64 → Int64 → Option Int64}
    (hf : I.builtins.operation? op = some f) :
    (call h op [a, b]).value? I env =
      (a.value? I env).bind fun x => (b.value? I env).bind fun y => f x y := by
  rw [value?, hf]
  rfl

end Parts

end IndexAlgebra
