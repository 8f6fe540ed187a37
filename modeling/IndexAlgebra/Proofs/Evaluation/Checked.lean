import IndexAlgebra.Proofs.Evaluation.Exact
import Mathlib.Logic.Function.Basic
/-!
# Checked evaluation

`Evals k env e x` says that `e` may take the value `x`, a signed word of 64 bits, where `env` gives
the values of the variables. A result that does not fit into a word has no value, and neither has an
expression with a part that is evaluated and has none.

An expression may take several values: a vector takes those of its elements, and what is said of
calls of operators that are not known, and of rearrangements, is only that they are words.
-/

namespace IndexAlgebra

/-- The word with a given value, if there is one. -/
def Word.ofInt? (n : Int) : Option Int64 :=
  if -2 ^ 63 ≤ n ∧ n < 2 ^ 63 then some (.ofInt n) else none

theorem Word.toInt_of_ofInt? {n : Int} {x : Int64} (h : ofInt? n = some x) : x.toInt = n := by
  simp only [ofInt?, Option.ite_none_right_eq_some, Option.some.injEq] at h
  obtain ⟨hn, rfl⟩ := h
  exact Int64.toInt_ofInt_of_le hn.1 hn.2

/-- Values of the variables. -/
abbrev Assignment := Var → Int64

/-- An expression may take a value. -/
inductive Evals (k : Builtins) : Assignment → Expr → Int64 → Prop where
  | var {env v} : Evals k env (.var v) (env v)
  | int {env h n} : Evals k env (.int h n) n
  | cast {env h e ty x y z} : Evals k env e x → ty.result? x.toInt = some y →
      Word.ofInt? y = some z → Evals k env (.cast h e ty) z
  | binary {env h op a b x y w z} : Evals k env a x → Evals k env b y →
      op.result? x.toInt y.toInt = some w → Word.ofInt? w = some z →
      Evals k env (.binary h op a b) z
  | not {env h a x z} : Evals k env a x → Word.ofInt? (truth (x == 0)) = some z →
      Evals k env (.not h a) z
  | selectYes {env h cond yes no c x} : Evals k env cond c → c ≠ 0 → Evals k env yes x →
      Evals k env (.select h cond yes no) x
  | selectNo {env h cond yes no x} : Evals k env cond 0 → Evals k env no x →
      Evals k env (.select h cond yes no) x
  /-- A vector takes the value of each of its elements. -/
  | ramp {env h base stride lanes x d n i z} : Evals k env base x → Evals k env stride d →
      Evals k env lanes n → 0 ≤ i → i < n.toInt → Word.ofInt? (x.toInt + i * d.toInt) = some z →
      Evals k env (.ramp h base stride lanes) z
  | broadcast {env h value lanes x} : Evals k env value x →
      Evals k env (.broadcast h value lanes) x
  | letIn {env h v value body x y} : Evals k env value x →
      Evals k (Function.update env v x) body y → Evals k env (.letIn h v value body) y
  | call {env h op a b x y w z} : Evals k env a x → Evals k env b y →
      k.result? op x y = some w → Word.ofInt? w = some z → Evals k env (.call h op [a, b]) z
  | callYes {env h cond yes no c x} : Evals k env cond c → c ≠ 0 → Evals k env yes x →
      Evals k env (.call h k.ifThenElse [cond, yes, no]) x
  | callNo {env h cond yes no x} : Evals k env cond 0 → Evals k env no x →
      Evals k env (.call h k.ifThenElse [cond, yes, no]) x
  | unknown {env h op args x} : ¬ k.Interprets op args → Evals k env (.call h op args) x
  | shuffle {env h vectors indices x} : Evals k env (.shuffle h vectors indices) x

theorem Evals.of_var {k : Builtins} {env : Assignment} {v : Var} {x : Int64}
    (hx : Evals k env (.var v) x) : x = env v := by
  cases hx
  rfl

theorem Evals.of_binary {k : Builtins} {env : Assignment} {h : Handle} {op : BinaryOp} {a b : Expr}
    {z : Int64} (hz : Evals k env (.binary h op a b) z) :
    ∃ x y w, Evals k env a x ∧ Evals k env b y ∧ op.result? x.toInt y.toInt = some w ∧
      Word.ofInt? w = some z := by
  cases hz with
  | binary hx hy hw hz => exact ⟨_, _, _, hx, hy, hw, hz⟩

end IndexAlgebra
