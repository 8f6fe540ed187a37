import IndexAlgebra.Proofs.Folding
import IndexAlgebra.Smart
/-!
# Shifts of literals

The shift of a literal by a literal is folded or refused as the amount says. The amount must fit in
32 bits without a sign, so that one of `2 ^ 32` or more is refused just as a negative one is, and in
the same words, although no amount from 64 on makes a difference to the result.

Whatever is not refused is exact: a word shifted to the left is reduced to 64 bits, and one shifted
to the right is rounded down.
-/

namespace IndexAlgebra

/-- What is made of an outcome: the literal under the next handle, or nothing. -/
def literalOr (next : Handle) : Except FoldError Int64 → Except FoldError Expr × Handle
  | .ok w => (.ok (.int next w), next + 1)
  | .error e => (.error e, next)

/-- Folding has a literal or a refusal as its outcome, and so has the constructor that folds. -/
structure HasOutcome (folded : Except FoldError (Option Reduct))
    (made : ExceptT FoldError Build Expr) (outcome : Except FoldError Int64) : Prop where
  fold : folded = outcome.map fun w => some (.int w)
  make : ∀ next, made.run.run next = literalOr next outcome

namespace Folding

variable {y : Int64}

theorem shiftAmount_of_refused (h : y.toInt < 0 ∨ 2 ^ 32 ≤ y.toInt) :
    shiftAmount y = .error (.negativeShift y) := by
  unfold shiftAmount
  exact if_neg (by omega)

theorem shiftAmount_of_accepted (hl : 0 ≤ y.toInt) (hh : y.toInt < 2 ^ 32) :
    shiftAmount y = .ok y.toInt.toNat := by
  unfold shiftAmount
  exact if_pos ⟨hl, hh⟩

theorem hasOutcome_shift (word : Int64 → Nat → Int64) (h h' : Handle) (x y : Int64)
    (otherwise : Build Expr) :
    let folded := shift? word (.int h x) (.int h' y)
    HasOutcome folded (Smart.tryOrElse folded otherwise) ((shiftAmount y).map (word x)) := by
  dsimp only [shift?, Expr.int?]
  cases shiftAmount y with
  | ok n => exact ⟨rfl, fun _ => rfl⟩
  | error e => exact ⟨rfl, fun _ => rfl⟩

end Folding

open Folding

/-- A literal is shifted by any amount that fits in 32 bits without a sign, and by no other. Shifted
to the left it is a product reduced to 64 bits, of which nothing is left from 64 places on. Shifted
to the right it is a quotient rounded down, of which the sign is left. -/
theorem shift_literals (ctx : Context) (h h' : Handle) (x y : Int64) :
    let a := Expr.int h x
    let b := Expr.int h' y
    (y.toInt < 0 ∨ 2 ^ 32 ≤ y.toInt →
      HasOutcome (leftShift? a b) (ctx.leftShift a b) (.error (.negativeShift y)) ∧
      HasOutcome (rightShift? a b) (ctx.rightShift a b) (.error (.negativeShift y))) ∧
    (0 ≤ y.toInt → y.toInt < 2 ^ 32 → ∃ l r,
      HasOutcome (leftShift? a b) (ctx.leftShift a b) (.ok l) ∧
      HasOutcome (rightShift? a b) (ctx.rightShift a b) (.ok r) ∧
      l = .ofInt (x.toInt * 2 ^ y.toInt.toNat) ∧
      r.toInt = x.toInt / 2 ^ y.toInt.toNat ∧
      (64 ≤ y.toInt → l = 0 ∧ r.toInt = if x.toInt < 0 then -1 else 0)) := by
  intro a b
  have hleft := hasOutcome_shift Word.shiftLeft h h' x y (Build.call ctx.builtins.leftShift [a, b])
  have hright := hasOutcome_shift Word.shiftRight h h' x y (Build.call ctx.builtins.rightShift [a, b])
  constructor
  · intro hrefused
    rw [shiftAmount_of_refused hrefused] at hleft hright
    exact ⟨hleft, hright⟩
  · intro hl hh
    rw [shiftAmount_of_accepted hl hh] at hleft hright
    refine ⟨_, _, hleft, hright, Word.shiftLeft_eq .., Word.toInt_shiftRight .., fun hmany => ?_⟩
    constructor
    · exact if_neg (by omega)
    · rw [Word.toInt_shiftRight]
      exact Word.toInt_ediv_two_pow_eq_sign x (by omega)

/-- Nothing is left of minus five after a hundred places to the left, and its sign after as many to
the right. -/
theorem shift_literals_hundred :
    let ctx : Context := (Context.new.run 0).1
    let a := Expr.int 9 (-5)
    let b := Expr.int 10 100
    HasOutcome (leftShift? a b) (ctx.leftShift a b) (.ok 0) ∧
      HasOutcome (rightShift? a b) (ctx.rightShift a b) (.ok (-1)) := by
  intro ctx a b
  obtain ⟨-, haccepted⟩ := shift_literals ctx 9 10 (-5) 100
  obtain ⟨l, r, hleft, hright, -, -, hmany⟩ := haccepted (by decide) (by decide)
  obtain ⟨rfl, hr⟩ := hmany (by decide)
  cases Int64.toInt_inj.1 (show r.toInt = (-1 : Int64).toInt from hr)
  exact ⟨hleft, hright⟩

/-- An amount of `2 ^ 32` is refused although it is not negative. -/
theorem not_refused_iff_negative :
    ¬ ∀ (h h' : Handle) (x y : Int64),
      leftShift? (.int h x) (.int h' y) = .error (.negativeShift y) ↔ y.toInt < 0 := by
  intro hiff
  have hrefused : leftShift? (.int 0 1) (.int 1 4294967296) =
      .error (.negativeShift 4294967296) := rfl
  exact absurd ((hiff 0 1 1 4294967296).1 hrefused) (by decide)

end IndexAlgebra
