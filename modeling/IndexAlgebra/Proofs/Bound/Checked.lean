import IndexAlgebra.Proofs.Bound.Arith
/-!
# Checked arithmetic on bounds

The operations on endpoints are meant for some operands only: a divisor is not zero, what is
shifted to the left is not negative, nor is the amount of a shift, and a result fits in a signed
word of 64 bits. A checked operation has no result where this fails. The rules for bounds are
written again with checked operations, step for step, so that a rule that misuses an operation on
the way has no result either.

On normal bounds, each checked rule has the result of the rule itself. So the rules do not misuse
the operations.
-/

namespace IndexAlgebra

/-! ## Endpoints -/

namespace Endpoint.Checked

/-- An integer, if it fits in a signed word of 64 bits. -/
def fits? (n : Int) : Option Int := if -2 ^ 63 ≤ n ∧ n < 2 ^ 63 then some n else none

def neg (x : Int) : Option Int := fits? (-x)

/-- The sum of two endpoints, if they have one. Opposite infinities are told by a negation. -/
def add (x y : Int) : Option (Option Int) :=
  if isInf x then do
    let opposite ← neg y
    return if x = opposite then none else some x
  else if isInf y then return some y
  else return some (clamp (x + y))

/-- A quotient of endpoints, given the quotient of integers. -/
def quotient (Q : Int → Int → Int) (x y : Int) : Option Int :=
  if y = 0 then none
  else if isInf x then if 0 < y then some x else neg x
  else fits? (Q x y)

def leftShift (x y : Int) : Option Int :=
  if x < 0 ∨ y < 0 then none
  else if x = 0 ∨ isInf x then some x
  else if bitLength x + y < 64 then fits? (x <<< y.toNat)
  else some posInf

def rightShift (x y : Int) : Option Int :=
  if y < 0 then none
  else if isInf x then some x
  else fits? (x >>> (max 0 (min y 63)).toNat)

variable {x y : Int}

theorem fits?_eq (hl : negInf ≤ x) (hh : x ≤ posInf) : fits? x = some x :=
  if_pos (by simp only [posInf_eq, negInf_eq] at *; omega)

/-- What is no further from zero than an endpoint fits. -/
theorem fits?_of_natAbs_le {z : Int} (h : z.natAbs ≤ x.natAbs) (hl : negInf ≤ x)
    (hh : x ≤ posInf) : fits? z = some z :=
  fits?_eq (by simp only [posInf_eq, negInf_eq] at *; omega)
    (by simp only [posInf_eq, negInf_eq] at *; omega)

theorem neg_eq (hl : negInf ≤ x) (hh : x ≤ posInf) : neg x = some (Endpoint.neg x) := by
  have hneg : Endpoint.neg x = -x := by
    simp only [Endpoint.neg, posInf_eq, negInf_eq] at *
    omega
  rw [hneg]
  exact fits?_of_natAbs_le (Int.natAbs_neg x).le hl hh

theorem add_eq (hl : negInf ≤ y) (hh : y ≤ posInf) : add x y = some (add? x y) := by
  rw [add?_eq hl hh]
  unfold add
  split
  · rw [neg, fits?_of_natAbs_le (Int.natAbs_neg y).le hl hh]
    rfl
  · split <;> rfl

theorem quotient_eq {q Q : Int → Int → Int} (hq : DividesAs q Q) (hl : negInf ≤ x)
    (hh : x ≤ posInf) (hy : y ≠ 0) : quotient Q x y = some (q x y) := by
  unfold quotient
  rw [if_neg hy]
  split
  · next hx =>
    rw [hq.infinite y hx, divInf, neg_eq hl hh]
    split <;> rfl
  · next hx =>
    rw [isInf_iff] at hx
    rw [hq.finite y (by omega) (by omega)]
    exact fits?_of_natAbs_le (hq.isQuotient.natAbs_le x y) hl hh

theorem leftShift_eq (hl : 0 ≤ x) (hh : x ≤ posInf) (hy : 0 ≤ y) :
    leftShift x y = some (Endpoint.leftShift x y) := by
  have hclamp := leftShift_eq_clamp hl hh hy
  unfold leftShift
  rw [if_neg (by omega)]
  unfold Endpoint.leftShift at hclamp ⊢
  split
  · rfl
  · next hx =>
    rw [if_neg hx] at hclamp
    split
    · next hbits =>
      rw [if_pos hbits] at hclamp
      exact fits?_eq (hclamp ▸ negInf_le_clamp _) (hclamp ▸ clamp_le_posInf _)
    · rfl

theorem rightShift_eq (hl : negInf ≤ x) (hh : x ≤ posInf) (hy : 0 ≤ y) :
    rightShift x y = some (Endpoint.rightShift x y) := by
  unfold rightShift Endpoint.rightShift
  rw [if_neg (by omega)]
  split
  · rfl
  · have hle := Int.natAbs_fdiv_le_natAbs x ((2 ^ (max 0 (min y 63)).toNat : Nat) : Int)
    rw [Int.fdiv_eq_ediv_of_nonneg _ (Int.natCast_nonneg _), ← Int.shiftRight_eq_div_pow] at hle
    exact fits?_of_natAbs_le hle hl hh

end Endpoint.Checked

theorem Endpoint.add?_mem {x y z : Int} (h : add? x y = some z) : negInf ≤ z ∧ z ≤ posInf := by
  simp only [add?, isInf_iff] at h
  split_ifs at h
  all_goals
    cases h
    first
    | exact ⟨negInf_le_clamp _, clamp_le_posInf _⟩
    | simp only [posInf_eq, negInf_eq] at *; omega

theorem Endpoint.getD_add?_mem (x y : Int) {z : Int} (hl : negInf ≤ z) (hh : z ≤ posInf) :
    negInf ≤ (add? x y).getD z ∧ (add? x y).getD z ≤ posInf := by
  cases h : add? x y with
  | none => exact ⟨hl, hh⟩
  | some w => exact add?_mem h

open Endpoint

/-! ## Bounds -/

namespace Bound.Checked

open Endpoint.Checked (fits?)

def corners (op : Int → Int → Option Int) (a b : Bound) : Option Bound := do
  let p ← op a.lo b.lo
  let q ← op a.hi b.lo
  let r ← op a.lo b.hi
  let s ← op a.hi b.hi
  return make (min (min p q) (min r s)) (max (max p q) (max r s))

def add (a b : Bound) : Option Bound := do
  let lo ← Endpoint.Checked.add a.lo b.lo
  let hi ← Endpoint.Checked.add a.hi b.hi
  return make (lo.getD negInf) (hi.getD posInf)

def neg (a : Bound) : Option Bound := do
  let lo ← Endpoint.Checked.neg a.hi
  let hi ← Endpoint.Checked.neg a.lo
  return ⟨lo, hi⟩

def sub (a b : Bound) : Option Bound := do add a (← neg b)

/-- A bound on quotients, given the quotient of integers. -/
def division (Q : Int → Int → Int) (a b : Bound) : Option Bound :=
  if b.excludesZero then corners (Endpoint.Checked.quotient Q) a b else return everything

def mod (a b : Bound) : Option Bound :=
  if b.lo ≤ 0 then return everything
  else do
    let cap ← fits? (b.hi - 1)
    if 0 ≤ a.lo then return make 0 (min a.hi cap)
    else
      let lowest ← Endpoint.Checked.neg cap
      return make (max a.lo lowest) (min (max a.hi 0) cap)

def floorMod (a b : Bound) : Option Bound :=
  if b.lo ≤ 0 then return everything
  else do
    let cap ← fits? (b.hi - 1)
    return if 0 ≤ a.lo then make 0 (min a.hi cap) else make 0 cap

def leftShift (a b : Bound) : Option Bound :=
  if a.lo < 0 ∨ b.lo < 0 then return everything else corners Endpoint.Checked.leftShift a b

def rightShift (a b : Bound) : Option Bound :=
  if b.lo < 0 then return everything else corners Endpoint.Checked.rightShift a b

variable {a b : Bound}

theorem corners_eq {op? : Int → Int → Option Int} {op : Int → Int → Int}
    (h : ∀ x ∈ [a.lo, a.hi], ∀ y ∈ [b.lo, b.hi], op? x y = some (op x y)) :
    corners op? a b = some (a.corners op b) := by
  have hlo := h a.lo (.head _)
  have hhi := h a.hi (.tail _ (.head _))
  unfold corners
  rw [hlo b.lo (.head _), hhi b.lo (.head _), hlo b.hi (.tail _ (.head _)),
    hhi b.hi (.tail _ (.head _))]
  rfl

/-- The endpoints of a normal bound lie between the infinities. -/
theorem mem_of_normal (ha : a.Normal) {x : Int} (hx : x ∈ [a.lo, a.hi]) :
    a.lo ≤ x ∧ x ≤ a.hi ∧ negInf ≤ x ∧ x ≤ posInf := by
  obtain ⟨_, _, _, _, _⟩ := ha
  rcases List.mem_pair.1 hx with rfl | rfl <;> omega

theorem add_eq (hb : b.Normal) : add a b = some (a.add b) := by
  obtain ⟨_, _, _, _, _⟩ := hb
  unfold add
  rw [Endpoint.Checked.add_eq (by omega) (by omega), Endpoint.Checked.add_eq (by omega) (by omega)]
  rfl

theorem neg_eq (ha : a.Normal) : neg a = some a.neg := by
  obtain ⟨_, _, _, _, _⟩ := ha
  unfold neg
  rw [Endpoint.Checked.neg_eq (by omega) (by omega), Endpoint.Checked.neg_eq (by omega) (by omega)]
  rfl

theorem sub_eq (hb : b.Normal) : sub a b = some (a.sub b) := by
  unfold sub
  rw [neg_eq hb]
  exact add_eq hb.neg

theorem division_eq {q Q : Int → Int → Int} (hq : DividesAs q Q) (ha : a.Normal) (hb : b.Normal) :
    division Q a b = some (if b.excludesZero then a.corners q b else everything) := by
  unfold division
  split
  · next h =>
    refine corners_eq fun x hx y hy => ?_
    obtain ⟨-, -, hl, hh⟩ := mem_of_normal ha hx
    obtain ⟨hly, hyh, -⟩ := mem_of_normal hb hy
    simp only [excludesZero, decide_eq_true_eq] at h
    exact Endpoint.Checked.quotient_eq hq hl hh (by omega)
  · rfl

theorem mod_eq (hb : b.Normal) : mod a b = some (a.mod b) := by
  obtain ⟨_, _, _, _, _⟩ := hb
  unfold mod Bound.mod
  dsimp only
  split
  · rfl
  · rw [Endpoint.Checked.fits?_eq (by simp only [negInf_eq]; omega) (by omega)]
    dsimp only [Option.bind_eq_bind, Option.bind_some]
    split
    · rfl
    · rw [Endpoint.Checked.neg_eq (by simp only [negInf_eq]; omega) (by omega)]
      rfl

theorem floorMod_eq (hb : b.Normal) : floorMod a b = some (a.floorMod b) := by
  obtain ⟨_, _, _, _, _⟩ := hb
  unfold floorMod Bound.floorMod
  dsimp only
  split
  · rfl
  · rw [Endpoint.Checked.fits?_eq (by simp only [negInf_eq]; omega) (by omega)]
    rfl

theorem leftShift_eq (ha : a.Normal) (hb : b.Normal) : leftShift a b = some (a.leftShift b) := by
  unfold leftShift Bound.leftShift
  split
  · rfl
  · refine corners_eq fun x hx y hy => ?_
    obtain ⟨hlx, -, -, hh⟩ := mem_of_normal ha hx
    obtain ⟨hly, -⟩ := mem_of_normal hb hy
    exact Endpoint.Checked.leftShift_eq (by omega) hh (by omega)

theorem rightShift_eq (ha : a.Normal) (hb : b.Normal) :
    rightShift a b = some (a.rightShift b) := by
  unfold rightShift Bound.rightShift
  split
  · rfl
  · refine corners_eq fun x hx y hy => ?_
    obtain ⟨-, -, hl, hh⟩ := mem_of_normal ha hx
    obtain ⟨hly, -⟩ := mem_of_normal hb hy
    exact Endpoint.Checked.rightShift_eq hl hh (by omega)

end Bound.Checked

end IndexAlgebra
