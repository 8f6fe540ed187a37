import IndexAlgebra.Proofs.Bound.Best
/-!
# Saturating arithmetic

Sums, products and shifts to the left of endpoints go to the nearest endpoint of the exact result.
Quotients and shifts to the right cannot leave the range of endpoints; they are exact as well, and
leave an infinite endpoint infinite.

The operations tell in different ways that a result is out of range: a word that does not fit, a
number of binary digits, an amount that shifts everything out. A result can also fit in a word and
still be no endpoint, or be one of the infinities although both operands are finite. The equations
here have no such cases (`saturating_arithmetic`).
-/

namespace IndexAlgebra.Endpoint

variable {x y : Int}

/-! ## Sums -/

/-- Opposite infinities have no sum, and all other endpoints have one. -/
theorem add?_eq_none_iff (hl : negInf ≤ y) (hh : y ≤ posInf) :
    add? x y = none ↔ isInf x = true ∧ x = -y := by
  rw [add?_eq hl hh]
  cases hx : isInf x <;> cases hy : isInf y <;> simp

theorem opposite_iff : isInf x = true ∧ x = -y ↔
    x = posInf ∧ y = negInf ∨ x = negInf ∧ y = posInf := by
  rw [isInf_iff, posInf_eq, negInf_eq]
  omega

theorem add?_of_isInf_left (hx : isInf x = true) (hne : x ≠ -y) : add? x y = some x := by
  rw [add?, if_pos hx, if_neg hne]

theorem add?_of_isInf_right (hy : isInf y = true) (hne : x ≠ -y) : add? x y = some y := by
  by_cases hx : isInf x = true
  · have hsame : x = y := by
      rw [isInf_iff, posInf_eq, negInf_eq] at hx hy
      omega
    rw [add?_of_isInf_left hx hne, hsame]
  · rw [add?, if_neg hx, if_pos hy]

theorem add?_of_finite (hl : negInf ≤ y) (hh : y ≤ posInf) (hx : isInf x = false)
    (hy : isInf y = false) : add? x y = some (clamp (x + y)) := by
  rw [add?_eq hl hh, hx, hy, if_neg Bool.false_ne_true, if_neg Bool.false_ne_true]

theorem add?_comm (hxl : negInf ≤ x) (hxh : x ≤ posInf) (hyl : negInf ≤ y) (hyh : y ≤ posInf) :
    add? x y = add? y x := by
  by_cases hnone : add? x y = none
  · have hopposite := opposite_iff.1 ((add?_eq_none_iff hyl hyh).1 hnone)
    rw [hnone, eq_comm, add?_eq_none_iff hxl hxh, opposite_iff]
    exact hopposite.symm.imp And.symm And.symm
  rw [add?_eq_none_iff hyl hyh, not_and] at hnone
  cases hx : isInf x with
  | true =>
    have hne := hnone hx
    rw [add?_of_isInf_left hx hne, add?_of_isInf_right hx (by omega)]
  | false =>
    cases hy : isInf y with
    | true =>
      have hne : x ≠ -y := by
        rintro rfl
        rw [isInf_neg, hy] at hx
        exact Bool.noConfusion hx
      rw [add?_of_isInf_right hy hne, add?_of_isInf_left hy (by omega)]
    | false =>
      rw [add?_of_finite hyl hyh hx hy, add?_of_finite hxl hxh hy hx, Int.add_comm]

/-! ## Quotients -/

/-- An infinite endpoint is infinite after a division, with the sign of the quotient. -/
theorem divInf_spec (hx : isInf x = true) (hy : y ≠ 0) :
    isInf (divInf x y) = true ∧ (divInf x y).sign = x.sign * y.sign := by
  rcases Int.lt_or_gt_of_ne hy with hneg | hpos
  · rw [divInf, if_neg (by omega), Int.sign_eq_neg_one_of_neg hneg]
    rcases isInf_iff.1 hx with rfl | rfl <;> decide
  · rw [divInf, if_pos hpos, Int.sign_eq_one_of_pos hpos, Int.mul_one]
    exact ⟨hx, rfl⟩

/-! ## Shifts to the right -/

theorem rightShift_eq_fdiv (hl : negInf < x) (hh : x < posInf) (hy : 0 ≤ y) :
    rightShift x y = x.fdiv (2 ^ y.toNat) := by
  have hpower : (2 : Int) ^ y.toNat ≠ 0 := Int.ne_of_gt (one_le_two_pow _)
  rw [rightShift_eq_floorDiv (Int.le_of_lt hl) (Int.le_of_lt hh) hy]
  exact floorDiv_dividesAs.finite_clamp hl hh hpower

theorem rightShift_of_isInf (hx : isInf x = true) (y : Int) : rightShift x y = x := if_pos hx

/-! ## All together -/

/-- Arithmetic on endpoints is exact up to the infinities. Products, sums of finite endpoints, and
shifts to the left are the endpoints nearest to the exact results. A sum is missing exactly for
opposite infinities, and is the infinite operand if there is one; sums and products commute. Finite
endpoints have exact quotients, rounded either way, and exact shifts to the right. Infinite ones
stay infinite then, with the sign of the result. -/
theorem saturating_arithmetic (hx : x ∈ Set.Icc negInf posInf) (hy : y ∈ Set.Icc negInf posInf) :
    mul x y = clamp (x * y) ∧
    (add? x y = none ↔ x = posInf ∧ y = negInf ∨ x = negInf ∧ y = posInf) ∧
    (isInf x = true → x ≠ -y → add? x y = some x) ∧
    (isInf y = true → x ≠ -y → add? x y = some y) ∧
    (isInf x = false → isInf y = false → add? x y = some (clamp (x + y))) ∧
    add? x y = add? y x ∧
    mul x y = mul y x ∧
    (0 ≤ x → 0 ≤ y → leftShift x y = clamp (x * 2 ^ y.toNat)) ∧
    (isInf x = false → 0 ≤ y → rightShift x y = x.fdiv (2 ^ y.toNat)) ∧
    (isInf x = false → y ≠ 0 → div x y = x.tdiv y ∧ floorDiv x y = x.fdiv y) ∧
    (isInf x = true → 0 ≤ y → rightShift x y = x) ∧
    (isInf x = true → y ≠ 0 →
      isInf (div x y) = true ∧ (div x y).sign = x.sign * y.sign ∧
      isInf (floorDiv x y) = true ∧ (floorDiv x y).sign = x.sign * y.sign) := by
  obtain ⟨hxl, hxh⟩ := hx
  obtain ⟨hyl, hyh⟩ := hy
  have hfinite (h : isInf x = false) := finite_mem hxl hxh h
  refine ⟨mul_eq_clamp x y, (add?_eq_none_iff hyl hyh).trans opposite_iff, add?_of_isInf_left,
    add?_of_isInf_right, add?_of_finite hyl hyh, add?_comm hxl hxh hyl hyh, ?_,
    fun h0 => leftShift_eq_clamp h0 hxh, ?_, ?_, fun h _ => rightShift_of_isInf h y, ?_⟩
  · rw [mul_eq_clamp, mul_eq_clamp, Int.mul_comm]
  · intro h
    exact rightShift_eq_fdiv (hfinite h).1 (hfinite h).2
  · intro h _
    exact ⟨div_dividesAs.finite y (hfinite h).1 (hfinite h).2,
      floorDiv_dividesAs.finite y (hfinite h).1 (hfinite h).2⟩
  · intro h h0
    obtain ⟨hinf, hsign⟩ := divInf_spec h h0
    rw [div_dividesAs.infinite y h, floorDiv_dividesAs.infinite y h]
    exact ⟨hinf, hsign, hinf, hsign⟩

/-- A product that is the lowest word, a shift by more places than there are, and an infinite endpoint
with a negative operand. -/
theorem saturating_arithmetic_edges :
    mul (-4611686018427387904) 2 = negInf ∧
    add? (-4611686018427387904) 2 = some (-4611686018427387902) ∧
    div (-4611686018427387904) 2 = floorDiv (-4611686018427387904) 2 ∧
    leftShift 3 100 = posInf ∧ rightShift 3 100 = 0 ∧
    mul posInf (-3) = negInf ∧
    add? posInf (-3) = some posInf ∧ add? (-3) posInf = some posInf ∧
    (div posInf (-3)).sign = -1 ∧ (floorDiv posInf (-3)).sign = -1 := by
  obtain ⟨hmul, -, -, -, hadd, -, -, -, -, hdiv, -⟩ :=
    saturating_arithmetic (x := -4611686018427387904) (y := 2) (by decide) (by decide)
  obtain ⟨-, -, -, -, -, -, -, hleft, hright, -⟩ :=
    saturating_arithmetic (x := 3) (y := 100) (by decide) (by decide)
  obtain ⟨hmul', -, hadd', -, -, hcomm, -, -, -, -, -, hsign⟩ :=
    saturating_arithmetic (x := posInf) (y := -3) (by decide) (by decide)
  have hquotients := hdiv rfl (by decide)
  have hinfinite := hsign rfl (by decide)
  have hsum := hadd' rfl (by decide)
  exact ⟨hmul, hadd rfl rfl, hquotients.1.trans hquotients.2.symm, hleft (by decide) (by decide),
    hright rfl (by decide), hmul', hsum, hcomm.symm.trans hsum, hinfinite.2.1, hinfinite.2.2.2⟩

end IndexAlgebra.Endpoint
