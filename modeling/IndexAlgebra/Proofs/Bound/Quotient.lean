import IndexAlgebra.Proofs.Bound.Corners
/-!
# Bounds on quotients

The two divisions, and the shift to the right, differ only in how they round. `IsQuotient` collects
what they have in common: a quotient grows with a dividend and comes nearer to zero as the divisor
grows. On endpoints, division does the same between the infinities and keeps an infinite dividend
infinite (`DividesAs`). That is enough for the four corners to hold every quotient
(`DividesAs.admits_corners`).
-/

namespace IndexAlgebra

open Endpoint

/-- A way to divide integers, rounded somehow. -/
structure IsQuotient (Q : Int → Int → Int) : Prop where
  neg_neg : ∀ x y, Q (-x) (-y) = Q x y
  mono : ∀ {x x' y}, 0 < y → x ≤ x' → Q x y ≤ Q x' y
  nearer_zero_of_nonneg : ∀ {x y y'}, 0 ≤ x → 0 < y → y ≤ y' → Q x y' ≤ Q x y
  nearer_zero_of_nonpos : ∀ {x y y'}, x ≤ 0 → 0 < y → y ≤ y' → Q x y ≤ Q x y'
  natAbs_le : ∀ x y, (Q x y).natAbs ≤ x.natAbs
  /-- All divisors larger than the dividend do the same. -/
  eq_of_large : ∀ {x y y'}, x.natAbs < y → x.natAbs < y' → Q x y = Q x y'

theorem ediv_anti_of_nonneg {x y y' : Int} (hx : 0 ≤ x) (hy : 0 < y) (h : y ≤ y') :
    x / y' ≤ x / y := by
  rw [Int.le_ediv_iff_mul_le hy]
  have hq : 0 ≤ x / y' := Int.ediv_nonneg hx (by omega)
  calc x / y' * y ≤ x / y' * y' := Int.mul_le_mul_of_nonneg_left h hq
    _ ≤ x := Int.ediv_mul_le x (by omega)

theorem ediv_mono_of_nonpos {x y y' : Int} (hx : x ≤ 0) (hy : 0 < y) (h : y ≤ y') :
    x / y ≤ x / y' := by
  rw [Int.le_ediv_iff_mul_le (by omega)]
  have hq : x / y ≤ 0 := by
    have := Int.ediv_le_ediv hy hx
    simpa using this
  calc x / y * y' ≤ x / y * y := Int.mul_le_mul_of_nonpos_left hq h
    _ ≤ x := Int.ediv_mul_le x (by omega)

theorem ediv_eq_of_large {x y : Int} (h : x.natAbs < y) : x / y = if x < 0 then -1 else 0 := by
  split
  · exact (Int.ediv_eq_iff_of_pos (by omega)).2 ⟨by omega, by omega⟩
  · exact Int.ediv_eq_zero_of_lt (by omega) (by omega)

theorem isQuotient_fdiv : IsQuotient Int.fdiv where
  neg_neg x y := Int.neg_fdiv_neg x y
  mono hy h := by
    rw [Int.fdiv_eq_ediv_of_nonneg _ (by omega), Int.fdiv_eq_ediv_of_nonneg _ (by omega)]
    exact Int.ediv_le_ediv hy h
  nearer_zero_of_nonneg hx hy h := by
    rw [Int.fdiv_eq_ediv_of_nonneg _ (by omega), Int.fdiv_eq_ediv_of_nonneg _ (by omega)]
    exact ediv_anti_of_nonneg hx hy h
  nearer_zero_of_nonpos hx hy h := by
    rw [Int.fdiv_eq_ediv_of_nonneg _ (by omega), Int.fdiv_eq_ediv_of_nonneg _ (by omega)]
    exact ediv_mono_of_nonpos hx hy h
  natAbs_le := Int.natAbs_fdiv_le_natAbs
  eq_of_large hy hy' := by
    rw [Int.fdiv_eq_ediv_of_nonneg _ (by omega), Int.fdiv_eq_ediv_of_nonneg _ (by omega),
      ediv_eq_of_large hy, ediv_eq_of_large hy']

theorem tdiv_eq_neg_ediv {x : Int} (hx : x ≤ 0) (y : Int) : x.tdiv y = -(-x / y) := by
  rw [← Int.tdiv_eq_ediv_of_nonneg (by omega), Int.neg_tdiv, Int.neg_neg]

theorem isQuotient_tdiv : IsQuotient Int.tdiv where
  neg_neg x y := Int.neg_tdiv_neg x y
  mono hy h := Int.tdiv_le_tdiv hy h
  nearer_zero_of_nonneg hx hy h := by
    rw [Int.tdiv_eq_ediv_of_nonneg hx, Int.tdiv_eq_ediv_of_nonneg hx]
    exact ediv_anti_of_nonneg hx hy h
  nearer_zero_of_nonpos hx hy h := by
    rw [tdiv_eq_neg_ediv hx, tdiv_eq_neg_ediv hx]
    exact Int.neg_le_neg (ediv_anti_of_nonneg (by omega) hy h)
  natAbs_le := Int.natAbs_tdiv_le_natAbs
  eq_of_large {x y y'} hy hy' := by
    rcases Int.le_total 0 x with hx | hx
    · rw [Int.tdiv_eq_zero_of_lt hx (by omega), Int.tdiv_eq_zero_of_lt hx (by omega)]
    · rw [tdiv_eq_neg_ediv hx, tdiv_eq_neg_ediv hx, Int.ediv_eq_zero_of_lt (by omega) (by omega),
        Int.ediv_eq_zero_of_lt (by omega) (by omega)]

/-! ## Division of endpoints -/

/-- An operation on endpoints divides as `Q` does between the infinities, and keeps an infinite
dividend infinite. -/
structure DividesAs (q Q : Int → Int → Int) : Prop where
  isQuotient : IsQuotient Q
  finite : ∀ {x} y, negInf < x → x < posInf → q x y = Q x y
  infinite : ∀ {x} y, isInf x = true → q x y = divInf x y

theorem div_dividesAs : DividesAs div Int.tdiv where
  isQuotient := isQuotient_tdiv
  finite y hl hh := by simp [div, isInf_eq_false hl hh]
  infinite y h := by simp [div, h]

theorem floorDiv_dividesAs : DividesAs Endpoint.floorDiv Int.fdiv where
  isQuotient := isQuotient_fdiv
  finite {x} y hl hh := by
    have hx := isInf_eq_false hl hh
    have hq := Int.natAbs_fdiv_le_natAbs x y
    simp only [posInf_eq, negInf_eq] at hl hh
    simp only [Endpoint.floorDiv, hx, Bool.false_eq_true, ↓reduceIte]
    exact Int.bmod_eq_of_le_mul_two (by omega) (by omega)
  infinite y h := by simp [Endpoint.floorDiv, h]

namespace DividesAs

variable {q Q : Int → Int → Int} (hq : DividesAs q Q)
include hq

theorem posInf_pos {y : Int} (hy : 0 < y) : q posInf y = posInf := by
  rw [hq.infinite y (isInf_iff.2 (.inl rfl)), divInf, if_pos hy]

theorem negInf_pos {y : Int} (hy : 0 < y) : q negInf y = negInf := by
  rw [hq.infinite y (isInf_iff.2 (.inr rfl)), divInf, if_pos hy]

theorem neg_neg {x y : Int} (hl : negInf ≤ x) (hh : x ≤ posInf) (hy : y ≠ 0) :
    q (-x) (-y) = q x y := by
  by_cases hx : isInf x = true
  · have hx' : isInf (-x) = true := (isInf_neg x).trans hx
    rw [hq.infinite _ hx, hq.infinite _ hx', divInf, divInf]
    simp only [neg, posInf_eq, negInf_eq] at *
    omega
  · rw [isInf_iff] at hx
    rw [hq.finite, hq.finite, hq.isQuotient.neg_neg] <;>
      simp only [posInf_eq, negInf_eq] at * <;> omega

/-- Quotients of endpoints are endpoints. -/
theorem mem {x : Int} (hl : negInf ≤ x) (hh : x ≤ posInf) (y : Int) :
    negInf ≤ q x y ∧ q x y ≤ posInf := by
  by_cases hx : isInf x = true
  · rw [hq.infinite y hx, divInf]
    simp only [neg, posInf_eq, negInf_eq] at *
    omega
  · have := hq.isQuotient.natAbs_le x y
    rw [isInf_iff] at hx
    rw [hq.finite y (by omega) (by omega)]
    simp only [posInf_eq, negInf_eq] at *
    omega

theorem mono {x x' y : Int} (hl : negInf ≤ x) (h : x ≤ x') (hh : x' ≤ posInf) (hy : 0 < y) :
    q x y ≤ q x' y := by
  rcases Int.lt_or_eq_of_le hl with hlt | rfl
  · rcases Int.lt_or_eq_of_le hh with hht | rfl
    · rw [hq.finite y hlt (by omega), hq.finite y (by omega) hht]
      exact hq.isQuotient.mono hy h
    · rw [hq.posInf_pos hy]
      exact (hq.mem hl h y).2
  · rw [hq.negInf_pos hy]
    exact (hq.mem h hh y).1

theorem nearer_zero_of_nonneg {x y y' : Int} (h0 : 0 ≤ x) (hh : x ≤ posInf) (hy : 0 < y)
    (h : y ≤ y') : q x y' ≤ q x y := by
  rcases Int.lt_or_eq_of_le hh with hh | rfl
  · have hl : negInf < x := by rw [negInf_eq]; omega
    rw [hq.finite y hl hh, hq.finite y' hl hh]
    exact hq.isQuotient.nearer_zero_of_nonneg h0 hy h
  · rw [hq.posInf_pos hy, hq.posInf_pos (by omega)]

theorem nearer_zero_of_nonpos {x y y' : Int} (hl : negInf ≤ x) (h0 : x ≤ 0) (hy : 0 < y)
    (h : y ≤ y') : q x y ≤ q x y' := by
  rcases Int.lt_or_eq_of_le hl with hl | rfl
  · have hh : x < posInf := by rw [posInf_eq]; omega
    rw [hq.finite y hl hh, hq.finite y' hl hh]
    exact hq.isQuotient.nearer_zero_of_nonpos h0 hy h
  · rw [hq.negInf_pos hy, hq.negInf_pos (by omega)]

/-! ## The corners of a quotient -/

theorem oneWay_row {lo hi y : Int} (hl : negInf ≤ lo) (hh : hi ≤ posInf) (hy : y ≠ 0) :
    OneWay (q · y) lo hi := by
  rcases Int.lt_or_gt_of_ne hy with hy | hy
  · right
    intro x hx x' hx' h
    rw [Set.mem_Icc] at hx hx'
    dsimp only
    rw [← hq.neg_neg (x := x) (by omega) (by omega) (by omega),
      ← hq.neg_neg (x := x') (by omega) (by omega) (by omega)]
    apply hq.mono <;> simp only [posInf_eq, negInf_eq] at * <;> omega
  · left
    intro x hx x' hx' h
    rw [Set.mem_Icc] at hx hx'
    exact hq.mono (by omega) h (by omega) hy

theorem oneWay_column {x : Int} {b : Bound} (hl : negInf ≤ x) (hh : x ≤ posInf)
    (hb : b.excludesZero = true) : OneWay (q x) b.lo b.hi := by
  have hl' : negInf ≤ -x := by simp only [posInf_eq, negInf_eq] at *; omega
  have hh' : -x ≤ posInf := by simp only [posInf_eq, negInf_eq] at *; omega
  simp only [Bound.excludesZero, decide_eq_true_eq] at hb
  rcases Int.le_total 0 x with hx | hx
  · right
    intro y hy y' hy' h
    rw [Set.mem_Icc] at hy hy'
    rcases hb with hb | hb
    · exact hq.nearer_zero_of_nonneg hx hh (by omega) h
    · rw [← hq.neg_neg (y := y) hl hh (by omega), ← hq.neg_neg (y := y') hl hh (by omega)]
      exact hq.nearer_zero_of_nonpos hl' (by omega) (by omega) (by omega)
  · left
    intro y hy y' hy' h
    rw [Set.mem_Icc] at hy hy'
    rcases hb with hb | hb
    · exact hq.nearer_zero_of_nonpos hl hx (by omega) h
    · rw [← hq.neg_neg (y := y) hl hh (by omega), ← hq.neg_neg (y := y') hl hh (by omega)]
      exact hq.nearer_zero_of_nonneg (by omega) hh' (by omega) (by omega)

theorem separatelyMonotone {a b : Bound} (ha : a.Normal) (hb : b.excludesZero = true) :
    a.SeparatelyMonotone q b where
  row y hyl hyh := by
    have hy : y ≠ 0 := by
      simp only [Bound.excludesZero, decide_eq_true_eq] at hb
      omega
    exact hq.oneWay_row ha.negInf_le_lo ha.hi_le_posInf hy
  column x hxl hxh :=
    hq.oneWay_column (Int.le_trans ha.negInf_le_lo hxl) (Int.le_trans hxh ha.hi_le_posInf) hb

/-- The nearest finite dividend has the same quotient by the nearest divisor as by the divisor
itself. -/
theorem clampFinite_clamp (x : Int) {y : Int} (hy : 0 < y) :
    q (clampFinite x) (clamp y) = Q (clampFinite x) y := by
  have hl := negInf_lt_clampFinite x
  have hh := clampFinite_lt_posInf x
  rw [hq.finite _ hl hh]
  by_cases hy' : y ≤ posInf
  · rw [clamp_eq_self (by rw [negInf_eq]; omega) hy']
  · rw [clamp_eq_posInf (by omega)]
    apply hq.isQuotient.eq_of_large <;> simp only [posInf_eq, negInf_eq] at * <;> omega

theorem clamp_between_of_pos (x : Int) {y : Int} (hy : 0 < y) :
    min (q (clampFinite x) (clamp y)) (q (clamp x) (clamp y)) ≤ clamp (Q x y) ∧
      clamp (Q x y) ≤ max (q (clampFinite x) (clamp y)) (q (clamp x) (clamp y)) := by
  have hl := negInf_le_clamp (Q x y)
  have hh := clamp_le_posInf (Q x y)
  have hmem := hq.mem (Int.le_of_lt (negInf_lt_clampFinite x))
    (Int.le_of_lt (clampFinite_lt_posInf x)) (clamp y)
  have hself := clamp_eq_self hmem.1 hmem.2
  rw [hq.clampFinite_clamp x hy] at *
  by_cases hlo : x ≤ negInf
  · -- below, the finite dividend has the larger quotient, and the infinite one sets no limit
    have hx : x < posInf := by rw [posInf_eq, negInf_eq] at *; omega
    have hfin := hq.isQuotient.mono hy (le_clampFinite hx)
    have hmono := clamp_mono hfin
    rw [clamp_eq_negInf hlo, hq.negInf_pos (clamp_pos hy)]
    omega
  by_cases hhi : posInf ≤ x
  · have hfin := hq.isQuotient.mono hy (clampFinite_le (x := x) (by omega))
    have hmono := clamp_mono hfin
    rw [clamp_eq_posInf hhi, hq.posInf_pos (clamp_pos hy)]
    omega
  rw [clampFinite_eq_self (by omega) (by omega)] at *
  omega

theorem clamp_between (x : Int) {y : Int} (hy : y ≠ 0) :
    min (q (clampFinite x) (clamp y)) (q (clamp x) (clamp y)) ≤ clamp (Q x y) ∧
      clamp (Q x y) ≤ max (q (clampFinite x) (clamp y)) (q (clamp x) (clamp y)) := by
  rcases Int.lt_or_gt_of_ne hy with hy | hy
  · have hcy : clamp y ≠ 0 := by
      simp only [clamp, posInf_eq, negInf_eq]
      omega
    have h := hq.clamp_between_of_pos (-x) (y := -y) (by omega)
    have hl := Int.le_of_lt (negInf_lt_clampFinite x)
    have hh := Int.le_of_lt (clampFinite_lt_posInf x)
    rwa [clampFinite_neg, clamp_neg, clamp_neg, hq.isQuotient.neg_neg, hq.neg_neg hl hh hcy,
      hq.neg_neg (negInf_le_clamp x) (clamp_le_posInf x) hcy] at h
  · exact hq.clamp_between_of_pos x hy

/-- The corners of a box without the divisor zero hold all quotients. The bound of the divisor need
not be normal. -/
theorem admits_corners {a b : Bound} (ha : a.Normal) (hb : b.excludesZero = true) {x y : Int}
    (hx : a.Admits x) (hyl : b.lo ≤ clamp y) (hyh : clamp y ≤ b.hi) :
    (Bound.corners q a b).Admits (Q x y) := by
  have hy : y ≠ 0 := by
    rintro rfl
    have : clamp 0 = 0 := rfl
    simp only [Bound.excludesZero, decide_eq_true_eq] at hb
    omega
  have h := hq.clamp_between x hy
  exact Bound.admits_corners (hq.separatelyMonotone ha hb) ha hx hyl hyh h.1 h.2

end DividesAs

end IndexAlgebra
