import IndexAlgebra.Proofs.Bound.Quotient
import Mathlib.Algebra.Order.Ring.Int
/-!
# Arithmetic on bounds

Each rule of `Bound.Arith` gives a normal bound from normal ones (`Normal.add`, …), and the bound
admits every result of the operation on admitted operands (`admits_add`, …). Where nothing else is
said the operands are any integers, not only those of 64 bits; a remainder is bounded only if the
divisor is at most `posInf`.

A shift is a product with, or a quotient by, a power of two, and is treated as such.
-/

namespace IndexAlgebra

open Endpoint

namespace Bound

variable {a b : Bound} {x y : Int}

/-! ## Sums and differences -/

theorem lo_add_eq (ha : a.Normal) (hb : b.Normal) : (add? a.lo b.lo).getD negInf =
    if a.lo = negInf ∨ b.lo = negInf then negInf else clamp (a.lo + b.lo) := by
  rw [add?_eq hb.negInf_le_lo (hb.lo_le_hi.trans hb.hi_le_posInf)]
  obtain ⟨_, _, _, _, _⟩ := ha
  obtain ⟨_, _, _, _, _⟩ := hb
  simp only [isInf_iff, posInf_eq, negInf_eq] at *
  grind

theorem hi_add_eq (ha : a.Normal) (hb : b.Normal) : (add? a.hi b.hi).getD posInf =
    if a.hi = posInf ∨ b.hi = posInf then posInf else clamp (a.hi + b.hi) := by
  rw [add?_eq (hb.negInf_le_lo.trans hb.lo_le_hi) hb.hi_le_posInf]
  obtain ⟨_, _, _, _, _⟩ := ha
  obtain ⟨_, _, _, _, _⟩ := hb
  simp only [isInf_iff, posInf_eq, negInf_eq] at *
  grind

theorem Normal.add (ha : a.Normal) (hb : b.Normal) : (a.add b).Normal := by
  apply normal_make
  rw [lo_add_eq ha hb, hi_add_eq ha hb]
  obtain ⟨_, _, _, _, _⟩ := ha
  obtain ⟨_, _, _, _, _⟩ := hb
  simp only [clamp, posInf_eq, negInf_eq] at *
  omega

theorem lo_add_le (ha : a.Normal) (hb : b.Normal) (hx : a.Admits x) (hy : b.Admits y) :
    (add? a.lo b.lo).getD negInf ≤ clamp (x + y) := by
  have hx := ha.le_clamp hx
  have hy := hb.le_clamp hy
  rw [lo_add_eq ha hb]
  obtain ⟨_, _, _, _, _⟩ := ha
  obtain ⟨_, _, _, _, _⟩ := hb
  simp only [clamp, posInf_eq, negInf_eq] at *
  omega

theorem le_hi_add (ha : a.Normal) (hb : b.Normal) (hx : a.Admits x) (hy : b.Admits y) :
    clamp (x + y) ≤ (add? a.hi b.hi).getD posInf := by
  have hx := ha.clamp_le hx
  have hy := hb.clamp_le hy
  rw [hi_add_eq ha hb]
  obtain ⟨_, _, _, _, _⟩ := ha
  obtain ⟨_, _, _, _, _⟩ := hb
  simp only [clamp, posInf_eq, negInf_eq] at *
  omega

theorem admits_add (ha : a.Normal) (hb : b.Normal) (hx : a.Admits x) (hy : b.Admits y) :
    (a.add b).Admits (x + y) :=
  admits_make (lo_add_le ha hb hx hy) (le_hi_add ha hb hx hy)

theorem Normal.neg (ha : a.Normal) : a.neg.Normal := by
  obtain ⟨_, _, _, _, _⟩ := ha
  constructor <;> simp only [Bound.neg, Endpoint.neg, posInf_eq, negInf_eq] at * <;> omega

theorem admits_neg (ha : a.Normal) (hx : a.Admits x) : a.neg.Admits (-x) := by
  have hx := ha.admits_iff.1 hx
  rw [ha.neg.admits_iff, clamp_neg]
  obtain ⟨_, _, _, _, _⟩ := ha
  simp only [Bound.neg, Endpoint.neg, posInf_eq, negInf_eq] at *
  omega

theorem Normal.sub (ha : a.Normal) (hb : b.Normal) : (a.sub b).Normal := ha.add hb.neg

theorem admits_sub (ha : a.Normal) (hb : b.Normal) (hx : a.Admits x) (hy : b.Admits y) :
    (a.sub b).Admits (x - y) := by
  rw [Int.sub_eq_add_neg]
  exact admits_add ha hb.neg hx (admits_neg hb hy)

/-! ## The smaller and the larger of two values -/

theorem Normal.minimum (ha : a.Normal) (hb : b.Normal) : (a.minimum b).Normal := by
  obtain ⟨_, _, _, _, _⟩ := ha
  obtain ⟨_, _, _, _, _⟩ := hb
  constructor <;> simp only [Bound.minimum] <;> omega

theorem admits_minimum (ha : a.Normal) (hb : b.Normal) (hx : a.Admits x) (hy : b.Admits y) :
    (a.minimum b).Admits (min x y) := by
  have hx := ha.admits_iff.1 hx
  have hy := hb.admits_iff.1 hy
  rw [(ha.minimum hb).admits_iff]
  simp only [Bound.minimum, clamp] at *
  omega

theorem Normal.maximum (ha : a.Normal) (hb : b.Normal) : (a.maximum b).Normal := by
  obtain ⟨_, _, _, _, _⟩ := ha
  obtain ⟨_, _, _, _, _⟩ := hb
  constructor <;> simp only [Bound.maximum] <;> omega

theorem admits_maximum (ha : a.Normal) (hb : b.Normal) (hx : a.Admits x) (hy : b.Admits y) :
    (a.maximum b).Admits (max x y) := by
  have hx := ha.admits_iff.1 hx
  have hy := hb.admits_iff.1 hy
  rw [(ha.maximum hb).admits_iff]
  simp only [Bound.maximum, clamp] at *
  omega

/-! ## Products -/

theorem clamp_mul_of_large (hx : posInf ≤ x) (y : Int) :
    clamp (x * y) = if 0 < y then posInf else if y < 0 then negInf else 0 := by
  have hpos : 0 < x := Int.lt_of_lt_of_le (by decide) hx
  rcases Int.lt_trichotomy y 0 with hy | rfl | hy
  · have := Int.mul_le_mul_of_nonneg_left (show y ≤ -1 by omega) (Int.le_of_lt hpos)
    rw [clamp_eq_negInf (by simp only [negInf]; omega), if_neg (by omega), if_pos hy]
  · simp [clamp, posInf_eq, negInf_eq]
  · have := Int.mul_le_mul_of_nonneg_left (show 1 ≤ y by omega) (Int.le_of_lt hpos)
    rw [clamp_eq_posInf (by omega), if_pos hy]

/-- A product of nearest endpoints goes past the same infinity as the product itself. -/
theorem clamp_clamp_mul (x y : Int) : clamp (clamp x * y) = clamp (x * y) := by
  have hlarge : ∀ {z : Int}, posInf ≤ z → clamp (clamp z * y) = clamp (z * y) := by
    intro z hz
    rw [clamp_eq_posInf hz, clamp_mul_of_large hz, clamp_mul_of_large (Int.le_refl _)]
  by_cases hh : posInf ≤ x
  · exact hlarge hh
  by_cases hl : x ≤ negInf
  · have h := hlarge (z := -x) (by simp only [negInf] at hl; omega)
    rw [clamp_neg, Int.neg_mul, Int.neg_mul, clamp_neg, clamp_neg] at h
    omega
  rw [clamp_eq_self (x := x) (by omega) (by omega)]

theorem mul_clamp_clamp (x y : Int) : Endpoint.mul (clamp x) (clamp y) = clamp (x * y) := by
  rw [mul_eq_clamp, clamp_clamp_mul, Int.mul_comm, clamp_clamp_mul, Int.mul_comm]

theorem oneWay_mul (y lo hi : Int) : OneWay (Endpoint.mul · y) lo hi := by
  simp only [mul_eq_clamp]
  rcases Int.le_total 0 y with hy | hy
  · left
    intro x _ x' _ h
    exact clamp_mono (Int.mul_le_mul_of_nonneg_right h hy)
  · right
    intro x _ x' _ h
    exact clamp_mono (Int.mul_le_mul_of_nonpos_right h hy)

theorem separatelyMonotone_mul (a b : Bound) : a.SeparatelyMonotone Endpoint.mul b where
  row y _ _ := oneWay_mul y a.lo a.hi
  column x _ _ := by
    have : Endpoint.mul x = (Endpoint.mul · x) := by
      funext y
      simp only [mul_eq_clamp, Int.mul_comm]
    rw [this]
    exact oneWay_mul x b.lo b.hi

/-- The corners of a product hold all products. The bound of the second factor need not be
normal. -/
theorem admits_corners_mul (ha : a.Normal) (hx : a.Admits x) (hyl : b.lo ≤ clamp y)
    (hyh : clamp y ≤ b.hi) : (corners Endpoint.mul a b).Admits (x * y) := by
  have h := mul_clamp_clamp x y
  exact admits_corners (separatelyMonotone_mul a b) ha hx hyl hyh (by omega) (by omega)

theorem Normal.mul (a b : Bound) : (a.mul b).Normal := normal_corners _ a b

theorem admits_mul (ha : a.Normal) (hb : b.Normal) (hx : a.Admits x) (hy : b.Admits y) :
    (a.mul b).Admits (x * y) :=
  admits_corners_mul ha hx (hb.le_clamp hy) (hb.clamp_le hy)

/-! ## Quotients -/

theorem normal_div (a b : Bound) : (a.div b).Normal := by
  unfold div
  split
  · exact normal_corners _ a b
  · exact normal_everything

theorem admits_div (ha : a.Normal) (hb : b.Normal) (hx : a.Admits x) (hy : b.Admits y) :
    (a.div b).Admits (x.tdiv y) := by
  unfold div
  split
  · next h => exact div_dividesAs.admits_corners ha h hx (hb.le_clamp hy) (hb.clamp_le hy)
  · exact admits_everything _

theorem normal_floorDiv (a b : Bound) : (a.floorDiv b).Normal := by
  unfold floorDiv
  split
  · exact normal_corners _ a b
  · exact normal_everything

theorem admits_floorDiv (ha : a.Normal) (hb : b.Normal) (hx : a.Admits x) (hy : b.Admits y) :
    (a.floorDiv b).Admits (x.fdiv y) := by
  unfold floorDiv
  split
  · next h => exact floorDiv_dividesAs.admits_corners ha h hx (hb.le_clamp hy) (hb.clamp_le hy)
  · exact admits_everything _

/-! ## Remainders -/

theorem emod_le_self (hx : 0 ≤ x) (hy : 0 < y) : x % y ≤ x := by
  rcases Int.lt_or_le x y with h | h
  · rw [Int.emod_eq_of_lt hx h]
  · exact Int.le_trans (Int.le_of_lt (Int.emod_lt_of_pos x hy)) h

/-- A remainder by a positive divisor is smaller than the divisor, and lies between zero and the
dividend. -/
theorem tmod_mem (x : Int) (hy : 0 < y) :
    -y < x.tmod y ∧ x.tmod y < y ∧ min x 0 ≤ x.tmod y ∧ x.tmod y ≤ max x 0 := by
  have hnonneg : ∀ {z : Int}, 0 ≤ z → 0 ≤ z.tmod y ∧ z.tmod y < y ∧ z.tmod y ≤ z := by
    intro z hz
    rw [Int.tmod_eq_emod_of_nonneg hz]
    exact ⟨Int.emod_nonneg z (by omega), Int.emod_lt_of_pos z hy, emod_le_self hz hy⟩
  rcases Int.le_total 0 x with hx | hx
  · have := hnonneg hx
    omega
  · have := hnonneg (z := -x) (by omega)
    rw [Int.neg_tmod] at this
    omega

theorem fmod_mem (x : Int) (hy : 0 < y) :
    0 ≤ x.fmod y ∧ x.fmod y < y ∧ (0 ≤ x → x.fmod y ≤ x) := by
  rw [Int.fmod_eq_emod_of_nonneg _ (Int.le_of_lt hy)]
  exact ⟨Int.emod_nonneg x (by omega), Int.emod_lt_of_pos x hy, fun hx => emod_le_self hx hy⟩

theorem Normal.mod (ha : a.Normal) (hb : b.Normal) : (a.mod b).Normal := by
  obtain ⟨_, _, _, _, _⟩ := ha
  obtain ⟨_, _, _, _, _⟩ := hb
  unfold Bound.mod
  split
  · exact normal_everything
  split
  · exact normal_make (by omega)
  · exact normal_make (by simp only [Endpoint.neg, posInf_eq] at *; omega)

/-- A divisor of 64 bits is at most `posInf`, so its remainders are smaller than `posInf`. -/
theorem admits_mod (ha : a.Normal) (hb : b.Normal) (hx : a.Admits x) (hy : b.Admits y)
    (hmax : y ≤ posInf) : (a.mod b).Admits (x.tmod y) := by
  unfold Bound.mod
  split
  · exact admits_everything _
  have hr := tmod_mem x (hb.le_of_admits (by decide) (by omega) hy)
  have hx := ha.admits_iff.1 hx
  have hy := hb.admits_iff.1 hy
  split <;> apply admits_make_of_mem <;>
    simp only [Endpoint.neg, clamp, posInf_eq, negInf_eq] at * <;> omega

theorem Normal.floorMod (ha : a.Normal) (hb : b.Normal) : (a.floorMod b).Normal := by
  obtain ⟨_, _, _, _, _⟩ := ha
  obtain ⟨_, _, _, _, _⟩ := hb
  unfold Bound.floorMod
  split
  · exact normal_everything
  split <;> exact normal_make (by omega)

theorem admits_floorMod (ha : a.Normal) (hb : b.Normal) (hx : a.Admits x) (hy : b.Admits y)
    (hmax : y ≤ posInf) : (a.floorMod b).Admits (x.fmod y) := by
  unfold Bound.floorMod
  split
  · exact admits_everything _
  have hr := fmod_mem x (hb.le_of_admits (by decide) (by omega) hy)
  have hx := ha.admits_iff.1 hx
  have hy := hb.admits_iff.1 hy
  split <;> apply admits_make_of_mem <;> simp only [clamp, posInf_eq, negInf_eq] at * <;> omega

end Bound

/-! ## Shifts -/

namespace Endpoint

/-- The endpoint nearest to a power of two. -/
def power (n : Int) : Int := clamp (2 ^ n.toNat)

theorem two_pow_mono {m n : Nat} (h : m ≤ n) : (2 : Int) ^ m ≤ 2 ^ n := by
  exact_mod_cast Nat.pow_le_pow_right (by decide) h

theorem one_le_two_pow (n : Nat) : (1 : Int) ≤ 2 ^ n := two_pow_mono (Nat.zero_le n)

theorem power_mono {m n : Int} (h : m ≤ n) : power m ≤ power n :=
  clamp_mono (two_pow_mono (by omega))

theorem power_pos (n : Int) : 0 < power n := clamp_pos (one_le_two_pow _)

theorem power_of_le {n : Int} (h : n ≤ 62) : power n = 2 ^ n.toNat := by
  have h1 := two_pow_mono (m := n.toNat) (n := 62) (by omega)
  have h2 := one_le_two_pow n.toNat
  apply clamp_eq_self <;> simp only [posInf_eq, negInf_eq] <;> omega

theorem power_of_lt {n : Int} (h : 62 < n) : power n = posInf := by
  have h1 := two_pow_mono (m := 63) (n := n.toNat) (by omega)
  exact clamp_eq_posInf (by simp only [posInf_eq]; omega)

theorem power_clamp (n : Int) : power (clamp n) = power n := by
  by_cases hh : n ≤ posInf
  · by_cases hl : negInf ≤ n
    · rw [clamp_eq_self hl hh]
    · have : (clamp n).toNat = n.toNat := by
        simp only [clamp, posInf_eq, negInf_eq] at *
        omega
      rw [power, power, this]
  · rw [clamp_eq_posInf (by omega), power_of_lt (by decide),
      power_of_lt (by simp only [posInf_eq] at *; omega)]

theorem rightShift_eq_floorDiv {x y : Int} (hl : negInf ≤ x) (hh : x ≤ posInf) (hy : 0 ≤ y) :
    rightShift x y = floorDiv x (power y) := by
  by_cases hx : isInf x = true
  · simp only [rightShift, floorDiv, hx, ↓reduceIte, divInf, power_pos]
  · rw [isInf_iff] at hx
    rw [floorDiv_dividesAs.finite _ (by omega) (by omega),
      Int.fdiv_eq_ediv_of_nonneg _ (Int.le_of_lt (power_pos y))]
    simp only [rightShift, isInf_iff, hx, ↓reduceIte, Int.shiftRight_eq_div_pow]
    by_cases hy' : y ≤ 62
    · rw [power_of_le hy', show (max 0 (min y 63)).toNat = y.toNat by omega]
      norm_cast
    · rw [power_of_lt (by omega), show (max 0 (min y 63)).toNat = 63 by omega]
      have hb : x.natAbs < posInf := by simp only [posInf_eq, negInf_eq] at *; omega
      rw [ediv_eq_of_large hb, ediv_eq_of_large (by simp only [posInf_eq] at *; omega)]

theorem two_pow_bitLength_le {x : Int} (hx : 0 < x) :
    2 ^ (bitLength x - 1) ≤ x ∧ x < 2 ^ bitLength x := by
  obtain ⟨n, rfl⟩ := Int.eq_ofNat_of_zero_le (Int.le_of_lt hx)
  have hn : n ≠ 0 := by omega
  have h1 := Nat.log2_self_le hn
  have h2 := Nat.lt_log2_self (n := n)
  have hb : bitLength (n : Int) = n.log2 + 1 := by simp [bitLength, hn]
  rw [hb]
  exact ⟨by exact_mod_cast h1, by exact_mod_cast h2⟩

/-- Shifting to the left is exact up to the infinity. -/
theorem leftShift_eq_clamp {x y : Int} (hl : 0 ≤ x) (hh : x ≤ posInf) (hy : 0 ≤ y) :
    leftShift x y = clamp (x * 2 ^ y.toNat) := by
  have hp := one_le_two_pow y.toNat
  rcases Int.lt_or_eq_of_le hl with hpos | rfl
  · rcases Int.lt_or_eq_of_le hh with hfin | rfl
    · have hx : ¬ (x = 0 ∨ isInf x = true) := by
        rw [isInf_iff]
        simp only [posInf_eq, negInf_eq] at *
        omega
      obtain ⟨hlow, hup⟩ := two_pow_bitLength_le hpos
      have hbits : bitLength x ≠ 0 := by
        intro h
        rw [h] at hup
        omega
      rw [leftShift, if_neg hx, Int.shiftLeft_eq]
      split
      · next h =>
        have h1 : x * 2 ^ y.toNat < 2 ^ bitLength x * 2 ^ y.toNat :=
          Int.mul_lt_mul_of_pos_right hup (by omega)
        have h2 : (0 : Int) ≤ x * 2 ^ y.toNat := Int.mul_nonneg hl (by omega)
        have h3 := two_pow_mono (m := bitLength x + y.toNat) (n := 63) (by omega)
        rw [← pow_add] at h1
        rw [clamp_eq_self] <;> simp only [posInf_eq, negInf_eq] <;> omega
      · next h =>
        have h1 : 2 ^ (bitLength x - 1) * 2 ^ y.toNat ≤ x * 2 ^ y.toNat :=
          Int.mul_le_mul_of_nonneg_right hlow (by omega)
        have h2 := two_pow_mono (m := 63) (n := bitLength x - 1 + y.toNat) (by omega)
        rw [← pow_add] at h1
        exact (clamp_eq_posInf (by simp only [posInf_eq]; omega)).symm
    · rw [Bound.clamp_mul_of_large (Int.le_refl _), if_pos (by omega)]
      simp [leftShift, isInf]
  · simp [leftShift, clamp, posInf_eq, negInf_eq]

theorem leftShift_eq_mul {x y : Int} (hl : 0 ≤ x) (hh : x ≤ posInf) (hy : 0 ≤ y) :
    leftShift x y = mul x (power y) := by
  rw [leftShift_eq_clamp hl hh hy, mul_eq_clamp, power, Int.mul_comm x (clamp _),
    Bound.clamp_clamp_mul, Int.mul_comm]

end Endpoint

namespace Bound

variable {a b : Bound} {x y : Int}

theorem power_mem (hb : b.Normal) (hy : b.Admits y) :
    power b.lo ≤ clamp (2 ^ y.toNat) ∧ clamp (2 ^ y.toNat) ≤ power b.hi := by
  change power b.lo ≤ power y ∧ power y ≤ power b.hi
  rw [← power_clamp y]
  exact ⟨power_mono (hb.le_clamp hy), power_mono (hb.clamp_le hy)⟩

theorem excludesZero_power (b : Bound) :
    (⟨power b.lo, power b.hi⟩ : Bound).excludesZero = true := by
  simp [excludesZero, power_pos]

/-- At the corners, shifting to the left is multiplying by powers of two. -/
theorem corners_leftShift_eq_mul (ha : a.Normal) (hb : b.Normal) (hal : 0 ≤ a.lo)
    (hbl : 0 ≤ b.lo) : a.corners Endpoint.leftShift b =
      a.corners Endpoint.mul ⟨power b.lo, power b.hi⟩ := by
  have hah := ha.hi_le_posInf
  have halh := ha.lo_le_hi
  have hblh := hb.lo_le_hi
  apply corners_congr
  rintro z (rfl | rfl) <;>
    exact ⟨leftShift_eq_mul (by omega) (by omega) (by omega),
      leftShift_eq_mul (by omega) (by omega) (by omega)⟩

/-- At the corners, shifting to the right is dividing by powers of two. -/
theorem corners_rightShift_eq_floorDiv (ha : a.Normal) (hb : b.Normal) (hbl : 0 ≤ b.lo) :
    a.corners Endpoint.rightShift b =
      a.corners Endpoint.floorDiv ⟨power b.lo, power b.hi⟩ := by
  have hal := ha.negInf_le_lo
  have hah := ha.hi_le_posInf
  have halh := ha.lo_le_hi
  have hblh := hb.lo_le_hi
  apply corners_congr
  rintro z (rfl | rfl) <;>
    exact ⟨rightShift_eq_floorDiv (by omega) (by omega) (by omega),
      rightShift_eq_floorDiv (by omega) (by omega) (by omega)⟩

theorem normal_leftShift (a b : Bound) : (a.leftShift b).Normal := by
  unfold leftShift
  split
  · exact normal_everything
  · exact normal_corners _ a b

theorem admits_leftShift (ha : a.Normal) (hb : b.Normal) (hx : a.Admits x) (hy : b.Admits y) :
    (a.leftShift b).Admits (x * 2 ^ y.toNat) := by
  unfold leftShift
  split
  · exact admits_everything _
  · rw [corners_leftShift_eq_mul ha hb (by omega) (by omega)]
    exact admits_corners_mul ha hx (power_mem hb hy).1 (power_mem hb hy).2

theorem normal_rightShift (a b : Bound) : (a.rightShift b).Normal := by
  unfold rightShift
  split
  · exact normal_everything
  · exact normal_corners _ a b

theorem admits_rightShift (ha : a.Normal) (hb : b.Normal) (hx : a.Admits x) (hy : b.Admits y) :
    (a.rightShift b).Admits (x / 2 ^ y.toNat) := by
  unfold rightShift
  split
  · exact admits_everything _
  · have hpos : (0 : Int) < 2 ^ y.toNat := one_le_two_pow _
    rw [corners_rightShift_eq_floorDiv ha hb (by omega),
      ← Int.fdiv_eq_ediv_of_nonneg _ (Int.le_of_lt hpos)]
    exact floorDiv_dividesAs.admits_corners ha (excludesZero_power b) hx (power_mem hb hy).1
      (power_mem hb hy).2

/-! ## Bitwise conjunctions -/

/-- A bitwise conjunction is no larger than a nonnegative operand. -/
theorem and_mem (x : Int64) {y : Int64} (hy : 0 ≤ y.toInt) :
    0 ≤ (x &&& y).toInt ∧ (x &&& y).toInt ≤ y.toInt := by
  have hand : (x &&& y).toBitVec.toNat ≤ y.toBitVec.toNat := by
    rw [Int64.toBitVec_and, BitVec.toNat_and]
    exact Nat.and_le_right
  have hlt := y.toBitVec.isLt
  simp only [Int64.toInt, BitVec.toInt_eq_toNat_cond] at *
  omega

theorem Normal.bitAnd (ha : a.Normal) (hb : b.Normal) : (a.bitAnd b).Normal := by
  obtain ⟨_, _, _, _, _⟩ := ha
  obtain ⟨_, _, _, _, _⟩ := hb
  unfold Bound.bitAnd
  split <;> rename_i h1 h2 <;> simp only [nonneg, decide_eq_true_eq] at h1 h2
  · exact normal_make (by omega)
  · exact normal_make (by omega)
  · exact normal_make (by omega)
  · exact normal_everything

theorem admits_bitAnd (ha : a.Normal) (hb : b.Normal) {x y : Int64} (hx : a.Admits x.toInt)
    (hy : b.Admits y.toInt) : (a.bitAnd b).Admits (x &&& y).toInt := by
  have hxl := ha.admits_iff.1 hx
  have hyl := hb.admits_iff.1 hy
  have hal := fun h : 0 ≤ b.lo => and_mem x (hb.le_of_admits (by decide) h hy)
  have har := fun h : 0 ≤ a.lo => and_mem y (ha.le_of_admits (by decide) h hx)
  rw [Int64.and_comm y x] at har
  unfold Bound.bitAnd
  split <;> rename_i h1 h2 <;> simp only [nonneg, decide_eq_true_eq] at h1 h2
  · have := hal h2
    have := har h1
    apply admits_make <;> simp only [clamp, posInf_eq, negInf_eq] at * <;> omega
  · have := har h1
    apply admits_make <;> simp only [clamp, posInf_eq, negInf_eq] at * <;> omega
  · have := hal h2
    apply admits_make <;> simp only [clamp, posInf_eq, negInf_eq] at * <;> omega
  · exact admits_everything _

end Bound

end IndexAlgebra
