import IndexAlgebra.Bound.Arith
/-!
# Reading bounds

`b.Admits v` says that the integer `v` lies within the bound `b`, where an infinite endpoint sets
no limit. `b.Normal` says that the endpoints are in order and that `b` does not lie entirely at an
infinity; every pair of endpoints in order becomes normal by `Bound.make`.

A normal bound admits an integer exactly if the nearest endpoint lies between its own endpoints
(`Normal.admits_iff`). All statements about arithmetic on bounds go through this form, in which the
infinities need no cases of their own.
-/

namespace IndexAlgebra

namespace Endpoint

theorem posInf_eq : posInf = 9223372036854775807 := rfl

theorem negInf_eq : negInf = -9223372036854775807 := rfl

theorem isInf_iff {x : Int} : isInf x = true ↔ x = posInf ∨ x = negInf := by
  simp [isInf]

theorem isInf_eq_false {x : Int} (hl : negInf < x) (hh : x < posInf) : isInf x = false := by
  rw [Bool.eq_false_iff, Ne, isInf_iff]
  omega

/-- An endpoint that is not infinite lies between the infinities. -/
theorem finite_mem {x : Int} (hl : negInf ≤ x) (hh : x ≤ posInf) (hx : isInf x = false) :
    negInf < x ∧ x < posInf := by
  rw [Bool.eq_false_iff, Ne, isInf_iff] at hx
  omega

theorem isInf_neg (x : Int) : isInf (-x) = isInf x := by
  rw [Bool.eq_iff_iff, isInf_iff, isInf_iff, posInf_eq, negInf_eq]
  omega

/-! ## The nearest endpoint -/

theorem clamp_mono {x y : Int} (h : x ≤ y) : clamp x ≤ clamp y := by
  unfold clamp
  omega

theorem negInf_le_clamp (x : Int) : negInf ≤ clamp x := by
  unfold clamp
  omega

theorem clamp_le_posInf (x : Int) : clamp x ≤ posInf := by
  simp only [clamp, posInf_eq, negInf_eq]
  omega

theorem clamp_eq_self {x : Int} (hl : negInf ≤ x) (hh : x ≤ posInf) : clamp x = x := by
  unfold clamp
  omega

theorem clamp_eq_posInf {x : Int} (h : posInf ≤ x) : clamp x = posInf := by
  simp only [clamp, posInf_eq, negInf_eq] at *
  omega

theorem clamp_eq_negInf {x : Int} (h : x ≤ negInf) : clamp x = negInf := by
  simp only [clamp, posInf_eq, negInf_eq] at *
  omega

theorem clamp_pos {x : Int} (h : 0 < x) : 0 < clamp x := by
  simp only [clamp, posInf_eq, negInf_eq]
  omega

theorem clamp_neg (x : Int) : clamp (-x) = -clamp x := by
  simp only [clamp, posInf_eq, negInf_eq]
  omega

/-! ## Sums and products -/

theorem fits_iff {x : Int} :
    fits x = true ↔ -9223372036854775808 ≤ x ∧ x < 9223372036854775808 :=
  decide_eq_true_iff

/-- A sum that does not fit in a word is beyond the infinity on the side of the first operand. -/
theorem clamp_add_of_not_fits {x y : Int} (hl : negInf ≤ y) (hh : y ≤ posInf)
    (h : ¬ fits (x + y) = true) : clamp (x + y) = if 0 < x then posInf else negInf := by
  simp only [fits_iff, posInf_eq, negInf_eq] at *
  split
  · exact clamp_eq_posInf (by rw [posInf_eq]; omega)
  · exact clamp_eq_negInf (by rw [negInf_eq]; omega)

/-- The sum of two endpoints is the nearest endpoint, unless one of them is infinite. -/
theorem add?_eq {x y : Int} (hl : negInf ≤ y) (hh : y ≤ posInf) :
    add? x y =
      if isInf x then if x = -y then none else some x
      else if isInf y then some y
      else some (clamp (x + y)) := by
  unfold add?
  by_cases hfits : fits (x + y) = true
  · simp only [hfits, ↓reduceIte]
  · simp only [hfits, clamp_add_of_not_fits hl hh hfits, Bool.false_eq_true, ↓reduceIte,
      apply_ite some]

theorem zero_add? {y : Int} (hl : negInf ≤ y) (hh : y ≤ posInf) : add? 0 y = some y := by
  have hzero : isInf 0 = false := rfl
  rw [add?_eq hl hh, hzero, if_neg Bool.false_ne_true, Int.zero_add, clamp_eq_self hl hh, ite_self]

/-- The product of two endpoints is the nearest endpoint. -/
theorem mul_eq_clamp (x y : Int) : mul x y = clamp (x * y) := by
  unfold mul
  split
  · next h => exact (clamp_eq_self h.2.1 h.2.2).symm
  next hnot =>
  have hbeyond : x * y < negInf ∨ posInf < x * y := by
    simp only [fits_iff, posInf_eq, negInf_eq] at *
    omega
  split
  · next hsigns =>
    have hnonneg : 0 ≤ x * y := by
      rcases (show 0 < x ∧ 0 < y ∨ x ≤ 0 ∧ y ≤ 0 by omega) with ⟨hx, hy⟩ | ⟨hx, hy⟩
      · exact Int.mul_nonneg (Int.le_of_lt hx) (Int.le_of_lt hy)
      · exact Int.mul_nonneg_of_nonpos_of_nonpos hx hy
    exact (clamp_eq_posInf (by simp only [posInf_eq, negInf_eq] at *; omega)).symm
  · next hsigns =>
    have hnonpos : x * y ≤ 0 := by
      rcases (show 0 < x ∧ y ≤ 0 ∨ x ≤ 0 ∧ 0 < y by omega) with ⟨hx, hy⟩ | ⟨hx, hy⟩
      · exact Int.mul_nonpos_of_nonneg_of_nonpos (Int.le_of_lt hx) hy
      · exact Int.mul_nonpos_of_nonpos_of_nonneg hx (Int.le_of_lt hy)
    exact (clamp_eq_negInf (by simp only [posInf_eq, negInf_eq] at *; omega)).symm

end Endpoint

open Endpoint

namespace Bound

/-- The endpoints are in order and in the range of endpoints, and the bound does not lie entirely at
an infinity. -/
structure Normal (b : Bound) : Prop where
  negInf_le_lo : negInf ≤ b.lo
  lo_le_hi : b.lo ≤ b.hi
  hi_le_posInf : b.hi ≤ posInf
  lo_ne_posInf : b.lo ≠ posInf
  hi_ne_negInf : b.hi ≠ negInf

/-- An integer lies within a bound, whose infinite endpoints set no limit. -/
def Admits (b : Bound) (v : Int) : Prop :=
  (b.lo = negInf ∨ b.lo ≤ v) ∧ (b.hi = posInf ∨ v ≤ b.hi)

instance (b : Bound) : Decidable b.Normal :=
  decidable_of_iff
    (negInf ≤ b.lo ∧ b.lo ≤ b.hi ∧ b.hi ≤ posInf ∧ b.lo ≠ posInf ∧ b.hi ≠ negInf)
    ⟨fun ⟨h1, h2, h3, h4, h5⟩ => ⟨h1, h2, h3, h4, h5⟩,
      fun ⟨h1, h2, h3, h4, h5⟩ => ⟨h1, h2, h3, h4, h5⟩⟩

instance (b : Bound) (v : Int) : Decidable (b.Admits v) :=
  inferInstanceAs (Decidable (_ ∧ _))

theorem Normal.admits_iff {b : Bound} (hb : b.Normal) {v : Int} :
    b.Admits v ↔ b.lo ≤ clamp v ∧ clamp v ≤ b.hi := by
  obtain ⟨h1, h2, h3, h4, h5⟩ := hb
  simp only [Admits, clamp, posInf_eq, negInf_eq] at *
  omega

theorem Normal.le_clamp {b : Bound} (hb : b.Normal) {v : Int} (hv : b.Admits v) : b.lo ≤ clamp v :=
  (hb.admits_iff.1 hv).1

theorem Normal.clamp_le {b : Bound} (hb : b.Normal) {v : Int} (hv : b.Admits v) : clamp v ≤ b.hi :=
  (hb.admits_iff.1 hv).2

/-- A limit below the lower endpoint is a limit on the values. -/
theorem Normal.le_of_admits {b : Bound} (hb : b.Normal) {n v : Int} (hn : negInf < n)
    (h : n ≤ b.lo) (hv : b.Admits v) : n ≤ v := by
  have hv := hb.le_clamp hv
  have hlow := hb.negInf_le_lo
  simp only [clamp, posInf_eq, negInf_eq] at *
  omega

/-! ## Normalisation -/

theorem normal_make {lo hi : Int} (h : lo ≤ hi) : (make lo hi).Normal := by
  constructor <;> simp only [make, posInf_eq, negInf_eq] <;> omega

/-- Endpoints that are in order once they are normalised need not have been so before. -/
theorem normal_make_of_le {lo hi : Int} (h : (make lo hi).lo ≤ (make lo hi).hi) :
    (make lo hi).Normal := by
  constructor <;> simp only [make, posInf_eq, negInf_eq] at * <;> omega

/-- Normalising endpoints keeps what lies between them, whether they are in order or not. -/
theorem admits_make {lo hi v : Int} (hl : lo ≤ clamp v) (hh : clamp v ≤ hi) :
    (make lo hi).Admits v := by
  simp only [Admits, make, clamp, posInf_eq, negInf_eq] at *
  omega

theorem admits_make_of_mem {lo hi v : Int} (hl : lo ≤ v) (hh : v ≤ hi) : (make lo hi).Admits v := by
  simp only [Admits, make, posInf_eq, negInf_eq] at *
  omega

/-- Between finite endpoints, what the normalised bound admits lies between them. -/
theorem mem_of_admits_make {lo hi v : Int} (hl : negInf < lo) (h : lo ≤ hi) (hh : hi < posInf)
    (hv : (make lo hi).Admits v) : lo ≤ v ∧ v ≤ hi := by
  simp only [Admits, make, posInf_eq, negInf_eq] at *
  omega

/-- A normal bound is normalised already. -/
theorem Normal.make_eq {b : Bound} (hb : b.Normal) : make b.lo b.hi = b := by
  obtain ⟨h1, h2, h3, h4, h5⟩ := hb
  cases b
  simp only [make, posInf_eq, negInf_eq, mk.injEq] at *
  omega

theorem normal_unit (v : Int) : (unit v).Normal := normal_make (Int.le_refl v)

theorem admits_unit {v : Int} (hl : negInf - 1 ≤ v) (hh : v ≤ posInf) : (unit v).Admits v := by
  simp only [Admits, unit, make, posInf_eq, negInf_eq] at *
  omega

theorem normal_everything : everything.Normal := by
  constructor <;> simp [everything, posInf_eq, negInf_eq]

theorem admits_everything (v : Int) : everything.Admits v := ⟨.inl rfl, .inl rfl⟩

/-! ## Sets of values -/

theorem subsumes_iff {a b : Bound} : a.subsumes b = true ↔ a.lo ≤ b.lo ∧ b.hi ≤ a.hi := by
  simp [subsumes]

theorem subsumes_refl (a : Bound) : a.subsumes a = true :=
  subsumes_iff.2 ⟨Int.le_refl _, Int.le_refl _⟩

theorem subsumes_trans {a b c : Bound} (hab : a.subsumes b = true) (hbc : b.subsumes c = true) :
    a.subsumes c = true := by
  rw [subsumes_iff] at *
  omega

theorem admits_of_subsumes {a b : Bound} (ha : a.Normal) (hb : b.Normal)
    (h : a.subsumes b = true) {v : Int} (hv : b.Admits v) : a.Admits v := by
  rw [subsumes_iff] at h
  rw [ha.admits_iff]
  have hv := hb.admits_iff.1 hv
  omega

theorem Normal.union {a b : Bound} (ha : a.Normal) (hb : b.Normal) : (a.union b).Normal := by
  obtain ⟨_, _, _, _, _⟩ := ha
  obtain ⟨_, _, _, _, _⟩ := hb
  constructor <;> simp only [Bound.union] <;> omega

/-- A union holds what lies between values of the two bounds. -/
theorem admits_union_of_between {a b : Bound} (ha : a.Normal) (hb : b.Normal) {x y v : Int}
    (hx : a.Admits x) (hy : b.Admits y) (hl : min x y ≤ v) (hh : v ≤ max x y) :
    (a.union b).Admits v := by
  rw [(ha.union hb).admits_iff]
  have hx := ha.admits_iff.1 hx
  have hy := hb.admits_iff.1 hy
  simp only [Bound.union, clamp] at *
  omega

theorem admits_union_left {a b : Bound} (ha : a.Normal) (hb : b.Normal) {v : Int}
    (hv : a.Admits v) : (a.union b).Admits v := by
  rw [(ha.union hb).admits_iff]
  have hv := ha.admits_iff.1 hv
  simp only [Bound.union]
  omega

theorem admits_union_right {a b : Bound} (ha : a.Normal) (hb : b.Normal) {v : Int}
    (hv : b.Admits v) : (a.union b).Admits v := by
  rw [(ha.union hb).admits_iff]
  have hv := hb.admits_iff.1 hv
  simp only [Bound.union]
  omega

/-- What two bounds both admit, their common part admits: it is never missing then. -/
theorem exists_intersect? {a b : Bound} (ha : a.Normal) (hb : b.Normal) {v : Int}
    (hva : a.Admits v) (hvb : b.Admits v) :
    ∃ c, a.intersect? b = some c ∧ c.Normal ∧ c.Admits v := by
  have hva := ha.admits_iff.1 hva
  have hvb := hb.admits_iff.1 hvb
  obtain ⟨_, _, _, _, _⟩ := ha
  obtain ⟨_, _, _, _, _⟩ := hb
  have hle : max a.lo b.lo ≤ min a.hi b.hi := by omega
  have hn : (⟨max a.lo b.lo, min a.hi b.hi⟩ : Bound).Normal := by
    constructor <;> dsimp only <;> omega
  refine ⟨⟨max a.lo b.lo, min a.hi b.hi⟩, ?_, hn, ?_⟩
  · simp only [intersect?, hle, ↓reduceIte]
  · rw [hn.admits_iff]
    dsimp only
    omega

theorem Normal.of_intersect? {a b c : Bound} (ha : a.Normal) (hb : b.Normal)
    (hc : a.intersect? b = some c) : c.Normal := by
  obtain ⟨_, _, _, _, _⟩ := ha
  obtain ⟨_, _, _, _, _⟩ := hb
  simp only [intersect?, Option.ite_none_right_eq_some, Option.some.injEq] at hc
  obtain ⟨hle, rfl⟩ := hc
  constructor <;> dsimp only <;> omega

theorem subsumes_of_intersect? {a b c : Bound} (h : a.intersect? b = some c) :
    a.subsumes c = true := by
  simp only [intersect?, Option.ite_none_right_eq_some, Option.some.injEq] at h
  obtain ⟨-, rfl⟩ := h
  rw [subsumes_iff]
  dsimp only
  omega

end Bound

end IndexAlgebra
