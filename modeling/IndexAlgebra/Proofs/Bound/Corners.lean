import IndexAlgebra.Proofs.Bound.Reading
import Mathlib
/-!
# The four corners

An operation that is monotone or antitone in each argument while the other is held fixed takes its
least and its greatest value on a box at corners of the box (`SeparatelyMonotone.least_le`,
`le_greatest`). The direction may change from one row or column to the next.

Endpoint operations are such operations, but they are only near what happens to the integers behind
an infinite endpoint. `admits_corners` says how near they have to be: the value lies between the
results at the nearest endpoint and at the nearest finite one, both of which are in the box.
-/

namespace IndexAlgebra

namespace Endpoint

/-- The nearest endpoint that is not an infinity. -/
def clampFinite (x : Int) : Int := max (negInf + 1) (min x (posInf - 1))

theorem clampFinite_eq_self {x : Int} (hl : negInf < x) (hh : x < posInf) : clampFinite x = x := by
  unfold clampFinite
  omega

theorem clampFinite_neg (x : Int) : clampFinite (-x) = -clampFinite x := by
  simp only [clampFinite, posInf_eq, negInf_eq]
  omega

theorem negInf_lt_clampFinite (x : Int) : negInf < clampFinite x := by
  unfold clampFinite
  omega

theorem clampFinite_lt_posInf (x : Int) : clampFinite x < posInf := by
  simp only [clampFinite, posInf_eq, negInf_eq]
  omega

theorem clampFinite_le {x : Int} (h : negInf < x) : clampFinite x ≤ x := by
  unfold clampFinite
  omega

theorem le_clampFinite {x : Int} (h : x < posInf) : x ≤ clampFinite x := by
  unfold clampFinite
  omega

end Endpoint

open Endpoint

/-! ## One way -/

/-- A function does not decrease, or does not increase, between two integers. -/
def OneWay (f : Int → Int) (lo hi : Int) : Prop :=
  MonotoneOn f (Set.Icc lo hi) ∨ AntitoneOn f (Set.Icc lo hi)

theorem OneWay.between_ends {f : Int → Int} {lo hi x : Int} (hf : OneWay f lo hi)
    (hl : lo ≤ x) (hh : x ≤ hi) : min (f lo) (f hi) ≤ f x ∧ f x ≤ max (f lo) (f hi) := by
  have hlo : lo ∈ Set.Icc lo hi := ⟨Int.le_refl _, Int.le_trans hl hh⟩
  have hhi : hi ∈ Set.Icc lo hi := ⟨Int.le_trans hl hh, Int.le_refl _⟩
  rcases hf with hf | hf
  · have h1 := hf hlo ⟨hl, hh⟩ hl
    have h2 := hf ⟨hl, hh⟩ hhi hh
    omega
  · have h1 := hf hlo ⟨hl, hh⟩ hl
    have h2 := hf ⟨hl, hh⟩ hhi hh
    omega

namespace Bound

theorem Normal.le_clampFinite {a : Bound} (ha : a.Normal) {x : Int} (hx : a.Admits x) :
    a.lo ≤ clampFinite x := by
  have := ha.le_clamp hx
  obtain ⟨_, _, _, _, _⟩ := ha
  simp only [clamp, clampFinite, posInf_eq, negInf_eq] at *
  omega

theorem Normal.clampFinite_le {a : Bound} (ha : a.Normal) {x : Int} (hx : a.Admits x) :
    clampFinite x ≤ a.hi := by
  have := ha.clamp_le hx
  obtain ⟨_, _, _, _, _⟩ := ha
  simp only [clamp, clampFinite, posInf_eq, negInf_eq] at *
  omega

/-- The least value of `op` at the corners of `a × b`. -/
def least (op : Int → Int → Int) (a b : Bound) : Int :=
  min (min (op a.lo b.lo) (op a.hi b.lo)) (min (op a.lo b.hi) (op a.hi b.hi))

/-- The greatest value of `op` at the corners of `a × b`. -/
def greatest (op : Int → Int → Int) (a b : Bound) : Int :=
  max (max (op a.lo b.lo) (op a.hi b.lo)) (max (op a.lo b.hi) (op a.hi b.hi))

theorem corners_eq_make (op : Int → Int → Int) (a b : Bound) :
    corners op a b = make (least op a b) (greatest op a b) := rfl

theorem least_le_greatest (op : Int → Int → Int) (a b : Bound) :
    least op a b ≤ greatest op a b := by
  simp only [least, greatest]
  omega

theorem normal_corners (op : Int → Int → Int) (a b : Bound) : (corners op a b).Normal :=
  normal_make (least_le_greatest op a b)

/-- Only the values at the corners matter. -/
theorem corners_congr {op op' : Int → Int → Int} {a b b' : Bound}
    (h : ∀ x, x = a.lo ∨ x = a.hi → op x b.lo = op' x b'.lo ∧ op x b.hi = op' x b'.hi) :
    corners op a b = corners op' a b' := by
  have hl := h a.lo (.inl rfl)
  have hh := h a.hi (.inr rfl)
  simp only [corners, hl, hh]

/-! ## Separate monotonicity -/

/-- An operation goes one way along each row and along each column of a box. -/
structure SeparatelyMonotone (a : Bound) (op : Int → Int → Int) (b : Bound) : Prop where
  row : ∀ y, b.lo ≤ y → y ≤ b.hi → OneWay (op · y) a.lo a.hi
  column : ∀ x, a.lo ≤ x → x ≤ a.hi → OneWay (op x) b.lo b.hi

section Box

variable {op : Int → Int → Int} {a b : Bound} {x y : Int}

theorem SeparatelyMonotone.least_le (h : a.SeparatelyMonotone op b) (hxl : a.lo ≤ x)
    (hxh : x ≤ a.hi) (hyl : b.lo ≤ y) (hyh : y ≤ b.hi) : least op a b ≤ op x y := by
  -- along the row of `y` to an end of `a`, and from there along the column to an end of `b`
  have hrow := (h.row y hyl hyh).between_ends hxl hxh
  have hlo := (h.column a.lo (Int.le_refl _) (Int.le_trans hxl hxh)).between_ends hyl hyh
  have hhi := (h.column a.hi (Int.le_trans hxl hxh) (Int.le_refl _)).between_ends hyl hyh
  unfold least
  omega

theorem SeparatelyMonotone.le_greatest (h : a.SeparatelyMonotone op b) (hxl : a.lo ≤ x)
    (hxh : x ≤ a.hi) (hyl : b.lo ≤ y) (hyh : y ≤ b.hi) : op x y ≤ greatest op a b := by
  have hrow := (h.row y hyl hyh).between_ends hxl hxh
  have hlo := (h.column a.lo (Int.le_refl _) (Int.le_trans hxl hxh)).between_ends hyl hyh
  have hhi := (h.column a.hi (Int.le_trans hxl hxh) (Int.le_refl _)).between_ends hyl hyh
  unfold greatest
  omega

/-- The bound from the corners admits a value that lies between the results at the nearest endpoint
and at the nearest finite one. -/
theorem admits_corners {v : Int} (h : a.SeparatelyMonotone op b) (ha : a.Normal) (hx : a.Admits x)
    (hyl : b.lo ≤ y) (hyh : y ≤ b.hi)
    (hvl : min (op (clampFinite x) y) (op (clamp x) y) ≤ clamp v)
    (hvh : clamp v ≤ max (op (clampFinite x) y) (op (clamp x) y)) :
    (corners op a b).Admits v := by
  have hl := h.least_le (ha.le_clamp hx) (ha.clamp_le hx) hyl hyh
  have hh := h.le_greatest (ha.le_clamp hx) (ha.clamp_le hx) hyl hyh
  have hlf := h.least_le (ha.le_clampFinite hx) (ha.clampFinite_le hx) hyl hyh
  have hhf := h.le_greatest (ha.le_clampFinite hx) (ha.clampFinite_le hx) hyl hyh
  rw [corners_eq_make]
  apply admits_make <;> omega

end Box

end Bound

end IndexAlgebra
