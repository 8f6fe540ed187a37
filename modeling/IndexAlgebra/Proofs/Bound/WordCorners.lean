import IndexAlgebra.Proofs.Bound.Sets
/-!
# Corners of operations on words

The rules for products, quotients and shifts look only at the four corners of a box of operands.
Here that is justified for every operation on words: if it goes one way along each row and each
column of the box, the bound from the corners contains all its results but the lowest word
(`mem_words_corners`). Rows may differ in direction, and so may columns; nothing else is asked of
the operation, which may wrap around.

Each endpoint is a word, so the operation is taken to the endpoints as it is (`onWords`), and what
holds of it along the words of a bound holds along the integers between the endpoints.
-/

namespace IndexAlgebra.Bound

open Endpoint

/-- An operation on words, as one on integers. -/
def onWords (op : Int64 → Int64 → Int64) (x y : Int) : Int := (op (.ofInt x) (.ofInt y)).toInt

/-- A function does not decrease, or does not increase, on a set of words. -/
def OneWayOn (f : Int64 → Int64) (s : Set Int64) : Prop :=
  (∀ x ∈ s, ∀ y ∈ s, x ≤ y → f x ≤ f y) ∨ (∀ x ∈ s, ∀ y ∈ s, x ≤ y → f y ≤ f x)

/-- An operation on words goes one way along each row and along each column of a box. -/
structure SeparatelyMonotoneOn (a : Bound) (op : Int64 → Int64 → Int64) (b : Bound) : Prop where
  row : ∀ y ∈ b.words, OneWayOn (op · y) a.words
  column : ∀ x ∈ a.words, OneWayOn (op x) b.words

variable {a b : Bound} {op : Int64 → Int64 → Int64}

/-! ## From words to integers -/

theorem OneWayOn.oneWay {f : Int64 → Int64} (hf : OneWayOn f a.words) (hl : negInf ≤ a.lo)
    (hh : a.hi ≤ posInf) : OneWay (fun x => (f (.ofInt x)).toInt) a.lo a.hi := by
  have hword {n : Int} (hn : n ∈ Set.Icc a.lo a.hi) := ofInt_mem_words hl hh hn.1 hn.2
  have hle {x y : Int} (hx : x ∈ Set.Icc a.lo a.hi) (hy : y ∈ Set.Icc a.lo a.hi) (h : x ≤ y) :
      Int64.ofInt x ≤ Int64.ofInt y := by
    rw [Int64.le_iff_toInt_le, (hword hx).2, (hword hy).2]
    exact h
  refine hf.imp (fun hf => ?_) (fun hf => ?_)
  · intro x hx y hy h
    exact Int64.le_iff_toInt_le.1 (hf _ (hword hx).1 _ (hword hy).1 (hle hx hy h))
  · intro x hx y hy h
    exact Int64.le_iff_toInt_le.1 (hf _ (hword hx).1 _ (hword hy).1 (hle hx hy h))

theorem SeparatelyMonotoneOn.onWords (h : SeparatelyMonotoneOn a op b) (hal : negInf ≤ a.lo)
    (hah : a.hi ≤ posInf) (hbl : negInf ≤ b.lo) (hbh : b.hi ≤ posInf) :
    a.SeparatelyMonotone (onWords op) b where
  row _ hl hh := (h.row _ (ofInt_mem_words hbl hbh hl hh).1).oneWay hal hah
  column _ hl hh := (h.column _ (ofInt_mem_words hal hah hl hh).1).oneWay hbl hbh

theorem onWords_toInt (x y : Int64) : onWords op x.toInt y.toInt = (op x y).toInt := by
  rw [Bound.onWords, Int64.ofInt_toInt, Int64.ofInt_toInt]

/-! ## The corners -/

/-- Normalising endpoints keeps the words between them, except for the lowest one. -/
theorem mem_words_make {lo hi : Int} {v : Int64} (hl : lo ≤ v.toInt) (hh : v.toInt ≤ hi)
    (hv : negInf ≤ v.toInt) : v ∈ (make lo hi).words := by
  have hword := v.toInt_lt
  rw [mem_words]
  simp only [make, posInf_eq, negInf_eq] at *
  omega

/-- The bound from the corners of a box contains the results in the whole box, except for the lowest
word, if the operation goes one way along each row and along each column. -/
theorem mem_words_corners (hal : negInf ≤ a.lo) (hah : a.hi ≤ posInf) (hbl : negInf ≤ b.lo)
    (hbh : b.hi ≤ posInf) (h : SeparatelyMonotoneOn a op b) {x y : Int64} (hx : x ∈ a.words)
    (hy : y ∈ b.words) (hv : negInf ≤ (op x y).toInt) :
    op x y ∈ (corners (onWords op) a b).words := by
  have hmono := h.onWords hal hah hbl hbh
  rw [mem_words] at hx hy
  have hleast := hmono.least_le hx.1 hx.2 hy.1 hy.2
  have hgreatest := hmono.le_greatest hx.1 hx.2 hy.1 hy.2
  rw [onWords_toInt] at hleast hgreatest
  rw [corners_eq_make]
  exact mem_words_make hleast hgreatest hv

/-! ## An operation that changes direction -/

/-- Where no product wraps around, multiplication goes one way along each row and column: upwards for
a factor that is not negative, and downwards for a negative one. -/
theorem oneWayOn_mul {s : Set Int64} {y : Int64}
    (hexact : ∀ x ∈ s, (x * y).toInt = x.toInt * y.toInt) : OneWayOn (· * y) s := by
  rcases Int.le_total 0 y.toInt with hy | hy
  · left
    intro x hx x' hx' hle
    rw [Int64.le_iff_toInt_le] at hle ⊢
    rw [hexact x hx, hexact x' hx']
    exact Int.mul_le_mul_of_nonneg_right hle hy
  · right
    intro x hx x' hx' hle
    rw [Int64.le_iff_toInt_le] at hle ⊢
    rw [hexact x hx, hexact x' hx']
    exact Int.mul_le_mul_of_nonpos_right hle hy

theorem separatelyMonotoneOn_mul
    (hexact : ∀ x ∈ a.words, ∀ y ∈ b.words, (x * y).toInt = x.toInt * y.toInt) :
    SeparatelyMonotoneOn a (· * ·) b where
  row y hy := oneWayOn_mul fun x hx => hexact x hx y hy
  column x hx := by
    simp only [Int64.mul_comm x]
    refine oneWayOn_mul fun y hy => ?_
    rw [Int64.mul_comm, hexact x hx y hy, Int.mul_comm]

/-- From minus two to three, and from minus five to four: all combinations of signs. -/
theorem mem_words_corners_mul :
    let a : Bound := ⟨-2, 3⟩
    let b : Bound := ⟨-5, 4⟩
    SeparatelyMonotoneOn a (· * ·) b ∧ ∀ x ∈ a.words, ∀ y ∈ b.words, x * y ∈ words ⟨-15, 12⟩ := by
  intro a b
  have hbounds (x : Int64) (hx : x ∈ a.words) (y : Int64) (hy : y ∈ b.words) :
      -15 ≤ x.toInt * y.toInt ∧ x.toInt * y.toInt ≤ 12 := by
    obtain ⟨hxl, hxh⟩ : -2 ≤ x.toInt ∧ x.toInt ≤ 3 := mem_words.1 hx
    obtain ⟨hyl, hyh⟩ : -5 ≤ y.toInt ∧ y.toInt ≤ 4 := mem_words.1 hy
    constructor <;> nlinarith
  have hexact (x : Int64) (hx : x ∈ a.words) (y : Int64) (hy : y ∈ b.words) :
      (x * y).toInt = x.toInt * y.toInt := by
    have hxy := hbounds x hx y hy
    rw [Int64.toInt_mul]
    exact Int.bmod_eq_of_le_mul_two (by omega) (by omega)
  have hmono : SeparatelyMonotoneOn a (· * ·) b := separatelyMonotoneOn_mul hexact
  refine ⟨hmono, fun x hx y hy => ?_⟩
  have hcorners : corners (onWords (· * ·)) a b = ⟨-15, 12⟩ := by decide
  have hxy := hbounds x hx y hy
  rw [← hcorners]
  refine mem_words_corners (by decide) (by decide) (by decide) (by decide) hmono hx hy ?_
  rw [hexact x hx y hy, negInf_eq]
  omega

end IndexAlgebra.Bound
