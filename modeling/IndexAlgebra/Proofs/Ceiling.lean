import IndexAlgebra.Proofs.Smart
import Mathlib.Algebra.Order.Floor.Ring
import Mathlib.Data.Rat.Floor
/-!
# Quotients rounded up

`Smart.ceilDiv` rounds `(a + b - 1) / b` down. That is the quotient of `a` and `b` rounded up if the
divisor is positive. For a negative divisor, one would have to be added where it is taken away, and
what is made is the quotient of `a - 2` rounded up. It is too large, unless the remainder of `a` is
two or more.

It does not matter whether the sum, the difference or the quotient fold, since the constructors keep
values (`makes_ceilDiv`).
-/

namespace IndexAlgebra

/-! ## Rounding up by rounding down -/

section Rounding

variable {x y q : Int}

theorem ceil_div_eq_iff_of_pos (hy : 0 < y) :
    ⌈(x : ℚ) / y⌉ = q ↔ y * q - y < x ∧ x ≤ y * q := by
  have hpos : (0 : ℚ) < y := Int.cast_pos.2 hy
  have hstep : (q - 1) * y = y * q - y := by rw [Int.sub_mul, Int.one_mul, Int.mul_comm]
  rw [Int.ceil_eq_iff, lt_div_iff₀ hpos, div_le_iff₀ hpos, ← hstep, Int.mul_comm y]
  norm_cast

theorem ceil_div_eq_iff_of_neg (hy : y < 0) :
    ⌈(x : ℚ) / y⌉ = q ↔ y * q ≤ x ∧ x < y * q - y := by
  have h := ceil_div_eq_iff_of_pos (x := -x) (q := q) (Int.neg_pos_of_neg hy)
  rw [Int.cast_neg, Int.cast_neg, neg_div_neg_eq, Int.neg_mul] at h
  rw [h]
  omega

theorem fdiv_eq_ceil_of_pos (hy : 0 < y) : (x + y - 1).fdiv y = ⌈(x : ℚ) / y⌉ := by
  have hquotient := Int.mul_fdiv_add_fmod (x + y - 1) y
  have hlo := Int.fmod_nonneg_of_pos (x + y - 1) hy
  have hhi := Int.fmod_lt_of_pos (x + y - 1) hy
  symm
  rw [ceil_div_eq_iff_of_pos hy]
  omega

/-- For a negative divisor, it is a dividend that is less by two of which the quotient is taken. -/
theorem fdiv_eq_ceil_of_neg (hy : y < 0) :
    (x + y - 1).fdiv y = ⌈((x - 2 : Int) : ℚ) / y⌉ :=
  calc (x + y - 1).fdiv y = (-(x + y - 1)).fdiv (-y) := (Int.neg_fdiv_neg ..).symm
    _ = (-(x - 2) + -y - 1).fdiv (-y) := by
      congr 1
      omega
    _ = ⌈((-(x - 2) : Int) : ℚ) / (-y : Int)⌉ := fdiv_eq_ceil_of_pos (Int.neg_pos_of_neg hy)
    _ = ⌈((x - 2 : Int) : ℚ) / y⌉ := by rw [Int.cast_neg, Int.cast_neg, neg_div_neg_eq]

/-- For a negative divisor, the quotient with a remainder of zero or more is the one rounded up. -/
theorem ceil_eq_ediv_of_neg (hy : y < 0) : ⌈(x : ℚ) / y⌉ = x / y := by
  have hquotient := Int.mul_ediv_add_emod x y
  have hlo := Int.emod_nonneg x (Int.ne_of_lt hy)
  have hhi := Int.emod_lt_of_neg x hy
  rw [ceil_div_eq_iff_of_neg hy]
  omega

theorem sub_two_ediv_eq_iff (hy : y < 0) : (x - 2) / y = x / y ↔ 2 ≤ x % y := by
  have hquotient := Int.mul_ediv_add_emod x y
  have hhi := Int.emod_lt_of_neg x hy
  rw [← ceil_eq_ediv_of_neg hy, ceil_div_eq_iff_of_neg hy]
  omega

theorem sub_two_ediv_eq_add (hy : y < 0) : (x - 2) / y = x / y + (x % y - 2) / y := by
  have hquotient := Int.mul_ediv_add_emod x y
  have hsplit : x - 2 = (x % y - 2) + y * (x / y) := by omega
  rw [hsplit, Int.add_mul_ediv_left _ _ (Int.ne_of_lt hy), Int.add_comm]

theorem ediv_mem_of_neg (hy : y < 0) (hl : -2 ^ 63 ≤ x + y - 1) (hh : x < 2 ^ 63) :
    -2 ^ 63 ≤ x / y ∧ x / y < 2 ^ 63 := by
  have hpos : 0 < -y := Int.neg_pos_of_neg hy
  have hneg : x / y = -(x / -y) := by rw [Int.ediv_neg, Int.neg_neg]
  have hbelow : -2 ^ 63 + 1 ≤ x / -y := by
    rw [Int.le_ediv_iff_mul_le hpos]
    omega
  have habove : x / -y < 2 ^ 63 := by
    rw [Int.ediv_lt_iff_lt_mul hpos]
    omega
  omega

/-- A quotient of too little does not wrap around to the quotient. -/
theorem toInt_ofInt_sub_two_ediv (hy : y < 0) (hl : -2 ^ 63 ≤ x + y - 1) (hh : x < 2 ^ 63) :
    (Int64.ofInt ((x - 2) / y)).toInt = x / y ↔ 2 ≤ x % y := by
  rw [← sub_two_ediv_eq_iff hy]
  constructor
  · intro h
    have hlo := Int.emod_nonneg x (Int.ne_of_lt hy)
    have hhi := Int.emod_lt_of_neg x hy
    have hadd := sub_two_ediv_eq_add (x := x) hy
    have hnear := Int.natAbs_ediv_le_natAbs (x % y - 2) y
    obtain ⟨c, hc⟩ := Int.dvd_bmod_sub_self (x := (x - 2) / y) (m := Int64.size)
    rw [← Int64.toInt_ofInt, h, show Int64.size = 2 ^ 64 from rfl] at hc
    omega
  · intro h
    obtain ⟨hlo, hhi⟩ := ediv_mem_of_neg hy hl hh
    rw [h]
    exact Int64.toInt_ofInt_of_le hlo hhi

end Rounding

section Values

variable {I : Interpretation} {env : Assignment} {a b : Expr} {x y : Int64}

theorem makes_add (hx : a.value? I env = some x) (hy : b.value? I env = some y) :
    Makes I env (Smart.add a b) (· = x + y) :=
  makes_orElse (fun r hr => ⟨_, Folding.value?_add hr hx hy, by simp⟩)
    fun next => ⟨_, Expr.value?_binary next hx hy rfl, by simp⟩

theorem makes_floorDiv (hx : a.value? I env = some x) (hy : b.value? I env = some y)
    (h0 : y ≠ 0) : Makes I env (Smart.floorDiv a b) (· = Word.floorDiv x y) := by
  have h0 : y.toInt ≠ 0 := fun h => h0 (Int64.toInt_inj.1 h)
  refine makes_tryOrElse (fun r hr => ⟨_, ?_, rfl⟩)
    fun next => ⟨_, Expr.value?_binary next hx hy (if_neg h0), rfl⟩
  exact Folding.value?_division (fun _ _ => rfl) Int.zero_fdiv Int.fdiv_one hr hx hy

theorem makes_ceilDiv (hx : a.value? I env = some x) (hy : b.value? I env = some y)
    (h0 : y ≠ 0) : Makes I env (Smart.ceilDiv a b) (· = Word.floorDiv (x + y - 1) y) := by
  intro next e next' hrun
  -- The constructors run one after the other, each on the node that the one before has made.
  let sum := (Smart.add a b).run next
  let one := (Build.int 1).run sum.2
  let numerator := (Smart.sub sum.1 one.1).run one.2
  obtain ⟨s, hs, rfl⟩ := makes_lift_iff.1 (makes_add hx hy) next
  have hone : one.1.value? I env = some 1 := rfl
  have hsub : (Expr.binary next .sub sum.1 one.1).value? I env = some _ :=
    Expr.value?_binary next hs hone rfl
  obtain ⟨n, hn, rfl⟩ := makes_lift_iff.1 (makes_sub hsub) one.2
  obtain ⟨w, hw, rfl⟩ := makes_floorDiv hn hy h0 numerator.2 e next' hrun
  refine ⟨_, hw, ?_⟩
  rw [Int64.ofInt_sub, Int64.ofInt_toInt, Int64.ofInt_toInt]

end Values

/-- What is made of operands whose sum less one fits in a word is the quotient rounded up, if the
divisor is positive. For a negative divisor, it is that of a dividend which is less by two, and so
the quotient rounded up only if the remainder is two or more. -/
theorem ceilDiv_value? {I : Interpretation} {env : Assignment} {a b : Expr} {x y : Int64}
    (hx : a.value? I env = some x) (hy : b.value? I env = some y) (h0 : y ≠ 0)
    (hl : -2 ^ 63 ≤ x.toInt + y.toInt - 1) (hh : x.toInt + y.toInt - 1 < 2 ^ 63)
    {next next' : Handle} {e : Expr} (hrun : (Smart.ceilDiv a b).run.run next = (.ok e, next')) :
    ∃ w, e.value? I env = some w ∧
      (0 < y.toInt → w.toInt = ⌈(x.toInt : ℚ) / y.toInt⌉) ∧
      (y.toInt < 0 → w = .ofInt ⌈((x.toInt - 2 : Int) : ℚ) / y.toInt⌉ ∧
        (w.toInt = ⌈(x.toInt : ℚ) / y.toInt⌉ ↔ 2 ≤ x.toInt % y.toInt)) := by
  obtain ⟨w, hw, hfloor⟩ := makes_ceilDiv hx hy h0 next e next' hrun
  have hnumerator : (x + y - 1).toInt = x.toInt + y.toInt - 1 := by
    rw [← Int64.toInt_ofInt_of_le hl hh]
    simp
  rw [Word.floorDiv, hnumerator] at hfloor
  refine ⟨w, hw, fun hpos => ?_, fun hneg => ?_⟩
  · rw [← fdiv_eq_ceil_of_pos hpos, hfloor, Int.fdiv_eq_ediv_of_nonneg _ (Int.le_of_lt hpos)]
    exact Word.toInt_ofInt_ediv hpos hl hh
  · rw [fdiv_eq_ceil_of_neg hneg] at hfloor
    refine ⟨hfloor, ?_⟩
    rw [hfloor, ceil_eq_ediv_of_neg hneg, ceil_eq_ediv_of_neg hneg]
    exact toInt_ofInt_sub_two_ediv hneg hl x.toInt_lt

namespace Rows

def x : Var := ⟨0, "x", false⟩

def y : Var := ⟨1, "y", false⟩

/-- `x` divided by `y` and rounded up. -/
def count : Expr :=
  .binary 5 .floorDiv (.binary 4 .sub (.binary 2 .add (.var x) (.var y)) (.int 3 1)) (.var y)

def I : Interpretation := ⟨default, fun _ _ => none⟩

def env (m n : Int64) : Assignment := fun v => if v = x then m else n

end Rows

/-- Half of minus seven, and a third of five with the opposite sign. -/
theorem ceilDiv_value?_rows :
    (Smart.ceilDiv (.var Rows.x) (.var Rows.y)).run.run 2 = (.ok Rows.count, 6) ∧
      Rows.count.value? Rows.I (Rows.env (-7) 2) = some (-3) ∧
      ⌈((-7 : Int) : ℚ) / (2 : Int)⌉ = -3 ∧
      Rows.count.value? Rows.I (Rows.env 5 (-3)) = some (-1) ∧
      ⌈((5 : Int) : ℚ) / (-3 : Int)⌉ = -1 := by
  have hrun : (Smart.ceilDiv (.var Rows.x) (.var Rows.y)).run.run 2 = (.ok Rows.count, 6) := rfl
  have hhalf : Rows.count.value? Rows.I (Rows.env (-7) 2) = some (-3) := by decide
  have hthird : Rows.count.value? Rows.I (Rows.env 5 (-3)) = some (-1) := by decide
  have hx (m n) : (Expr.var Rows.x).value? Rows.I (Rows.env m n) = some m := rfl
  have hy (m n) : (Expr.var Rows.y).value? Rows.I (Rows.env m n) = some n := rfl
  obtain ⟨w, hw, hpos, -⟩ := ceilDiv_value? (hx (-7) 2) (hy (-7) 2) (by decide) (by decide)
    (by decide) hrun
  obtain ⟨w', hw', -, hneg⟩ := ceilDiv_value? (hx 5 (-3)) (hy 5 (-3)) (by decide) (by decide)
    (by decide) hrun
  cases hhalf.symm.trans hw
  cases hthird.symm.trans hw'
  exact ⟨hrun, hhalf, (hpos (by decide)).symm, hthird, ((hneg (by decide)).2.2 (by decide)).symm⟩

/-- The quotient of seven and minus two, rounded up, is minus three, but minus two is made. -/
theorem not_ceilDiv_value?_eq_ceil :
    ¬ ∀ (I : Interpretation) (env : Assignment) (a b : Expr) (x y : Int64),
      a.value? I env = some x → b.value? I env = some y → y ≠ 0 →
      -2 ^ 63 ≤ x.toInt + y.toInt → x.toInt + y.toInt < 2 ^ 63 →
      -2 ^ 63 ≤ x.toInt + y.toInt - 1 → x.toInt + y.toInt - 1 < 2 ^ 63 →
      ∀ next e next', (Smart.ceilDiv a b).run.run next = (.ok e, next') →
        ∃ w, e.value? I env = some w ∧ w.toInt = ⌈(x.toInt : ℚ) / y.toInt⌉ := by
  intro h
  have hrun : (Smart.ceilDiv (.int 0 7) (.int 1 (-2))).run.run 2 = (.ok (.int 5 (-2)), 6) := rfl
  obtain ⟨w, hw, hceil⟩ := h Rows.I (Rows.env 0 0) _ _ 7 (-2) rfl rfl (by decide) (by decide)
    (by decide) (by decide) (by decide) _ _ _ hrun
  cases hw
  rw [ceil_eq_ediv_of_neg (by decide)] at hceil
  exact absurd hceil (by decide)

end IndexAlgebra
