import IndexAlgebra.Proofs.Bound.Narrowing
/-!
# The best bounds

A bound stands for the set of integers that it admits. `Best f a b c` says that `c` is the least
normal bound around the results of `f` on what `a` and `b` admit. The rules for sums, differences,
products, smaller and larger values, quotients and shifts give the best bound
(`best_abstractions`), the last ones where the operands allow the operation at all.

That the rules are sound is known from `Bound.Arith`. They are tight because the endpoints that they
compute, before these are normalised, are reached (`Reaches`): some result on admitted operands has
that nearest endpoint. An infinite endpoint of an operand stands for operands of any size there, so
that a dividend can be found for each infinite quotient, whatever the divisor.
-/

namespace IndexAlgebra

open Endpoint

namespace Bound

/-- A bound admits all results of an operation on admitted operands. -/
def Around (f : Int → Int → Int) (a b c : Bound) : Prop :=
  ∀ x y, a.Admits x → b.Admits y → c.Admits (f x y)

/-- The least normal bound around the results of an operation on admitted operands. -/
structure Best (f : Int → Int → Int) (a b c : Bound) : Prop where
  normal : c.Normal
  around : Around f a b c
  least : ∀ d : Bound, d.Normal → Around f a b d → ∀ v, c.Admits v → d.Admits v

/-- An integer is the nearest endpoint of some result of an operation on admitted operands. -/
def Reaches (f : Int → Int → Int) (a b : Bound) (p : Int) : Prop :=
  ∃ x y, a.Admits x ∧ b.Admits y ∧ clamp (f x y) = p

section Reached

variable {f : Int → Int → Int} {a b d : Bound} {p q lo hi : Int}

theorem Reaches.min (hp : Reaches f a b p) (hq : Reaches f a b q) : Reaches f a b (min p q) := by
  rcases min_choice p q with h | h
  · rwa [h]
  · rwa [h]

theorem Reaches.max (hp : Reaches f a b p) (hq : Reaches f a b q) : Reaches f a b (max p q) := by
  rcases max_choice p q with h | h
  · rwa [h]
  · rwa [h]

/-- A normal bound around all results has what is reached between its endpoints. -/
theorem Reaches.mem (hp : Reaches f a b p) (hd : d.Normal) (hf : Around f a b d) :
    d.lo ≤ p ∧ p ≤ d.hi := by
  obtain ⟨x, y, hx, hy, rfl⟩ := hp
  exact hd.admits_iff.1 (hf x y hx hy)

/-- Normalised endpoints lie between those of a normal bound if the endpoints themselves do. -/
theorem Normal.subsumes_make (hd : d.Normal) (hl : d.lo ≤ lo) (hh : hi ≤ d.hi) :
    d.subsumes (make lo hi) = true := by
  obtain ⟨_, _, _, _, _⟩ := hd
  rw [subsumes_iff]
  constructor <;> simp only [make, posInf_eq, negInf_eq] at * <;> omega

/-- A bound between reached endpoints is the best one. -/
theorem best_make (hn : (make lo hi).Normal) (hf : Around f a b (make lo hi))
    (hlo : Reaches f a b lo) (hhi : Reaches f a b hi) : Best f a b (make lo hi) where
  normal := hn
  around := hf
  least _ hd hfd _ hv :=
    admits_of_subsumes hd hn (hd.subsumes_make (hlo.mem hd hfd).1 (hhi.mem hd hfd).2) hv

theorem Normal.best {c : Bound} (hc : c.Normal) (hf : Around f a b c) (hlo : Reaches f a b c.lo)
    (hhi : Reaches f a b c.hi) : Best f a b c := by
  have hmake : make c.lo c.hi = c := hc.make_eq
  have h : Best f a b (make c.lo c.hi) :=
    best_make (by rwa [hmake]) (by rwa [hmake]) hlo hhi
  rwa [hmake] at h

/-- The bound from the corners is the best one if what the corners give is reached. -/
theorem best_corners {op : Int → Int → Int} (hf : Around f a b (corners op a b))
    (h : ∀ x ∈ [a.lo, a.hi], ∀ y ∈ [b.lo, b.hi], Reaches f a b (op x y)) :
    Best f a b (corners op a b) := by
  have hll := h a.lo (.head _) b.lo (.head _)
  have hhl := h a.hi (.tail _ (.head _)) b.lo (.head _)
  have hlh := h a.lo (.head _) b.hi (.tail _ (.head _))
  have hhh := h a.hi (.tail _ (.head _)) b.hi (.tail _ (.head _))
  exact best_make (normal_corners op a b) hf ((hll.min hhl).min (hlh.min hhh))
    ((hll.max hhl).max (hlh.max hhh))

end Reached

variable {a b : Bound} {x y : Int}

/-! ## The endpoints of operands -/

theorem Normal.admits_lo (ha : a.Normal) : a.Admits a.lo :=
  ⟨.inr (Int.le_refl _), .inr ha.lo_le_hi⟩

theorem Normal.admits_hi (ha : a.Normal) : a.Admits a.hi :=
  ⟨.inr ha.lo_le_hi, .inr (Int.le_refl _)⟩

theorem Normal.admits_end (ha : a.Normal) (hx : x ∈ [a.lo, a.hi]) : a.Admits x := by
  rcases List.mem_pair.1 hx with rfl | rfl
  · exact ha.admits_lo
  · exact ha.admits_hi

theorem Normal.lo_le_end (ha : a.Normal) (hx : x ∈ [a.lo, a.hi]) : a.lo ≤ x := by
  rcases List.mem_pair.1 hx with rfl | rfl
  · exact Int.le_refl _
  · exact ha.lo_le_hi

theorem Normal.end_mem (ha : a.Normal) (hx : x ∈ [a.lo, a.hi]) : negInf ≤ x ∧ x ≤ posInf := by
  obtain ⟨_, _, _, _, _⟩ := ha
  rcases List.mem_pair.1 hx with rfl | rfl <;> omega

/-- A normal bound with an infinite endpoint admits everything behind it. -/
theorem Normal.admits_beyond (ha : a.Normal) (hx : x ∈ [a.lo, a.hi]) {z : Int}
    (h : x = posInf ∧ posInf ≤ z ∨ x = negInf ∧ z ≤ negInf) : a.Admits z := by
  obtain ⟨_, _, _, _, _⟩ := ha
  rcases List.mem_pair.1 hx with rfl | rfl
  · exact ⟨.inl (by omega), .inr (by simp only [posInf_eq, negInf_eq] at *; omega)⟩
  · exact ⟨.inr (by omega), .inl (by omega)⟩

/-! ## Sums and differences -/

theorem Reaches.add_comm {p : Int} (h : Reaches (· + ·) a b p) : Reaches (· + ·) b a p := by
  obtain ⟨x, y, hx, hy, rfl⟩ := h
  exact ⟨y, x, hy, hx, congrArg clamp (Int.add_comm y x)⟩

/-- An operand without a limit makes up for the other one. -/
theorem reaches_add_of_isInf (ha : a.Normal) (hb : b.Normal) (hx : x ∈ [a.lo, a.hi])
    (hinf : isInf x = true) : Reaches (· + ·) a b x := by
  rcases isInf_iff.1 hinf with rfl | rfl
  · have hadmits : a.Admits (posInf + b.lo.natAbs) := ha.admits_beyond hx (.inl ⟨rfl, by omega⟩)
    refine ⟨_, b.lo, hadmits, hb.admits_lo, ?_⟩
    show clamp (posInf + b.lo.natAbs + b.lo) = posInf
    exact clamp_eq_posInf (by omega)
  · have hadmits : a.Admits (negInf - b.lo.natAbs) := ha.admits_beyond hx (.inr ⟨rfl, by omega⟩)
    refine ⟨_, b.lo, hadmits, hb.admits_lo, ?_⟩
    show clamp (negInf - b.lo.natAbs + b.lo) = negInf
    exact clamp_eq_negInf (by omega)

theorem reaches_lo_add (ha : a.Normal) (hb : b.Normal) :
    Reaches (· + ·) a b ((add? a.lo b.lo).getD negInf) := by
  rw [lo_add_eq ha hb]
  split
  · next h =>
    rcases h with h | h
    · exact reaches_add_of_isInf ha hb (h ▸ .head _) rfl
    · exact (reaches_add_of_isInf hb ha (h ▸ .head _) rfl).add_comm
  · exact ⟨a.lo, b.lo, ha.admits_lo, hb.admits_lo, rfl⟩

theorem reaches_hi_add (ha : a.Normal) (hb : b.Normal) :
    Reaches (· + ·) a b ((add? a.hi b.hi).getD posInf) := by
  rw [hi_add_eq ha hb]
  split
  · next h =>
    rcases h with h | h
    · exact reaches_add_of_isInf ha hb (h ▸ .tail _ (.head _)) rfl
    · exact (reaches_add_of_isInf hb ha (h ▸ .tail _ (.head _)) rfl).add_comm
  · exact ⟨a.hi, b.hi, ha.admits_hi, hb.admits_hi, rfl⟩

theorem best_add (ha : a.Normal) (hb : b.Normal) : Best (· + ·) a b (a.add b) :=
  best_make (ha.add hb) (fun _ _ => admits_add ha hb) (reaches_lo_add ha hb)
    (reaches_hi_add ha hb)

theorem Normal.neg_neg (ha : a.Normal) : a.neg.neg = a := by
  obtain ⟨_, _, _, _, _⟩ := ha
  cases a
  simp only [Bound.neg, Endpoint.neg, posInf_eq, negInf_eq, mk.injEq] at *
  omega

/-- A difference is a sum with the negation, which ranges over the negated bound. -/
theorem around_sub_iff (hb : b.Normal) {d : Bound} :
    Around (· - ·) a b d ↔ Around (· + ·) a b.neg d := by
  constructor
  · intro h x y hx hy
    have hy' := admits_neg hb.neg hy
    rw [hb.neg_neg] at hy'
    have hxy : d.Admits (x - -y) := h x (-y) hx hy'
    rwa [Int.sub_neg] at hxy
  · intro h x y hx hy
    have hxy : d.Admits (x + -y) := h x (-y) hx (admits_neg hb hy)
    rwa [← Int.sub_eq_add_neg] at hxy

theorem best_sub (ha : a.Normal) (hb : b.Normal) : Best (· - ·) a b (a.sub b) where
  normal := ha.sub hb
  around := (around_sub_iff hb).2 (best_add ha hb.neg).around
  least d hd hf := (best_add ha hb.neg).least d hd ((around_sub_iff hb).1 hf)

/-! ## The smaller and the larger of two values -/

theorem Normal.clamp_lo (ha : a.Normal) : clamp a.lo = a.lo :=
  clamp_eq_self ha.negInf_le_lo (ha.lo_le_hi.trans ha.hi_le_posInf)

theorem Normal.clamp_hi (ha : a.Normal) : clamp a.hi = a.hi :=
  clamp_eq_self (ha.negInf_le_lo.trans ha.lo_le_hi) ha.hi_le_posInf

theorem best_minimum (ha : a.Normal) (hb : b.Normal) : Best min a b (a.minimum b) :=
  (ha.minimum hb).best (fun _ _ => admits_minimum ha hb)
    ⟨a.lo, b.lo, ha.admits_lo, hb.admits_lo, (ha.minimum hb).clamp_lo⟩
    ⟨a.hi, b.hi, ha.admits_hi, hb.admits_hi, (ha.minimum hb).clamp_hi⟩

theorem best_maximum (ha : a.Normal) (hb : b.Normal) : Best max a b (a.maximum b) :=
  (ha.maximum hb).best (fun _ _ => admits_maximum ha hb)
    ⟨a.lo, b.lo, ha.admits_lo, hb.admits_lo, (ha.maximum hb).clamp_lo⟩
    ⟨a.hi, b.hi, ha.admits_hi, hb.admits_hi, (ha.maximum hb).clamp_hi⟩

/-! ## Products -/

theorem best_mul (ha : a.Normal) (hb : b.Normal) : Best (· * ·) a b (a.mul b) :=
  best_corners (fun _ _ => admits_mul ha hb) fun x hx y hy =>
    ⟨x, y, ha.admits_end hx, hb.admits_end hy, (mul_eq_clamp x y).symm⟩

end Bound

/-! ## Quotients -/

/-- An infinite quotient times a divisor lies beyond the infinite dividend. -/
theorem Endpoint.divInf_mul_beyond {x y : Int} (hx : isInf x = true) (hy : y ≠ 0) :
    x = posInf ∧ posInf ≤ divInf x (clamp y) * y ∨
      x = negInf ∧ divInf x (clamp y) * y ≤ negInf := by
  have hpos : neg posInf = negInf := rfl
  have hneg : neg negInf = posInf := rfl
  unfold divInf
  rcases isInf_iff.1 hx with rfl | rfl
  · refine .inl ⟨rfl, ?_⟩
    rw [hpos]
    split <;> simp only [clamp, posInf_eq, negInf_eq] at * <;> omega
  · refine .inr ⟨rfl, ?_⟩
    rw [hneg]
    split <;> simp only [clamp, posInf_eq, negInf_eq] at * <;> omega

namespace DividesAs

variable {q Q : Int → Int → Int} (hq : DividesAs q Q)
include hq

/-- A finite endpoint has the same quotient by the nearest divisor as by the divisor itself. -/
theorem finite_clamp {x y : Int} (hl : negInf < x) (hh : x < posInf) (hy : y ≠ 0) :
    q x (clamp y) = Q x y := by
  rcases Int.lt_or_gt_of_ne hy with hy | hy
  · have h := hq.clampFinite_clamp (-x) (y := -y) (by omega)
    rwa [clampFinite_neg, clampFinite_eq_self hl hh, clamp_neg, hq.isQuotient.neg_neg,
      hq.neg_neg (Int.le_of_lt hl) (Int.le_of_lt hh)
        (by simp only [clamp, posInf_eq, negInf_eq]; omega)] at h
  · have h := hq.clampFinite_clamp x hy
    rwa [clampFinite_eq_self hl hh] at h

/-- Some admitted dividend has the quotient that an endpoint has by the nearest divisor. For an
infinite endpoint it is the product of that quotient and the divisor. -/
theorem exists_dividend (hexact : ∀ z {y}, y ≠ 0 → Q (z * y) y = z) {a : Bound} (ha : a.Normal)
    {x y : Int} (hx : x ∈ [a.lo, a.hi]) (hy : y ≠ 0) :
    ∃ x', a.Admits x' ∧ clamp (Q x' y) = q x (clamp y) := by
  have hxl := (ha.end_mem hx).1
  have hxh := (ha.end_mem hx).2
  have hmem := hq.mem hxl hxh (clamp y)
  have hself := clamp_eq_self hmem.1 hmem.2
  by_cases hinf : isInf x = true
  · refine ⟨q x (clamp y) * y, ha.admits_beyond hx ?_, ?_⟩
    · rw [hq.infinite _ hinf]
      exact divInf_mul_beyond hinf hy
    · rw [hexact _ hy, hself]
  · rw [isInf_iff] at hinf
    have hfin := hq.finite_clamp (x := x) (by omega) (by omega) hy
    exact ⟨x, ha.admits_end hx, by rw [← hfin, hself]⟩

theorem best (hexact : ∀ z {y}, y ≠ 0 → Q (z * y) y = z) {a b : Bound} (ha : a.Normal)
    (hb : b.Normal) (h0 : b.excludesZero = true) : Bound.Best Q a b (Bound.corners q a b) := by
  refine Bound.best_corners (fun x y hx hy => ?_) fun x hx y hy => ?_
  · exact hq.admits_corners ha h0 hx (hb.le_clamp hy) (hb.clamp_le hy)
  · have hy0 : y ≠ 0 := by
      have hle := hb.lo_le_hi
      simp only [Bound.excludesZero, decide_eq_true_eq] at h0
      rcases List.mem_pair.1 hy with rfl | rfl <;> omega
    obtain ⟨x', hx', hquotient⟩ := hq.exists_dividend hexact ha hx hy0
    rw [clamp_eq_self (hb.end_mem hy).1 (hb.end_mem hy).2] at hquotient
    exact ⟨x', y, hx', hb.admits_end hy, hquotient⟩

end DividesAs

namespace Bound

variable {a b : Bound}

theorem excludesZero_of_not_admits (h : ¬ b.Admits 0) : b.excludesZero = true := by
  simp only [excludesZero, decide_eq_true_eq]
  simp only [Admits] at h
  omega

theorem best_div (ha : a.Normal) (hb : b.Normal) (h0 : b.excludesZero = true) :
    Best Int.tdiv a b (a.div b) := by
  rw [Bound.div, if_pos h0]
  exact div_dividesAs.best (fun z _ => Int.mul_tdiv_cancel z) ha hb h0

theorem best_floorDiv (ha : a.Normal) (hb : b.Normal) (h0 : b.excludesZero = true) :
    Best Int.fdiv a b (a.floorDiv b) := by
  rw [Bound.floorDiv, if_pos h0]
  exact floorDiv_dividesAs.best (fun z _ => Int.mul_fdiv_cancel z) ha hb h0

/-! ## Shifts -/

theorem best_rightShift (ha : a.Normal) (hb : b.Normal) (hbl : 0 ≤ b.lo) :
    Best (fun x y => x.fdiv (2 ^ y.toNat)) a b (a.corners Endpoint.rightShift b) := by
  refine best_corners (fun x y hx hy => ?_) fun x hx y hy => ?_
  · have h := admits_rightShift ha hb hx hy
    rw [Bound.rightShift, if_neg (by omega)] at h
    rwa [Int.fdiv_eq_ediv_of_nonneg _ (Int.le_of_lt (one_le_two_pow _))]
  · have hy0 : 0 ≤ y := hbl.trans (hb.lo_le_end hy)
    have hpower : (2 : Int) ^ y.toNat ≠ 0 := Int.ne_of_gt (one_le_two_pow _)
    obtain ⟨x', hx', hquotient⟩ := floorDiv_dividesAs.exists_dividend
      (fun z _ => Int.mul_fdiv_cancel z) ha hx hpower
    refine ⟨x', y, hx', hb.admits_end hy, ?_⟩
    rw [rightShift_eq_floorDiv (ha.end_mem hx).1 (ha.end_mem hx).2 hy0]
    exact hquotient

theorem best_leftShift (ha : a.Normal) (hb : b.Normal) (hal : 0 ≤ a.lo) (hbl : 0 ≤ b.lo) :
    Best (fun x y => x * 2 ^ y.toNat) a b (a.corners Endpoint.leftShift b) := by
  refine best_corners (fun x y hx hy => ?_) fun x hx y hy => ?_
  · have h := admits_leftShift ha hb hx hy
    rwa [Bound.leftShift, if_neg (by omega)] at h
  · have hx0 : 0 ≤ x := hal.trans (ha.lo_le_end hx)
    have hy0 : 0 ≤ y := hbl.trans (hb.lo_le_end hy)
    have hshift := leftShift_eq_clamp hx0 (ha.end_mem hx).2 hy0
    exact ⟨x, y, ha.admits_end hx, hb.admits_end hy, hshift.symm⟩

/-- The rules for sums, differences, products, smaller and larger values, quotients and shifts give
the least normal bounds around the results on operands that normal bounds admit: quotients if the
divisor cannot be zero, shifts to the right by amounts that are not negative, and shifts to the left
of operands that are not negative either. -/
theorem best_abstractions (ha : a.Normal) (hb : b.Normal) :
    Best (· + ·) a b (a.add b) ∧
    Best (· - ·) a b (a.sub b) ∧
    Best (· * ·) a b (a.mul b) ∧
    Best min a b (a.minimum b) ∧
    Best max a b (a.maximum b) ∧
    (¬ b.Admits 0 → Best Int.tdiv a b (a.div b) ∧ Best Int.fdiv a b (a.floorDiv b)) ∧
    (0 ≤ b.lo →
      Best (fun x y => x.fdiv (2 ^ y.toNat)) a b (a.corners Endpoint.rightShift b)) ∧
    (0 ≤ a.lo → 0 ≤ b.lo →
      Best (fun x y => x * 2 ^ y.toNat) a b (a.corners Endpoint.leftShift b)) := by
  have hquotients (h0 : ¬ b.Admits 0) := excludesZero_of_not_admits h0
  exact ⟨best_add ha hb, best_sub ha hb, best_mul ha hb, best_minimum ha hb, best_maximum ha hb,
    fun h0 => ⟨best_div ha hb (hquotients h0), best_floorDiv ha hb (hquotients h0)⟩,
    best_rightShift ha hb, best_leftShift ha hb⟩

/-- From five to nine, and two or more. -/
theorem best_abstractions_fiveToNine :
    let a : Bound := ⟨5, 9⟩
    let b : Bound := ⟨2, posInf⟩
    a.Normal ∧ b.Normal ∧ ¬ b.Admits 0 ∧ 0 ≤ b.lo ∧ 0 ≤ a.lo ∧
      Best (· + ·) a b ⟨7, posInf⟩ ∧ Best (· - ·) a b ⟨negInf, 7⟩ ∧
      Best (· * ·) a b ⟨10, posInf⟩ ∧ Best min a b ⟨2, 9⟩ ∧ Best max a b ⟨5, posInf⟩ ∧
      Best Int.tdiv a b ⟨0, 4⟩ ∧ Best Int.fdiv a b ⟨0, 4⟩ ∧
      Best (fun x y => x.fdiv (2 ^ y.toNat)) a b ⟨0, 2⟩ ∧
      Best (fun x y => x * 2 ^ y.toNat) a b ⟨20, posInf⟩ := by
  intro a b
  have ha : a.Normal := by decide
  have hb : b.Normal := by decide
  have h0 : ¬ b.Admits 0 := by decide
  have hcorners : a.corners Endpoint.leftShift b = ⟨20, posInf⟩ := by decide
  obtain ⟨hadd, hsub, hmul, hmin, hmax, hquotients, hright, hleft⟩ := best_abstractions ha hb
  rw [hcorners] at hleft
  exact ⟨ha, hb, h0, by decide, by decide, hadd, hsub, hmul, hmin, hmax, (hquotients h0).1,
    (hquotients h0).2, hright (by decide), hleft (by decide) (by decide)⟩

end Bound

end IndexAlgebra
