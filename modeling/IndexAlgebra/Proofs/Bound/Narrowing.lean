import IndexAlgebra.Proofs.Bound.Arith
/-!
# Narrower operands give narrower bounds

`a.Within b` says that the bound `b` holds all that `a` holds, both being normal. Each rule of
`Bound.Arith` preserves it (`Within.add`, …), although the rules tell cases apart by the signs of
the operands and give up on some of them: an operand in a narrower bound is in the same case or in
one that gives more.

For the four corners this is again separate monotonicity. The corners of a smaller box lie in the
larger one, so that the values there lie between its extreme values.

To compare two bounds it is enough to compare the words that they admit (`Normal.within_of_words`).
-/

namespace IndexAlgebra.Bound

open Endpoint

/-- Two normal bounds, the second of which holds the first. -/
structure Within (a b : Bound) : Prop where
  normal : a.Normal
  normal_around : b.Normal
  lo_le : b.lo ≤ a.lo
  hi_le : a.hi ≤ b.hi

theorem within_iff {a b : Bound} :
    a.Within b ↔ a.Normal ∧ b.Normal ∧ b.subsumes a = true := by
  rw [subsumes_iff]
  exact ⟨fun h => ⟨h.normal, h.normal_around, h.lo_le, h.hi_le⟩,
    fun ⟨ha, hb, hl, hh⟩ => ⟨ha, hb, hl, hh⟩⟩

variable {a a' b b' : Bound}

theorem Normal.within_self (ha : a.Normal) : a.Within a :=
  ⟨ha, ha, Int.le_refl _, Int.le_refl _⟩

theorem Normal.within_everything (ha : a.Normal) : a.Within everything :=
  ⟨ha, normal_everything, ha.negInf_le_lo, ha.hi_le_posInf⟩

theorem within_make {lo hi lo' hi' : Int} (h : lo ≤ hi) (hl : lo' ≤ lo) (hh : hi ≤ hi') :
    (make lo hi).Within (make lo' hi') where
  normal := normal_make h
  normal_around := normal_make (hl.trans (h.trans hh))
  lo_le := by
    simp only [make, posInf_eq, negInf_eq]
    omega
  hi_le := by
    simp only [make, posInf_eq, negInf_eq]
    omega

/-! ## Sums, smaller and larger values -/

theorem Within.union (ha : a.Within a') (hb : b.Within b') : (a.union b).Within (a'.union b') where
  normal := ha.normal.union hb.normal
  normal_around := ha.normal_around.union hb.normal_around
  lo_le := by
    have := ha.lo_le
    have := hb.lo_le
    simp only [Bound.union]
    omega
  hi_le := by
    have := ha.hi_le
    have := hb.hi_le
    simp only [Bound.union]
    omega

theorem Within.add (ha : a.Within a') (hb : b.Within b') : (a.add b).Within (a'.add b') := by
  have hlo := lo_add_eq ha.normal hb.normal
  have hhi := hi_add_eq ha.normal hb.normal
  have hlo' := lo_add_eq ha.normal_around hb.normal_around
  have hhi' := hi_add_eq ha.normal_around hb.normal_around
  obtain ⟨⟨_, _, _, _, _⟩, ⟨_, _, _, _, _⟩, hal, hah⟩ := ha
  obtain ⟨⟨_, _, _, _, _⟩, ⟨_, _, _, _, _⟩, hbl, hbh⟩ := hb
  have hl := clamp_mono (Int.add_le_add hal hbl)
  have hh := clamp_mono (Int.add_le_add hah hbh)
  have hm := clamp_mono (show a.lo + b.lo ≤ a.hi + b.hi by omega)
  have := negInf_le_clamp (a.lo + b.lo)
  have := clamp_le_posInf (a.hi + b.hi)
  unfold Bound.add
  rw [hlo, hhi, hlo', hhi']
  apply within_make <;> split <;> split <;> omega

theorem Within.neg (ha : a.Within a') : a.neg.Within a'.neg where
  normal := ha.normal.neg
  normal_around := ha.normal_around.neg
  lo_le := by
    have := ha.hi_le
    simp only [Bound.neg, Endpoint.neg]
    omega
  hi_le := by
    have := ha.lo_le
    simp only [Bound.neg, Endpoint.neg]
    omega

theorem Within.sub (ha : a.Within a') (hb : b.Within b') : (a.sub b).Within (a'.sub b') :=
  ha.add hb.neg

theorem Within.minimum (ha : a.Within a') (hb : b.Within b') :
    (a.minimum b).Within (a'.minimum b') where
  normal := ha.normal.minimum hb.normal
  normal_around := ha.normal_around.minimum hb.normal_around
  lo_le := by
    have := ha.lo_le
    have := hb.lo_le
    simp only [Bound.minimum]
    omega
  hi_le := by
    have := ha.hi_le
    have := hb.hi_le
    simp only [Bound.minimum]
    omega

theorem Within.maximum (ha : a.Within a') (hb : b.Within b') :
    (a.maximum b).Within (a'.maximum b') where
  normal := ha.normal.maximum hb.normal
  normal_around := ha.normal_around.maximum hb.normal_around
  lo_le := by
    have := ha.lo_le
    have := hb.lo_le
    simp only [Bound.maximum]
    omega
  hi_le := by
    have := ha.hi_le
    have := hb.hi_le
    simp only [Bound.maximum]
    omega

/-! ## The four corners -/

/-- The corners of a box within a larger box give a bound within that of the larger box. -/
theorem SeparatelyMonotone.within_corners {op : Int → Int → Int}
    (h : a'.SeparatelyMonotone op b') (ha : a.Within a') (hbl : b'.lo ≤ b.lo) (hb : b.lo ≤ b.hi)
    (hbh : b.hi ≤ b'.hi) : (corners op a b).Within (corners op a' b') := by
  have ha_le := ha.normal.lo_le_hi
  have hal := ha.lo_le
  have hah := ha.hi_le
  have hleast : least op a' b' ≤ least op a b := by
    have h1 : least op a' b' ≤ op a.lo b.lo := h.least_le hal (by omega) hbl (by omega)
    have h2 : least op a' b' ≤ op a.hi b.lo := h.least_le (by omega) hah hbl (by omega)
    have h3 : least op a' b' ≤ op a.lo b.hi := h.least_le hal (by omega) (by omega) hbh
    have h4 : least op a' b' ≤ op a.hi b.hi := h.least_le (by omega) hah (by omega) hbh
    exact Int.le_min.2 ⟨Int.le_min.2 ⟨h1, h2⟩, Int.le_min.2 ⟨h3, h4⟩⟩
  have hgreatest : greatest op a b ≤ greatest op a' b' := by
    have h1 : op a.lo b.lo ≤ greatest op a' b' := h.le_greatest hal (by omega) hbl (by omega)
    have h2 : op a.hi b.lo ≤ greatest op a' b' := h.le_greatest (by omega) hah hbl (by omega)
    have h3 : op a.lo b.hi ≤ greatest op a' b' := h.le_greatest hal (by omega) (by omega) hbh
    have h4 : op a.hi b.hi ≤ greatest op a' b' := h.le_greatest (by omega) hah (by omega) hbh
    exact Int.max_le.2 ⟨Int.max_le.2 ⟨h1, h2⟩, Int.max_le.2 ⟨h3, h4⟩⟩
  rw [corners_eq_make, corners_eq_make]
  exact within_make (least_le_greatest op a b) hleast hgreatest

theorem Within.mul (ha : a.Within a') (hb : b.Within b') : (a.mul b).Within (a'.mul b') :=
  (separatelyMonotone_mul a' b').within_corners ha hb.lo_le hb.normal.lo_le_hi hb.hi_le

theorem Within.excludesZero (hb : b.Within b') (h : b'.excludesZero = true) :
    b.excludesZero = true := by
  have := hb.lo_le
  have := hb.hi_le
  simp only [Bound.excludesZero, decide_eq_true_eq] at *
  omega

/-- A quotient of endpoints, taken where the divisor cannot be zero. -/
theorem Within.quotient {q Q : Int → Int → Int} (hq : DividesAs q Q) (ha : a.Within a')
    (hb : b.Within b') :
    (if b.excludesZero then corners q a b else everything).Within
      (if b'.excludesZero then corners q a' b' else everything) := by
  by_cases h : b'.excludesZero = true
  · rw [if_pos h, if_pos (hb.excludesZero h)]
    exact (hq.separatelyMonotone ha.normal_around h).within_corners ha hb.lo_le
      hb.normal.lo_le_hi hb.hi_le
  · rw [if_neg h]
    split
    · exact (normal_corners q a b).within_everything
    · exact normal_everything.within_self

theorem Within.div (ha : a.Within a') (hb : b.Within b') : (a.div b).Within (a'.div b') :=
  ha.quotient div_dividesAs hb

theorem Within.floorDiv (ha : a.Within a') (hb : b.Within b') :
    (a.floorDiv b).Within (a'.floorDiv b') :=
  ha.quotient floorDiv_dividesAs hb

theorem Within.leftShift (ha : a.Within a') (hb : b.Within b') :
    (a.leftShift b).Within (a'.leftShift b') := by
  have hal := ha.lo_le
  have hbl := hb.lo_le
  have hnormal := normal_leftShift a b
  unfold Bound.leftShift at *
  by_cases h : a'.lo < 0 ∨ b'.lo < 0
  · rw [if_pos h]
    exact hnormal.within_everything
  · rw [if_neg h, if_neg (by omega),
      corners_leftShift_eq_mul ha.normal hb.normal (by omega) (by omega),
      corners_leftShift_eq_mul ha.normal_around hb.normal_around (by omega) (by omega)]
    exact (separatelyMonotone_mul a' _).within_corners ha (power_mono hbl)
      (power_mono hb.normal.lo_le_hi) (power_mono hb.hi_le)

theorem Within.rightShift (ha : a.Within a') (hb : b.Within b') :
    (a.rightShift b).Within (a'.rightShift b') := by
  have hbl := hb.lo_le
  have hnormal := normal_rightShift a b
  unfold Bound.rightShift at *
  by_cases h : b'.lo < 0
  · rw [if_pos h]
    exact hnormal.within_everything
  · rw [if_neg h, if_neg (by omega),
      corners_rightShift_eq_floorDiv ha.normal hb.normal (by omega),
      corners_rightShift_eq_floorDiv ha.normal_around hb.normal_around (by omega)]
    exact (floorDiv_dividesAs.separatelyMonotone ha.normal_around
      (excludesZero_power b')).within_corners ha (power_mono hbl) (power_mono hb.normal.lo_le_hi)
      (power_mono hb.hi_le)

/-! ## Remainders and bitwise conjunctions -/

theorem Within.mod (ha : a.Within a') (hb : b.Within b') : (a.mod b).Within (a'.mod b') := by
  have hnormal := ha.normal.mod hb.normal
  obtain ⟨⟨_, _, _, _, _⟩, -, hal, hah⟩ := ha
  obtain ⟨⟨_, _, _, _, _⟩, -, hbl, hbh⟩ := hb
  unfold Bound.mod at *
  dsimp only at *
  by_cases h : b'.lo ≤ 0
  · rw [if_pos h]
    exact hnormal.within_everything
  rw [if_neg h, if_neg (show ¬ b.lo ≤ 0 by omega)]
  by_cases ha' : 0 ≤ a'.lo
  · rw [if_pos ha', if_pos (ha'.trans hal)]
    exact within_make (by omega) (by omega) (by omega)
  · rw [if_neg ha']
    split <;> apply within_make <;> simp only [Endpoint.neg, posInf_eq] at * <;> omega

theorem Within.floorMod (ha : a.Within a') (hb : b.Within b') :
    (a.floorMod b).Within (a'.floorMod b') := by
  have hnormal := ha.normal.floorMod hb.normal
  obtain ⟨⟨_, _, _, _, _⟩, -, hal, hah⟩ := ha
  obtain ⟨⟨_, _, _, _, _⟩, -, hbl, hbh⟩ := hb
  unfold Bound.floorMod at *
  dsimp only at *
  by_cases h : b'.lo ≤ 0
  · rw [if_pos h]
    exact hnormal.within_everything
  rw [if_neg h, if_neg (show ¬ b.lo ≤ 0 by omega)]
  by_cases ha' : 0 ≤ a'.lo
  · rw [if_pos ha', if_pos (ha'.trans hal)]
    exact within_make (by omega) (by omega) (by omega)
  · rw [if_neg ha']
    split <;> exact within_make (by omega) (by omega) (by omega)

theorem nonneg_iff : a.nonneg = true ↔ 0 ≤ a.lo := decide_eq_true_iff

theorem Within.nonneg (ha : a.Within a') (h : a'.nonneg = true) : a.nonneg = true := by
  rw [nonneg_iff] at *
  exact h.trans ha.lo_le

theorem Within.bitAnd (ha : a.Within a') (hb : b.Within b') :
    (a.bitAnd b).Within (a'.bitAnd b') := by
  have hnormal := ha.normal.bitAnd hb.normal
  have hah := ha.hi_le
  have hbh := hb.hi_le
  have hapos (h : a'.nonneg = true) : 0 ≤ a.hi :=
    (nonneg_iff.1 (ha.nonneg h)).trans ha.normal.lo_le_hi
  have hbpos (h : b'.nonneg = true) : 0 ≤ b.hi :=
    (nonneg_iff.1 (hb.nonneg h)).trans hb.normal.lo_le_hi
  cases ha' : a'.nonneg <;> cases hb' : b'.nonneg
  case false.false =>
    simp only [Bound.bitAnd, ha', hb'] at hnormal ⊢
    exact hnormal.within_everything
  case false.true =>
    have hb0 := hbpos hb'
    simp only [Bound.bitAnd, ha', hb', hb.nonneg hb'] at hnormal ⊢
    cases h : a.nonneg
    · exact within_make (by omega) (by omega) (by omega)
    · have := nonneg_iff.1 h
      have := ha.normal.lo_le_hi
      exact within_make (by omega) (by omega) (by omega)
  case true.false =>
    have ha0 := hapos ha'
    simp only [Bound.bitAnd, ha', hb', ha.nonneg ha'] at hnormal ⊢
    cases h : b.nonneg
    · exact within_make (by omega) (by omega) (by omega)
    · have := nonneg_iff.1 h
      have := hb.normal.lo_le_hi
      exact within_make (by omega) (by omega) (by omega)
  case true.true =>
    have ha0 := hapos ha'
    have hb0 := hbpos hb'
    simp only [Bound.bitAnd, ha', hb', ha.nonneg ha', hb.nonneg hb']
    exact within_make (by omega) (by omega) (by omega)

/-! ## Bounds around words -/

theorem within_unit (hb : b.Normal) {v : Int} (hv : b.Admits v) : (unit v).Within b where
  normal := normal_unit v
  normal_around := hb
  lo_le := by
    obtain ⟨_, _, _, _, _⟩ := hb
    simp only [Admits, unit, make, posInf_eq, negInf_eq] at *
    omega
  hi_le := by
    obtain ⟨_, _, _, _, _⟩ := hb
    simp only [Admits, unit, make, posInf_eq, negInf_eq] at *
    omega

/-- Endpoints are words. -/
theorem toInt_ofInt {n : Int} (hl : negInf ≤ n) (hh : n ≤ posInf) :
    (Int64.ofInt n).toInt = n := by
  simp only [posInf_eq, negInf_eq] at *
  exact Int64.toInt_ofInt_of_le (by omega) (by omega)

theorem Normal.exists_word (ha : a.Normal) : ∃ v : Int64, v.toInt = a.lo ∧ a.Admits v.toInt := by
  have hlo := toInt_ofInt ha.negInf_le_lo (ha.lo_le_hi.trans ha.hi_le_posInf)
  refine ⟨.ofInt a.lo, hlo, ?_⟩
  rw [hlo]
  exact ⟨.inr (Int.le_refl _), .inr ha.lo_le_hi⟩

/-- A bound lies within another one that admits all words that it admits. -/
theorem Normal.within_of_words (ha : a.Normal) (hc : c.Normal)
    (h : ∀ v : Int64, a.Admits v.toInt → c.Admits v.toInt) : a.Within c where
  normal := ha
  normal_around := hc
  lo_le := by
    obtain ⟨v, hv, hadmits⟩ := ha.exists_word
    have hle := hc.le_clamp (h v hadmits)
    rwa [hv, clamp_eq_self ha.negInf_le_lo (ha.lo_le_hi.trans ha.hi_le_posInf)] at hle
  hi_le := by
    have hword := toInt_ofInt (ha.negInf_le_lo.trans ha.lo_le_hi) ha.hi_le_posInf
    have hle := hc.clamp_le (h (.ofInt a.hi) ?_)
    rwa [hword, clamp_eq_self (ha.negInf_le_lo.trans ha.lo_le_hi) ha.hi_le_posInf] at hle
    rw [hword]
    exact ⟨.inr ha.lo_le_hi, .inr (Int.le_refl _)⟩

theorem eq_of_admits_unit {n v : Int} (hl : negInf < n) (hh : n < posInf)
    (h : (unit n).Admits v) : v = n :=
  have hmem := mem_of_admits_make hl (Int.le_refl n) hh h
  Int.le_antisymm hmem.2 hmem.1

end IndexAlgebra.Bound
