import IndexAlgebra.Analysis.Query
import IndexAlgebra.Proofs.Bound.Arith
import IndexAlgebra.Proofs.Evaluation.Exact
/-!
# The rules for single nodes

For each kind of node with a rule of its own: the bound is normal if the bounds of the operands are,
and it admits what the node computes from admitted operands.
-/

namespace IndexAlgebra

open Endpoint

namespace Bound

variable {a b c : Bound}

theorem normal_default (v : Var) : (Bound.default v).Normal := by
  unfold Bound.default
  split
  · exact normal_make (by decide)
  · exact normal_everything

theorem admits_default (v : Var) {x : Int} (hx : 0 ≤ x) : (Bound.default v).Admits x := by
  unfold Bound.default
  split
  · exact ⟨.inr hx, .inl rfl⟩
  · exact admits_everything x

/-! ## Operators -/

theorem normal_binary (ha : a.Normal) (hb : b.Normal) (op : BinaryOp) :
    (a.binary op b).Normal := by
  cases op <;> simp only [binary]
  case add => exact ha.add hb
  case sub => exact ha.sub hb
  case mul => exact Normal.mul a b
  case div => exact normal_div a b
  case mod => exact ha.mod hb
  case floorDiv => exact normal_floorDiv a b
  case floorMod => exact ha.floorMod hb
  case min => exact ha.minimum hb
  case max => exact ha.maximum hb
  all_goals exact normal_everything

theorem admits_binary (ha : a.Normal) (hb : b.Normal) {op : BinaryOp} {x y z : Int}
    (hx : a.Admits x) (hy : b.Admits y) (hmax : y ≤ posInf) (hz : op.result? x y = some z) :
    (a.binary op b).Admits z := by
  cases op <;> simp only [binary] <;>
    simp only [BinaryOp.result?, Option.ite_none_left_eq_some, Option.some.injEq] at hz
  case add => exact hz ▸ admits_add ha hb hx hy
  case sub => exact hz ▸ admits_sub ha hb hx hy
  case mul => exact hz ▸ admits_mul ha hb hx hy
  case div => exact hz.2 ▸ admits_div ha hb hx hy
  case mod => exact hz.2 ▸ admits_mod ha hb hx hy hmax
  case floorDiv => exact hz.2 ▸ admits_floorDiv ha hb hx hy
  case floorMod => exact hz.2 ▸ admits_floorMod ha hb hx hy hmax
  case min => exact hz ▸ admits_minimum ha hb hx hy
  case max => exact hz ▸ admits_maximum ha hb hx hy
  all_goals exact admits_everything z

/-! ## Named operators -/

theorem normal_call (ha : a.Normal) (hb : b.Normal) (k : Builtins) (op : Op) :
    (a.call k op b).Normal := by
  unfold call
  split
  · exact normal_rightShift a b
  split
  · exact normal_leftShift a b
  split
  · exact ha.bitAnd hb
  · exact normal_everything

theorem admits_call (ha : a.Normal) (hb : b.Normal) {k : Builtins} {op : Op} {x y : Int64} {z : Int}
    (hx : a.Admits x.toInt) (hy : b.Admits y.toInt) (hz : k.result? op x y = some z) :
    (a.call k op b).Admits z := by
  unfold call
  unfold Builtins.result? at hz
  split
  · simp_all only [Option.ite_none_left_eq_some, Option.some.injEq, ↓reduceIte]
    exact hz.2 ▸ admits_rightShift ha hb hx hy
  split
  · simp_all only [Option.ite_none_left_eq_some, Option.some.injEq, ↓reduceIte]
    exact hz.2 ▸ admits_leftShift ha hb hx hy
  split
  · simp_all only [Option.some.injEq, ↓reduceIte]
    exact hz ▸ admits_bitAnd ha hb hx hy
  · exact admits_everything z

/-- A call of an operator that is not known has no limits. -/
theorem call_of_not_interprets {k : Builtins} {op : Op} {x y : Expr}
    (h : ¬ k.Interprets op [x, y]) : a.call k op b = everything := by
  simp only [Builtins.Interprets, not_or] at h
  simp only [call, h, ↓reduceIte]

/-! ## Conversions -/

theorem shiftLeft_one_cast (n : Nat) : ((1 <<< n : Nat) : Int) = 2 ^ n := by
  rw [Nat.one_shiftLeft]
  push_cast
  rfl

theorem normal_ofDataType (ty : DataType) : (ofDataType ty).Normal := by
  simp only [ofDataType]
  split
  · exact normal_make (by decide)
  · split
    · exact normal_everything
    · rw [shiftLeft_one_cast]
      have := one_le_two_pow (max 1 ty.bits.toNat - 1)
      exact normal_make (by omega)
  · split
    · exact normal_make (by decide)
    · rw [shiftLeft_one_cast]
      have := one_le_two_pow (max 1 ty.bits.toNat)
      exact normal_make (by omega)
  · exact normal_everything
  · exact normal_everything

theorem normal_cast (ha : a.Normal) (ty : DataType) : (a.cast ty).Normal := by
  simp only [cast]
  split
  · exact ha
  · exact normal_ofDataType ty

/-- A signed integer of `n` bits lies between the two powers. -/
theorem bmod_two_pow_mem {n : Nat} (hn : 1 ≤ n) (x : Int) :
    -2 ^ (n - 1) ≤ x.bmod (2 ^ n) ∧ x.bmod (2 ^ n) ≤ 2 ^ (n - 1) - 1 := by
  obtain ⟨m, rfl⟩ := Nat.exists_eq_add_of_le' hn
  have h0 : (0 : Nat) < 2 ^ (m + 1) := Nat.two_pow_pos _
  have hl := Int.le_bmod (x := x) h0
  have hh := Int.bmod_lt (x := x) h0
  rw [Nat.add_sub_cancel]
  rw [Nat.pow_succ] at *
  push_cast at hl hh ⊢
  omega

theorem bmod_two_pow_of_mem {n : Nat} (hn : 1 ≤ n) {x : Int} (hl : -2 ^ (n - 1) ≤ x)
    (hh : x ≤ 2 ^ (n - 1) - 1) : x.bmod (2 ^ n) = x := by
  obtain ⟨m, rfl⟩ := Nat.exists_eq_add_of_le' hn
  rw [Nat.add_sub_cancel] at hl hh
  apply Int.bmod_eq_of_le <;> rw [Nat.pow_succ] <;> push_cast <;> omega

/-- A data type's bound admits whatever is converted to it. -/
theorem admits_ofDataType {ty : DataType} {x y : Int} (hy : ty.result? x = some y) :
    (ofDataType ty).Admits y := by
  unfold DataType.result? at hy
  simp only [ofDataType]
  split <;> rename_i hk <;>
    simp only [hk, Option.ite_none_right_eq_some, Option.some.injEq, reduceCtorEq] at hy
  · subst hy
    apply admits_make_of_mem <;> simp only [truth] <;> grind
  · obtain ⟨hbits, rfl⟩ := hy
    rw [Nat.max_eq_right hbits.1, shiftLeft_one_cast]
    split
    · exact admits_everything _
    · have := bmod_two_pow_mem hbits.1 x
      exact admits_make_of_mem this.1 this.2
  · obtain ⟨hbits, rfl⟩ := hy
    rw [Nat.max_eq_right hbits.1, shiftLeft_one_cast]
    have h0 := one_le_two_pow ty.bits.toNat
    have hl := Int.emod_nonneg x (b := 2 ^ ty.bits.toNat) (by omega)
    have hh := Int.emod_lt_of_pos x (b := 2 ^ ty.bits.toNat) (by omega)
    split
    · exact ⟨.inr hl, .inl rfl⟩
    · exact admits_make_of_mem hl (by omega)

/-- A word that a data type's bound admits is not changed by the conversion. -/
theorem result?_eq_of_admits {ty : DataType} (hty : ty.isInteger = true) {x y : Int}
    (hl : -2 ^ 63 ≤ x) (hh : x < 2 ^ 63)
    (hx : (ofDataType ty).Admits x) (hy : ty.result? x = some y) : y = x := by
  unfold DataType.result? at hy
  simp only [ofDataType] at hx
  split at hx <;> rename_i hk <;>
    simp only [hk, Option.ite_none_right_eq_some, Option.some.injEq, reduceCtorEq] at hy
  · simp [DataType.isInteger, hk] at hty
  · obtain ⟨hbits, rfl⟩ := hy
    rw [Nat.max_eq_right hbits.1, shiftLeft_one_cast] at hx
    by_cases h : 64 ≤ ty.bits.toNat
    · have hw : ty.bits.toNat = 64 := by omega
      rw [hw]
      exact bmod_two_pow_of_mem (by decide) hl (by omega)
    · rw [if_neg h] at hx
      have h1 := one_le_two_pow (ty.bits.toNat - 1)
      have h2 := two_pow_mono (show ty.bits.toNat - 1 ≤ 62 by omega)
      have := mem_of_admits_make (by simp only [negInf_eq]; omega) (by omega)
        (by simp only [posInf_eq]; omega) hx
      exact bmod_two_pow_of_mem hbits.1 this.1 this.2
  · obtain ⟨hbits, rfl⟩ := hy
    rw [Nat.max_eq_right hbits.1, shiftLeft_one_cast] at hx
    have h1 := one_le_two_pow ty.bits.toNat
    by_cases h : 63 ≤ ty.bits.toNat
    · rw [if_pos h] at hx
      have h0 : 0 ≤ x := hx.1.resolve_left (by decide)
      have := two_pow_mono h
      exact Int.emod_eq_of_lt h0 (by omega)
    · rw [if_neg h] at hx
      have h2 := two_pow_mono (show ty.bits.toNat ≤ 62 by omega)
      have := mem_of_admits_make (by decide) (by omega) (by simp only [posInf_eq]; omega) hx
      exact Int.emod_eq_of_lt this.1 (by omega)

theorem admits_cast (ha : a.Normal) {ty : DataType} (hty : ty.isInteger = true) {x y : Int}
    (hl : -2 ^ 63 ≤ x) (hh : x < 2 ^ 63) (hx : a.Admits x) (hy : ty.result? x = some y) :
    (a.cast ty).Admits y := by
  simp only [cast]
  split
  · next h =>
    have hx' := admits_of_subsumes (normal_ofDataType ty) ha h hx
    rwa [result?_eq_of_admits hty hl hh hx' hy]
  · exact admits_ofDataType hy

/-! ## Vectors -/

theorem normal_ramp (ha : a.Normal) : (a.ramp b c).Normal :=
  ha.union (ha.add (Normal.mul _ b))

/-- The bound of a vector admits each of its elements, which lie between the first and the last. -/
theorem admits_ramp (ha : a.Normal) (hb : b.Normal) (hc : c.Normal) {x d n i : Int}
    (hx : a.Admits x) (hd : b.Admits d) (hn : c.Admits n) (h0 : 0 ≤ i) (hi : i < n) :
    (a.ramp b c).Admits (x + i * d) := by
  have h1 : (make 1 1).Normal := normal_make (Int.le_refl 1)
  have hsteps : (c.sub (make 1 1)).Admits (n - 1) :=
    admits_sub hc h1 hn (admits_unit (by decide) (by decide))
  have hlast := admits_add ha (Normal.mul _ b) hx (admits_mul (hc.sub h1) hb hsteps hd)
  apply admits_union_of_between ha (ha.add (Normal.mul _ b)) hx hlast
  all_goals
    rcases Int.le_total 0 d with h | h
    · have h1 : 0 ≤ i * d := Int.mul_nonneg h0 h
      have h2 : i * d ≤ (n - 1) * d := Int.mul_le_mul_of_nonneg_right (by omega) h
      omega
    · have h1 : i * d ≤ 0 := Int.mul_nonpos_of_nonneg_of_nonpos h0 h
      have h2 : (n - 1) * d ≤ i * d := Int.mul_le_mul_of_nonpos_right (by omega) h
      omega

end Bound

end IndexAlgebra
