import IndexAlgebra.Folding
import IndexAlgebra.Proofs.Evaluation.Wrapping
/-!
# Folding keeps values

Each rule of folding gives back something that has the value of the application, if the application
has one. The rules for literals compute what evaluation computes, and an identity such as `x + 0`
gives back the operand that has the value of the whole. A connective with one literal is the
exception: it may fold to the other operand, which need not be zero or one, but is zero exactly when
the connective is.

Floating point literals have no value, so that nothing is to be shown of the rules for them.
-/

namespace IndexAlgebra

/-! ## Operations on words -/

namespace Word

theorem shiftLeft_eq (x : Int64) (n : Nat) : shiftLeft x n = .ofInt (x.toInt * 2 ^ n) := by
  unfold shiftLeft
  split
  · rw [Int.shiftLeft_eq]
  · next hn =>
    have hdvd : ((2 ^ 64 : Nat) : Int) ∣ x.toInt * 2 ^ n :=
      Dvd.dvd.mul_left (pow_dvd_pow 2 (Nat.not_lt.1 hn)) _
    exact ((Int64.ofInt_eq_iff_bmod_eq_toInt _ _).2 (Int.bmod_eq_zero_of_dvd hdvd)).symm

/-- A quotient of something smaller in magnitude is rounded down to the sign. -/
theorem ediv_eq_sign {n d : Int} (hl : -d ≤ n) (hh : n < d) :
    n / d = if n < 0 then -1 else 0 := by
  split_ifs with hn
  · exact Int.ediv_eq_neg_one_of_neg_of_le hn (by omega)
  · exact Int.ediv_eq_zero_of_lt (Int.not_lt.1 hn) hh

theorem toInt_ediv_two_pow_eq_sign (x : Int64) {n : Nat} (hn : 63 ≤ n) :
    x.toInt / 2 ^ n = if x.toInt < 0 then -1 else 0 := by
  have hle : (2 : Int) ^ 63 ≤ 2 ^ n := pow_le_pow_right₀ (by decide) hn
  have hlo := x.le_toInt
  have hhi := x.toInt_lt
  exact ediv_eq_sign (by omega) (by omega)

theorem shiftRight_eq (x : Int64) (n : Nat) : shiftRight x n = .ofInt (x.toInt / 2 ^ n) := by
  unfold shiftRight
  rw [Int.shiftRight_eq_div_pow]
  rcases Nat.le_total n 63 with hn | hn
  · rw [Nat.min_eq_left hn]
    rfl
  · rw [Nat.min_eq_right hn, toInt_ediv_two_pow_eq_sign x hn]
    exact congrArg _ (toInt_ediv_two_pow_eq_sign x (Nat.le_refl 63))

/-- A quotient by a positive divisor does not leave the words. -/
theorem toInt_ofInt_ediv {n d : Int} (hd : 0 < d) (hl : -2 ^ 63 ≤ n) (hh : n < 2 ^ 63) :
    (Int64.ofInt (n / d)).toInt = n / d := by
  refine Int64.toInt_ofInt_of_le ?_ ?_
  · rw [Int.le_ediv_iff_mul_le hd]
    omega
  · rw [Int.ediv_lt_iff_lt_mul hd]
    omega

/-- A shift to the right does not leave the words. -/
theorem toInt_shiftRight (x : Int64) (n : Nat) : (shiftRight x n).toInt = x.toInt / 2 ^ n := by
  rw [shiftRight_eq]
  exact toInt_ofInt_ediv (Int.pow_pos (by decide)) x.le_toInt x.toInt_lt

/-- The smaller of two words is the word of the smaller integer. -/
theorem smaller_eq (x y : Int64) :
    (if y < x then y else x) = .ofInt (if x.toInt ≤ y.toInt then x.toInt else y.toInt) := by
  rw [apply_ite Int64.ofInt, Int64.ofInt_toInt, Int64.ofInt_toInt]
  simp only [Int64.lt_iff_toInt_lt]
  split_ifs <;> first | omega | rfl

/-- The larger of two words is the word of the larger integer. -/
theorem larger_eq (x y : Int64) :
    (if x < y then y else x) = .ofInt (if x.toInt ≤ y.toInt then y.toInt else x.toInt) := by
  rw [apply_ite Int64.ofInt, Int64.ofInt_toInt, Int64.ofInt_toInt]
  simp only [Int64.lt_iff_toInt_lt]
  rcases Int.lt_trichotomy x.toInt y.toInt with h | h | h
  · rw [if_pos h, if_pos (Int.le_of_lt h)]
  · rw [Int64.toInt_inj.1 h, ite_self, ite_self]
  · rw [if_neg (Int.lt_asymm h), if_neg (Int.not_le.2 h)]

theorem ofInt_truth_ne_zero (c : Bool) : Int64.ofInt (truth c) ≠ 0 ↔ c = true := by
  cases c <;> decide

theorem toInt_bne_zero (x : Int64) : (x.toInt != 0) = true ↔ x ≠ 0 := by
  rw [bne_iff_ne, ← Int64.toInt_zero, Ne, Int64.toInt_inj]

end Word

/-! ## Operands that are literals -/

namespace Expr

variable {I : Interpretation} {env : Assignment} {a : Expr} {x n : Int64}

theorem value?_of_int? (h : a.int? = some n) : a.value? I env = some n := by
  cases a <;> cases h
  rfl

theorem eq_zero_of_isZero (h : a.isZero = true) (hx : a.value? I env = some x) : x = 0 := by
  cases a <;> first | cases h | cases hx
  exact eq_of_beq h

theorem eq_one_of_isOne (h : a.isOne = true) (hx : a.value? I env = some x) : x = 1 := by
  cases a <;> first | cases h | cases hx
  exact eq_of_beq h

end Expr

/-- The value of what an application folds to. -/
def Reduct.value? (I : Interpretation) (env : Assignment) : Reduct → Option Int64
  | .operand e => e.value? I env
  | .int value => some value
  | .float _ => none

theorem Reduct.value?_bool (I : Interpretation) (env : Assignment) (b : Bool) :
    (Reduct.bool b).value? I env = some (.ofInt (truth b)) := by
  cases b <;> rfl

/-! ## The rules -/

namespace Folding

section Rules

-- Two operands, their values, and what their application folds to.
variable {I : Interpretation} {env : Assignment} {a b : Expr} {x y : Int64} {r : Reduct}

theorem value?_add (hr : add? a b = some r) (hx : a.value? I env = some x)
    (hy : b.value? I env = some y) : r.value? I env = some (.ofInt (x.toInt + y.toInt)) := by
  unfold add? at hr
  split at hr
  case h_1 =>
    cases hx
    cases hy
    cases hr
    simp [Reduct.value?]
  case h_2 => cases hx
  case h_3 =>
    split_ifs at hr with ha hb
    · cases hr
      simp [Reduct.value?, hy, Expr.eq_zero_of_isZero ha hx]
    · cases hr
      simp [Reduct.value?, hx, Expr.eq_zero_of_isZero hb hy]

theorem value?_sub (hr : sub? a b = some r) (hx : a.value? I env = some x)
    (hy : b.value? I env = some y) : r.value? I env = some (.ofInt (x.toInt - y.toInt)) := by
  unfold sub? at hr
  split at hr
  case h_1 =>
    cases hx
    cases hy
    cases hr
    simp [Reduct.value?]
  case h_2 => cases hx
  case h_3 =>
    split_ifs at hr with hb
    cases hr
    simp [Reduct.value?, hx, Expr.eq_zero_of_isZero hb hy]

theorem value?_mul (hr : mul? a b = some r) (hx : a.value? I env = some x)
    (hy : b.value? I env = some y) : r.value? I env = some (.ofInt (x.toInt * y.toInt)) := by
  unfold mul? at hr
  split at hr
  case h_1 =>
    cases hx
    cases hy
    cases hr
    simp [Reduct.value?]
  case h_2 => cases hx
  case h_3 =>
    split_ifs at hr with hb ha
    · cases hr
      rcases Bool.or_eq_true_iff.1 hb with hb | hb
      · simp [Reduct.value?, hy, Expr.eq_one_of_isOne hb hx]
      · simp [Reduct.value?, hy, Expr.eq_zero_of_isZero hb hy]
    · cases hr
      rcases Bool.or_eq_true_iff.1 ha with ha | ha
      · simp [Reduct.value?, hx, Expr.eq_zero_of_isZero ha hx]
      · simp [Reduct.value?, hx, Expr.eq_one_of_isOne ha hy]

variable {word : Int64 → Int64 → Int64} {number : Binary64 → Binary64 → Binary64}
  {q : Int → Int → Int}

theorem value?_division (hword : ∀ x y, word x y = .ofInt (q x.toInt y.toInt))
    (hzero : ∀ n, q 0 n = 0) (hone : ∀ n, q n 1 = n)
    (hr : division? word number a b = .ok (some r)) (hx : a.value? I env = some x)
    (hy : b.value? I env = some y) : r.value? I env = some (.ofInt (q x.toInt y.toInt)) := by
  unfold division? at hr
  split at hr
  · cases hr
  split at hr
  case h_1 =>
    cases hx
    cases hy
    cases hr
    rw [Reduct.value?, hword]
  case h_2 => cases hx
  case h_3 =>
    have hr := Except.ok.inj hr
    split_ifs at hr with ha
    cases hr
    rcases Bool.or_eq_true_iff.1 ha with ha | ha
    · simp [Reduct.value?, hx, Expr.eq_zero_of_isZero ha hx, hzero]
    · simp [Reduct.value?, hx, Expr.eq_one_of_isOne ha hy, hone]

theorem value?_modOne (hr : modOne? b = some r) (hy : b.value? I env = some y) :
    y = 1 ∧ r.value? I env = some 0 := by
  cases b with
  | int h n =>
    cases hy
    simp only [modOne?, Option.ite_none_right_eq_some, Option.some.injEq] at hr
    obtain ⟨hn, rfl⟩ := hr
    exact ⟨hn, rfl⟩
  | float => cases hy
  | _ => cases hr

theorem value?_modulo (hword : ∀ x y, word x y = .ofInt (q x.toInt y.toInt))
    (hzero : ∀ n, q 0 n = 0) (hone : ∀ n, q n 1 = 0)
    (hr : modulo? word number a b = .ok (some r)) (hx : a.value? I env = some x)
    (hy : b.value? I env = some y) : r.value? I env = some (.ofInt (q x.toInt y.toInt)) := by
  unfold modulo? at hr
  split at hr
  · cases hr
  split at hr
  case h_1 =>
    cases hx
    cases hy
    cases hr
    rw [Reduct.value?, hword]
  case h_2 => cases hx
  case h_3 =>
    have hr := Except.ok.inj hr
    split_ifs at hr with ha
    · cases hr
      simp [Reduct.value?, hx, Expr.eq_zero_of_isZero ha hx, hzero]
    · obtain ⟨rfl, hr⟩ := value?_modOne hr hy
      simp [hr, hone]

/-- The smaller of a node and itself: the operands have to be the same node. -/
theorem value?_min (hab : a.sameAs b = true → a = b) (hr : min? a b = some r)
    (hx : a.value? I env = some x) (hy : b.value? I env = some y) :
    r.value? I env = some (.ofInt (if x.toInt ≤ y.toInt then x.toInt else y.toInt)) := by
  unfold min? at hr
  split at hr
  case h_1 =>
    cases hx
    cases hy
    cases hr
    rw [Reduct.value?, Word.smaller_eq]
  case h_2 => cases hx
  case h_3 =>
    split_ifs at hr with hs
    cases hr
    rw [hab hs, hy] at hx
    cases hx
    simp [Reduct.value?, hab hs, hy]

theorem value?_max (hab : a.sameAs b = true → a = b) (hr : max? a b = some r)
    (hx : a.value? I env = some x) (hy : b.value? I env = some y) :
    r.value? I env = some (.ofInt (if x.toInt ≤ y.toInt then y.toInt else x.toInt)) := by
  unfold max? at hr
  split at hr
  case h_1 =>
    cases hx
    cases hy
    cases hr
    rw [Reduct.value?, Word.larger_eq]
  case h_2 => cases hx
  case h_3 =>
    split_ifs at hr with hs
    cases hr
    rw [hab hs, hy] at hx
    cases hx
    simp [Reduct.value?, hab hs, hy]

theorem compareWords?_eq {op : BinaryOp} (h : op.isComparison = true) (x y : Int64) :
    compareWords? op x y = some (op.holds x.toInt y.toInt) := by
  have heq : (x == y) = (x.toInt == y.toInt) :=
    Bool.eq_iff_iff.2 (by simp [Int64.toInt_inj])
  cases op
  case eq => rw [compareWords?, heq, BinaryOp.holds]
  case ne => rw [compareWords?, bne, heq, BinaryOp.holds, bne]
  case lt | gt => simp only [compareWords?, BinaryOp.holds, Int64.lt_iff_toInt_lt]
  case le | ge => simp only [compareWords?, BinaryOp.holds, Int64.le_iff_toInt_le]
  all_goals cases h

theorem value?_comparison {op : BinaryOp} (h : op.isComparison = true)
    (hr : comparison? op a b = some r) (hx : a.value? I env = some x)
    (hy : b.value? I env = some y) :
    r.value? I env = some (.ofInt (truth (op.holds x.toInt y.toInt))) := by
  unfold comparison? at hr
  split at hr
  case h_1 =>
    cases hx
    cases hy
    rw [compareWords?_eq h] at hr
    cases hr
    exact Reduct.value?_bool ..
  case h_2 => cases hx
  case h_3 => cases hr

theorem value?_logical {isAnd : Bool} (hr : logical? isAnd a b = some r)
    (hx : a.value? I env = some x) (hy : b.value? I env = some y) :
    ∃ w, r.value? I env = some w ∧
      (w ≠ 0 ↔ if isAnd then x ≠ 0 ∧ y ≠ 0 else x ≠ 0 ∨ y ≠ 0) := by
  unfold logical? at hr
  split at hr
  case h_1 ha =>
    cases hr
    cases (Expr.value?_of_int? ha).symm.trans hx
    by_cases h0 : x = 0 <;> cases isAnd <;> simp [Reduct.value?, h0, hx, hy]
  case h_2 hb =>
    cases hr
    cases (Expr.value?_of_int? hb).symm.trans hy
    by_cases h0 : y = 0 <;> cases isAnd <;> simp [Reduct.value?, h0, hx, hy]
  case h_3 => cases hr

theorem value?_not (hr : not? a = some r) (hx : a.value? I env = some x) :
    r.value? I env = some (.ofInt (truth (x == 0))) := by
  obtain ⟨n, ha, rfl⟩ := Option.map_eq_some_iff.1 hr
  cases (Expr.value?_of_int? ha).symm.trans hx
  exact Reduct.value?_bool ..

theorem value?_shift {word : Int64 → Nat → Int64} {f : Int → Nat → Int}
    (hword : ∀ x n, word x n = .ofInt (f x.toInt n)) (hr : shift? word a b = .ok (some r))
    (hx : a.value? I env = some x) (hy : b.value? I env = some y) :
    r.value? I env = some (.ofInt (f x.toInt y.toInt.toNat)) := by
  unfold shift? at hr
  split at hr
  case h_1 ha hb =>
    cases (Expr.value?_of_int? ha).symm.trans hx
    cases (Expr.value?_of_int? hb).symm.trans hy
    unfold shiftAmount at hr
    split at hr
    · cases hr
      rw [Reduct.value?, hword]
    · cases hr
  case h_2 => cases hr

theorem value?_bitwise (hr : bitwise? word a b = some r) (hx : a.value? I env = some x)
    (hy : b.value? I env = some y) : r.value? I env = some (word x y) := by
  unfold bitwise? at hr
  split at hr
  case h_1 ha hb =>
    cases (Expr.value?_of_int? ha).symm.trans hx
    cases (Expr.value?_of_int? hb).symm.trans hy
    cases hr
    rfl
  case h_2 => cases hr

end Rules

end Folding

/-- Whether a value may stand for the value of an operator's application: for connectives, whether
both are zero or neither is, and otherwise, whether they are the same. -/
def BinaryOp.Agree (op : BinaryOp) (w v : Int64) : Prop :=
  match op with
  | .and | .or => w ≠ 0 ↔ v ≠ 0
  | _ => w = v

theorem BinaryOp.agree_self (op : BinaryOp) (v : Int64) : op.Agree v v := by
  cases op <;> rfl

namespace Folding

/-- What the application of a binary operator folds to has its value. Operands under the same handle
have to be the same node. -/
theorem value?_binary {I : Interpretation} {env : Assignment} {a b : Expr} {x y : Int64}
    {r : Reduct} {op : BinaryOp} (hab : a.sameAs b = true → a = b)
    (hr : binary? op a b = .ok (some r)) (hx : a.value? I env = some x)
    (hy : b.value? I env = some y) {z : Int} (hz : op.result? x.toInt y.toInt = some z) :
    ∃ w, r.value? I env = some w ∧ op.Agree w (.ofInt z) := by
  cases op
  case add =>
    cases hz
    exact ⟨_, value?_add (Except.ok.inj hr) hx hy, rfl⟩
  case sub =>
    cases hz
    exact ⟨_, value?_sub (Except.ok.inj hr) hx hy, rfl⟩
  case mul =>
    cases hz
    exact ⟨_, value?_mul (Except.ok.inj hr) hx hy, rfl⟩
  case div =>
    obtain ⟨-, h⟩ := Option.ite_none_left_eq_some.1 hz
    cases h
    exact ⟨_, value?_division (fun _ _ => rfl) Int.zero_tdiv Int.tdiv_one hr hx hy, rfl⟩
  case floorDiv =>
    obtain ⟨-, h⟩ := Option.ite_none_left_eq_some.1 hz
    cases h
    exact ⟨_, value?_division (fun _ _ => rfl) Int.zero_fdiv Int.fdiv_one hr hx hy, rfl⟩
  case mod =>
    obtain ⟨-, h⟩ := Option.ite_none_left_eq_some.1 hz
    cases h
    exact ⟨_, value?_modulo (fun _ _ => rfl) Int.zero_tmod Int.tmod_one hr hx hy, rfl⟩
  case floorMod =>
    obtain ⟨-, h⟩ := Option.ite_none_left_eq_some.1 hz
    cases h
    exact ⟨_, value?_modulo (fun _ _ => rfl) Int.zero_fmod Int.fmod_one hr hx hy, rfl⟩
  case min =>
    cases hz
    exact ⟨_, value?_min hab (Except.ok.inj hr) hx hy, rfl⟩
  case max =>
    cases hz
    exact ⟨_, value?_max hab (Except.ok.inj hr) hx hy, rfl⟩
  case and =>
    cases hz
    obtain ⟨w, hw, hiff⟩ := value?_logical (Except.ok.inj hr) hx hy
    refine ⟨w, hw, ?_⟩
    rw [if_pos rfl] at hiff
    rw [BinaryOp.Agree, Word.ofInt_truth_ne_zero, Bool.and_eq_true, Word.toInt_bne_zero,
      Word.toInt_bne_zero, hiff]
  case or =>
    cases hz
    obtain ⟨w, hw, hiff⟩ := value?_logical (Except.ok.inj hr) hx hy
    refine ⟨w, hw, ?_⟩
    rw [if_neg Bool.false_ne_true] at hiff
    rw [BinaryOp.Agree, Word.ofInt_truth_ne_zero, Bool.or_eq_true, Word.toInt_bne_zero,
      Word.toInt_bne_zero, hiff]
  all_goals
    cases hz
    exact ⟨_, value?_comparison rfl (Except.ok.inj hr) hx hy, rfl⟩

end Folding

end IndexAlgebra
