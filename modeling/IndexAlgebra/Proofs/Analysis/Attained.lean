import IndexAlgebra.Proofs.Analysis.Narrowing
import IndexAlgebra.Proofs.Folding
/-!
# What folding gives is attained

Folding computes with literals only, and the bound of an expression says which words it may have as
its value. The two agree in one direction: every word that an application may have after it is
folded is computed by the operator from words that the operands may have (`Folding.attains_add`,
…). So a bound that admits all that is computed from the operands holds the bound of what the
application folds to (`Reduct.within_of_attains`).

The statements are for operands that are no floating point literals, and for literals that do not
wrap around.
-/

namespace IndexAlgebra

/-! ## Words that are taken and attained -/

section Attained

variable {k : Builtins} {β : Recorded}

/-- The bound of an expression admits a word as its value. -/
def Expr.Takes (k : Builtins) (β : Recorded) (e : Expr) (v : Int64) : Prop :=
  (e.bound k β).Admits v.toInt

/-- The bound of what an application folds to. -/
def Reduct.bound (k : Builtins) (β : Recorded) : Reduct → Bound
  | .operand e => e.bound k β
  | .int n => .unit n.toInt
  | .float _ => .everything

/-- The words that what an application folds to may have as its value. -/
def Reduct.Takes (k : Builtins) (β : Recorded) : Reduct → Int64 → Prop
  | .operand e, v => e.Takes k β v
  | .int n, v => v = n
  | .float _, _ => True

/-- A word is computed from words that two operands may take. -/
def Attains (k : Builtins) (β : Recorded) (f : Int → Int → Int) (a b : Expr) (v : Int64) : Prop :=
  ∃ x y : Int64, a.Takes k β x ∧ b.Takes k β y ∧ f x.toInt y.toInt = v.toInt

theorem Expr.takes_int (h : Handle) (n : Int64) : (Expr.int h n).Takes k β n :=
  Bound.admits_unit (Word.negInf_le n) (Word.le_posInf n)

theorem Expr.takes_of_int? {e : Expr} {n : Int64} (h : e.int? = some n) : e.Takes k β n := by
  cases e <;> cases h
  exact takes_int _ n

theorem Expr.exists_takes (hβ : β.Normal) (e : Expr) : ∃ v, e.Takes k β v := by
  obtain ⟨v, -, hv⟩ := (e.normal_bound k hβ).exists_word
  exact ⟨v, hv⟩

variable {a b : Expr} {r : Reduct} {v : Int64}

theorem Expr.eq_int_of_isZero (h : a.isZero = true) (ha : a.float? = none) :
    ∃ n, a = .int n 0 := by
  cases a with
  | int n x => exact ⟨n, by rw [eq_of_beq h]⟩
  | float => cases ha
  | _ => cases h

theorem Expr.eq_int_of_isOne (h : a.isOne = true) (ha : a.float? = none) : ∃ n, a = .int n 1 := by
  cases a with
  | int n x => exact ⟨n, by rw [eq_of_beq h]⟩
  | float => cases ha
  | _ => cases h

/-! ## Literal operands -/

section Literals

variable {f : Int → Int → Int} {h h' : Handle} {n m w : Int64}

/-- What literals fold to is attained by the literals, if it does not wrap around. -/
theorem attains_literals (hw : w.toInt = f n.toInt m.toInt) (hv : (Reduct.int w).Takes k β v) :
    Attains k β f (.int h n) (.int h' m) v := by
  cases hv
  exact ⟨n, m, Expr.takes_int h n, Expr.takes_int h' m, hw.symm⟩

theorem attains_left_unit (hunit : ∀ y, f n.toInt y = y) (hv : b.Takes k β v) :
    Attains k β f (.int h n) b v :=
  ⟨n, v, Expr.takes_int h n, hv, hunit _⟩

theorem attains_right_unit (hunit : ∀ x, f x m.toInt = x) (hv : a.Takes k β v) :
    Attains k β f a (.int h m) v :=
  ⟨v, m, hv, Expr.takes_int h m, hunit _⟩

theorem eq_zero_of_takes (hv : (Expr.int h 0).Takes k β v) : v = 0 :=
  Int64.toInt_inj.1 (Bound.eq_of_admits_unit (by decide) (by decide) hv)

/-- Whatever the other operand is, it may take some word. -/
theorem attains_left_zero (hβ : β.Normal) (hzero : ∀ y, f 0 y = 0)
    (hv : (Expr.int h 0).Takes k β v) : Attains k β f (.int h 0) b v := by
  obtain ⟨y, hy⟩ := b.exists_takes (k := k) hβ
  cases eq_zero_of_takes hv
  exact ⟨0, y, hv, hy, hzero _⟩

theorem attains_right_zero (hβ : β.Normal) (hzero : ∀ x, f x 0 = 0)
    (hv : (Expr.int h 0).Takes k β v) : Attains k β f a (.int h 0) v := by
  obtain ⟨x, hx⟩ := a.exists_takes (k := k) hβ
  cases eq_zero_of_takes hv
  exact ⟨x, 0, hx, hv, hzero _⟩

end Literals

/-! ## The rules -/

namespace Folding

theorem attains_add (hr : add? a b = some r) (ha : a.float? = none) (hb : b.float? = none)
    (hfits : ∀ x y, a.int? = some x → b.int? = some y → (x + y).toInt = x.toInt + y.toInt)
    (hv : r.Takes k β v) : Attains k β (· + ·) a b v := by
  unfold add? at hr
  split at hr
  case h_1 h x h' y =>
    cases hr
    exact attains_literals (hfits x y rfl rfl) hv
  case h_2 => cases ha
  case h_3 =>
    split_ifs at hr with hza hzb
    · obtain ⟨h, rfl⟩ := Expr.eq_int_of_isZero hza ha
      cases hr
      exact attains_left_unit Int.zero_add hv
    · obtain ⟨h, rfl⟩ := Expr.eq_int_of_isZero hzb hb
      cases hr
      exact attains_right_unit Int.add_zero hv

theorem attains_sub (hr : sub? a b = some r) (ha : a.float? = none) (hb : b.float? = none)
    (hfits : ∀ x y, a.int? = some x → b.int? = some y → (x - y).toInt = x.toInt - y.toInt)
    (hv : r.Takes k β v) : Attains k β (· - ·) a b v := by
  unfold sub? at hr
  split at hr
  case h_1 h x h' y =>
    cases hr
    exact attains_literals (hfits x y rfl rfl) hv
  case h_2 => cases ha
  case h_3 =>
    split_ifs at hr with hzb
    obtain ⟨h, rfl⟩ := Expr.eq_int_of_isZero hzb hb
    cases hr
    exact attains_right_unit Int.sub_zero hv

theorem attains_mul (hβ : β.Normal) (hr : mul? a b = some r) (ha : a.float? = none)
    (hb : b.float? = none)
    (hfits : ∀ x y, a.int? = some x → b.int? = some y → (x * y).toInt = x.toInt * y.toInt)
    (hv : r.Takes k β v) : Attains k β (· * ·) a b v := by
  unfold mul? at hr
  split at hr
  case h_1 h x h' y =>
    cases hr
    exact attains_literals (hfits x y rfl rfl) hv
  case h_2 => cases ha
  case h_3 =>
    split_ifs at hr with hright hleft
    · cases hr
      rcases Bool.or_eq_true_iff.1 hright with hone | hzero
      · obtain ⟨h, rfl⟩ := Expr.eq_int_of_isOne hone ha
        exact attains_left_unit Int.one_mul hv
      · obtain ⟨h, rfl⟩ := Expr.eq_int_of_isZero hzero hb
        exact attains_right_zero hβ Int.mul_zero hv
    · cases hr
      rcases Bool.or_eq_true_iff.1 hleft with hzero | hone
      · obtain ⟨h, rfl⟩ := Expr.eq_int_of_isZero hzero ha
        exact attains_left_zero hβ Int.zero_mul hv
      · obtain ⟨h, rfl⟩ := Expr.eq_int_of_isOne hone hb
        exact attains_right_unit Int.mul_one hv

variable {word : Int64 → Int64 → Int64} {number : Binary64 → Binary64 → Binary64}
  {q : Int → Int → Int}

theorem attains_division (hβ : β.Normal) (hzero : ∀ n, q 0 n = 0) (hone : ∀ n, q n 1 = n)
    (hr : division? word number a b = .ok (some r)) (ha : a.float? = none) (hb : b.float? = none)
    (hfits : ∀ x y, y ≠ 0 → a.int? = some x → b.int? = some y →
      (word x y).toInt = q x.toInt y.toInt)
    (hv : r.Takes k β v) : Attains k β q a b v := by
  unfold division? at hr
  split at hr
  · cases hr
  next hdivisor =>
  split at hr
  case h_1 h x h' y =>
    cases hr
    have hy : y ≠ 0 := fun hy => hdivisor (beq_iff_eq.2 hy)
    exact attains_literals (hfits x y hy rfl rfl) hv
  case h_2 => cases ha
  case h_3 =>
    have hr := Except.ok.inj hr
    split_ifs at hr with hleft
    cases hr
    rcases Bool.or_eq_true_iff.1 hleft with hz | ho
    · obtain ⟨h, rfl⟩ := Expr.eq_int_of_isZero hz ha
      exact attains_left_zero hβ hzero hv
    · obtain ⟨h, rfl⟩ := Expr.eq_int_of_isOne ho hb
      exact attains_right_unit hone hv

theorem modOne?_eq_some (hr : modOne? b = some r) (hb : b.float? = none) :
    ∃ h, b = .int h 1 ∧ r = .int 0 := by
  cases b with
  | int h y =>
    obtain ⟨rfl, hr⟩ := Option.ite_none_right_eq_some.1 hr
    exact ⟨h, rfl, (Option.some.inj hr).symm⟩
  | float => cases hb
  | _ => cases hr

theorem attains_modulo (hβ : β.Normal) (hzero : ∀ n, q 0 n = 0) (hone : ∀ n, q n 1 = 0)
    (hr : modulo? word number a b = .ok (some r)) (ha : a.float? = none) (hb : b.float? = none)
    (hfits : ∀ x y, y ≠ 0 → a.int? = some x → b.int? = some y →
      (word x y).toInt = q x.toInt y.toInt)
    (hv : r.Takes k β v) : Attains k β q a b v := by
  unfold modulo? at hr
  split at hr
  · cases hr
  next hdivisor =>
  split at hr
  case h_1 h x h' y =>
    cases hr
    have hy : y ≠ 0 := fun hy => hdivisor (beq_iff_eq.2 hy)
    exact attains_literals (hfits x y hy rfl rfl) hv
  case h_2 => cases ha
  case h_3 =>
    have hr := Except.ok.inj hr
    split_ifs at hr with hz
    · obtain ⟨h, rfl⟩ := Expr.eq_int_of_isZero hz ha
      cases hr
      exact attains_left_zero hβ hzero hv
    · -- The zero is a new literal. Any dividend gives it.
      obtain ⟨h, rfl, rfl⟩ := modOne?_eq_some hr hb
      obtain ⟨x, hx⟩ := a.exists_takes (k := k) hβ
      cases hv
      exact ⟨x, 1, hx, Expr.takes_int h 1, hone _⟩

theorem attains_min (hab : a.sameAs b = true → a = b) (hr : min? a b = some r)
    (ha : a.float? = none) (hv : r.Takes k β v) : Attains k β min a b v := by
  unfold min? at hr
  split at hr
  case h_1 h x h' y =>
    cases hr
    refine attains_literals ?_ hv
    simp only [Int64.lt_iff_toInt_lt]
    split_ifs <;> omega
  case h_2 => cases ha
  case h_3 =>
    split_ifs at hr with hs
    cases hr
    cases hab hs
    exact ⟨v, v, hv, hv, Int.min_self _⟩

theorem attains_max (hab : a.sameAs b = true → a = b) (hr : max? a b = some r)
    (ha : a.float? = none) (hv : r.Takes k β v) : Attains k β max a b v := by
  unfold max? at hr
  split at hr
  case h_1 h x h' y =>
    cases hr
    refine attains_literals ?_ hv
    simp only [Int64.lt_iff_toInt_lt]
    split_ifs <;> omega
  case h_2 => cases ha
  case h_3 =>
    split_ifs at hr with hs
    cases hr
    cases hab hs
    exact ⟨v, v, hv, hv, Int.max_self _⟩

theorem shift?_eq_some {word : Int64 → Nat → Int64} (hr : shift? word a b = .ok (some r)) :
    ∃ x y, a.int? = some x ∧ b.int? = some y ∧ r = .int (word x y.toInt.toNat) := by
  unfold shift? at hr
  split at hr
  case h_1 x y hx hy =>
    unfold shiftAmount at hr
    split at hr
    · cases hr
      exact ⟨x, y, hx, hy, rfl⟩
    · cases hr
  case h_2 => cases hr

theorem bitwise?_eq_some {word : Int64 → Int64 → Int64}
    (hr : bitwise? word a b = some r) :
    ∃ x y, a.int? = some x ∧ b.int? = some y ∧ r = .int (word x y) := by
  unfold bitwise? at hr
  split at hr
  case h_1 x y hx hy =>
    cases hr
    exact ⟨x, y, hx, hy, rfl⟩
  case h_2 => cases hr

end Folding

/-! ## Bounds of what is folded -/

theorem Reduct.normal_bound (hβ : β.Normal) (r : Reduct) : (r.bound k β).Normal := by
  cases r with
  | operand e => exact e.normal_bound k hβ
  | int n => exact Bound.normal_unit n.toInt
  | float => exact Bound.normal_everything

theorem Reduct.within {c : Bound} (hβ : β.Normal) (hc : c.Normal)
    (h : ∀ v, r.Takes k β v → c.Admits v.toInt) : (r.bound k β).Within c := by
  cases r with
  | operand e => exact (e.normal_bound k hβ).within_of_words hc h
  | int n => exact Bound.within_unit hc (h n rfl)
  | float => exact Bound.normal_everything.within_of_words hc fun v _ => h v trivial

/-- What folds to a value that is computed from the operands lies within any bound that admits all
that is computed from them. -/
theorem Reduct.within_of_attains {f : Int → Int → Int} {c : Bound} (hβ : β.Normal) (hc : c.Normal)
    (hattains : ∀ v, r.Takes k β v → Attains k β f a b v)
    (hadmits : ∀ x y : Int64, a.Takes k β x → b.Takes k β y → c.Admits (f x.toInt y.toInt)) :
    (r.bound k β).Within c := by
  refine Reduct.within hβ hc fun v hv => ?_
  obtain ⟨x, y, hx, hy, hxy⟩ := hattains v hv
  exact hxy ▸ hadmits x y hx hy

end Attained

end IndexAlgebra
