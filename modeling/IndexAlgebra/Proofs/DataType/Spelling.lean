import IndexAlgebra.DataType.Parser
import Mathlib.Data.List.Induction
/-!
# Spellings of data types

`Spells cs ty` says that characters spell a data type: a word for the kind of its elements, their
width unless the kind has only one, and after an `x` their number. Numbers may have a sign `+` and
zeros in front.

Reading accepts these spellings and nothing else, and what a data type is written as is one of them,
unless it has no lanes or a width that its kind cannot have (`DataType.parse_spells`).
-/

namespace IndexAlgebra

/-! ## Numerals -/

/-- The decimal digits of a number after some zeros. -/
def padded (zeros n : Nat) : List Char := List.replicate zeros '0' ++ Nat.toDigits 10 n

/-- Characters that write a number: its decimal digits, with any number of zeros before them and a
sign `+` before all of these or none. -/
inductive Numeral (n : Nat) : List Char → Prop where
  | plain (zeros : Nat) : Numeral n (padded zeros n)
  | signed (zeros : Nat) : Numeral n ('+' :: padded zeros n)

theorem isDigit_of_mem_padded {zeros n : Nat} {d : Char} (h : d ∈ padded zeros n) :
    d.isDigit = true := by
  rcases List.mem_append.1 h with h | h
  · rw [List.eq_of_mem_replicate h]
    rfl
  · exact Nat.isDigit_of_mem_toDigits (by decide) (by decide) h

theorem padded_ne_nil (zeros n : Nat) : padded zeros n ≠ [] :=
  List.append_ne_nil_of_right_ne_nil _ Nat.toDigits_ne_nil

theorem ofDigitChars_padded (zeros n : Nat) : Nat.ofDigitChars 10 (padded zeros n) 0 = n := by
  rw [padded, Nat.ofDigitChars_append, Nat.ofDigitChars_replicate_zero, Nat.mul_zero,
    Nat.ofDigitChars_ten_toDigits]

theorem exists_digitChar {d : Char} (h : d.isDigit = true) : ∃ v, v < 10 ∧ d = Nat.digitChar v := by
  obtain ⟨hlo, hhi⟩ : 48 ≤ d.toNat ∧ d.toNat ≤ 57 := Char.isDigit_iff_toNat.1 h
  refine ⟨d.toNat - 48, by omega, Char.toNat_inj.1 ?_⟩
  rw [Nat.toNat_digitChar_of_lt_ten (by omega)]
  omega

/-- Digits are those of the number that they write, after some zeros. -/
theorem exists_padded {ds : List Char} (hne : ds ≠ []) (h : ∀ d ∈ ds, d.isDigit = true) :
    ∃ zeros, ds = padded zeros (Nat.ofDigitChars 10 ds 0) := by
  induction ds using List.reverseRecOn with
  | nil => exact absurd rfl hne
  | append_singleton ds d ih =>
    obtain ⟨v, hv, rfl⟩ := exists_digitChar (h d (by simp))
    have hvalue : Nat.ofDigitChars 10 (ds ++ [v.digitChar]) 0 =
        10 * Nat.ofDigitChars 10 ds 0 + v := by
      rw [Nat.ofDigitChars_append, Nat.ofDigitChars_cons_digitChar_of_lt_ten hv,
        Nat.ofDigitChars_nil]
    have hlast : Nat.toDigits 10 v = [v.digitChar] := Nat.toDigits_of_lt_base hv
    rw [hvalue]
    by_cases hds : ds = []
    · subst hds
      exact ⟨0, by simp [padded, hlast]⟩
    obtain ⟨zeros, hzeros⟩ := ih hds fun d hd => h d (List.mem_append_left _ hd)
    generalize Nat.ofDigitChars 10 ds 0 = n at hzeros ⊢
    rw [hzeros]
    rcases Nat.eq_zero_or_pos n with rfl | hpos
    · -- The digits before the last are all zeros.
      refine ⟨zeros + 1, ?_⟩
      simp [padded, hlast, List.replicate_succ', Nat.toDigits_zero]
    · refine ⟨zeros, ?_⟩
      rw [padded, padded, List.append_assoc, ← hlast,
        Nat.toDigits_append_toDigits (by decide) hpos hv]

theorem Numeral.not_mem_x {n : Nat} {cs : List Char} (h : Numeral n cs) : 'x' ∉ cs := by
  have hdigits (zeros) : 'x' ∉ padded zeros n := fun hx =>
    absurd (isDigit_of_mem_padded hx) (by decide)
  cases h with
  | plain zeros => exact hdigits zeros
  | signed zeros => exact List.not_mem_cons_of_ne_of_not_mem (by decide) (hdigits zeros)

theorem numeral_toDigits (n : Nat) : Numeral n (Nat.toDigits 10 n) := .plain 0

namespace DataType

theorem parseDigits?_eq_some_iff {limit n : Nat} {ds : List Char} :
    parseDigits? limit ds = some n ↔ n ≤ limit ∧ ∃ zeros, ds = padded zeros n := by
  have hvalue : ds.foldl (fun n d => 10 * n + (d.toNat - 48)) 0 = Nat.ofDigitChars 10 ds 0 :=
    Nat.ofDigitChars_eq_foldl.symm
  unfold parseDigits?
  simp only [Bool.or_eq_true, List.isEmpty_iff, Bool.not_eq_true', List.all_eq_false, hvalue]
  constructor
  · intro h
    split at h
    · cases h
    · next hds =>
      push Not at hds
      obtain ⟨hlimit, hn⟩ := Option.ite_none_right_eq_some.1 h
      cases hn
      exact ⟨hlimit, exists_padded hds.1 hds.2⟩
  · rintro ⟨hlimit, zeros, rfl⟩
    have hdigits : ¬ ∃ d ∈ padded zeros n, ¬ d.isDigit = true :=
      fun ⟨d, hd, hnot⟩ => hnot (isDigit_of_mem_padded hd)
    rw [if_neg (not_or.2 ⟨padded_ne_nil zeros n, hdigits⟩), ofDigitChars_padded, if_pos hlimit]

/-- A number is read from its numerals and from nothing else. -/
theorem parseNumber?_eq_some_iff {limit n : Nat} {cs : List Char} :
    parseNumber? limit cs = some n ↔ n ≤ limit ∧ Numeral n cs := by
  constructor
  · intro h
    unfold parseNumber? at h
    split at h
    · obtain ⟨hlimit, zeros, rfl⟩ := parseDigits?_eq_some_iff.1 h
      exact ⟨hlimit, .signed zeros⟩
    · obtain ⟨hlimit, zeros, rfl⟩ := parseDigits?_eq_some_iff.1 h
      exact ⟨hlimit, .plain zeros⟩
  · rintro ⟨hlimit, ⟨zeros⟩ | ⟨zeros⟩⟩
    · have hsign (ds) : padded zeros n ≠ '+' :: ds := by
        intro h
        have hdigit : '+'.isDigit = true := isDigit_of_mem_padded (h ▸ List.mem_cons_self ..)
        exact absurd hdigit (by decide)
      rw [parseNumber?]
      · exact parseDigits?_eq_some_iff.2 ⟨hlimit, zeros, rfl⟩
      · exact hsign
    · exact parseDigits?_eq_some_iff.2 ⟨hlimit, zeros, rfl⟩

end DataType

/-! ## Spellings -/

/-- Whether elements of a kind have more widths than one. -/
def ScalarKind.hasWidths : ScalarKind → Bool
  | .int | .uint | .float => true
  | .bool | .handle => false

namespace DataType

/-- Characters that spell a data type of one lane, without the number of lanes. -/
inductive SpellsScalar : List Char → DataType → Prop where
  | bool : SpellsScalar "bool".toList .bool
  | handle : SpellsScalar "handle".toList .handle
  | width {kind : ScalarKind} {n : Nat} {cs : List Char} : kind.hasWidths = true → 1 ≤ n → n ≤ 64 →
      Numeral n cs → SpellsScalar (kind.text.toList ++ cs) ⟨kind, .ofNat n, 1⟩

/-- Characters that spell a data type. -/
inductive Spells : List Char → DataType → Prop where
  | scalar {cs : List Char} {ty : DataType} : SpellsScalar cs ty → Spells cs ty
  | vector {cs ds : List Char} {ty : DataType} {n : Nat} : SpellsScalar cs ty → 1 ≤ n → n ≤ 65535 →
      Numeral n ds → Spells (cs ++ 'x' :: ds) (ty.withLanes (.ofNat n))

/-- A data type has lanes, and the elements have a width that their kind can have. -/
def Valid (ty : DataType) : Prop :=
  1 ≤ ty.lanes ∧
    match ty.kind with
    | .bool => ty.bits = 1
    | .handle => ty.bits = 64
    | .int | .uint | .float => 1 ≤ ty.bits ∧ ty.bits ≤ 64

/-! ## Reading -/

theorem after?_eq_some_iff {word cs rest : List Char} :
    after? word cs = some rest ↔ cs = word ++ rest := by
  induction word generalizing cs with
  | nil => simp [after?]
  | cons w word ih =>
    cases cs with
    | nil => simp [after?]
    | cons c cs => simp [after?, ih, eq_comm (a := w)]

theorem parseWidth?_eq_some_iff {make : UInt8 → DataType} {cs : List Char} {ty : DataType} :
    parseWidth? make cs = some ty ↔ ∃ n, 1 ≤ n ∧ n ≤ 64 ∧ Numeral n cs ∧ make (.ofNat n) = ty := by
  unfold parseWidth?
  constructor
  · intro h
    split at h
    · next n hn =>
      obtain ⟨⟨hlo, hhi⟩, hty⟩ := Option.ite_none_right_eq_some.1 h
      exact ⟨n, hlo, hhi, (parseNumber?_eq_some_iff.1 hn).2, Option.some.inj hty⟩
    · cases h
  · rintro ⟨n, hlo, hhi, hn, rfl⟩
    have hlimit : n ≤ 255 := by omega
    rw [parseNumber?_eq_some_iff.2 ⟨hlimit, hn⟩]
    exact if_pos ⟨hlo, hhi⟩

theorem parseScalar?_eq_some_iff {cs : List Char} {ty : DataType} :
    parseScalar? cs = some ty ↔ SpellsScalar cs ty := by
  constructor
  · intro h
    have hwidth {make : UInt8 → DataType} {digits : List Char} (kind : ScalarKind)
        (hkind : kind.hasWidths = true) (hmake : make = (⟨kind, ·, 1⟩))
        (hcs : cs = kind.text.toList ++ digits) (hread : parseWidth? make digits = some ty) :
        SpellsScalar cs ty := by
      obtain ⟨n, hlo, hhi, hn, rfl⟩ := parseWidth?_eq_some_iff.1 hread
      rw [hcs, hmake]
      exact .width hkind hlo hhi hn
    unfold parseScalar? at h
    split at h
    · next hcs =>
      cases h
      exact hcs ▸ .bool
    split at h
    · next hcs =>
      cases h
      exact hcs ▸ .handle
    split at h
    · next hcs => exact hwidth .uint rfl rfl (after?_eq_some_iff.1 hcs) h
    split at h
    · next hcs => exact hwidth .int rfl rfl (after?_eq_some_iff.1 hcs) h
    split at h
    · next hcs => exact hwidth .float rfl rfl (after?_eq_some_iff.1 hcs) h
    · cases h
  · intro h
    cases h with
    | bool => rfl
    | handle => rfl
    | @width kind n digits hkind hlo hhi hn =>
      have hread {make : UInt8 → DataType} : parseWidth? make digits = some (make (.ofNat n)) :=
        parseWidth?_eq_some_iff.2 ⟨n, hlo, hhi, hn, rfl⟩
      cases kind with
      | int => exact hread
      | uint => exact hread
      | float => exact hread
      | bool | handle => cases hkind

/-! ## Lanes -/

theorem splitLanes_of_not_mem {cs : List Char} (h : 'x' ∉ cs) : splitLanes cs = (cs, none) := by
  induction cs with
  | nil => rfl
  | cons c cs ih =>
    obtain ⟨hc, hcs⟩ := List.ne_and_not_mem_of_not_mem_cons h
    rw [splitLanes, if_neg (Ne.symm hc), ih hcs]

theorem splitLanes_append {cs : List Char} (h : 'x' ∉ cs) (ds : List Char) :
    splitLanes (cs ++ 'x' :: ds) = (cs, some ds) := by
  induction cs with
  | nil => rfl
  | cons c cs ih =>
    obtain ⟨hc, hcs⟩ := List.ne_and_not_mem_of_not_mem_cons h
    rw [List.cons_append, splitLanes, if_neg (Ne.symm hc), ih hcs]

/-- The text is split at its first `x`. -/
theorem splitLanes_eq (cs : List Char) :
    (splitLanes cs).1 ++ ((splitLanes cs).2.elim [] ('x' :: ·)) = cs := by
  induction cs with
  | nil => rfl
  | cons c cs ih =>
    rw [splitLanes]
    split
    · next hc => rw [hc]; rfl
    · exact congrArg (c :: ·) ih

theorem SpellsScalar.not_mem_x {cs : List Char} {ty : DataType} (h : SpellsScalar cs ty) :
    'x' ∉ cs := by
  cases h with
  | bool => decide
  | handle => decide
  | @width kind n digits hkind _ _ hn =>
    have hword : 'x' ∉ kind.text.toList := by cases kind <;> decide
    exact fun hx => (List.mem_append.1 hx).elim hword hn.not_mem_x

theorem parseLanes?_eq_some_iff {ds : List Char} {n : Nat} :
    parseLanes? (some ds) = some n ↔ 1 ≤ n ∧ n ≤ 65535 ∧ Numeral n ds := by
  unfold parseLanes?
  dsimp only
  constructor
  · intro h
    split at h
    · next m hm =>
      obtain ⟨hzero, hmn⟩ := Option.ite_none_left_eq_some.1 h
      cases hmn
      obtain ⟨hlimit, hnumeral⟩ := parseNumber?_eq_some_iff.1 hm
      exact ⟨Nat.one_le_iff_ne_zero.2 hzero, hlimit, hnumeral⟩
    · cases h
  · rintro ⟨hlo, hhi, hnumeral⟩
    rw [parseNumber?_eq_some_iff.2 ⟨hhi, hnumeral⟩]
    exact if_neg (Nat.one_le_iff_ne_zero.1 hlo)

theorem SpellsScalar.withLanes_one {cs : List Char} {ty : DataType} (h : SpellsScalar cs ty) :
    ty.withLanes (.ofNat 1) = ty := by
  cases h <;> rfl

/-- The data type that characters name is the one that they spell. -/
theorem parseChars?_eq_some_iff {cs : List Char} {ty : DataType} :
    parseChars? cs = some ty ↔ Spells cs ty := by
  constructor
  · intro h
    have hcs := splitLanes_eq cs
    unfold parseChars? at h
    generalize splitLanes cs = parts at h hcs
    obtain ⟨scalar, lanes⟩ := parts
    subst hcs
    dsimp only at h
    split at h
    · next n single hn hsingle =>
      cases h
      have hscalar := parseScalar?_eq_some_iff.1 hsingle
      cases lanes with
      | none =>
        cases hn
        rw [hscalar.withLanes_one]
        simpa using Spells.scalar hscalar
      | some ds =>
        obtain ⟨hlo, hhi, hnumeral⟩ := parseLanes?_eq_some_iff.1 hn
        exact .vector hscalar hlo hhi hnumeral
    · cases h
  · intro h
    unfold parseChars?
    cases h with
    | scalar hscalar =>
      rw [splitLanes_of_not_mem hscalar.not_mem_x]
      dsimp only
      rw [parseScalar?_eq_some_iff.2 hscalar]
      exact congrArg some hscalar.withLanes_one
    | vector hscalar hlo hhi hnumeral =>
      rw [splitLanes_append hscalar.not_mem_x]
      dsimp only
      rw [parseScalar?_eq_some_iff.2 hscalar, parseLanes?_eq_some_iff.2 ⟨hlo, hhi, hnumeral⟩]

theorem parse_eq_ok_iff {s : String} {ty : DataType} : parse s = .ok ty ↔ Spells s.toList ty := by
  rw [← parseChars?_eq_some_iff, parse]
  cases parseChars? s.toList <;> simp

theorem parse_eq_error_iff {s : String} {e : DataTypeError} :
    parse s = .error e ↔ e = ⟨s⟩ ∧ ∀ ty, ¬ Spells s.toList ty := by
  simp only [← parseChars?_eq_some_iff, parse]
  cases parseChars? s.toList <;> simp [eq_comm]

/-! ## Writing -/

theorem SpellsScalar.valid {cs : List Char} {ty : DataType} (h : SpellsScalar cs ty)
    {lanes : UInt16} (hlanes : 1 ≤ lanes) : (ty.withLanes lanes).Valid := by
  cases h with
  | bool => exact ⟨hlanes, rfl⟩
  | handle => exact ⟨hlanes, rfl⟩
  | @width kind n _ hkind hlo hhi _ =>
    have hbits : 1 ≤ UInt8.ofNat n ∧ UInt8.ofNat n ≤ 64 := by
      have hn : (UInt8.ofNat n).toNat = n := UInt8.toNat_ofNat_of_lt' (show n < 256 by omega)
      rw [UInt8.le_iff_toNat_le, UInt8.le_iff_toNat_le, hn]
      exact ⟨hlo, hhi⟩
    cases kind with
    | int | uint | float => exact ⟨hlanes, hbits⟩
    | bool | handle => cases hkind

theorem Spells.valid {cs : List Char} {ty : DataType} (h : Spells cs ty) : ty.Valid := by
  cases h with
  | scalar hscalar =>
    have hvalid : (ty.withLanes (.ofNat 1)).Valid := hscalar.valid (by decide)
    rwa [hscalar.withLanes_one] at hvalid
  | @vector _ _ _ n hscalar hlo hhi _ =>
    refine hscalar.valid ?_
    rw [UInt16.le_iff_toNat_le, UInt16.toNat_ofNat_of_lt' (show n < 65536 by omega)]
    exact hlo

theorem numeral_toString (n : Nat) : Numeral n (toString n).toList := by
  rw [Nat.toString_eq_repr, Nat.toList_repr]
  exact numeral_toDigits n

/-- What is written of a data type besides its lanes spells it. -/
theorem Valid.spellsScalar {ty : DataType} (h : ty.Valid) :
    SpellsScalar (if ty.kind = .bool ∨ ty.kind = .handle then ty.kind.text
      else ty.kind.text ++ toString ty.bits.toNat).toList (ty.withLanes 1) := by
  obtain ⟨kind, bits, lanes⟩ := ty
  obtain ⟨-, hbits⟩ := h
  have hwidth (hkind : kind.hasWidths = true) (hlo : 1 ≤ bits) (hhi : bits ≤ 64) :
      SpellsScalar (kind.text ++ toString bits.toNat).toList ⟨kind, bits, 1⟩ := by
    have hspells := SpellsScalar.width hkind (UInt8.le_iff_toNat_le.1 hlo)
      (UInt8.le_iff_toNat_le.1 hhi) (numeral_toString bits.toNat)
    rwa [UInt8.ofNat_toNat, ← String.toList_append] at hspells
  cases kind with
  | int => exact hwidth rfl hbits.1 hbits.2
  | uint => exact hwidth rfl hbits.1 hbits.2
  | float => exact hwidth rfl hbits.1 hbits.2
  | bool =>
    cases hbits
    exact .bool
  | handle =>
    cases hbits
    exact .handle

/-- What is written of a data type spells it. -/
theorem Valid.spells {ty : DataType} (h : ty.Valid) : Spells ty.text.toList ty := by
  have hscalar := h.spellsScalar
  simp only [text]
  split
  · have hvector := Spells.vector hscalar (UInt16.le_iff_toNat_le.1 h.1)
      (Nat.le_of_lt_succ ty.lanes.toNat_lt) (numeral_toString ty.lanes.toNat)
    rw [UInt16.ofNat_toNat] at hvector
    rw [String.toList_append, String.toList_append, List.append_assoc]
    exact hvector
  · next hlanes =>
    have hone : ty.lanes = 1 := UInt16.le_antisymm (UInt16.not_lt.1 hlanes) h.1
    have hty : ty.withLanes 1 = ty := by rw [withLanes, ← hone]
    rw [hty] at hscalar
    exact .scalar hscalar

/-- A text is read as the data type that it spells, and is refused, with itself in the error, if it
spells none. A data type that is read can be written and read again, as can every valid one and no
other. -/
theorem parse_spells (s : String) (ty : DataType) :
    (parse s = .ok ty ↔ Spells s.toList ty) ∧
      (∀ e, parse s = .error e ↔ e = ⟨s⟩ ∧ ∀ ty, ¬ Spells s.toList ty) ∧
      (parse s = .ok ty → parse ty.text = .ok ty) ∧
      (parse ty.text = .ok ty ↔ ty.Valid) := by
  have hvalid {s : String} (h : parse s = .ok ty) : ty.Valid := (parse_eq_ok_iff.1 h).valid
  have hwritten (h : ty.Valid) : parse ty.text = .ok ty := parse_eq_ok_iff.2 h.spells
  refine ⟨parse_eq_ok_iff, fun e => parse_eq_error_iff, fun h => hwritten (hvalid h), ?_⟩
  exact ⟨hvalid, hwritten⟩

/-- A width with a sign and lanes with a zero in front are read, and written without them. -/
theorem parse_spells_uint8x4 :
    parse "uint+8x04" = .ok ⟨.uint, 8, 4⟩ ∧ Spells "uint+8x04".toList ⟨.uint, 8, 4⟩ ∧
      text ⟨.uint, 8, 4⟩ = "uint8x4" ∧ parse (text ⟨.uint, 8, 4⟩) = .ok ⟨.uint, 8, 4⟩ := by
  have hread : parse "uint+8x04" = .ok ⟨.uint, 8, 4⟩ := by decide
  obtain ⟨hspells, -, hagain, -⟩ := parse_spells "uint+8x04" ⟨.uint, 8, 4⟩
  exact ⟨hread, hspells.1 hread, by decide, hagain hread⟩

end DataType

end IndexAlgebra
