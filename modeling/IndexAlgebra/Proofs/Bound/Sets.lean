import IndexAlgebra.Proofs.Bound.Narrowing
/-!
# The words of bounds

A bound contains the words that lie between its endpoints. The set operations on bounds are those on
the sets of words: inclusion, common part, and the least bound around two others.

Membership compares with the endpoints as they are, infinite or not. There is one word below
`negInf`, and no normal bound contains it. So the bound without limits contains all words but this
one (`Normal.isTop_iff_words`), although it admits all of them.
-/

namespace IndexAlgebra.Bound

open Endpoint

/-- The words that a bound contains. -/
def words (b : Bound) : Set Int64 := {v | b.contains v.toInt = true}

variable {a b c : Bound}

theorem mem_words {v : Int64} : v ∈ b.words ↔ b.lo ≤ v.toInt ∧ v.toInt ≤ b.hi :=
  decide_eq_true_iff

/-- What lies between the endpoints of a bound is a word that the bound contains. -/
theorem ofInt_mem_words (hlow : negInf ≤ b.lo) (hhigh : b.hi ≤ posInf) {n : Int} (hl : b.lo ≤ n)
    (hh : n ≤ b.hi) : Int64.ofInt n ∈ b.words ∧ (Int64.ofInt n).toInt = n := by
  have hword : (Int64.ofInt n).toInt = n := toInt_ofInt (hlow.trans hl) (hh.trans hhigh)
  refine ⟨mem_words.2 ?_, hword⟩
  rw [hword]
  exact ⟨hl, hh⟩

theorem Normal.exists_mem_words (hb : b.Normal) {n : Int} (hl : b.lo ≤ n) (hh : n ≤ b.hi) :
    ∃ v ∈ b.words, v.toInt = n :=
  ⟨.ofInt n, ofInt_mem_words hb.negInf_le_lo hb.hi_le_posInf hl hh⟩

/-! ## Inclusion -/

theorem words_subset_of_subsumes (h : a.subsumes b = true) : b.words ⊆ a.words := by
  intro v hv
  rw [subsumes_iff] at h
  rw [mem_words] at hv ⊢
  omega

/-- The endpoints of a normal bound are among its words, so that no other words are needed to tell
that the bound lies within another one. -/
theorem Normal.subsumes_iff_words (hb : b.Normal) :
    a.subsumes b = true ↔ b.words ⊆ a.words := by
  refine ⟨words_subset_of_subsumes, fun h => subsumes_iff.2 ⟨?_, ?_⟩⟩
  · obtain ⟨v, hv, hlo⟩ := hb.exists_mem_words (Int.le_refl _) hb.lo_le_hi
    rw [← hlo]
    exact (mem_words.1 (h hv)).1
  · obtain ⟨v, hv, hhi⟩ := hb.exists_mem_words hb.lo_le_hi (Int.le_refl _)
    rw [← hhi]
    exact (mem_words.1 (h hv)).2

/-! ## Common parts -/

theorem words_of_intersect? (h : a.intersect? b = some c) : c.words = a.words ∩ b.words := by
  ext v
  simp only [intersect?, Option.ite_none_right_eq_some, Option.some.injEq] at h
  obtain ⟨-, rfl⟩ := h
  rw [Set.mem_inter_iff, mem_words, mem_words, mem_words]
  dsimp only
  omega

/-- Two bounds have no common part exactly if they have no word in common. -/
theorem Normal.intersect?_eq_none_iff (ha : a.Normal) (hb : b.Normal) :
    a.intersect? b = none ↔ a.words ∩ b.words = ∅ := by
  cases h : a.intersect? b with
  | none =>
    simp only [intersect?, ite_eq_right_iff, reduceCtorEq, imp_false] at h
    refine ⟨fun _ => Set.eq_empty_of_forall_notMem ?_, fun _ => rfl⟩
    rintro v ⟨hva, hvb⟩
    rw [mem_words] at hva hvb
    omega
  | some c =>
    have hc := ha.of_intersect? hb h
    obtain ⟨v, hv, -⟩ := hc.exists_mem_words (Int.le_refl _) hc.lo_le_hi
    rw [words_of_intersect? h] at hv
    constructor
    · intro hnone
      exact absurd hnone (Option.some_ne_none c)
    · intro hempty
      exact absurd hv (hempty ▸ Set.notMem_empty v)

/-! ## Unions -/

theorem subsumes_union (a b : Bound) :
    (a.union b).subsumes a = true ∧ (a.union b).subsumes b = true := by
  simp only [subsumes_iff, union]
  omega

theorem union_least (ha : c.subsumes a = true) (hb : c.subsumes b = true) :
    c.subsumes (a.union b) = true := by
  rw [subsumes_iff] at *
  simp only [union]
  omega

/-! ## The bound without limits -/

/-- The lowest word lies below all endpoints. -/
theorem Normal.minValue_notMem_words (hb : b.Normal) : Int64.minValue ∉ b.words := by
  intro h
  have hlo := (mem_words.1 h).1
  have hlow := hb.negInf_le_lo
  rw [Int64.toInt_minValue] at hlo
  simp only [negInf_eq] at hlow
  omega

theorem isTop_iff : b.isTop = true ↔ b.lo = negInf ∧ b.hi = posInf := by
  simp [isTop, unboundedBelow, unboundedAbove]

theorem words_everything : everything.words = {Int64.minValue}ᶜ := by
  ext v
  have hlo := v.le_toInt
  have hhi := v.toInt_lt
  rw [mem_words, Set.mem_compl_singleton_iff, Ne, ← Int64.toInt_inj, Int64.toInt_minValue]
  simp only [everything, posInf_eq, negInf_eq]
  omega

/-- A bound has no limits exactly if it contains all words but the lowest. -/
theorem Normal.isTop_iff_words (hb : b.Normal) :
    b.isTop = true ↔ b.words = {Int64.minValue}ᶜ := by
  rw [isTop_iff, ← words_everything]
  constructor
  · cases b
    rintro ⟨rfl, rfl⟩
    rfl
  · intro h
    have hle := subsumes_iff.1 (normal_everything.subsumes_iff_words.2 h.ge)
    exact ⟨Int.le_antisymm hle.1 hb.negInf_le_lo, Int.le_antisymm hb.hi_le_posInf hle.2⟩

/-! ## All together -/

/-- The set operations on normal bounds agree with the words that they contain. A bound lies within
another one exactly if its words do. The common part is missing exactly if there are no common
words, and otherwise contains these and no others. The union contains the words of both bounds, and
lies within every normal bound in which both of them lie. A bound has no limits exactly if it
contains all words but the lowest, which no normal bound contains. -/
theorem operations_on_words (ha : a.Normal) (hb : b.Normal) :
    (a.subsumes b = true ↔ b.words ⊆ a.words) ∧
    (a.intersect? b = none ↔ a.words ∩ b.words = ∅) ∧
    (∀ c, a.intersect? b = some c → c.words = a.words ∩ b.words) ∧
    a.words ∪ b.words ⊆ (a.union b).words ∧
    (∀ c : Bound, c.Normal → c.subsumes a = true → c.subsumes b = true →
      c.subsumes (a.union b) = true) ∧
    (a.isTop = true ↔ a.words = {Int64.minValue}ᶜ) ∧
    Int64.minValue ∉ a.words := by
  obtain ⟨hleft, hright⟩ := subsumes_union a b
  have hunion : a.words ∪ b.words ⊆ (a.union b).words :=
    Set.union_subset (words_subset_of_subsumes hleft) (words_subset_of_subsumes hright)
  exact ⟨hb.subsumes_iff_words, ha.intersect?_eq_none_iff hb, fun _ => words_of_intersect?, hunion,
    fun _ _ => union_least, ha.isTop_iff_words, ha.minValue_notMem_words⟩

/-- From zero on, and from minus five to nine; and the bound without limits. -/
theorem operations_on_words_fromZero :
    let a : Bound := ⟨0, posInf⟩
    let b : Bound := ⟨-5, 9⟩
    a.Normal ∧ b.Normal ∧ everything.Normal ∧
      ¬ b.words ⊆ a.words ∧ a.words ∩ b.words ≠ ∅ ∧
      (⟨0, 9⟩ : Bound).words = a.words ∩ b.words ∧
      a.words ∪ b.words ⊆ (⟨-5, posInf⟩ : Bound).words ∧
      b.words ⊆ everything.words ∧ everything.words = {Int64.minValue}ᶜ := by
  intro a b
  have ha : a.Normal := by decide
  have hb : b.Normal := by decide
  obtain ⟨hsub, hnone, hcommon, hunion, -⟩ := operations_on_words ha hb
  obtain ⟨hsub', -, -, -, -, htop, -⟩ := operations_on_words normal_everything hb
  exact ⟨ha, hb, normal_everything, mt hsub.2 (by decide), mt hnone.2 (by decide),
    hcommon ⟨0, 9⟩ (by decide), hunion, hsub'.1 (by decide), htop.1 (by decide)⟩

/-- The bound without limits does not contain the lowest word. -/
theorem not_isTop_iff_contains_all :
    ¬ ∀ b : Bound, b.Normal → (b.isTop = true ↔ ∀ v : Int64, b.contains v.toInt = true) := by
  intro h
  have hall := (h everything normal_everything).1 rfl
  exact absurd (hall Int64.minValue) (by decide)

end IndexAlgebra.Bound
