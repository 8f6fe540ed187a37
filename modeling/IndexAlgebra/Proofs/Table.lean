import IndexAlgebra.Table
/-!
# The entries of tables

The look-up laws say what a key is mapped to. Here it is said which entries a table has, as that is
what a condition on all entries is about.
-/

namespace IndexAlgebra.Table

variable {κ : Type u} {α : Type v} [BEq κ]

theorem exists_mem_of_lookup {entries : List (κ × α)} {k : κ} {a : α}
    (h : lookup entries k = some a) : ∃ key, (key == k) = true ∧ (key, a) ∈ entries := by
  induction entries with
  | nil => cases h
  | cons entry rest ih =>
    obtain ⟨key, value⟩ := entry
    unfold lookup at h
    split at h
    · next hk =>
      cases h
      exact ⟨key, hk, .head _⟩
    · obtain ⟨key', hk, hmem⟩ := ih h
      exact ⟨key', hk, .tail _ hmem⟩

/-- The value of a key is the value of an entry for it. -/
theorem exists_mem_of_get? {t : Table κ α} {k : κ} {a : α} (h : t.get? k = some a) :
    ∃ key, (key == k) = true ∧ (key, a) ∈ t.entries :=
  exists_mem_of_lookup h

/-- In a list of values under keys of their own, a value is found by its key. -/
theorem lookup_map_of_mem [LawfulBEq κ] {f : α → κ} {a : α} :
    ∀ {values : List α}, (values.map f).Nodup → a ∈ values →
      lookup (values.map fun b => (f b, b)) (f a) = some a
  | b :: values, hnodup, ha => by
    rw [List.map_cons, List.nodup_cons] at hnodup
    rw [List.map_cons, lookup]
    by_cases hkey : f b = f a
    · have hb : a = b := by
        refine (List.mem_cons.1 ha).resolve_right fun hmem => hnodup.1 ?_
        rw [hkey]
        exact List.mem_map_of_mem hmem
      rw [if_pos (beq_iff_eq.2 hkey), hb]
    · have hmem : a ∈ values := (List.mem_cons.1 ha).resolve_left fun hb => hkey (hb ▸ rfl)
      rw [if_neg (mt beq_iff_eq.1 hkey)]
      exact lookup_map_of_mem hnodup.2 hmem

theorem lookup_congr [EquivBEq κ] {k j : κ} (h : (k == j) = true) (entries : List (κ × α)) :
    lookup entries k = lookup entries j := by
  induction entries with
  | nil => rfl
  | cons entry rest ih => rw [lookup, lookup, BEq.congr_right h, ih]

/-- Keys that are the same have the same value. -/
theorem get?_congr [EquivBEq κ] (t : Table κ α) {k j : κ} (h : (k == j) = true) :
    t.get? k = t.get? j :=
  lookup_congr h t.entries

theorem put_of_lookup_eq_none {entries : List (κ × α)} {k : κ} (a : α)
    (h : lookup entries k = none) : put entries k a = entries ++ [(k, a)] := by
  induction entries with
  | nil => rfl
  | cons entry rest ih =>
    obtain ⟨key, value⟩ := entry
    by_cases hk : key == k
    · simp [lookup, hk] at h
    · simp only [lookup, hk] at h
      simp [put, hk, ih h]

theorem put_of_lookup_eq_some {entries : List (κ × α)} {k : κ} {a : α}
    (h : lookup entries k = some a) : put entries k a = entries := by
  induction entries with
  | nil => cases h
  | cons entry rest ih =>
    obtain ⟨key, value⟩ := entry
    by_cases hk : key == k
    · simp only [lookup, hk, ↓reduceIte, Option.some.injEq] at h
      simp only [put, hk, ↓reduceIte, h]
    · simp only [lookup, hk] at h
      simp [put, hk, ih h]

theorem mem_put {entries : List (κ × α)} {k : κ} {a : α} {p : κ × α} (h : p ∈ put entries k a) :
    p.2 = a ∨ p ∈ entries := by
  induction entries with
  | nil => exact .inl (congrArg Prod.snd (List.mem_singleton.1 h))
  | cons entry rest ih =>
    obtain ⟨key, value⟩ := entry
    unfold put at h
    split at h
    · rcases List.mem_cons.1 h with rfl | h
      · exact .inl rfl
      · exact .inr (.tail _ h)
    · rcases List.mem_cons.1 h with rfl | h
      · exact .inr (.head _)
      · exact (ih h).imp_right (.tail _)

/-- An entry of a table after a value was entered has this value, or was an entry before. -/
theorem mem_insert {t : Table κ α} {k : κ} {a : α} {p : κ × α} (h : p ∈ (t.insert k a).entries) :
    p.2 = a ∨ p ∈ t.entries :=
  mem_put h

theorem get?_set [EquivBEq κ] (t : Table κ α) (k j : κ) (o : Option α) :
    (t.set k o).get? j = if k == j then o else t.get? j := by
  cases o with
  | none => exact get?_erase t k j
  | some a => exact get?_insert t k j a

/-- A new key is entered behind the others. -/
theorem entries_insert_of_get?_eq_none {t : Table κ α} {k : κ} (a : α) (h : t.get? k = none) :
    (t.insert k a).entries = t.entries ++ [(k, a)] :=
  put_of_lookup_eq_none a h

/-- A value that a key has already is entered without effect. -/
theorem insert_of_get?_eq_some {t : Table κ α} {k : κ} {a : α} (h : t.get? k = some a) :
    t.insert k a = t := by
  cases t
  exact congrArg Table.mk (put_of_lookup_eq_some h)

end IndexAlgebra.Table
