/-!
# Tables

A table holds one value for each of its keys, as a list of pairs in the order in which the keys
came. Keys are compared with `==`, which need not be equality: a table of expressions has one entry
for each handle.

The look-up laws `get?_insert` and `get?_erase` say all that a table's clients need, and
`erase_insert` says that taking out a key that was new leaves the table as it was.
-/

namespace IndexAlgebra

/-- A list of pairs. The operations below never make a key repeat. -/
structure Table (κ : Type u) (α : Type v) where
  entries : List (κ × α)
deriving Inhabited

namespace Table

variable {κ : Type u} {α : Type v} [BEq κ]

def empty : Table κ α := ⟨[]⟩

/-- The value of the first pair with a key. -/
def lookup : List (κ × α) → κ → Option α
  | [], _ => none
  | (key, value) :: rest, k => if key == k then some value else lookup rest k

/-- The pairs with the value of a key replaced, or with a pair for it at the end. -/
def put : List (κ × α) → κ → α → List (κ × α)
  | [], k, a => [(k, a)]
  | (key, value) :: rest, k, a =>
    if key == k then (key, a) :: rest else (key, value) :: put rest k a

/-- The pairs without those of a key. -/
def drop : List (κ × α) → κ → List (κ × α)
  | [], _ => []
  | (key, value) :: rest, k => if key == k then drop rest k else (key, value) :: drop rest k

/-- The value of a key. -/
def get? (t : Table κ α) (k : κ) : Option α := lookup t.entries k

def contains (t : Table κ α) (k : κ) : Bool := (t.get? k).isSome

/-- The table in which a key has a given value. -/
def insert (t : Table κ α) (k : κ) (a : α) : Table κ α := ⟨put t.entries k a⟩

/-- The table in which a key has no value. -/
def erase (t : Table κ α) (k : κ) : Table κ α := ⟨drop t.entries k⟩

/-- The table in which a key has the given value, or none. -/
def set (t : Table κ α) (k : κ) : Option α → Table κ α
  | some a => t.insert k a
  | none => t.erase k

def size (t : Table κ α) : Nat := t.entries.length

/-! ## Look-up laws -/

@[simp]
theorem get?_empty (k : κ) : (empty : Table κ α).get? k = none := rfl

section Laws

variable [EquivBEq κ]

theorem lookup_put (entries : List (κ × α)) (k j : κ) (a : α) :
    lookup (put entries k a) j = if k == j then some a else lookup entries j := by
  induction entries with
  | nil => rfl
  | cons entry rest ih =>
    obtain ⟨key, value⟩ := entry
    by_cases hk : key == k
    · by_cases hj : k == j
      · simp [put, lookup, hk, hj, BEq.trans hk hj]
      · have : (key == j) = false := by
          rw [Bool.eq_false_iff]
          exact fun h => hj (BEq.trans (BEq.symm hk) h)
        simp [put, lookup, hk, hj, this]
    · by_cases hj : key == j
      · have : (k == j) = false := by
          rw [Bool.eq_false_iff]
          exact fun h => hk (BEq.trans hj (BEq.symm h))
        simp [put, lookup, hk, hj, this]
      · simp [put, lookup, hk, hj, ih]

theorem lookup_drop (entries : List (κ × α)) (k j : κ) :
    lookup (drop entries k) j = if k == j then none else lookup entries j := by
  induction entries with
  | nil => simp [drop, lookup]
  | cons entry rest ih =>
    obtain ⟨key, value⟩ := entry
    by_cases hk : key == k
    · by_cases hj : k == j
      · simp [drop, hk, hj, ih]
      · have : (key == j) = false := by
          rw [Bool.eq_false_iff]
          exact fun h => hj (BEq.trans (BEq.symm hk) h)
        simp [drop, lookup, hk, hj, ih, this]
    · by_cases hj : key == j
      · have : (k == j) = false := by
          rw [Bool.eq_false_iff]
          exact fun h => hk (BEq.trans hj (BEq.symm h))
        simp [drop, lookup, hk, hj, this]
      · simp [drop, lookup, hk, hj, ih]

/-- Inserting changes the value of the given key and of no other. -/
theorem get?_insert (t : Table κ α) (k j : κ) (a : α) :
    (t.insert k a).get? j = if k == j then some a else t.get? j :=
  lookup_put t.entries k j a

/-- Erasing takes the value of the given key and of no other. -/
theorem get?_erase (t : Table κ α) (k j : κ) :
    (t.erase k).get? j = if k == j then none else t.get? j :=
  lookup_drop t.entries k j

theorem drop_put_of_lookup_eq_none {entries : List (κ × α)} {k : κ} (a : α)
    (h : lookup entries k = none) : drop (put entries k a) k = entries := by
  induction entries with
  | nil => simp [put, drop]
  | cons entry rest ih =>
    obtain ⟨key, value⟩ := entry
    by_cases hk : key == k
    · simp [lookup, hk] at h
    · simp only [lookup, hk] at h
      simp [put, drop, hk, ih h]

/-- Erasing a key that has just been added gives back the table. -/
theorem erase_insert {t : Table κ α} {k : κ} (a : α) (h : t.get? k = none) :
    (t.insert k a).erase k = t := by
  cases t
  exact congrArg Table.mk (drop_put_of_lookup_eq_none a h)

end Laws

end Table

end IndexAlgebra
