/-!
# Association lists

A mapping is a list of pairs. *Ordered* mappings keep the place of a key when its value
is replaced and append new keys; *sorted* mappings keep their keys in ascending order.
-/

namespace Rollout

/-- A mapping from texts, as a list of pairs. -/
abbrev Assoc (α : Type u) := List (String × α)

namespace Assoc

variable {α : Type u} {β : Type v}

/-- The value of a key: that of its first pair. -/
def get? (m : Assoc α) (key : String) : Option α := m.lookup key

/-- The keys, in order. -/
def keys (m : Assoc α) : List String := m.map (·.1)

/-- Whether a key has a value. -/
def has (m : Assoc α) (key : String) : Bool := (m.get? key).isSome

/-- Give a key a value: in its place if the mapping has the key, else at the end. -/
def insert (m : Assoc α) (key : String) (value : α) : Assoc α :=
  match m with
  | [] => [(key, value)]
  | (k, v) :: rest => if k = key then (k, value) :: rest else (k, v) :: insert rest key value

/-- Give a key a value unless it has one. -/
def insertNew (m : Assoc α) (key : String) (value : α) : Assoc α :=
  if m.has key then m else m ++ [(key, value)]

/-- Give each key of a list the value that it has there unless it has one. -/
def insertAllNew (m : Assoc α) (pairs : List (String × α)) : Assoc α :=
  pairs.foldl (fun m (k, v) => m.insertNew k v) m

/-- Take a key away. -/
def erase (m : Assoc α) (key : String) : Assoc α := m.filter (·.1 != key)

/-- Insert the pairs of a list one after the other. -/
def insertAll (m : Assoc α) (pairs : List (String × α)) : Assoc α :=
  pairs.foldl (fun m (k, v) => m.insert k v) m

/-- The ordered mapping in which each key of a list has its last value. -/
def ofPairs (pairs : List (String × α)) : Assoc α := insertAll [] pairs

/-- Replace every value by its image. -/
def mapValues (f : α → β) (m : Assoc α) : Assoc β := m.map fun (k, v) => (k, f v)

/-- Give a key a value in a sorted mapping. -/
def insertSorted (m : Assoc α) (key : String) (value : α) : Assoc α :=
  match m with
  | [] => [(key, value)]
  | (k, v) :: rest =>
    if k = key then (k, value) :: rest
    else if key < k then (key, value) :: (k, v) :: rest
    else (k, v) :: insertSorted rest key value

/-- Give a key a value in a sorted mapping unless it has one. -/
def insertSortedNew (m : Assoc α) (key : String) (value : α) : Assoc α :=
  if m.has key then m else m.insertSorted key value

/-- The sorted mapping in which each key of a list has its last value. -/
def sorted (pairs : List (String × α)) : Assoc α :=
  pairs.foldl (fun m (k, v) => m.insertSorted k v) []

theorem get?_cons (k : String) (v : α) (rest : Assoc α) (key : String) :
    get? ((k, v) :: rest) key = if key = k then some v else get? rest key := by
  by_cases h : key = k
  · simp [get?, h]
  · simp [get?, List.lookup_cons, h, beq_eq_false_iff_ne.mpr h]

theorem get?_insert (m : Assoc α) (key other : String) (value : α) :
    (m.insert key value).get? other = if other = key then some value else m.get? other := by
  induction m with
  | nil => rw [insert, get?_cons]
  | cons pair rest ih =>
    obtain ⟨k, v⟩ := pair
    by_cases hk : k = key
    · simp only [insert, hk, if_true, get?_cons]
      split <;> rfl
    · simp only [insert, hk, if_false, get?_cons, ih]
      by_cases ho : other = k
      · simp [ho, hk]
      · simp [ho]

end Assoc

end Rollout
