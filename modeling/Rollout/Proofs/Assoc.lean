import Rollout.Assoc

/-!
# Lookups in association lists

What a lookup finds after a pair is added, replaced or taken away, and which pairs such a
step leaves as they are. A sorted mapping stays sorted, and sorting it changes nothing.
-/

namespace Rollout.Assoc

variable {α : Type u}

theorem get?_nil (key : String) : get? ([] : Assoc α) key = none := rfl

theorem get?_append (m n : Assoc α) (key : String) :
    get? (m ++ n) key = (m.get? key).or (n.get? key) := by
  induction m with
  | nil => rfl
  | cons pair m ih =>
    obtain ⟨k, v⟩ := pair
    rw [List.cons_append, get?_cons, get?_cons, ih]
    split <;> rfl

theorem get?_eq_none_iff {m : Assoc α} {key : String} : m.get? key = none ↔ key ∉ m.keys := by
  induction m with
  | nil => simp [get?, keys]
  | cons pair m ih =>
    obtain ⟨k, v⟩ := pair
    rw [get?_cons]
    by_cases h : key = k
    · simp [h, keys]
    · simp [h, ih, keys]

theorem mem_keys_iff {m : Assoc α} {key : String} : key ∈ m.keys ↔ ∃ v, m.get? key = some v := by
  rw [← Option.ne_none_iff_exists', Ne, get?_eq_none_iff, Decidable.not_not]

/-- What each key becomes is found under it. -/
theorem get?_filterMap_key {β : Type v} (f : String → Option β) (m : Assoc α) (key : String) :
    get? (m.filterMap fun e => (f e.1).map (e.1, ·)) key =
      if key ∈ keys m then f key else none := by
  induction m with
  | nil => rfl
  | cons e m ih =>
    obtain ⟨k, v⟩ := e
    have hkeys : key ∈ keys ((k, v) :: m) ↔ key = k ∨ key ∈ keys m := List.mem_cons
    simp only [List.filterMap_cons, hkeys]
    by_cases hk : key = k
    · subst hk
      cases hf : f key with
      | none => simp [ih, hf]
      | some w => simp [get?_cons]
    · cases hf : f k with
      | none => simp [ih, hk]
      | some w => simp [get?_cons, ih, hk]

/-- A key with a value has a place. -/
theorem exists_findIdx?_of_get? {m : Assoc α} {key : String} {v : α} (h : m.get? key = some v) :
    ∃ place, m.findIdx? (·.1 == key) = some place := by
  rw [← Option.isSome_iff_exists, List.findIdx?_isSome, List.any_eq_true]
  have hmem : key ∈ m.keys := by
    refine Decidable.byContradiction fun hnot => ?_
    rw [get?_eq_none_iff.mpr hnot] at h
    exact absurd h nofun
  obtain ⟨e, he, rfl⟩ := List.mem_map.mp hmem
  exact ⟨e, he, beq_self_eq_true e.1⟩

theorem mem_of_get? {m : Assoc α} {key : String} {v : α} (h : m.get? key = some v) :
    (key, v) ∈ m := by
  obtain ⟨before, after, rfl, -⟩ := List.lookup_eq_some_iff.mp h
  exact List.mem_append_right _ List.mem_cons_self

/-- What a mapping has stays in every list of pairs that begins with it. -/
theorem get?_of_prefix {m n : Assoc α} (h : m <+: n) {key : String} {v : α}
    (hv : m.get? key = some v) : n.get? key = some v := by
  obtain ⟨rest, rfl⟩ := h
  rw [get?_append, hv, Option.some_or]

theorem mapValues_id (m : Assoc α) : m.mapValues id = m := List.map_id m

theorem mapValues_mapValues {β : Type v} {γ : Type w} (f : α → β) (g : β → γ) (m : Assoc α) :
    (m.mapValues f).mapValues g = m.mapValues (g ∘ f) := by
  rw [mapValues, mapValues, List.map_map]
  rfl

theorem mapValues_eq_iff {β : Type v} {f g : α → β} {m : Assoc α} :
    m.mapValues f = m.mapValues g ↔ ∀ e ∈ m, f e.2 = g e.2 := by
  rw [mapValues, mapValues, List.map_inj_left]
  exact forall₂_congr fun e _ => by rw [Prod.mk.injEq, and_iff_right rfl]

theorem get?_mapValues {β : Type v} (f : α → β) (m : Assoc α) (key : String) :
    (m.mapValues f).get? key = (m.get? key).map f := by
  induction m with
  | nil => rfl
  | cons pair m ih =>
    obtain ⟨k, w⟩ := pair
    change get? ((k, f w) :: mapValues f m) key = _
    rw [get?_cons, get?_cons, ih]
    split <;> rfl

theorem get?_insert_self (m : Assoc α) (key : String) (v : α) :
    (m.insert key v).get? key = some v := by
  rw [get?_insert, if_pos rfl]

theorem get?_insert_of_ne (m : Assoc α) {key other : String} (h : other ≠ key) (v : α) :
    (m.insert key v).get? other = m.get? other := by
  rw [get?_insert, if_neg h]

theorem mem_keys_insert_iff {m : Assoc α} {key other : String} {v : α} :
    other ∈ (m.insert key v).keys ↔ other = key ∨ other ∈ m.keys := by
  rw [← Decidable.not_iff_not, not_or, ← get?_eq_none_iff, ← get?_eq_none_iff, get?_insert]
  by_cases ho : other = key
  · simp [ho]
  · simp [ho]

theorem mem_of_mem_insert {m : Assoc α} {key : String} {v : α} {e : String × α}
    (h : e ∈ m.insert key v) : e = (key, v) ∨ e ∈ m := by
  induction m with
  | nil => exact .inl (List.mem_singleton.mp h)
  | cons pair m ih =>
    obtain ⟨k, w⟩ := pair
    unfold insert at h
    split at h
    · rename_i hk
      obtain he | he := List.mem_cons.mp h
      · exact .inl (hk ▸ he)
      · exact .inr (List.mem_cons_of_mem _ he)
    · obtain rfl | he := List.mem_cons.mp h
      · exact .inr List.mem_cons_self
      · exact (ih he).imp_right (List.mem_cons_of_mem _)

/-- A key that is there keeps its place. -/
theorem keys_insert_of_mem {m : Assoc α} {key : String} (h : key ∈ m.keys) (v : α) :
    (m.insert key v).keys = m.keys := by
  induction m with
  | nil => exact absurd h List.not_mem_nil
  | cons pair m ih =>
    obtain ⟨k, w⟩ := pair
    unfold insert
    split
    · rename_i hk
      rw [hk]
      rfl
    · rename_i hk
      have hrest := (List.mem_cons.mp h).resolve_left (Ne.symm hk)
      change k :: (insert m key v).keys = _
      rw [ih hrest]
      rfl

theorem nodup_keys_insert {m : Assoc α} (h : m.keys.Nodup) (key : String) (v : α) :
    (m.insert key v).keys.Nodup := by
  induction m with
  | nil => exact List.nodup_cons.mpr ⟨List.not_mem_nil, List.nodup_nil⟩
  | cons pair m ih =>
    obtain ⟨k, w⟩ := pair
    obtain ⟨hk, hm⟩ := List.nodup_cons.mp h
    unfold insert
    split
    · exact h
    · rename_i hne
      refine List.nodup_cons.mpr ⟨fun hmem => ?_, ih hm⟩
      obtain he | hmem := mem_keys_insert_iff.mp hmem
      · exact hne he
      · exact hk hmem

theorem nodup_keys_insertAll {m : Assoc α} (h : m.keys.Nodup) (pairs : List (String × α)) :
    (m.insertAll pairs).keys.Nodup := by
  induction pairs generalizing m with
  | nil => exact h
  | cons pair pairs ih => exact ih (nodup_keys_insert h pair.1 pair.2)

theorem mem_keys_insertAll_iff {m : Assoc α} {pairs : List (String × α)} {key : String} :
    key ∈ (m.insertAll pairs).keys ↔ key ∈ m.keys ∨ key ∈ pairs.map (·.1) := by
  induction pairs generalizing m with
  | nil => exact (or_iff_left List.not_mem_nil).symm
  | cons pair pairs ih =>
    change key ∈ ((m.insert pair.1 pair.2).insertAll pairs).keys ↔ _
    rw [ih, mem_keys_insert_iff, List.map_cons, List.mem_cons, or_assoc, or_left_comm]

theorem get?_insertAll_of_notMem {m pairs : Assoc α} {key : String} (h : key ∉ pairs.keys) :
    (m.insertAll pairs).get? key = m.get? key := by
  induction pairs generalizing m with
  | nil => rfl
  | cons pair pairs ih =>
    have hne : key ≠ pair.1 := fun he => h (he ▸ List.mem_cons_self)
    change ((m.insert pair.1 pair.2).insertAll pairs).get? key = _
    rw [ih fun hmem => h (List.mem_cons_of_mem _ hmem), get?_insert_of_ne m hne]

/-- Of the pairs for a key the last one counts. -/
theorem get?_insertAll_append_cons (m before : Assoc α) {after : Assoc α} {key : String}
    (h : key ∉ after.keys) (v : α) :
    (m.insertAll (before ++ (key, v) :: after)).get? key = some v := by
  have hsplit : m.insertAll (before ++ (key, v) :: after) =
      ((m.insertAll before).insert key v).insertAll after := by
    rw [insertAll, List.foldl_append, List.foldl_cons]
    rfl
  rw [hsplit, get?_insertAll_of_notMem h, get?_insert_self]

/-- A key that is given one and the same value each time has that value. -/
theorem get?_insertAll_const {m : Assoc α} {names : List String} {key : String} (h : key ∈ names)
    (v : α) : (m.insertAll (names.map fun n => (n, v))).get? key = some v := by
  induction names generalizing m with
  | nil => exact absurd h List.not_mem_nil
  | cons n names ih =>
    change ((m.insert n v).insertAll (names.map fun n => (n, v))).get? key = some v
    by_cases hmem : key ∈ names
    · exact ih hmem
    · obtain rfl := (List.mem_cons.mp h).resolve_right hmem
      have hkeys : key ∉ keys (names.map fun n => (n, v)) := by
        simpa [keys, Function.comp_def] using hmem
      rw [get?_insertAll_of_notMem hkeys, get?_insert_self]

theorem nodup_keys_ofPairs (pairs : List (String × α)) : (ofPairs pairs).keys.Nodup :=
  nodup_keys_insertAll (m := []) List.nodup_nil pairs

theorem mem_keys_ofPairs_iff {pairs : List (String × α)} {key : String} :
    key ∈ (ofPairs pairs).keys ↔ key ∈ pairs.map (·.1) :=
  mem_keys_insertAll_iff.trans (or_iff_right List.not_mem_nil)

theorem mem_of_mem_insertAll {m : Assoc α} {pairs : List (String × α)} {e : String × α}
    (h : e ∈ m.insertAll pairs) : e ∈ m ∨ e ∈ pairs := by
  induction pairs generalizing m with
  | nil => exact .inl h
  | cons pair pairs ih =>
    change e ∈ (m.insert pair.1 pair.2).insertAll pairs at h
    obtain hinsert | hrest := ih h
    · obtain rfl | hm := mem_of_mem_insert hinsert
      · exact .inr List.mem_cons_self
      · exact .inl hm
    · exact .inr (List.mem_cons_of_mem _ hrest)

/-- Of all values given for a key, one is found. -/
theorem mem_of_get?_ofPairs {pairs : List (String × α)} {key : String} {v : α}
    (h : (ofPairs pairs).get? key = some v) : (key, v) ∈ pairs :=
  (mem_of_mem_insertAll (mem_of_get? h)).resolve_left List.not_mem_nil

theorem get?_ofPairs_const (names : List String) (key : String) (v : α) :
    (ofPairs (names.map fun n => (n, v))).get? key = if key ∈ names then some v else none := by
  split
  · rename_i hmem
    exact get?_insertAll_const hmem v
  · rename_i hnot
    rw [get?_eq_none_iff, mem_keys_ofPairs_iff, List.map_map]
    simpa [Function.comp_def] using hnot

theorem insert_of_notMem {m : Assoc α} {key : String} (h : key ∉ m.keys) (v : α) :
    m.insert key v = m ++ [(key, v)] := by
  induction m with
  | nil => rfl
  | cons pair m ih =>
    obtain ⟨k, w⟩ := pair
    have hne : k ≠ key := fun he => h (he ▸ List.mem_cons_self)
    rw [insert, if_neg hne, ih fun hm => h (List.mem_cons_of_mem k hm), List.cons_append]

/-- Pairs whose keys are all new are added as they are. -/
theorem insertAll_of_nodup {m pairs : Assoc α} (h : (m ++ pairs).keys.Nodup) :
    m.insertAll pairs = m ++ pairs := by
  induction pairs generalizing m with
  | nil => exact (List.append_nil m).symm
  | cons pair pairs ih =>
    obtain ⟨k, v⟩ := pair
    rw [List.append_cons] at h
    have hnew : k ∉ m.keys := by
      intro hk
      rw [keys, List.map_append, List.nodup_append, List.map_append, List.nodup_append] at h
      exact h.1.2.2 k hk k (List.mem_singleton_self k) rfl
    change (m.insert k v).insertAll pairs = _
    rw [insert_of_notMem hnew, ih h, ← List.append_cons]

theorem ofPairs_of_nodup {pairs : Assoc α} (h : pairs.keys.Nodup) : ofPairs pairs = pairs :=
  insertAll_of_nodup (m := []) h

theorem get?_of_mem {m : Assoc α} (h : m.keys.Nodup) {key : String} {v : α} (hmem : (key, v) ∈ m) :
    m.get? key = some v := by
  induction m with
  | nil => exact absurd hmem List.not_mem_nil
  | cons pair m ih =>
    obtain ⟨k, w⟩ := pair
    obtain ⟨hk, hm⟩ := List.nodup_cons.mp h
    rw [get?_cons]
    obtain heq | hrest := List.mem_cons.mp hmem
    · obtain ⟨rfl, rfl⟩ := Prod.mk.inj heq
      exact if_pos rfl
    · have hne : key ≠ k := by
        rintro rfl
        exact hk (List.mem_map.mpr ⟨_, hrest, rfl⟩)
      rw [if_neg hne, ih hm hrest]

/-- The order of pairs with keys of their own does not matter. -/
theorem get?_of_perm {m n : Assoc α} (hm : m.keys.Nodup) (h : n.Perm m) (key : String) :
    n.get? key = m.get? key := by
  have hn : n.keys.Nodup := (h.map _).nodup_iff.mpr hm
  refine Option.ext fun v => ?_
  exact ⟨fun hv => get?_of_mem hm (h.subset (mem_of_get? hv)),
    fun hv => get?_of_mem hn (h.symm.subset (mem_of_get? hv))⟩

/-- Mappings with the same keys in the same order are the same if they have the same values. -/
theorem ext_of_keys {m n : Assoc α} (hkeys : m.keys = n.keys) (hnodup : m.keys.Nodup)
    (hget : ∀ key, m.get? key = n.get? key) : m = n := by
  induction m generalizing n with
  | nil => exact (List.map_eq_nil_iff.mp hkeys.symm).symm
  | cons pair m ih =>
    obtain ⟨k, v⟩ := pair
    obtain ⟨⟨l, w⟩, rest, rfl, hl, hrest⟩ := List.map_eq_cons_iff.mp hkeys.symm
    obtain rfl : l = k := hl
    obtain ⟨hnew, hm⟩ := List.nodup_cons.mp hnodup
    have hhead : v = w := by simpa [get?_cons] using hget l
    rw [hhead, ih hrest.symm hm]
    intro key
    by_cases hkey : key = l
    · have hnone : get? rest key = none := by
        rw [get?_eq_none_iff, hkey, keys, hrest]
        exact hnew
      rw [hnone, get?_eq_none_iff, hkey]
      exact hnew
    · simpa [get?_cons, hkey] using hget key

/-- Giving a key the value that it has changes nothing. -/
theorem insert_of_get? {m : Assoc α} {key : String} {v : α} (h : m.get? key = some v) :
    m.insert key v = m := by
  induction m with
  | nil => simp [get?] at h
  | cons pair m ih =>
    obtain ⟨k, w⟩ := pair
    rw [get?_cons] at h
    by_cases hk : key = k
    · rw [if_pos hk] at h
      rw [insert, if_pos hk.symm, Option.some.inj h]
    · rw [if_neg hk] at h
      rw [insert, if_neg (Ne.symm hk), ih h]

theorem insert_insert (m : Assoc α) (key : String) (v w : α) :
    (m.insert key v).insert key w = m.insert key w := by
  induction m with
  | nil => simp [insert]
  | cons pair m ih =>
    obtain ⟨k, u⟩ := pair
    by_cases hk : k = key
    · simp [insert, hk]
    · simp [insert, hk, ih]

theorem get?_insertNew (m : Assoc α) (key other : String) (v : α) :
    (m.insertNew key v).get? other =
      (m.get? other).or (if other = key then some v else none) := by
  unfold insertNew
  split
  · rename_i hhas
    by_cases ho : other = key
    · subst ho
      obtain ⟨w, hw⟩ := Option.isSome_iff_exists.mp hhas
      rw [hw, Option.some_or]
    · rw [if_neg ho, Option.or_none]
  · rw [get?_append, get?_cons, get?_nil]

theorem get?_foldl_insertNew_const (m : Assoc α) (names : List String) (key : String) (v : α) :
    ((names.map fun n => (n, v)).foldl (fun m e => m.insertNew e.1 e.2) m).get? key =
      (m.get? key).or (if key ∈ names then some v else none) := by
  induction names generalizing m with
  | nil => rw [List.map_nil, List.foldl_nil, if_neg List.not_mem_nil, Option.or_none]
  | cons n names ih =>
    rw [List.map_cons, List.foldl_cons, ih, get?_insertNew, Option.or_assoc]
    by_cases hkey : key = n
    · subst hkey
      rw [if_pos rfl, if_pos List.mem_cons_self, Option.some_or]
    · rw [if_neg hkey, Option.none_or]
      simp only [List.mem_cons, hkey, false_or]

theorem get?_insertAllNew (m : Assoc α) (pairs : List (String × α)) (key : String) :
    (m.insertAllNew pairs).get? key = (m.get? key).or (get? pairs key) := by
  induction pairs generalizing m with
  | nil => rw [get?_nil, Option.or_none]; rfl
  | cons pair pairs ih =>
    change ((m.insertNew pair.1 pair.2).insertAllNew pairs).get? key = _
    rw [ih, get?_insertNew, Option.or_assoc, get?_cons]
    by_cases hkey : key = pair.1
    · rw [if_pos hkey, if_pos hkey, Option.some_or]
    · rw [if_neg hkey, if_neg hkey, Option.none_or]

theorem nodup_keys_insertNew {m : Assoc α} (h : m.keys.Nodup) (key : String) (v : α) :
    (m.insertNew key v).keys.Nodup := by
  unfold insertNew
  split
  · exact h
  · rename_i hhas
    have hnot : key ∉ m.keys := get?_eq_none_iff.mp (Option.not_isSome_iff_eq_none.mp hhas)
    rw [keys, List.map_append, List.nodup_append]
    refine ⟨h, List.nodup_cons.mpr ⟨List.not_mem_nil, List.nodup_nil⟩, ?_⟩
    rintro k hk - (_ | ⟨_, ⟨⟩⟩) rfl
    exact hnot hk

theorem prefix_insertNew (m : Assoc α) (key : String) (v : α) : m <+: m.insertNew key v := by
  unfold insertNew
  split
  · exact List.prefix_refl m
  · exact List.prefix_append m [(key, v)]

theorem insertNew_of_has {m : Assoc α} {key : String} (h : m.has key = true) (v : α) :
    m.insertNew key v = m :=
  if_pos h

theorem has_of_prefix {m n : Assoc α} (h : m <+: n) {key : String} (hm : m.has key = true) :
    n.has key = true := by
  obtain ⟨v, hv⟩ := Option.isSome_iff_exists.mp hm
  exact Option.isSome_iff_exists.mpr ⟨v, get?_of_prefix h hv⟩

theorem has_insertNew (m : Assoc α) (key : String) (v : α) :
    (m.insertNew key v).has key = true := by
  unfold insertNew
  split
  · assumption
  · simp [has, get?_append, get?_cons]

/-- Of pairs with keys of their own, those with new keys are added as they are. -/
theorem insertAllNew_of_nodup (m : Assoc α) {pairs : Assoc α} (h : pairs.keys.Nodup) :
    m.insertAllNew pairs = m ++ pairs.filter fun e => !m.has e.1 := by
  induction pairs generalizing m with
  | nil => exact (List.append_nil m).symm
  | cons pair pairs ih =>
    obtain ⟨hnew, hrest⟩ := List.nodup_cons.mp h
    change (m.insertNew pair.1 pair.2).insertAllNew pairs = _
    rw [ih _ hrest]
    cases hhas : m.has pair.1 with
    | true => rw [insertNew_of_has hhas, List.filter_cons_of_neg (by simp [hhas])]
    | false =>
      rw [List.filter_cons_of_pos (by simp [hhas]), insertNew, hhas, if_neg Bool.false_ne_true,
        List.append_assoc]
      refine congrArg (m ++ pair :: ·) (List.filter_congr fun e he => ?_)
      have hne : e.1 ≠ pair.1 := fun heq => hnew (List.mem_map.mpr ⟨e, he, heq⟩)
      rw [has, has, get?_append, get?_cons, if_neg hne, get?_nil, Option.or_none]

/-- The pairs whose keys are none of those given. -/
def without (m : Assoc α) (keys : List String) : Assoc α := m.filter fun e => e.1 ∉ keys

/-- A pair for one of the given keys is none of the others. -/
theorem without_insert (m : Assoc α) {keys : List String} {key : String} (h : key ∈ keys) (v : α) :
    (m.insert key v).without keys = m.without keys := by
  induction m with
  | nil => simp [insert, without, h]
  | cons pair m ih =>
    obtain ⟨k, w⟩ := pair
    unfold insert
    split
    next hk => simp [without, hk, h]
    next =>
      simp only [without, List.filter_cons] at ih ⊢
      rw [ih]

/-- What is left out in two steps is left out at once. -/
theorem without_without (m : Assoc α) (names others : List String) :
    (m.without names).without others = m.without (names ++ others) := by
  rw [without, without, List.filter_filter, without]
  refine List.filter_congr fun e _ => ?_
  rw [← Bool.decide_and, decide_eq_decide, List.mem_append, not_or]
  exact And.comm

theorem without_without_of_subset (m : Assoc α) {names others : List String}
    (h : names ⊆ others) : (m.without names).without others = m.without others := by
  rw [without_without]
  refine List.filter_congr fun e _ => decide_eq_decide.mpr (not_congr ?_)
  rw [List.mem_append, or_iff_right_of_imp fun he => h he]

theorem erase_eq_without (m : Assoc α) (key : String) : m.erase key = m.without [key] := by
  refine List.filter_congr fun e _ => ?_
  rw [Bool.eq_iff_iff, bne_iff_ne, decide_eq_true_iff, List.mem_singleton]

theorem keys_without (m : Assoc α) (names : List String) :
    (m.without names).keys = m.keys.filter (· ∉ names) := by
  rw [keys, keys, List.filter_map]
  rfl

/-- A lookup under another key sees the other pairs alone. -/
theorem get?_without (m : Assoc α) {keys : List String} {key : String} (h : key ∉ keys) :
    (m.without keys).get? key = m.get? key := by
  induction m with
  | nil => rfl
  | cons pair m ih =>
    obtain ⟨k, w⟩ := pair
    by_cases hk : k ∈ keys
    · have hne : key ≠ k := fun he => h (he ▸ hk)
      rw [get?_cons, if_neg hne, ← ih]
      simp [without, hk]
    · rw [get?_cons, ← ih, ← get?_cons]
      simp [without, hk]

theorem get?_without_of_mem (m : Assoc α) {keys : List String} {key : String} (h : key ∈ keys) :
    (m.without keys).get? key = none := by
  rw [get?_eq_none_iff, keys_without]
  exact fun hmem => of_decide_eq_true (List.mem_filter.mp hmem).2 h

theorem get?_erase_of_ne (m : Assoc α) {key other : String} (h : other ≠ key) :
    (m.erase key).get? other = m.get? other := by
  rw [erase_eq_without, get?_without m (mt List.mem_singleton.mp h)]

theorem get?_erase (m : Assoc α) (key other : String) :
    (m.erase key).get? other = if other = key then none else m.get? other := by
  split
  next h =>
    rw [erase_eq_without]
    exact get?_without_of_mem m (List.mem_singleton.mpr h)
  next h => exact get?_erase_of_ne m h

theorem nodup_keys_without {m : Assoc α} (h : m.keys.Nodup) (names : List String) :
    (m.without names).keys.Nodup := by
  rw [keys_without]
  exact h.filter _

/-- The keys of the mapping ascend. -/
def IsSorted (m : Assoc α) : Prop := m.Pairwise fun a b => a.1 < b.1

theorem mem_insertSorted {m : Assoc α} {key : String} {v : α} {e : String × α}
    (h : e ∈ m.insertSorted key v) : e = (key, v) ∨ e ∈ m := by
  induction m with
  | nil => exact .inl (List.mem_singleton.mp h)
  | cons pair m ih =>
    obtain ⟨k, w⟩ := pair
    unfold insertSorted at h
    split at h
    · obtain rfl | h := List.mem_cons.mp h
      · rename_i hk
        exact .inl (by rw [hk])
      · exact .inr (List.mem_cons_of_mem _ h)
    · split at h
      · exact List.mem_cons.mp h
      · obtain rfl | h := List.mem_cons.mp h
        · exact .inr List.mem_cons_self
        · exact (ih h).imp_right (List.mem_cons_of_mem _)

theorem get?_insertSorted (m : Assoc α) (key other : String) (v : α) :
    (m.insertSorted key v).get? other = if other = key then some v else m.get? other := by
  induction m with
  | nil => rw [insertSorted, get?_cons]
  | cons pair m ih =>
    obtain ⟨k, w⟩ := pair
    unfold insertSorted
    split
    next hk =>
      subst hk
      simp only [get?_cons]
      split <;> rfl
    next hk =>
      split
      next => rw [get?_cons]
      next =>
        rw [get?_cons, get?_cons, ih]
        by_cases ho : other = k
        · simp [ho, hk]
        · simp [ho]

theorem IsSorted.insertSorted {m : Assoc α} (h : IsSorted m) (key : String) (v : α) :
    IsSorted (m.insertSorted key v) := by
  induction m with
  | nil => exact List.pairwise_singleton _ _
  | cons pair m ih =>
    obtain ⟨k, w⟩ := pair
    obtain ⟨hhead, htail⟩ := List.pairwise_cons.mp h
    unfold Assoc.insertSorted
    split
    next hk => exact List.pairwise_cons.mpr ⟨hk ▸ hhead, htail⟩
    next hk =>
      split
      next hlt =>
        refine List.pairwise_cons.mpr ⟨?_, h⟩
        rintro e (_ | ⟨_, he⟩)
        · exact hlt
        · exact String.lt_trans hlt (hhead e he)
      next hnot =>
        refine List.pairwise_cons.mpr ⟨fun e he => ?_, ih htail⟩
        obtain rfl | he := mem_insertSorted he
        · have hle : k ≤ key := String.not_lt.mp hnot
          exact String.not_le.mp fun hge => hk (String.le_antisymm hle hge)
        · exact hhead e he

theorem IsSorted.erase {m : Assoc α} (h : IsSorted m) (key : String) : IsSorted (m.erase key) :=
  List.Pairwise.filter _ h

/-- The keys of a sorted mapping differ from each other. -/
theorem IsSorted.nodup_keys {m : Assoc α} (h : IsSorted m) : m.keys.Nodup :=
  List.pairwise_map.mpr (List.Pairwise.imp String.ne_of_lt h)

theorem isSorted_sorted (pairs : List (String × α)) : IsSorted (sorted pairs) := by
  have hfold : ∀ m : Assoc α, IsSorted m →
      IsSorted (pairs.foldl (fun m e => m.insertSorted e.1 e.2) m) := by
    induction pairs with
    | nil => exact fun m h => h
    | cons e pairs ih => exact fun m h => ih _ (h.insertSorted e.1 e.2)
  exact hfold [] List.Pairwise.nil

theorem insertSorted_of_forall_lt {m : Assoc α} {key : String} (h : ∀ e ∈ m, e.1 < key) (v : α) :
    m.insertSorted key v = m ++ [(key, v)] := by
  induction m with
  | nil => rfl
  | cons pair m ih =>
    obtain ⟨k, w⟩ := pair
    have hlt : k < key := h (k, w) List.mem_cons_self
    have hne : k ≠ key := fun he => String.lt_irrefl key (he ▸ hlt)
    have hnot : ¬ key < k := fun hgt => String.lt_irrefl key (String.lt_trans hgt hlt)
    rw [insertSorted, if_neg hne, if_neg hnot, ih fun e he => h e (List.mem_cons_of_mem _ he)]
    rfl

/-- Sorting a sorted mapping changes nothing. -/
theorem sorted_of_isSorted {m : Assoc α} (h : IsSorted m) : sorted m = m := by
  -- what is sorted already grows at its end
  have hfold : ∀ done : Assoc α, IsSorted (done ++ m) →
      m.foldl (fun m e => m.insertSorted e.1 e.2) done = done ++ m := by
    clear h
    induction m with
    | nil => simp
    | cons e m ih =>
      intro done hdone
      have hlt : ∀ d ∈ done, d.1 < e.1 := fun d hd =>
        (List.pairwise_append.mp hdone).2.2 d hd e List.mem_cons_self
      rw [List.foldl_cons, insertSorted_of_forall_lt hlt, ih]
      · simp
      · simpa using hdone
  exact hfold [] h

end Rollout.Assoc
