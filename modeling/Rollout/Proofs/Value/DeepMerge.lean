import Rollout.Proofs.Value.Merge

/-!
# Layers and recursion

Laying one value over another, layer by layer, gives what recursion gives: of two mappings the
keys of the lower one and then the new keys of the upper one, where a key of both has its two
values merged in the same way, and of any other two values the upper one. The keys that the upper
mapping brings are laid over themselves once they are copied. This changes nothing, since a value
merged with itself is the value.
-/

namespace Rollout.Value

variable {v base top : Value} {b t : Assoc Value}

/-- The entries of the upper one of two mappings whose keys the lower one lacks. -/
def newEntries (b t : Assoc Value) : Assoc Value := t.filter fun e => !b.has e.1

mutual

/-- The upper one of two values laid over the lower one by recursion. -/
def deepMerge : Value → Value → Value
  | .mapping base, .mapping top => .mapping (deepMergeEntries base top ++ newEntries base top)
  | _, top => top

/-- The entries of the lower mapping, each with its new value. -/
def deepMergeEntries : List (String × Value) → Assoc Value → List (String × Value)
  | [], _ => []
  | (k, v) :: rest, top =>
    (k, match top.get? k with
      | some new => deepMerge v new
      | none => v) :: deepMergeEntries rest top

end

/-- No mapping that keys lead to has a key twice. -/
inductive DistinctKeys : Value → Prop where
  | mapping {entries : Assoc Value} (hkeys : entries.keys.Nodup)
    (hall : ∀ e ∈ entries, DistinctKeys e.2) : DistinctKeys (.mapping entries)
  | other {v : Value} (h : v.isMapping = false) : DistinctKeys v

/-! ### Entries -/

theorem mem_keys_newEntries_iff {key : String} :
    key ∈ (newEntries b t).keys ↔ key ∈ t.keys ∧ key ∉ b.keys := by
  have hhas (k : String) : (!b.has k) = true ↔ k ∉ b.keys := by
    rw [Bool.not_eq_true', Assoc.has, Option.isSome_eq_false_iff, Option.isNone_iff_eq_none,
      Assoc.get?_eq_none_iff]
  simp only [Assoc.keys, newEntries, List.mem_map, List.mem_filter, hhas]
  constructor
  · rintro ⟨e, ⟨he, hnew⟩, rfl⟩
    exact ⟨⟨e, he, rfl⟩, hnew⟩
  · rintro ⟨⟨e, he, rfl⟩, hnew⟩
    exact ⟨e, ⟨he, hnew⟩, rfl⟩

theorem mem_of_mem_newEntries {e : String × Value} (h : e ∈ newEntries b t) : e ∈ t :=
  (List.mem_filter.mp h).1

theorem newEntries_of_subset (h : t.keys ⊆ b.keys) : newEntries b t = [] := by
  refine List.eq_nil_iff_forall_not_mem.mpr fun e he => ?_
  obtain ⟨hkey, hnew⟩ := mem_keys_newEntries_iff.mp (List.mem_map_of_mem he)
  exact hnew (h hkey)

theorem deepMergeEntries_eq_map (b t : Assoc Value) :
    deepMergeEntries b t = b.map fun e => (e.1, (t.get? e.1).elim e.2 e.2.deepMerge) := by
  induction b with
  | nil => rfl
  | cons e b ih =>
    obtain ⟨k, v⟩ := e
    rw [deepMergeEntries, ih, List.map_cons]
    cases t.get? k <;> rfl

/-- Entries stay if the merge changes none of their values. -/
theorem deepMergeEntries_of_forall
    (h : ∀ e ∈ b, ∀ new, t.get? e.1 = some new → e.2.deepMerge new = e.2) :
    deepMergeEntries b t = b := by
  rw [deepMergeEntries_eq_map]
  refine (List.map_congr_left fun e he => ?_).trans (List.map_id b)
  cases hnew : t.get? e.1 with
  | none => rfl
  | some new => exact congrArg (e.1, ·) (h e he new hnew)

theorem get?_deepMergeEntries (b t : Assoc Value) (key : String) :
    Assoc.get? (deepMergeEntries b t) key =
      (b.get? key).map fun v => (t.get? key).elim v v.deepMerge := by
  induction b with
  | nil => rfl
  | cons e b ih =>
    obtain ⟨k, v⟩ := e
    rw [deepMergeEntries, Assoc.get?_cons, Assoc.get?_cons, ih]
    by_cases hkey : key = k
    · rw [if_pos hkey, if_pos hkey, hkey]
      cases t.get? k <;> rfl
    · rw [if_neg hkey, if_neg hkey]

/-- The keys of the upper mapping alone are looked up in it. -/
theorem get?_newEntries (t : Assoc Value) {key : String} (h : b.get? key = none) :
    (newEntries b t).get? key = t.get? key := by
  induction t with
  | nil => rfl
  | cons e t ih =>
    obtain ⟨k, v⟩ := e
    rw [newEntries] at ih ⊢
    by_cases hkey : key = k
    · subst hkey
      simp [Assoc.has, h, Assoc.get?_cons]
    · cases hhas : b.has k <;> simp [hhas, Assoc.get?_cons, hkey, ih]

theorem keys_merged (b t : Assoc Value) :
    Assoc.keys (deepMergeEntries b t ++ newEntries b t) = b.keys ++ (newEntries b t).keys := by
  rw [deepMergeEntries_eq_map, Assoc.keys, List.map_append, List.map_map]
  rfl

theorem subset_keys_merged (b t : Assoc Value) :
    t.keys ⊆ Assoc.keys (deepMergeEntries b t ++ newEntries b t) := by
  intro key hkey
  rw [keys_merged, List.mem_append, mem_keys_newEntries_iff]
  by_cases hb : key ∈ b.keys
  · exact .inl hb
  · exact .inr ⟨hkey, hb⟩

theorem deepMerge_of_not_isMapping (h : base.isMapping = false ∨ top.isMapping = false) :
    base.deepMerge top = top := by
  cases base with
  | mapping b =>
    cases top with
    | mapping t => exact absurd h (by simp [isMapping, entries?])
    | _ => rw [deepMerge]; simp
  | _ => rw [deepMerge]; simp

/-! ### Merging again -/

/-- A value laid over itself changes nothing. -/
theorem deepMerge_self (h : v.DistinctKeys) : v.deepMerge v = v := by
  induction h with
  | other h => exact deepMerge_of_not_isMapping (.inl h)
  | mapping hkeys _ ih =>
    rw [deepMerge, newEntries_of_subset (List.Subset.refl _), List.append_nil,
      deepMergeEntries_of_forall]
    rintro ⟨k, v⟩ he new hnew
    rw [Assoc.get?_of_mem hkeys he] at hnew
    exact Option.some.inj hnew ▸ ih _ he

/-- What is laid over a value a second time changes nothing. -/
theorem deepMerge_deepMerge (htop : top.DistinctKeys) (base : Value) :
    (base.deepMerge top).deepMerge top = base.deepMerge top := by
  induction htop generalizing base with
  | other h => rw [deepMerge_of_not_isMapping (.inr h), deepMerge_of_not_isMapping (.inr h)]
  | @mapping t hkeys hall ih =>
    cases base with
    | mapping b =>
      rw [deepMerge, deepMerge, newEntries_of_subset (subset_keys_merged b t), List.append_nil,
        deepMergeEntries_of_forall]
      intro e he new hnew
      have hmem := Assoc.mem_of_get? hnew
      obtain he | he := List.mem_append.mp he
      · rw [deepMergeEntries_eq_map] at he
        obtain ⟨old, -, rfl⟩ := List.mem_map.mp he
        dsimp only at hnew ⊢
        rw [hnew]
        exact ih _ hmem _
      · have het := mem_of_mem_newEntries he
        rw [Assoc.get?_of_mem hkeys het] at hnew
        exact Option.some.inj hnew ▸ deepMerge_self (hall e het)
    | _ => exact deepMerge_self (.mapping hkeys hall)

/-- No merge gives a key twice. -/
theorem DistinctKeys.deepMerge (hbase : base.DistinctKeys) (htop : top.DistinctKeys) :
    (base.deepMerge top).DistinctKeys := by
  induction htop generalizing base with
  | other h =>
    rw [deepMerge_of_not_isMapping (.inr h)]
    exact .other h
  | @mapping t hkeys hall ih =>
    cases hbase with
    | other h =>
      rw [deepMerge_of_not_isMapping (.inl h)]
      exact .mapping hkeys hall
    | @mapping b hbkeys hball =>
      rw [Value.deepMerge]
      refine .mapping ?_ fun e he => ?_
      · have hnew : (newEntries b t).keys.Nodup := hkeys.sublist (List.filter_sublist.map _)
        rw [keys_merged, List.nodup_append]
        refine ⟨hbkeys, hnew, ?_⟩
        rintro key hb other hother rfl
        exact (mem_keys_newEntries_iff.mp hother).2 hb
      · obtain he | he := List.mem_append.mp he
        · rw [deepMergeEntries_eq_map] at he
          obtain ⟨old, hold, rfl⟩ := List.mem_map.mp he
          cases hget : t.get? old.1 with
          | none => exact hball old hold
          | some new => exact ih _ (Assoc.mem_of_get? hget) (hball old hold)
        · exact hall e (mem_of_mem_newEntries he)

/-! ### The layers -/

/-- The layers come to what the recursion comes to. -/
theorem merge_eq (hbase : base.DistinctKeys) (htop : top.DistinctKeys) :
    base.merge top = base.deepMerge top := by
  induction htop generalizing base with
  | other h => rw [merge_of_not_isMapping (.inr h), deepMerge_of_not_isMapping (.inr h)]
  | @mapping t hkeys hall ih =>
    have hmerged := hbase.deepMerge (.mapping hkeys hall)
    cases hbase with
    | other h => rw [merge_of_not_isMapping (.inl h), deepMerge_of_not_isMapping (.inl h)]
    | @mapping b hbkeys hball =>
      obtain ⟨entries, hentries, hsame, hget⟩ := exists_merge_mapping b t
      rw [Value.deepMerge] at hmerged ⊢
      have hkeysof : entries.keys = Assoc.keys (deepMergeEntries b t ++ newEntries b t) := by
        rw [hsame, keys_merged, Assoc.insertAllNew_of_nodup b hkeys]
        exact List.map_append
      rw [hentries]
      refine congrArg mapping (Assoc.ext_of_keys hkeysof ?_ fun key => ?_)
      · rw [hkeysof]
        cases hmerged with
        | mapping hnodup _ => exact hnodup
        | other h => exact Bool.noConfusion h
      · rw [hget, Assoc.get?_append, get?_deepMergeEntries]
        cases hold : b.get? key with
        | some v =>
          rw [Option.some_or, Option.map_some, Option.map_some, Option.some_or]
          cases hnew : t.get? key with
          | none => rfl
          | some new =>
            exact congrArg some (ih _ (Assoc.mem_of_get? hnew) (hball _ (Assoc.mem_of_get? hold)))
        | none =>
          rw [Option.none_or, Option.map_none, Option.none_or, get?_newEntries t hold]
          cases hnew : t.get? key with
          | none => rfl
          | some new =>
            have hmem := Assoc.mem_of_get? hnew
            have hself := (ih _ hmem (hall _ hmem)).trans (deepMerge_self (hall _ hmem))
            exact congrArg some hself

/-- Layer by layer the same comes out as by recursion. So it changes nothing to lay the same over a
value again, or nothing over a mapping. -/
theorem merge_eq_deepMerge (hbase : base.DistinctKeys) (htop : top.DistinctKeys) :
    base.merge top = base.deepMerge top ∧ (base.merge top).merge top = base.merge top ∧
      (base.isMapping = true → base.merge .empty = base) := by
  have heq := merge_eq hbase htop
  refine ⟨heq, ?_, fun hmapping => ?_⟩
  · rw [heq, merge_eq (hbase.deepMerge htop) htop, deepMerge_deepMerge htop]
  · obtain ⟨entries, rfl⟩ : ∃ entries, base = .mapping entries := by
      cases base with
      | mapping entries => exact ⟨entries, rfl⟩
      | _ => exact Bool.noConfusion hmapping
    exact merge_empty entries

/-- A new tag for an image, over values with a list and further settings. -/
theorem merge_eq_deepMerge_image :
    let image := mapping [("repository", .text "nginx"), ("tag", .text "1.21")]
    let base := mapping [("hosts", texts ["a", "b"]), ("image", image), ("debug", .bool false)]
    let top := mapping [("debug", .mapping [("port", .nat 9229)]),
      ("image", .mapping [("tag", .text "1.25")]), ("hosts", texts ["c"])]
    base.DistinctKeys ∧ top.DistinctKeys ∧
      base.merge top = .mapping [("hosts", texts ["c"]),
        ("image", .mapping [("repository", .text "nginx"), ("tag", .text "1.25")]),
        ("debug", .mapping [("port", .nat 9229)])] ∧
      (base.merge top).merge top = base.merge top ∧ base.merge .empty = base := by
  intro image base top
  have himage : image.DistinctKeys := .mapping (by decide) <|
    List.forall_mem_cons.mpr ⟨.other rfl, List.forall_mem_singleton.mpr (.other rfl)⟩
  have hbase : base.DistinctKeys := .mapping (by decide) <|
    List.forall_mem_cons.mpr ⟨.other rfl, List.forall_mem_cons.mpr
      ⟨himage, List.forall_mem_singleton.mpr (.other rfl)⟩⟩
  have htop : top.DistinctKeys := .mapping (by decide) <|
    List.forall_mem_cons.mpr
      ⟨.mapping (by decide) (List.forall_mem_singleton.mpr (.other rfl)),
        List.forall_mem_cons.mpr
          ⟨.mapping (by decide) (List.forall_mem_singleton.mpr (.other rfl)),
            List.forall_mem_singleton.mpr (.other rfl)⟩⟩
  obtain ⟨hmerge, hagain, hnothing⟩ := merge_eq_deepMerge hbase htop
  exact ⟨hbase, htop, hmerge.trans rfl, hagain, hnothing rfl⟩

end Rollout.Value
