import Rollout.Proofs.Value.Path
import Rollout.Value.Merge

/-!
# Layered values

What a list of layers makes of a value. Layers that lie inside of one place change nothing but
the value there, so that each can be laid over its place at once, and the first one is done with
before the next begins. Where a mapping is laid over a mapping, this gives the keys that come out,
their order and their values. So on a path the upper value is read where it has no mapping, and the
lower one where the upper one says nothing of it.
-/

namespace Rollout.Value

section Layers

variable {place : List String} {v tree : Value} {base top entries : Assoc Value}

/-! ### What two mappings share -/

theorem get?_shared (base top : Assoc Value) (key : String) :
    (shared base top).get? key = if key ∈ base.keys then top.get? key else none := by
  induction base generalizing top with
  | nil => rfl
  | cons e base ih =>
    obtain ⟨k, w⟩ := e
    have hmem : key ∈ Assoc.keys ((k, w) :: base) ↔ key = k ∨ key ∈ Assoc.keys base :=
      List.mem_cons
    rw [shared]
    by_cases hkey : key = k
    · rw [if_pos (hmem.mpr (.inl hkey)), ← hkey]
      cases hget : top.get? key with
      | none => rw [ih, hget, ite_self]
      | some v => rw [Assoc.get?_cons, if_pos rfl]
    · simp only [hmem, hkey, false_or]
      cases hget : top.get? k with
      | none => exact ih top
      | some v => rw [Assoc.get?_cons, if_neg hkey, ih, Assoc.get?_erase_of_ne _ hkey]

theorem mem_keys_shared_iff {key : String} :
    key ∈ (shared base top).keys ↔ key ∈ base.keys ∧ key ∈ top.keys := by
  rw [← Decidable.not_iff_not, ← Assoc.get?_eq_none_iff, get?_shared]
  by_cases hkey : key ∈ base.keys
  · rw [if_pos hkey, and_iff_right hkey, Assoc.get?_eq_none_iff]
  · rw [if_neg hkey]
    simp [hkey]

theorem nodup_keys_shared (base top : Assoc Value) : (shared base top).keys.Nodup := by
  induction base generalizing top with
  | nil => exact List.nodup_nil
  | cons e base ih =>
    obtain ⟨k, w⟩ := e
    rw [shared]
    cases hget : top.get? k with
    | none => exact ih top
    | some v =>
      refine List.nodup_cons.mpr ⟨fun hk => ?_, ih _⟩
      have herased := (mem_keys_shared_iff.mp hk).2
      rw [Assoc.erase_eq_without, Assoc.keys_without] at herased
      exact of_decide_eq_true (List.mem_filter.mp herased).2 (List.mem_singleton_self k)

/-! ### Steps -/

theorem mergeAll_mapping (h : tree.at? place = some (.mapping base)) (layers : Layers) :
    mergeAll tree ((place, .mapping entries) :: layers) =
      mergeAll (tree.putAt place (.mapping (base.insertAllNew entries)))
        (layersAt place (shared (base.insertAllNew entries) entries) ++ layers) :=
  mergeAll.eq_2 tree place layers base entries h

theorem mergeAll_other {top : Value} (h : ∀ base entries, tree.at? place = some (.mapping base) →
    top = .mapping entries → False) (layers : Layers) :
    mergeAll tree ((place, top) :: layers) = mergeAll (tree.putAt place top) layers := by
  rw [mergeAll]
  exact h

/-- The layers of a value inside of another one. -/
def Layers.below (place : List String) (layers : Layers) : Layers :=
  layers.map fun layer => (place ++ layer.1, layer.2)

theorem below_cons (place p : List String) (top : Value) (layers : Layers) :
    Layers.below place ((p, top) :: layers) = (place ++ p, top) :: layers.below place :=
  rfl

theorem below_layersAt_append (place p : List String) (entries : Assoc Value) (layers : Layers) :
    Layers.below place (layersAt p entries ++ layers) =
      layersAt (place ++ p) entries ++ layers.below place := by
  rw [Layers.below, List.map_append, layersAt, layersAt, List.map_map]
  refine congrArg (· ++ _) (List.map_congr_left fun e _ => ?_)
  exact congrArg (·, e.2) (List.append_assoc place p [e.1]).symm

/-- Layers inside of one place change the value there as they change it on its own. -/
theorem mergeAll_below (h : tree.at? place = some v) (layers rest : Layers) :
    mergeAll tree (layers.below place ++ rest) =
      mergeAll (tree.putAt place (mergeAll v layers)) rest := by
  fun_induction mergeAll v layers generalizing tree with
  | case1 v =>
    rw [putAt_of_at? h]
    rfl
  | case2 v p layers base entries hbase filled =>
    rename_i ih
    have hat : tree.at? (place ++ p) = some (.mapping base) := by
      rw [at?_append, h, Option.bind_some, hbase]
    rw [below_cons, List.cons_append, mergeAll_mapping hat, putAt_append h, ← List.append_assoc,
      ← below_layersAt_append, ih (at?_putAt_self _ _ _), putAt_putAt]
  | case3 v p layers top hnot ih =>
    have hat : ∀ base entries, tree.at? (place ++ p) = some (.mapping base) →
        top = .mapping entries → False := by
      intro base entries hbase
      rw [at?_append, h, Option.bind_some] at hbase
      exact hnot base entries hbase
    rw [below_cons, List.cons_append, mergeAll_other hat, putAt_append h,
      ih (at?_putAt_self _ _ _), putAt_putAt]

/-- A layer is done with before the next one begins. -/
theorem mergeAll_cons (h : tree.at? place = some v) (top : Value) (layers : Layers) :
    mergeAll tree ((place, top) :: layers) = mergeAll (tree.putAt place (v.merge top)) layers := by
  have hbelow := mergeAll_below h [([], top)] layers
  rwa [below_cons, List.append_nil] at hbelow

/-! ### A mapping over a mapping -/

/-- The layers of a mapping are laid over the values of its keys, each over that of its key, and
the keys stay where they are. -/
theorem exists_mergeAll_layersAt {m pairs : Assoc Value} (hnodup : pairs.keys.Nodup)
    (hkeys : pairs.keys ⊆ m.keys) :
    ∃ entries : Assoc Value, mergeAll (.mapping m) (layersAt [] pairs) = .mapping entries ∧
      entries.keys = m.keys ∧
      ∀ key, entries.get? key = (m.get? key).map fun v => (pairs.get? key).elim v v.merge := by
  induction pairs generalizing m with
  | nil =>
    refine ⟨m, mergeAll.eq_1 _, rfl, fun key => ?_⟩
    exact (Option.map_id_apply).symm
  | cons e pairs ih =>
    obtain ⟨k, new⟩ := e
    obtain ⟨hnew, hrest⟩ := List.nodup_cons.mp hnodup
    have hk : k ∈ m.keys := hkeys List.mem_cons_self
    obtain ⟨old, hold⟩ : ∃ old, m.get? k = some old :=
      Option.ne_none_iff_exists'.mp fun hnone => Assoc.get?_eq_none_iff.mp hnone hk
    have hat : (mapping m).at? [k] = some old := by
      rw [at?_singleton, field?_mapping, hold]
    have hput : (mapping m).putAt [k] (old.merge new) = mapping (m.insert k (old.merge new)) := rfl
    have hinsert := Assoc.keys_insert_of_mem hk (old.merge new)
    have hsub : Assoc.keys pairs ⊆ (m.insert k (old.merge new)).keys := by
      rw [hinsert]
      exact fun key hkey => hkeys (List.mem_cons_of_mem k hkey)
    obtain ⟨entries, hentries, hsame, hget⟩ := ih hrest hsub
    refine ⟨entries, ?_, hsame.trans hinsert, fun key => ?_⟩
    · rw [← hentries, ← hput]
      exact mergeAll_cons hat new _
    · rw [hget, Assoc.get?_insert, Assoc.get?_cons]
      by_cases hkey : key = k
      · rw [if_pos hkey, if_pos hkey, hkey, hold, Assoc.get?_eq_none_iff.mpr hnew]
        rfl
      · rw [if_neg hkey, if_neg hkey]

/-- Two mappings give a mapping with all their keys, those of the lower one first. A key of both
has the merged value; that of the upper one alone is laid over itself once it is copied. -/
theorem exists_merge_mapping (base top : Assoc Value) :
    ∃ entries : Assoc Value, (mapping base).merge (mapping top) = .mapping entries ∧
      entries.keys = (base.insertAllNew top).keys ∧
      ∀ key, entries.get? key =
        ((base.get? key).or (top.get? key)).map fun v => (top.get? key).elim v v.merge := by
  have hshared (key : String) :
      (shared (base.insertAllNew top) top).get? key = top.get? key := by
    rw [get?_shared]
    split
    next => rfl
    next hkey =>
      rw [← Assoc.get?_eq_none_iff, Assoc.get?_insertAllNew, Option.or_eq_none_iff] at hkey
      exact hkey.2.symm
  have hkeys : (shared (base.insertAllNew top) top).keys ⊆ (base.insertAllNew top).keys :=
    fun key hkey => (mem_keys_shared_iff.mp hkey).1
  obtain ⟨entries, hentries, hsame, hget⟩ :=
    exists_mergeAll_layersAt (nodup_keys_shared _ _) hkeys
  refine ⟨entries, ?_, hsame, fun key => ?_⟩
  · rw [merge, mergeAll_mapping rfl, List.append_nil]
    exact hentries
  · rw [hget, hshared, Assoc.get?_insertAllNew]

/-- Where one of two values is no mapping, the upper one replaces the lower one. -/
theorem merge_of_not_isMapping {base top : Value}
    (h : base.isMapping = false ∨ top.isMapping = false) : base.merge top = top := by
  rw [merge, mergeAll_other, mergeAll, putAt]
  rintro b t hbase rfl
  obtain rfl := Option.some.inj hbase
  exact absurd h (by simp [isMapping, entries?])

/-- Laying nothing over a mapping changes nothing. -/
theorem merge_empty (entries : Assoc Value) :
    (mapping entries).merge .empty = .mapping entries := by
  have hnone : shared entries [] = [] := by
    refine List.eq_nil_iff_forall_not_mem.mpr fun e he => ?_
    exact List.not_mem_nil (mem_keys_shared_iff.mp (List.mem_map_of_mem he)).2
  rw [merge, empty, mergeAll_mapping rfl]
  change mergeAll (.mapping entries) (layersAt [] (shared entries []) ++ []) = _
  rw [hnone]
  exact mergeAll.eq_1 _

theorem field?_merge (base top : Assoc Value) (key : String) :
    ((mapping base).merge (mapping top)).field? key =
      ((base.get? key).or (top.get? key)).map fun v => (top.get? key).elim v v.merge := by
  obtain ⟨entries, hentries, -, hget⟩ := exists_merge_mapping base top
  rw [hentries, field?_mapping, hget]

end Layers

/-! ### Paths -/

section Paths

variable {base top v w : Value} {q : List String} {key : String}

/-- The value says nothing of what stands at a path: it has nothing there, and nothing but
mappings on the way. -/
def SaysNothing (v : Value) (q : List String) : Prop :=
  v.at? q = none ∧ ∀ p, p <+: q → ∀ w, v.at? p = some w → w.isMapping = true

theorem SaysNothing.isMapping (h : v.SaysNothing q) : v.isMapping = true :=
  h.2 [] List.nil_prefix v rfl

/-- What a field of the value has is as silent as the value on a path through the field. -/
theorem SaysNothing.field (h : v.SaysNothing (key :: q)) (hfield : v.field? key = some w) :
    w.SaysNothing q := by
  constructor
  · have hnone := h.1
    rw [at?, hfield] at hnone
    exact hnone
  · intro p hp x hx
    refine h.2 (key :: p) (List.cons_prefix_cons.mpr ⟨rfl, hp⟩) x ?_
    rw [at?, hfield]
    exact hx

/-- A scalar or a list of the upper value takes its place. -/
theorem at?_merge_of_some (h : top.at? q = some v) (hv : v.isMapping = false) :
    (base.merge top).at? q = some v := by
  induction q generalizing base top with
  | nil =>
    obtain rfl : top = v := Option.some.inj h
    rw [merge_of_not_isMapping (.inr hv)]
    exact h
  | cons key q ih =>
    obtain ⟨inner, hinner, hq⟩ := Option.bind_eq_some_iff.mp h
    cases base with
    | mapping b =>
      cases top with
      | mapping t =>
        rw [field?_mapping] at hinner
        rw [at?, field?_merge, hinner]
        cases Assoc.get? b key with
        | none => exact ih hq
        | some old => exact ih hq
      | _ => exact absurd hinner.symm (Option.some_ne_none inner)
    | _ =>
      rw [merge_of_not_isMapping (.inl rfl)]
      exact h

/-- Where the upper value says nothing, the lower one is read. -/
theorem at?_merge_of_saysNothing (h : top.SaysNothing q) :
    (base.merge top).at? q = base.at? q := by
  induction q generalizing base top with
  | nil => exact absurd h.1 (Option.some_ne_none top)
  | cons key q ih =>
    cases top with
    | mapping t =>
      cases base with
      | mapping b =>
        rw [at?, at?, field?_merge, field?_mapping]
        cases hnew : Assoc.get? t key with
        | none => cases Assoc.get? b key <;> rfl
        | some new =>
          have hsilent : new.SaysNothing q := h.field hnew
          cases Assoc.get? b key with
          | none => exact (ih hsilent).trans hsilent.1
          | some old => exact ih hsilent
      | _ =>
        rw [merge_of_not_isMapping (.inl rfl)]
        exact h.1
    | _ => exact absurd h.isMapping (by simp [isMapping, entries?])

end Paths

end Rollout.Value
