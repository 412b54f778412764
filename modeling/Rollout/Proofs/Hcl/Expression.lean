import Rollout.Hcl.Item
import Rollout.Proofs.Assoc

/-!
# Expressions in HCL

An expression is written as it is, to be evaluated, and every other value as a literal. A value of a
definition has no expression once its texts are taken as literals, and the items that the entries of
a record become have just those of the entries.
-/

namespace Rollout.Hcl

mutual

/-- The expressions in a value, from left to right. -/
def sources : Hcl → List String
  | .expression source => [source]
  | .list items => itemSources items
  | .object entries => entrySources entries
  | _ => []

/-- The expressions in a list of values. -/
def itemSources : List Hcl → List String
  | [] => []
  | v :: vs => sources v ++ itemSources vs

/-- The expressions in the entries of an object. -/
def entrySources : List (String × Hcl) → List String
  | [] => []
  | (_, v) :: rest => sources v ++ entrySources rest

end

mutual

/-- The expressions in an item of a file. -/
def Item.sources : Item → List String
  | .attribute _ value => value.sources
  | .block _ _ items => Item.allSources items
  | _ => []

/-- The expressions in several items. -/
def Item.allSources : List Item → List String
  | [] => []
  | item :: items => item.sources ++ Item.allSources items

end

/-! ### Values -/

mutual

/-- Texts that are taken as literals become no expressions. -/
theorem sources_convert : ∀ v : Value, (convert .text v).sources = []
  | .null | .bool _ | .int _ | .double _ | .text _ => rfl
  | .list items => itemSources_convertItems items
  | .mapping entries => entrySources_convertEntries entries

theorem itemSources_convertItems : ∀ vs : List Value, itemSources (convertItems .text vs) = []
  | [] => rfl
  | v :: vs => by
    rw [convertItems, itemSources, sources_convert v, itemSources_convertItems vs]
    rfl

theorem entrySources_convertEntries :
    ∀ m : List (String × Value), entrySources (convertEntries .text m) = []
  | [] => rfl
  | (k, v) :: rest => by
    rw [convertEntries, entrySources, sources_convert v, entrySources_convertEntries rest]
    rfl

end

section Entries

variable {m : Assoc Hcl} {key : String} {v : Hcl}

theorem entrySources_cons (e : String × Hcl) (m : Assoc Hcl) :
    entrySources (e :: m) = e.2.sources ++ entrySources m :=
  rfl

theorem entrySources_eq_nil_iff : entrySources m = [] ↔ ∀ e ∈ m, e.2.sources = [] := by
  induction m with
  | nil => simp [entrySources]
  | cons e m ih => rw [entrySources_cons, List.append_eq_nil_iff, ih, List.forall_mem_cons]

/-- The expressions of a value are added where there are none. -/
theorem entrySources_insert (h : entrySources m = []) (key : String) (v : Hcl) :
    entrySources (m.insert key v) = v.sources := by
  induction m with
  | nil => exact List.append_nil _
  | cons e m ih =>
    obtain ⟨k, w⟩ := e
    obtain ⟨hw, hm⟩ := List.append_eq_nil_iff.mp h
    unfold Assoc.insert
    split
    · rw [entrySources_cons, hm, List.append_nil]
    · rw [entrySources_cons, ih hm]
      exact congrArg (· ++ v.sources) hw

/-- Entries without expressions can be taken away. -/
theorem entrySources_without {keys : List String}
    (h : ∀ e ∈ m, e.1 ∈ keys → e.2.sources = []) :
    entrySources (m.without keys) = entrySources m := by
  induction m with
  | nil => rfl
  | cons e m ih =>
    obtain ⟨he, hm⟩ := List.forall_mem_cons.mp h
    have hrest := ih hm
    rw [Assoc.without] at hrest
    rw [Assoc.without, List.filter_cons]
    split
    · rw [entrySources_cons, entrySources_cons, hrest]
    · rename_i hkey
      rw [entrySources_cons, hrest, he (by simpa using hkey), List.nil_append]

/-- A value without expressions can take the place of another one without any. -/
theorem entrySources_insert_of_none (h : ∀ e ∈ m, e.1 = key → e.2.sources = [])
    (hv : v.sources = []) : entrySources (m.insert key v) = entrySources m := by
  induction m with
  | nil => exact (List.append_nil _).trans hv
  | cons e m ih =>
    obtain ⟨k, w⟩ := e
    obtain ⟨he, hm⟩ := List.forall_mem_cons.mp h
    unfold Assoc.insert
    split
    · rename_i hkey
      rw [entrySources_cons, entrySources_cons, hv, he hkey]
    · rw [entrySources_cons, entrySources_cons, ih hm]

end Entries

/-! ### Items -/

theorem Item.allSources_append (items more : List Item) :
    Item.allSources (items ++ more) = Item.allSources items ++ Item.allSources more := by
  induction items with
  | nil => rfl
  | cons item items ih =>
    rw [List.cons_append, Item.allSources, Item.allSources, ih, List.append_assoc]

/-- The blank lines between items hold no expressions. -/
theorem Item.allSources_spaced (items : List Item) :
    Item.allSources (Item.spaced items) = items.flatMap Item.sources := by
  fun_induction Item.spaced items with
  | case1 => rfl
  | case2 item => rw [List.flatMap_singleton, Item.allSources, Item.allSources, List.append_nil]
  | case3 item items _ ih => rw [Item.allSources, Item.allSources, ih]; rfl

mutual

/-- The entries of a record have the same expressions as items. -/
theorem allSources_recordItems : ∀ m : List (String × Hcl),
    Item.allSources (recordItems m) = entrySources m
  | [] => rfl
  | (key, v) :: rest => by
    rw [recordItems, Item.allSources_append, allSources_entryItems _ v,
      allSources_recordItems rest, entrySources]

theorem allSources_entryItems (key : String) : ∀ v : Hcl,
    Item.allSources (entryItems key v) = v.sources
  | .null => rfl
  | .bool _ | .int _ | .double _ | .text _ => rfl
  | .expression source => rfl
  | .object entries => by
    rw [entryItems]
    split
    · exact List.append_nil _
    · exact (List.append_nil _).trans (allSources_recordItems entries)
  | .list items => by
    rw [entryItems]
    split
    · rename_i hobjects
      rw [Bool.and_eq_true] at hobjects
      exact allSources_itemBlocks _ items hobjects.2
    · exact List.append_nil _

theorem allSources_itemBlocks (name : String) : ∀ vs : List Hcl, vs.all isObject = true →
    Item.allSources (itemBlocks name vs) = itemSources vs
  | [], _ => rfl
  | v :: vs, h => by
    rw [List.all_cons, Bool.and_eq_true] at h
    cases v with
    | object entries =>
      rw [itemBlocks, Item.allSources, allSources_itemBlocks name vs h.2, itemSources, Item.sources,
        allSources_recordItems entries, sources]
    | _ => exact absurd h.1 Bool.false_ne_true

end

end Rollout.Hcl
