import Rollout.Definition.Codec
import Rollout.Proofs.Codec.Reading
import Rollout.Proofs.Definition.Unit

/-!
# What definitions are read from

A definition of any type but a group is what the codec of its type reads. A group is read field by
field, and its members are what the items in its list of members are read as, one by one.
-/

namespace Rollout.Definition

/-- The codec of its type reads the definition from a value. Groups have none. -/
def IsReadFrom (v : Value) : Definition → Prop
  | app a => App.codec.decode .direct v = .ok a
  | statefulApp a => StatefulApp.codec.decode .direct v = .ok a
  | configMap c => ConfigMap.codec.decode .direct v = .ok c
  | secret s => Secret.codec.decode .direct v = .ok s
  | job j => Job.codec.decode .direct v = .ok j
  | cronJob j => CronJob.codec.decode .direct v = .ok j
  | service s => Service.codec.decode .direct v = .ok s
  | ingress i => Ingress.codec.decode .direct v = .ok i
  | networkPolicy p => NetworkPolicy.codec.decode .direct v = .ok p
  | serviceAccount a => ServiceAccount.codec.decode .direct v = .ok a
  | role scope r => (Role.codec scope).decode .direct v = .ok r
  | binding scope b => (Binding.codec scope).decode .direct v = .ok b
  | customResource c => CustomResource.codec.decode .direct v = .ok c
  | ofNamespace n => NamespaceDefinition.codec.decode .direct v = .ok n
  | group .. => False

variable {known : List String} {v : Value} {d : Definition}

theorem isReadFrom_of_decodeFields {typeName : String}
    (h : decodeFields typeName v = some (.ok d)) : d.IsReadFrom v := by
  unfold decodeFields at h
  split at h
  case h_17 => exact absurd h nofun
  all_goals
    obtain ⟨a, ha, rfl⟩ := map_eq_ok_iff.mp (Option.some.inj h)
    exact ha

/-- The definition is the group that some fields describe, and its members are what the items in
the list under their key are read as. -/
def IsGroupFrom (known : List String) (fields : Assoc Value) (d : Definition) : Prop :=
  ∃ name members create, d = group (groupInfo fields name) members create ∧
    decodeMembers known fields = .ok members

/-- A definition is read from a mapping, by the codec of its type or as a group. -/
theorem of_decode (h : decode known v = .ok d) :
    ∃ fields, v = .mapping fields ∧ (d.IsReadFrom v ∨ IsGroupFrom known fields d) := by
  cases v with
  | mapping fields =>
    refine ⟨fields, rfl, ?_⟩
    simp only [decode, bind_eq_ok_iff] at h
    obtain ⟨typeName, -, h⟩ := h
    split at h
    · rename_i hfields
      obtain rfl := Except.ok.inj h
      exact .inl (isReadFrom_of_decodeFields hfields)
    · exact absurd h nofun
    · cases hname : ((Value.mapping fields).field? "name").bind Value.text? with
      | none =>
        rw [hname] at h
        exact absurd h nofun
      | some name =>
        rw [hname] at h
        obtain ⟨members, hmembers, h⟩ := bind_eq_ok_iff.mp h
        exact .inr ⟨name, members, _, (Except.ok.inj h).symm, hmembers⟩
  | _ =>
    simp only [decode, bind_eq_ok_iff] at h
    obtain ⟨-, -, h⟩ := h
    exact absurd h nofun

/-! ### The namespace that is given -/

/-- A structure whose metadata are read from its own entries is in the namespace that is given. -/
theorem ns_eq_of_decode {σ : Type} {name : String} {fields : Fields σ σ} {info : σ → Meta}
    (hfields : fields.Yields fun entries s =>
      ∀ ns, entries.get? "namespace" = some (.text ns) → (info s).ns = ns)
    {entries : Assoc Value} {s : σ}
    (h : (Codec.mapping name fields).decode .direct (.mapping entries) = .ok s) {ns : String}
    (hns : entries.get? "namespace" = some (.text ns)) : (info s).ns = ns := by
  obtain ⟨_, ⟨⟩, hread⟩ := Codec.decode_mapping_eq_ok_iff.mp h
  exact hfields .direct entries s hread ns hns

theorem yields_workload : Workload.fields.Yields fun entries w =>
    ∀ ns, entries.get? "namespace" = some (.text ns) → w.info.ns = ns := by
  unfold Workload.fields
  repeat with_reducible refine .init ?_
  refine .map ((Fields.yields_part Meta.yields_fields).mono fun entries info h => ?_)
  repeat intro
  exact h _ ‹_›

/-- A definition is in the namespace that it is given. -/
theorem ns_of_decode {entries : Assoc Value} (h : decode known (.mapping entries) = .ok d)
    {ns : String} (hns : entries.get? "namespace" = some (.text ns)) : d.info.ns = ns := by
  obtain ⟨fields, ⟨⟩, h | ⟨name, members, create, rfl, -⟩⟩ := of_decode h
  · cases d with
    | app | statefulApp =>
      refine ns_eq_of_decode ?_ h hns
      repeat with_reducible refine .init ?_
      refine .map ((Fields.yields_part yields_workload).mono fun entries w h => ?_)
      repeat intro
      exact h _ ‹_›
    | group => exact h.elim
    | _ =>
      refine ns_eq_of_decode ?_ h hns
      repeat with_reducible refine .init ?_
      refine .map ((Fields.yields_part Meta.yields_fields).mono fun entries info h => ?_)
      repeat intro
      exact h _ ‹_›
  · rw [info, groupInfo, hns]
    rfl

/-! ### Entries at any depth -/

/-- Definitions are read one by one. -/
theorem decodeAll_eq_mapM (vs : List Value) : decodeAll known vs = vs.mapM (decode known) := by
  induction vs with
  | nil => rfl
  | cons v vs ih =>
    rw [decodeAll, ih, List.mapM_cons]
    rfl

/-- Members are read one by one from the items in a list. -/
theorem exists_item_of_decodeMembers {fields : Assoc Value} {members : List Definition}
    (h : decodeMembers known fields = .ok members) (hd : d ∈ members) :
    ∃ items item, fields.get? "members" = some (.list items) ∧ item ∈ items ∧
      decode known item = .ok d := by
  induction fields with
  | nil =>
    obtain rfl := Except.ok.inj h
    exact absurd hd List.not_mem_nil
  | cons e fields ih =>
    obtain ⟨key, v⟩ := e
    unfold decodeMembers at h
    split at h
    · rename_i hkey
      cases v with
      | list items =>
        change decodeAll known items = .ok members at h
        rw [decodeAll_eq_mapM] at h
        obtain ⟨item, hitem, hdecode⟩ := exists_of_mem_mapM h hd
        exact ⟨items, item, by rw [hkey, Assoc.get?_cons, if_pos rfl], hitem, hdecode⟩
      | _ => exact absurd h nofun
    · rename_i hkey
      obtain ⟨items, item, hget, hitem⟩ := ih h
      exact ⟨items, item, by rw [Assoc.get?_cons, if_neg (Ne.symm hkey), hget], hitem⟩

/-- An entry under a value, with the definition that it is read as: the value itself, or an entry
under an item in the list of members that the value holds. -/
inductive IsEntry (known : List String) : Value → Value → Definition → Prop
  | self {v : Value} {d : Definition} (h : decode known v = .ok d) : IsEntry known v v d
  | member {fields : Assoc Value} {items : List Value} {item w : Value} {d : Definition}
    (hmembers : fields.get? "members" = some (.list items)) (hitem : item ∈ items)
    (h : IsEntry known item w d) : IsEntry known (.mapping fields) w d

theorem IsEntry.decode {w : Value} (h : IsEntry known v w d) :
    Definition.decode known w = .ok d := by
  induction h with
  | self h => exact h
  | member _ _ _ ih => exact ih

/-- Each unit of a definition is an entry under the value that the definition is read from, or the
namespace that a group asks for. -/
theorem entry_of_mem_units (h : decode known v = .ok d) : ∀ u ∈ d.units,
    (∃ w, IsEntry known v w u.1) ∨ ∃ ns, u.1 = ofNamespace (.named ns) := by
  induction d using treeInduction generalizing v with
  | unit d hd =>
    rw [units_of_isUnit hd]
    exact List.forall_mem_singleton.mpr (.inl ⟨v, .self h⟩)
  | group info members create ih =>
    obtain ⟨fields, rfl, hread | ⟨name, members', create', heq, hmembers⟩⟩ := of_decode h
    · exact hread.elim
    · obtain ⟨-, rfl, -⟩ := group.inj heq
      rw [units, memberUnits_eq, List.forall_mem_map, List.forall_mem_append]
      constructor
      · cases create with
        | false => exact List.forall_mem_nil _
        | true => exact List.forall_mem_singleton.mpr (.inr ⟨_, rfl⟩)
      · intro u hu
        obtain ⟨m, hm, hu⟩ := List.mem_flatMap.mp hu
        obtain ⟨items, item, hget, hitem, hdecode⟩ := exists_item_of_decodeMembers hmembers hm
        obtain ⟨w, hw⟩ | hnamespace := ih m hm hdecode u hu
        · exact .inl ⟨w, .member hget hitem hw⟩
        · exact .inr hnamespace

end Rollout.Definition
