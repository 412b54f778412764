import Rollout.Proofs.App.Nested
import Rollout.Proofs.Definition.Unit

/-!
# Kinds of the records of a definition

All records are of kinds that are built in, apart from the objects of custom kinds: these are of
the kind that the definition gives.
-/

namespace Rollout

/-- The kinds that are built in. -/
def Kind.builtin : List String := applyOrder ++ ["ResourceQuota", "LimitRange"]

/-- All records are of some kinds. -/
def Record.AllOf (kinds : List String) (rs : List Record) : Prop := ∀ r ∈ rs, r.kind ∈ kinds

/-- The record describes an object of a kind that is built in. Only if one of some names is empty
may its own be. -/
def Record.IsBuiltin (names : List String) (r : Record) : Prop :=
  ∃ kind ∈ Kind.builtin, ∃ name ns, ("" ∉ names → name ≠ "") ∧ r.Describes (.placed kind name ns)

open Record (AllOf IsBuiltin)

variable {files : FileTree} {rs : List Record} {r : Record} {names : List String}

theorem Record.IsBuiltin.kind_mem (h : r.IsBuiltin names) : r.kind ∈ Kind.builtin := by
  obtain ⟨kind, hkind, name, ns, -, hdescribes⟩ := h
  rw [hdescribes.kind_eq]
  exact hkind

/-- A record that is called by one of the names. -/
theorem Record.isBuiltin_of_mem {kind name ns : String} (hkind : kind ∈ Kind.builtin)
    (hname : name ∈ names) (h : r.Describes (.placed kind name ns)) : r.IsBuiltin names :=
  ⟨kind, hkind, name, ns, fun hnot he => hnot (he ▸ hname), h⟩

/-- A record that has a name whatever those are that are given. -/
theorem Record.isBuiltin_of_ne {kind name ns : String} (hkind : kind ∈ Kind.builtin)
    (hname : name ≠ "") (h : r.Describes (.placed kind name ns)) : r.IsBuiltin names :=
  ⟨kind, hkind, name, ns, fun _ => hname, h⟩

/-! ### Units -/

/-- The records of a binding are of its kind, in its namespace, and have names if it has one. -/
theorem Binding.describes_of_mem_records {scope : RoleScope} {b : Binding}
    (hr : r ∈ b.records scope) : ∃ name, (b.info.name ≠ "" → name ≠ "") ∧
      r.Describes (.placed scope.bindingKind name b.info.ns) := by
  have hscope : Kind.isClusterScoped scope.bindingKind = !scope.isNamespaced := by
    cases scope <;> decide
  unfold records at hr
  split at hr
  · obtain ⟨s, -, rfl⟩ := List.mem_map.mp hr
    have hname : b.info.name ++ "-" ++ s.name ≠ "" := by simp
    exact ⟨_, fun _ => hname, Record.describes_of_meta (by decide) hscope _ b.info _⟩
  · obtain rfl := List.mem_singleton.mp hr
    exact ⟨_, id, Record.describes_of_meta (by decide) hscope _ b.info _⟩

theorem Binding.isBuiltin_of_mem_records {scope : RoleScope} {b : Binding}
    (hr : r ∈ b.records scope) : r.IsBuiltin [b.info.name] := by
  have hkind : scope.bindingKind ∈ Kind.builtin := by cases scope <;> decide
  obtain ⟨name, hname, hdescribes⟩ := describes_of_mem_records hr
  refine ⟨_, hkind, name, b.info.ns, fun hnot => hname fun he => hnot ?_, hdescribes⟩
  exact he ▸ List.mem_singleton_self b.info.name

namespace NamespaceDefinition

variable {n : NamespaceDefinition}

/-- A namespace has a record of its own, and others that set limits and live in it. -/
theorem describes_of_mem_records (hr : r ∈ n.records) :
    r.Describes (.placed "Namespace" n.info.name n.info.ns) ∨
      ∃ kind ∈ ["ResourceQuota", "LimitRange"], ∃ name, name ≠ "" ∧
        r.Describes (.placed kind name n.info.name) := by
  simp only [records, List.mem_append, List.mem_singleton, Option.mem_toList,
    Option.map_eq_some_iff] at hr
  obtain (rfl | ⟨quota, -, rfl⟩) | ⟨limits, -, rfl⟩ := hr
  · exact .inl (Record.describes_of_meta (by decide) (by decide) _ n.info _)
  · exact .inr ⟨_, List.mem_cons_self, n.info.name ++ "-quota", by simp,
      Record.describes_of_meta (by decide) (by decide) _ _ _⟩
  · exact .inr ⟨_, List.mem_cons_of_mem _ List.mem_cons_self, n.info.name ++ "-limits", by simp,
      Record.describes_of_meta (by decide) (by decide) _ _ _⟩

theorem isBuiltin_of_mem_records (hr : r ∈ n.records) : r.IsBuiltin [n.info.name] := by
  have hkinds : ["ResourceQuota", "LimitRange"] ⊆ Kind.builtin := by decide
  obtain hdescribes | ⟨kind, hkind, name, hname, hdescribes⟩ := describes_of_mem_records hr
  · exact Record.isBuiltin_of_mem (by decide) (List.mem_singleton_self _) hdescribes
  · exact Record.isBuiltin_of_ne (hkinds hkind) hname hdescribes

end NamespaceDefinition

namespace CustomResource

variable {c : CustomResource}

/-- The kinds of the records of a controller. -/
def controllerKinds : List String :=
  ["ServiceAccount", "ClusterRole", "ClusterRoleBinding", "Deployment"]

theorem describes_of_mem_controllerRecords {controller : Controller}
    (hr : r ∈ c.controllerRecords controller) : ∃ kind ∈ controllerKinds,
      r.Describes (.placed kind c.controllerName c.info.ns) := by
  simp only [controllerRecords, List.mem_cons, List.not_mem_nil, or_false] at hr
  obtain rfl | rfl | rfl | rfl := hr <;>
    exact ⟨_, by simp [controllerKinds],
      Record.describes_of_meta (by decide) (by decide) _ c.info _⟩

theorem isBuiltin_of_mem_controllerRecords {controller : Controller}
    (hr : r ∈ c.controllerRecords controller) : r.IsBuiltin names := by
  have hname : c.controllerName ≠ "" := by simp [controllerName]
  have hkinds : controllerKinds ⊆ Kind.builtin := by decide
  obtain ⟨kind, hkind, hdescribes⟩ := describes_of_mem_controllerRecords hr
  exact Record.isBuiltin_of_ne (hkinds hkind) hname hdescribes

/-- The records of a custom kind are its definition, those of its controller and its objects. -/
theorem mem_records_iff : r ∈ c.records ↔ r = c.definitionRecord ∨
    (∃ controller, c.controller = some controller ∧ r ∈ c.controllerRecords controller) ∨
      ∃ i ∈ c.instances, r = c.instanceRecord i := by
  simp only [records, List.cons_append, List.mem_cons, List.mem_append, List.mem_map, eq_comm]
  cases c.controller <;> simp

theorem isBuiltin_or_mem_instances (hr : r ∈ c.records) :
    r.IsBuiltin names ∨ ∃ i ∈ c.instances, r = c.instanceRecord i := by
  obtain rfl | ⟨controller, -, hr⟩ | hr := mem_records_iff.mp hr
  · have hname : c.definitionName ≠ "" := by simp [definitionName]
    exact .inl (Record.isBuiltin_of_ne (by decide) hname
      (Record.describes_of_meta (by decide) (by decide) _ c.info _))
  · exact .inl (isBuiltin_of_mem_controllerRecords hr)
  · exact .inr hr

/-- The object of a custom kind lives in a namespace if the kind does. -/
theorem describes_instanceRecord (c : CustomResource) (i : Instance) :
    (c.instanceRecord i).Describes ⟨c.kind, i.name,
      match c.scope with
      | .namespaced => some (i.ns.getD c.info.ns)
      | .cluster => none⟩ := by
  have hversion : c.apiVersion ≠ "" := by simp [apiVersion]
  unfold instanceRecord
  cases c.scope with
  | namespaced => exact ⟨⟨_, rfl, hversion⟩, rfl, rfl, rfl, _, rfl⟩
  | cluster => exact ⟨⟨_, rfl, hversion⟩, rfl, rfl, rfl, _, rfl⟩

end CustomResource

/-- The kinds of definitions that make one record. -/
def Definition.singleKinds : List String :=
  ["ConfigMap", "Secret", "Job", "CronJob", "Service", "Ingress", "NetworkPolicy",
    "ServiceAccount", "Role", "ClusterRole"]

theorem Definition.IsSingle.typeName_mem_singleKinds {d : Definition} (hd : d.IsSingle) :
    d.typeName ∈ singleKinds := by
  cases d with
  | configMap | secret | job | cronJob | service | ingress | networkPolicy | serviceAccount =>
    simp [typeName, singleKinds]
  | role scope => cases scope <;> simp [typeName, RoleScope.roleKind, singleKinds]
  | app | statefulApp | binding | customResource | ofNamespace | group => exact hd.elim

theorem Definition.IsSingle.typeName_mem {d : Definition} (hd : d.IsSingle) :
    d.typeName ∈ Kind.builtin := by
  have hkinds : singleKinds ⊆ Kind.builtin := by decide
  exact hkinds hd.typeName_mem_singleKinds

/-- The records that an application has itself, and those of what is nested in it. -/
theorem Workload.Composed.isBuiltin_of_mem {w : Workload} {own : List Record}
    {nested : List Definition} (h : w.Composed files own nested rs) (hr : r ∈ rs) :
    r.IsBuiltin (w.name :: nested.map Definition.name) := by
  obtain hr | ⟨d, hd, x, hx, rfl⟩ := (h.mem_iff r).mp hr
  · have hkinds : ∀ kind ∈ ownKinds, kind ∈ Kind.builtin ∧ Kind.isClusterScoped kind = false := by
      decide
    obtain ⟨kind, hkind, name, hname, hdescribes⟩ := h.owns r hr
    obtain ⟨hbuiltin, hscope⟩ := hkinds kind hkind
    rw [← Identity.placed_of_namespaced hscope] at hdescribes
    refine ⟨kind, hbuiltin, name, w.info.ns, fun hnot => hname fun he => hnot ?_, hdescribes⟩
    exact he ▸ List.mem_cons_self
  · have hnested := h.isNested d hd
    have hadopted := describes_adoptRecord hnested.namespaced (h.describes hd hx) w.info.ns
    rw [← Identity.placed_of_namespaced hnested.namespaced] at hadopted
    refine Record.isBuiltin_of_mem hnested.single.typeName_mem ?_ hadopted
    exact List.mem_cons_of_mem _ (List.mem_map_of_mem hd)

namespace Definition

/-- The names from which those of the records of a unit are made. -/
def unitNames : Definition → List String
  | app a => a.info.name :: a.nested.map name
  | statefulApp a => a.info.name :: a.nested.map name
  | d => [d.name]

mutual

/-- The custom kinds whose objects a definition holds. -/
def customKinds : Definition → List String
  | customResource c => [c.kind]
  | group _ members _ => memberKinds members
  | _ => []

/-- The custom kinds of several definitions. -/
def memberKinds : List Definition → List String
  | [] => []
  | d :: ds => customKinds d ++ memberKinds ds

end

theorem memberKinds_eq (ds : List Definition) : memberKinds ds = ds.flatMap customKinds := by
  induction ds with
  | nil => rfl
  | cons d ds ih => rw [memberKinds, ih, List.flatMap_cons]

theorem customKinds_subset_of_mem_units {d : Definition} :
    ∀ u ∈ d.units, u.1.customKinds ⊆ d.customKinds := by
  refine forall_mem_units (P := fun d u => u.1.customKinds ⊆ d.customKinds)
    (fun _ _ => List.Subset.refl _) (fun _ _ => List.nil_subset _) ?_ d
  intro info members create d hd u _ hu kind hkind
  rw [customKinds, memberKinds_eq]
  exact List.mem_flatMap.mpr ⟨d, hd, hu hkind⟩

/-- A record of a unit is of a kind that is built in, or an object of the custom kind that the unit
is. -/
theorem IsUnit.isBuiltin_or_instance {d : Definition} (hd : d.IsUnit)
    (h : d.records files = .ok rs) (hr : r ∈ rs) :
    r.IsBuiltin d.unitNames ∨
      ∃ c, d = customResource c ∧ ∃ i ∈ c.instances, r = c.instanceRecord i := by
  by_cases hsingle : d.IsSingle
  · obtain ⟨x, rfl, hx⟩ := describes_of_isSingle hsingle h
    obtain rfl := List.mem_singleton.mp hr
    refine .inl (Record.isBuiltin_of_mem hsingle.typeName_mem ?_ hx)
    cases d <;> exact List.mem_cons_self
  · cases d with
    | app a =>
      obtain ⟨notes, h⟩ := App.composed h
      exact .inl (h.isBuiltin_of_mem hr)
    | statefulApp a =>
      obtain ⟨notes, h⟩ := StatefulApp.composed h
      exact .inl (h.isBuiltin_of_mem hr)
    | binding scope b =>
      obtain rfl := Except.ok.inj h
      exact .inl (Binding.isBuiltin_of_mem_records hr)
    | ofNamespace n =>
      obtain rfl := Except.ok.inj h
      exact .inl (NamespaceDefinition.isBuiltin_of_mem_records hr)
    | customResource c =>
      obtain rfl := Except.ok.inj h
      exact (CustomResource.isBuiltin_or_mem_instances hr).imp_right fun hi => ⟨c, rfl, hi⟩
    | group => exact hd.elim
    | _ => exact absurd trivial hsingle

/-- Every record describes an object. -/
theorem exists_describes_of_mem {d : Definition} (h : d.records files = .ok rs) (hr : r ∈ rs) :
    ∃ id, r.Describes id := by
  obtain ⟨u, hu, own, hown, x, hx, rfl⟩ := exists_unit_of_mem h hr
  obtain hbuiltin | ⟨c, -, i, -, rfl⟩ := (isUnit_of_mem_units u hu).isBuiltin_or_instance hown hx
  · obtain ⟨kind, -, name, ns, -, hdescribes⟩ := hbuiltin
    exact ⟨_, describes_labelledBy u.2 hdescribes⟩
  · exact ⟨_, describes_labelledBy u.2 (c.describes_instanceRecord i)⟩

/-- The records of a definition are of kinds that are built in or of its custom kinds. -/
theorem allOf_records {rs : List Record} (d : Definition) (h : d.records files = .ok rs) :
    AllOf (Kind.builtin ++ d.customKinds) rs := by
  intro r hr
  obtain ⟨u, hu, own, hown, x, hx, rfl⟩ := exists_unit_of_mem h hr
  rw [(extends_labelledBy u.2 x).kind]
  obtain hbuiltin | ⟨c, hc, i, -, rfl⟩ := (isUnit_of_mem_units u hu).isBuiltin_or_instance hown hx
  · exact List.mem_append_left _ hbuiltin.kind_mem
  · refine List.mem_append_right _ (customKinds_subset_of_mem_units u hu ?_)
    rw [hc]
    exact List.mem_singleton_self c.kind

end Definition

end Rollout
