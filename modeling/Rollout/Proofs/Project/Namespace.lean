import Rollout.Project.Basic
import Rollout.Proofs.App.Namespace
import Rollout.Proofs.Definition.Kind
import Rollout.Proofs.Definition.Reading

/-!
# The namespace of a project

The namespace that a definition file names is that of all entries in it that name none, and of the
group that several entries are united in. From there on each record lives in the namespace of the
unit that generates it. Only what was given a place of its own lives elsewhere: what is nested in an
application with another namespace, the limits of a namespace, and objects of a custom kind.
-/

namespace Rollout

open Definition

variable {files : FileTree} {rs own : List Record} {r x : Record}

/-! ### Where the records of a unit live -/

/-- The record has a place of its own. It may be that of a definition that is nested in an
application and was given another namespace than the default one, set limits for a namespace and
live in that, or be an object of a custom kind that is given a namespace of its own or has none. -/
def Definition.PlacedApart (files : FileTree) (r : Record) : Definition → Prop
  | app a => ∃ d ∈ a.nested, d.info.ns ≠ defaultNamespace ∧ d.records files = .ok [r] ∧
      r.namespace? = some d.info.ns
  | statefulApp a => ∃ d ∈ a.nested, d.info.ns ≠ defaultNamespace ∧ d.records files = .ok [r] ∧
      r.namespace? = some d.info.ns
  | ofNamespace n => r.kind ∈ ["ResourceQuota", "LimitRange"] ∧ r.namespace? = some n.info.name
  | customResource c => ∃ i ∈ c.instances, r = c.instanceRecord i ∧
      match c.scope with
      | .namespaced => ∃ ns, i.ns = some ns ∧ r.namespace? = some ns
      | .cluster => r.namespace? = none
  | _ => False

theorem Record.Describes.namespace?_of_placed {kind name ns : String}
    (h : r.Describes (.placed kind name ns)) (hscope : Kind.isClusterScoped r.kind = false) :
    r.namespace? = some ns := by
  have hkind : Kind.isClusterScoped kind = false := by rwa [h.kind_eq] at hscope
  rw [h.namespace?_eq, Identity.placed_of_namespaced hkind]

theorem NamespaceDefinition.placedApart {n : NamespaceDefinition} (hr : r ∈ n.records)
    (hscope : Kind.isClusterScoped r.kind = false) : (ofNamespace n).PlacedApart files r := by
  obtain hdescribes | ⟨kind, hkind, name, -, hdescribes⟩ := describes_of_mem_records hr
  · rw [hdescribes.kind_eq] at hscope
    exact absurd hscope (by decide : Kind.isClusterScoped "Namespace" ≠ false)
  · refine ⟨?_, hdescribes.namespace?_of_placed hscope⟩
    rw [hdescribes.kind_eq]
    exact hkind

theorem CustomResource.namespace?_or_placedApart {c : CustomResource} (hr : r ∈ c.records)
    (hscope : Kind.isClusterScoped r.kind = false) :
    r.namespace? = some c.info.ns ∨ (customResource c).PlacedApart files r := by
  obtain rfl | ⟨controller, -, hr⟩ | ⟨i, hi, rfl⟩ := mem_records_iff.mp hr
  · exact absurd hscope (by decide : Kind.isClusterScoped "CustomResourceDefinition" ≠ false)
  · obtain ⟨kind, -, hdescribes⟩ := describes_of_mem_controllerRecords hr
    exact .inl (hdescribes.namespace?_of_placed hscope)
  · have hplace := (c.describes_instanceRecord i).namespace?_eq
    cases hkind : c.scope with
    | cluster =>
      rw [hkind] at hplace
      exact .inr ⟨i, hi, rfl, by rw [hkind]; exact hplace⟩
    | namespaced =>
      rw [hkind] at hplace
      cases hns : i.ns with
      | none => exact .inl (by rw [hplace, hns]; rfl)
      | some ns =>
        rw [hns] at hplace
        exact .inr ⟨i, hi, rfl, by rw [hkind]; exact ⟨ns, hns, hplace⟩⟩

/-- All records that a definition generates live in its namespace, unless their kinds never live in
one or they have places of their own. -/
def Definition.PlacesRecords (files : FileTree) (d : Definition) : Prop :=
  ∀ own, d.records files = .ok own → ∀ x ∈ own, Kind.isClusterScoped x.kind = false →
    x.namespace? = some d.info.ns ∨ d.PlacedApart files x

theorem Definition.IsUnit.placesRecords {d : Definition} (hd : d.IsUnit) (files : FileTree) :
    d.PlacesRecords files := by
  intro own h x hx hscope
  by_cases hsingle : d.IsSingle
  · obtain ⟨y, rfl, hy⟩ := describes_of_isSingle hsingle h
    obtain rfl := List.mem_singleton.mp hx
    exact .inl (hy.namespace?_of_placed hscope)
  · cases d with
    | app a => exact (App.livesIn h).records x hx
    | statefulApp a => exact (StatefulApp.livesIn h).records x hx
    | binding scope b =>
      obtain rfl := Except.ok.inj h
      obtain ⟨name, -, hdescribes⟩ := Binding.describes_of_mem_records hx
      exact .inl (hdescribes.namespace?_of_placed hscope)
    | ofNamespace n =>
      obtain rfl := Except.ok.inj h
      exact .inr (NamespaceDefinition.placedApart hx hscope)
    | customResource c =>
      obtain rfl := Except.ok.inj h
      exact CustomResource.namespace?_or_placedApart hx hscope
    | group => exact hd.elim
    | _ => exact absurd trivial hsingle

/-- The namespace that a group asks for has no record but its own. -/
theorem NamespaceDefinition.isClusterScoped_of_named {ns : String} (hx : x ∈ (named ns).records) :
    Kind.isClusterScoped x.kind = true := by
  obtain rfl := List.mem_singleton.mp hx
  exact (by decide : Kind.isClusterScoped "Namespace" = true)

/-! ### The entries of a file -/

namespace Project

variable {ns : String} {v : Value} {d : Definition} {file : ProjectFile} {ds : List Definition}

theorem definitionOf_eq_ok_iff {ns : Option String} :
    definitionOf ns v = .ok d ↔ decode types (fillNamespace ns v) = .ok d := by
  unfold definitionOf
  split <;> simp [*]

/-- What a file names as its namespace is given to an entry that names none. -/
theorem field?_fillNamespace (hv : v.isMapping = true) :
    (fillNamespace (some ns) v).field? "namespace" =
      (v.field? "namespace").or (some (.text ns)) := by
  cases v with
  | mapping entries => exact Assoc.get?_insertNew entries "namespace" "namespace" (.text ns)
  | _ => exact absurd hv nofun

theorem ns_of_entry {w : Value} (h : IsEntry types v w d)
    (hns : w.field? "namespace" = some (.text ns)) : d.info.ns = ns := by
  obtain ⟨entries, rfl, -⟩ := of_decode h.decode
  exact ns_of_decode h.decode hns

theorem ns_of_definitionOf (h : definitionOf (some ns) v = .ok d)
    (hns : v.field? "namespace" = none) : d.info.ns = ns := by
  rw [definitionOf_eq_ok_iff] at h
  have hv : v.isMapping = true := by
    obtain ⟨entries, hmapping, -⟩ := of_decode h
    cases v with
    | mapping => rfl
    | _ => exact absurd hmapping nofun
  refine ns_of_entry (.self h) ?_
  rw [field?_fillNamespace hv, hns]
  rfl

theorem mem_units_united {u : Definition × List Meta} (hu : u ∈ (united file ds).units) :
    ∃ d ∈ ds, ∃ groups, (u.1, groups) ∈ d.units := by
  have hgroup : u ∈ (group { name := file.name, ns := file.ns.getD defaultNamespace } ds
      false).units → ∃ d ∈ ds, ∃ groups, (u.1, groups) ∈ d.units := by
    intro hu
    rw [units, memberUnits_eq] at hu
    obtain ⟨w, hw, rfl⟩ := List.mem_map.mp hu
    obtain ⟨d, hd, hw⟩ := List.mem_flatMap.mp hw
    exact ⟨d, hd, w.2, hw⟩
  unfold united at hu
  split at hu
  · exact ⟨_, List.mem_singleton_self _, u.2, hu⟩
  · exact hgroup hu

theorem ns_united (h : ds.length ≠ 1) : (united file ds).info.ns =
    file.ns.getD defaultNamespace := by
  unfold united
  split
  · exact absurd rfl h
  · rfl

theorem ofYaml_eq_ok {s : String} {p : Project} (h : ofYaml s = .ok p) :
    ∃ ds, p.file.definitions.mapM (definitionOf p.file.ns) = .ok ds ∧
      p.definition = united p.file ds := by
  unfold ofYaml at h
  split at h
  · unfold ofFile at h
    split at h
    · exact absurd h nofun
    · obtain ⟨ds, hds, h⟩ := bind_eq_ok_iff.mp h
      obtain rfl := Except.ok.inj h
      exact ⟨ds, hds, rfl⟩
  · exact absurd h nofun

/-- Let a file that is accepted name a namespace. An entry of the file that names none is in that
one, and so is the group that several entries are united in. An entry at any depth that names one is
in it. Each entry but a group has its records in its own namespace, unless they were given places
of their own, and every record of the project that lives in a namespace comes from such an entry. -/
theorem namespace_of_entries {s : String} {p : Project} (h : ofYaml s = .ok p)
    (hns : p.file.ns = some ns) :
    (∀ v ∈ p.file.definitions, v.field? "namespace" = none →
      ∃ d, definitionOf (some ns) v = .ok d ∧ d.info.ns = ns) ∧
    (p.file.definitions.length ≠ 1 → p.definition.info.ns = ns) ∧
    (∀ v ∈ p.file.definitions, ∀ w e, IsEntry types (fillNamespace (some ns) v) w e →
      (∀ own, w.field? "namespace" = some (.text own) → e.info.ns = own) ∧
        (e.IsUnit → ∀ files, e.PlacesRecords files)) ∧
    ∀ files rs, p.definition.records files = .ok rs → ∀ r ∈ rs,
      Kind.isClusterScoped r.kind = false →
        ∃ v ∈ p.file.definitions, ∃ w e, IsEntry types (fillNamespace (some ns) v) w e ∧ e.IsUnit ∧
          ∃ own, e.records files = .ok own ∧ ∃ x ∈ own, Record.Extends x r ∧
            r.namespace? = x.namespace? := by
  obtain ⟨ds, hds, hdefinition⟩ := ofYaml_eq_ok h
  rw [hns] at hds
  refine ⟨fun v hv hnone => ?_, fun hlength => ?_, fun v _ w e he => ⟨?_, ?_⟩, ?_⟩
  · obtain ⟨d, -, hd⟩ := exists_mem_of_mapM hds hv
    exact ⟨d, hd, ns_of_definitionOf hd hnone⟩
  · rw [hdefinition, ns_united (length_of_mapM hds ▸ hlength), hns]
    rfl
  · exact fun own => ns_of_entry he
  · exact fun hunit files => hunit.placesRecords files
  · intro files rs hrs r hr hscope
    obtain ⟨u, hu, own, hown, x, hx, rfl⟩ := exists_unit_of_mem hrs hr
    rw [hdefinition] at hu
    obtain ⟨d, hd, groups, hmem⟩ := mem_units_united hu
    obtain ⟨v, hv, hdecode⟩ := exists_of_mem_mapM hds hd
    have hunit := isUnit_of_mem_units u (hdefinition ▸ hu)
    have hextends := extends_labelledBy u.2 x
    rw [definitionOf_eq_ok_iff] at hdecode
    obtain ⟨w, hw⟩ | ⟨name, hnamed⟩ := entry_of_mem_units hdecode _ hmem
    · exact ⟨v, hv, w, u.1, hw, hunit, own, hown, x, hx, hextends, namespace?_labelledBy u.2 x⟩
    · rw [hnamed] at hown
      obtain rfl := Except.ok.inj hown
      rw [hextends.kind, NamespaceDefinition.isClusterScoped_of_named hx] at hscope
      exact absurd hscope nofun

/-- A file with an application and a group, in which a job has a namespace of its own. -/
theorem namespace_of_entries_shop :
    let text := "name: shop\nnamespace: shop\nbuilders:\n- type: App\n  name: web\n" ++
      "- type: AppGroup\n  name: nightly\n  members:\n  - type: Job\n    name: report\n" ++
      "    namespace: jobs\n"
    ∃ p, ofYaml text = .ok p ∧ p.file.ns = some "shop" ∧ p.definition.info.ns = "shop" ∧
      p.file.definitions.length = 2 ∧ ∀ v ∈ p.file.definitions,
        ∃ d, definitionOf (some "shop") v = .ok d ∧ d.info.ns = "shop" := by
  intro text
  obtain ⟨p, hp, hcheck⟩ := exists_ok_of_any (x := ofYaml text) (q := fun p =>
    p.file.ns == some "shop" && p.file.definitions.length == 2 &&
      p.file.definitions.all fun v => (v.field? "namespace").isNone) (by decide +kernel)
  simp only [Bool.and_eq_true, beq_iff_eq, List.all_eq_true, Option.isNone_iff_eq_none] at hcheck
  obtain ⟨⟨hns, hlength⟩, hnone⟩ := hcheck
  obtain ⟨hentries, hgroup, -, -⟩ := namespace_of_entries hp hns
  exact ⟨p, hp, hns, hgroup (by omega), hlength, fun v hv => hentries v hv (hnone v hv)⟩

/-- Neither the application nor the group names a namespace, and nor does the job in the group. The
ConfigMap of the application names another one than the file does. It stays there, and the job is in
the default one. -/
theorem not_all_in_shop :
    let text := "name: shop\nnamespace: shop\nbuilders:\n- type: App\n  name: web\n" ++
      "  configMaps:\n  - name: settings\n    namespace: shared\n" ++
      "- type: AppGroup\n  name: nightly\n  members:\n  - type: Job\n    name: report\n"
    ∃ p rs, ofYaml text = .ok p ∧ p.file.ns = some "shop" ∧
      (∀ v ∈ p.file.definitions, v.field? "namespace" = none) ∧
      p.definition.records .empty = .ok rs ∧
      rs.map Record.identity = [⟨"Deployment", "web", some "shop"⟩,
        ⟨"ConfigMap", "settings", some "shared"⟩, ⟨"Job", "report", some "default"⟩] := by
  intro text
  obtain ⟨p, hp, hcheck⟩ := exists_ok_of_any (x := ofYaml text) (q := fun p =>
    p.file.ns == some "shop" &&
      (p.file.definitions.all fun v => (v.field? "namespace").isNone) &&
      (p.definition.records .empty).toOption.any fun rs =>
        rs.map Record.identity == [⟨"Deployment", "web", some "shop"⟩,
          ⟨"ConfigMap", "settings", some "shared"⟩, ⟨"Job", "report", some "default"⟩])
    (by decide +kernel)
  simp only [Bool.and_eq_true, beq_iff_eq, List.all_eq_true, Option.isNone_iff_eq_none] at hcheck
  obtain ⟨⟨hns, hnone⟩, hrecords⟩ := hcheck
  obtain ⟨rs, hrs, hidentities⟩ := exists_ok_of_any hrecords
  exact ⟨p, rs, hp, hns, hnone, hrs, beq_iff_eq.mp hidentities⟩

end Project

end Rollout
