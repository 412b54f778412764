import Rollout.Proofs.Definition.Kind

/-!
# Complete records

If no name in a definition is empty, all its records have a version, a kind and a name. They have
a namespace just if their kind lives in one. The exception are the objects of a custom kind whose
scope is the whole cluster: nothing in their kind tells that they have none.
-/

namespace Rollout

variable {files : FileTree} {rs : List Record} {r : Record}

namespace Definition

mutual

/-- The names that are given in a definition: its own and those of all that is nested in it, those
of a custom kind and its objects, and those of the members of a group and of the namespace that it
asks for. -/
def names : Definition → List String
  | customResource c => c.info.name :: c.kind :: c.instances.map (·.name)
  | group info members create =>
    info.name :: (if create then [info.ns] else []) ++ memberNames members
  | d => d.unitNames

/-- The names that are given in several definitions. -/
def memberNames : List Definition → List String
  | [] => []
  | d :: ds => names d ++ memberNames ds

end

theorem memberNames_eq (ds : List Definition) : memberNames ds = ds.flatMap names := by
  induction ds with
  | nil => rfl
  | cons d ds ih => rw [memberNames, ih, List.flatMap_cons]

theorem IsUnit.unitNames_subset {d : Definition} (hd : d.IsUnit) : d.unitNames ⊆ d.names := by
  cases d with
  | group => exact hd.elim
  | customResource c => exact List.cons_subset.mpr ⟨List.mem_cons_self, List.nil_subset _⟩
  | _ => exact List.Subset.refl _

theorem names_subset_of_mem_units {d : Definition} : ∀ u ∈ d.units, u.1.names ⊆ d.names := by
  refine forall_mem_units (P := fun d u => u.1.names ⊆ d.names) (fun _ _ => List.Subset.refl _)
    (fun info members => ?_) (fun info members create d hd u _ hu name hname => ?_) d
  · have hns : info.ns ∈ (group info members true).names :=
      List.mem_cons_of_mem _ List.mem_cons_self
    exact List.cons_subset.mpr ⟨hns, List.nil_subset _⟩
  · rw [names, memberNames_eq]
    exact List.mem_append_right _ (List.mem_flatMap.mpr ⟨d, hd, hu hname⟩)

/-- The record is an object of a custom kind whose scope is the whole cluster. -/
def HasClusterObject (d : Definition) (r : Record) : Prop :=
  ∃ u ∈ d.units, ∃ c, u.1 = customResource c ∧ c.scope = .cluster ∧
    ∃ i ∈ c.instances, r = labelledBy u.2 (c.instanceRecord i)

theorem HasClusterObject.has_namespace {d : Definition} (h : d.HasClusterObject r) :
    r.metadata.has "namespace" = false := by
  obtain ⟨u, -, c, -, hscope, i, -, rfl⟩ := h
  have hdescribes := c.describes_instanceRecord i
  rw [hscope] at hdescribes
  exact (describes_labelledBy u.2 hdescribes).has_namespace

section

variable {d : Definition} (hnames : "" ∉ d.names)
  (hkinds : ∀ kind ∈ d.customKinds, Kind.isClusterScoped kind = false)
include hnames hkinds

/-- The object that a record of a unit describes, before and after the groups around the unit
have labelled it. -/
theorem exists_describes_of_mem_units {u : Definition × List Meta} (hu : u ∈ d.units)
    {own : List Record} (hown : u.1.records files = .ok own) {x : Record} (hx : x ∈ own) :
    ∃ id, x.Describes id ∧ id.kind ≠ "" ∧ id.name ≠ "" ∧
      (id.namespaceName.isSome = !Kind.isClusterScoped id.kind ∨
        d.HasClusterObject (labelledBy u.2 x)) := by
  have hunit := isUnit_of_mem_units u hu
  have hsubset := names_subset_of_mem_units u hu
  obtain ⟨kind, hkind, name, ns, hname, hdescribes⟩ | ⟨c, hc, i, hi, rfl⟩ :=
    hunit.isBuiltin_or_instance hown hx
  · have hbuiltin : ∀ kind ∈ Kind.builtin, kind ≠ "" := by decide
    refine ⟨_, hdescribes, hbuiltin kind hkind, ?_, .inl ?_⟩
    · exact hname fun hmem => hnames (hsubset (hunit.unitNames_subset hmem))
    · rw [Identity.placed]
      cases Kind.isClusterScoped kind <;> rfl
  · have hgiven : ∀ name ∈ c.info.name :: c.kind :: c.instances.map (·.name), name ≠ "" := by
      intro name hname he
      rw [hc] at hsubset
      exact hnames (hsubset (he ▸ hname))
    have hscope : Kind.isClusterScoped c.kind = false := by
      refine hkinds c.kind (customKinds_subset_of_mem_units u hu ?_)
      rw [hc]
      exact List.mem_singleton_self c.kind
    refine ⟨_, c.describes_instanceRecord i, hgiven c.kind (by simp), hgiven i.name ?_, ?_⟩
    · exact List.mem_cons_of_mem _ (List.mem_cons_of_mem _ (List.mem_map_of_mem hi))
    · cases hcluster : c.scope with
      | namespaced => exact .inl (by rw [hscope]; rfl)
      | cluster => exact .inr ⟨u, hu, c, hc, hcluster, i, hi, rfl⟩

/-- Where all names are given and no custom kind is one that never lives in a namespace, every
record is complete, and it has a namespace just if its kind lives in one and it is not an object of
a custom kind for the whole cluster. -/
theorem complete_of_records (h : d.records files = .ok rs) : ∀ r ∈ rs,
    r.missingFields = [] ∧
      (r.metadata.has "namespace" = true ↔
        Kind.isClusterScoped r.kind = false ∧ ¬ d.HasClusterObject r) := by
  intro r hr
  obtain ⟨u, hu, own, hown, x, hx, rfl⟩ := exists_unit_of_mem h hr
  obtain ⟨id, hobject, hkind, hname, hplace⟩ :=
    exists_describes_of_mem_units hnames hkinds hu hown hx
  have hdescribes := describes_labelledBy u.2 hobject
  refine ⟨hdescribes.missingFields hkind hname, ?_⟩
  by_cases hobject : d.HasClusterObject (labelledBy u.2 x)
  · simp [hobject.has_namespace, hobject]
  · rw [hdescribes.has_namespace, hplace.resolve_right hobject, hdescribes.kind_eq]
    simp [hobject]

end

/-- A group that asks for its namespace, with an application and a custom kind for the whole
cluster. -/
def platform : Definition :=
  let tenants := CustomResource.ofKind "platform.example" "v1" "Tenant"
  group { name := "platform", ns := "ops" }
    [app { workload := .named "web", ingresses := [(Ingress.named "web").withHost "web.example"] },
      customResource { tenants.addInstance "acme" .empty with scope := .cluster }] true

theorem complete_platform : "" ∉ platform.names ∧
    (∀ kind ∈ platform.customKinds, Kind.isClusterScoped kind = false) ∧
    ∃ rs, platform.records .empty = .ok rs ∧ ∀ r ∈ rs,
      r.missingFields = [] ∧
        (r.metadata.has "namespace" = true ↔
          Kind.isClusterScoped r.kind = false ∧ ¬ platform.HasClusterObject r) := by
  have hnames : "" ∉ platform.names := by decide +kernel
  have hkinds : ∀ kind ∈ platform.customKinds, Kind.isClusterScoped kind = false := by
    decide +kernel
  have hgenerates : ∃ rs, platform.records .empty = .ok rs := ⟨_, rfl⟩
  obtain ⟨rs, hrs⟩ := hgenerates
  exact ⟨hnames, hkinds, rs, hrs, complete_of_records hnames hkinds hrs⟩

end Definition

end Rollout
