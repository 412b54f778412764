import Mathlib.Data.List.Nodup
import Rollout.Proofs.App.Nested
import Rollout.Proofs.App.Reference
import Rollout.Proofs.Definition.Unit

/-!
# Repeated objects in groups

A group keeps one record of each object, the first. Of what is wrong with a group it tells where two
members have the same type and the same name. So a group with which nothing is wrong keeps the main
records of its members, those of the kinds and the names that the members are called by, apart from
each other. What members have beside their main records is not compared: there a record may be
taken for another one that has the same kind, name and namespace.
-/

namespace Rollout

variable {files : FileTree} {rs part : List Record} {r x y : Record}

/-! ### Main records -/

theorem Workload.eq_of_runsApplication {w : Workload} (h : w.GeneratedTo files part) (hx : x ∈ part)
    (hy : y ∈ part) (hx' : x.RunsApplication) (hy' : y.RunsApplication) : x = y := by
  obtain ⟨z, -, -, -, -, hall⟩ := w.exists_running h
  rw [hall x hx hx', hall y hy hy']

/-- A binding has one record with its name, or one for each of its subjects with longer names. -/
theorem Binding.eq_of_name {scope : RoleScope} {b : Binding} (hx : x ∈ b.records scope)
    (hy : y ∈ b.records scope) (hx' : x.name? = some b.info.name) : x = y := by
  unfold Binding.records at hx hy
  split at hx
  · obtain ⟨s, -, rfl⟩ := List.mem_map.mp hx
    have hlonger : b.info.name ++ "-" ++ s.name = b.info.name := Option.some.inj hx'
    have hlength := congrArg String.length hlonger
    have hdash : "-".length = 1 := by decide
    rw [String.length_append, String.length_append, hdash] at hlength
    omega
  · rw [if_neg ‹_›] at hy
    rw [List.mem_singleton.mp hx, List.mem_singleton.mp hy]

theorem NamespaceDefinition.eq_of_kind {n : NamespaceDefinition} (hx : x ∈ n.records)
    (hy : y ∈ n.records) (hx' : x.kind = "Namespace") (hy' : y.kind = "Namespace") : x = y := by
  have hfirst : ∀ r ∈ n.records, r.kind = "Namespace" → n.records.head? = some r := by
    intro r hr hkind
    simp only [NamespaceDefinition.records, List.mem_append, List.mem_singleton, Option.mem_toList,
      Option.map_eq_some_iff] at hr
    obtain (rfl | ⟨quota, -, rfl⟩) | ⟨limits, -, rfl⟩ := hr
    · rfl
    · exact absurd hkind (by decide : "ResourceQuota" ≠ "Namespace")
    · exact absurd hkind (by decide : "LimitRange" ≠ "Namespace")
  exact Option.some.inj ((hfirst x hx hx').symm.trans (hfirst y hy hy'))

namespace Definition

/-- The kind of the main record of a definition. Custom kinds and groups have none: the names of
their records are not those that they are called by. -/
def mainKind? : Definition → Option String
  | app _ => some "Deployment"
  | statefulApp _ => some "StatefulSet"
  | customResource _ => none
  | group .. => none
  | d => some d.typeName

/-- The record has the kind and the name that the definition is called by. -/
def IsMain (d : Definition) (r : Record) : Prop :=
  d.mainKind? = some r.kind ∧ r.name? = some d.name

/-- The type of the definitions whose main records are of a kind. -/
def typeOfMain (kind : String) : String :=
  if kind = "Deployment" then "App" else if kind = "StatefulSet" then "StatefulApp" else kind

theorem typeName_of_mainKind? {d : Definition} {kind : String} (h : d.mainKind? = some kind) :
    d.typeName = typeOfMain kind := by
  cases d with
  | customResource | group => exact nomatch h
  | role scope | binding scope =>
    obtain rfl := Option.some.inj h
    cases scope <;> rfl
  | _ =>
    obtain rfl := Option.some.inj h
    rfl

/-- Definitions with a main record of one kind are of one type. -/
theorem typeName_eq_of_isMain {d e : Definition} (hd : d.IsMain x) (he : e.IsMain y)
    (hkind : x.kind = y.kind) : d.typeName = e.typeName := by
  rw [typeName_of_mainKind? hd.1, typeName_of_mainKind? he.1, hkind]

/-- A definition has one main record at most. -/
theorem eq_of_isMain {d : Definition} (h : d.records files = .ok part) (hx : x ∈ part)
    (hy : y ∈ part) (hx' : d.IsMain x) (hy' : d.IsMain y) : x = y := by
  by_cases hsingle : d.IsSingle
  · obtain ⟨z, rfl, -⟩ := describes_of_isSingle hsingle h
    rw [List.mem_singleton.mp hx, List.mem_singleton.mp hy]
  · obtain ⟨hxkind, hxname⟩ := hx'
    obtain ⟨hykind, -⟩ := hy'
    cases d with
    | app a =>
      exact a.workload.eq_of_runsApplication (.inl ⟨a, rfl, h⟩) hx hy
        (.inl (Option.some.inj hxkind).symm) (.inl (Option.some.inj hykind).symm)
    | statefulApp a =>
      exact a.workload.eq_of_runsApplication (.inr ⟨a, rfl, h⟩) hx hy
        (.inr (Option.some.inj hxkind).symm) (.inr (Option.some.inj hykind).symm)
    | binding scope b =>
      obtain rfl := Except.ok.inj h
      exact Binding.eq_of_name hx hy hxname
    | ofNamespace n =>
      obtain rfl := Except.ok.inj h
      exact NamespaceDefinition.eq_of_kind hx hy (Option.some.inj hxkind).symm
        (Option.some.inj hykind).symm
    | customResource | group => exact nomatch hxkind
    | _ => exact absurd trivial hsingle

/-! ### Groups with which nothing is wrong -/

/-- What tells the members of a group apart. -/
def key (d : Definition) : String × String := (d.typeName, d.name)

theorem memberProblems_eq_nil {groupName : String} {seen : List (String × String)}
    {ds : List Definition} (h : memberProblems files groupName seen ds = []) :
    (ds.map key).Nodup ∧ ∀ d ∈ ds, key d ∉ seen := by
  induction ds generalizing seen with
  | nil => exact ⟨List.nodup_nil, List.forall_mem_nil _⟩
  | cons d ds ih =>
    simp only [memberProblems, List.append_eq_nil_iff] at h
    obtain ⟨⟨hseen, -⟩, hrest⟩ := h
    obtain ⟨hnodup, hnew⟩ := ih hrest
    have hd : key d ∉ seen := by
      intro hmem
      have hcontains : seen.contains (d.typeName, d.name) = true := List.contains_iff_mem.mpr hmem
      rw [if_pos hcontains] at hseen
      exact List.cons_ne_nil _ _ hseen
    refine ⟨?_, ?_⟩
    · rw [List.map_cons, List.nodup_cons]
      refine ⟨fun hmem => ?_, hnodup⟩
      obtain ⟨e, he, hkey⟩ := List.mem_map.mp hmem
      exact hnew e he (hkey ▸ List.mem_cons_self)
    · refine List.forall_mem_cons.mpr ⟨hd, fun e he hmem => hnew e he ?_⟩
      exact List.mem_cons_of_mem _ hmem

/-- Nothing is wrong with a group only if no two members have the same type and name. -/
theorem nodup_key_of_problems {info : Meta} {members : List Definition} {create : Bool}
    (h : (group info members create).problems files = []) : (members.map key).Nodup := by
  simp only [problems, List.append_eq_nil_iff] at h
  exact (memberProblems_eq_nil h.2).1

/-- The record is the main one of a member of a group. -/
def IsMainOf (files : FileTree) (members : List Definition) (r : Record) : Prop :=
  ∃ d ∈ members, ∃ part, d.records files = .ok part ∧ r ∈ part ∧ d.IsMain r

/-- Main records of a group are told apart by their kinds and names. -/
theorem eq_of_isMainOf {members : List Definition} (hkeys : (members.map key).Nodup)
    (hx : IsMainOf files members x) (hy : IsMainOf files members y)
    (hid : x.identity = y.identity) : x = y := by
  obtain ⟨d, hd, own, hown, hx, hxmain⟩ := hx
  obtain ⟨e, he, other, hother, hy, hymain⟩ := hy
  obtain ⟨hkind, hname, -⟩ := Identity.mk.inj hid
  have hkey : key d = key e := by
    rw [Record.name, Record.name, hxmain.2, hymain.2] at hname
    exact Prod.ext (typeName_eq_of_isMain hxmain hymain hkind) hname
  obtain rfl := List.inj_on_of_nodup_map hkeys hd he hkey
  obtain rfl := Except.ok.inj (hown.symm.trans hother)
  exact eq_of_isMain hown hx hy hxmain hymain

/-- If nothing is wrong with a group, a record of its namespace or of a member is kept, unless
another record of the same object is. Of the two records, not both are main records of members. -/
theorem kept_or_replaced {info : Meta} {members : List Definition} {create : Bool}
    (hproblems : (group info members create).problems files = [])
    (h : (group info members create).records files = .ok rs) : ∃ parts,
      List.Forall₂ (fun d part => d.records files = .ok part) members parts ∧
        ∀ x ∈ namespaceRecords info create ++ parts.flatten, labelMember info x ∈ rs ∨
          ∃ k ∈ namespaceRecords info create ++ parts.flatten, labelMember info k ∈ rs ∧
            k.identity = x.identity ∧ labelMember info k ≠ labelMember info x ∧
              ¬ (IsMainOf files members k ∧ IsMainOf files members x) := by
  obtain ⟨parts, hparts, hrs⟩ := records_group_eq_ok_iff.mp h
  -- records are labelled before repeated ones are taken out, but labels leave identities alone
  have hlabelled : (Record.distinct (namespaceRecords info create ++ parts.flatten)).map
      (labelMember info) = rs := by
    rw [← hrs, groupRecords, Record.distinct, Record.distinct,
      Record.distinctFrom_map (identity_labelMember info)]
  refine ⟨parts, hparts, fun x hx => ?_⟩
  by_cases hkept : labelMember info x ∈ rs
  · exact .inl hkept
  · obtain hx' | ⟨k, hk, hid, hne⟩ := Record.mem_distinct_or hx
    · exact absurd (hlabelled ▸ List.mem_map_of_mem hx') hkept
    · have hkmem : labelMember info k ∈ rs := hlabelled ▸ List.mem_map_of_mem hk
      refine .inr ⟨k, Record.mem_of_mem_distinct hk, hkmem, hid, fun he => hkept (he ▸ hkmem), ?_⟩
      rintro ⟨hkmain, hxmain⟩
      exact hne (eq_of_isMainOf (nodup_key_of_problems hproblems) hkmain hxmain hid)

/-- A Service for another port of the application `web`. -/
def webService : Service := (Service.named "web").withPort 9090

/-- An application, which has a Service of its own, and a Service of the same name. -/
def storefront : List Definition :=
  [app { workload := ((Workload.named "web").withImage "web:1.2").withPort 80 }, service webService]

theorem kept_or_replaced_storefront :
    (group { name := "shop" } storefront false).problems .empty = [] ∧
      ∃ rs, (group { name := "shop" } storefront false).records .empty = .ok rs ∧ ∃ parts,
        List.Forall₂ (fun d part => d.records .empty = .ok part) storefront parts ∧
          ∀ x ∈ parts.flatten, labelMember { name := "shop" } x ∈ rs ∨
            ∃ k ∈ parts.flatten, labelMember { name := "shop" } k ∈ rs ∧ k.identity = x.identity ∧
              ¬ (IsMainOf .empty storefront k ∧ IsMainOf .empty storefront x) := by
  have hproblems : (group { name := "shop" } storefront false).problems .empty = [] := by
    decide +kernel
  obtain ⟨rs, hrs⟩ : ∃ rs, (group { name := "shop" } storefront false).records .empty = .ok rs :=
    ⟨_, rfl⟩
  obtain ⟨parts, hparts, hall⟩ := kept_or_replaced hproblems hrs
  refine ⟨hproblems, rs, hrs, parts, hparts, fun x hx => ?_⟩
  exact (hall x hx).imp_right fun ⟨k, hk, hkept, hid, _, hmain⟩ => ⟨k, hk, hkept, hid, hmain⟩

/-- Nothing is wrong with this group. The record of its Service is lost all the same: the Service of
the application is kept in its place. -/
theorem storefront_loses_service :
    (group { name := "shop" } storefront false).problems .empty = [] ∧
      ∃ rs, (group { name := "shop" } storefront false).records .empty = .ok rs ∧
        ∀ x ∈ webService.records, labelMember { name := "shop" } x ∉ rs ∧
          ∃ k ∈ rs, k.identity = x.identity ∧ k ≠ labelMember { name := "shop" } x := by
  refine ⟨by decide +kernel, _, rfl, ?_⟩
  decide +kernel

end Definition

end Rollout
