import Rollout.Proofs.Chart.Account
import Rollout.Proofs.Definition.Kept

/-!
# Whom a binding grants its role

A binding grants its role in one record, or in one record for each of its subjects. Such a record is
called by the binding and the name of the subject, while subjects differ in kind and namespace, too.
So subjects of one name share one object, and only the record of the first of them is kept where
repeated objects are taken out: the others are granted the role only if they read like the first.
-/

namespace Rollout

open Record (KeepsFirst)

/-- The role that a binding grants. -/
def Record.roleRef (r : Record) : Value := r.toValue.at "roleRef"

theorem Record.Extends.toValue_at {x r : Record} (h : Extends x r) {key : String}
    (hkey : key ≠ "metadata") : r.toValue.at key = x.toValue.at key :=
  congrArg (fun v : Option Value => v.getD .null) (h.field? hkey)

theorem Subject.name_eq_of_toValue {ns : String} {s t : Subject}
    (h : s.toValue ns = t.toValue ns) : s.name = t.name :=
  Value.text.inj (congrArg (Value.at · "name") h)

namespace Binding

variable {scope : RoleScope} {b : Binding} {s t : Subject} {x r : Record} {rs : List Record}

/-- Each subject has a record of its own. -/
def IsSplit (b : Binding) : Prop := b.onePerSubject = true ∧ 1 < b.subjects.length

/-- Where each subject has a record of its own, the first one that has the name of a subject reads
like it. -/
def Keeps (b : Binding) (s : Subject) : Prop :=
  b.IsSplit → ∀ t, b.subjects.find? (·.name == s.name) = some t →
    t.toValue b.info.ns = s.toValue b.info.ns

/-- The objects that a binding has records of. -/
def objects (scope : RoleScope) (b : Binding) : List Identity :=
  (b.records scope).map Record.identity

/-- The record is one of the binding and grants its role. -/
structure IsGrant (scope : RoleScope) (b : Binding) (r : Record) : Prop where
  object : r.identity ∈ b.objects scope
  kind : r.kind = scope.bindingKind
  roleRef : r.roleRef = b.roleRef.toValue

/-- Of the subjects of a binding just those that it keeps are granted its role by its records, and
nobody else is. -/
structure GrantsKept (scope : RoleScope) (b : Binding) (rs : List Record) : Prop where
  granted : ∀ s ∈ b.subjects, b.Keeps s ↔
    ∃ r ∈ rs, b.IsGrant scope r ∧ s.toValue b.info.ns ∈ r.subjects
  declared : ∀ r ∈ rs, r.identity ∈ b.objects scope → b.IsGrant scope r ∧
    ∀ v ∈ r.subjects, ∃ s ∈ b.subjects, v = s.toValue b.info.ns

/-! ### The records of a binding -/

theorem identity_record (scope : RoleScope) (b : Binding) (name : String)
    (subjects : List Subject) : (b.record scope name subjects).identity =
      .placed scope.bindingKind name b.info.ns := by
  have hscope : Kind.isClusterScoped scope.bindingKind = !scope.isNamespaced := by
    cases scope <;> decide
  exact (Record.describes_of_meta (by decide) hscope _ b.info _).identity

theorem exists_record_of_mem (hx : x ∈ b.records scope) : ∃ name subjects,
    x = b.record scope name subjects ∧ ∀ s ∈ subjects, s ∈ b.subjects := by
  unfold records at hx
  split at hx
  · obtain ⟨s, hs, rfl⟩ := List.mem_map.mp hx
    exact ⟨_, [s], rfl, List.forall_mem_singleton.mpr hs⟩
  · exact ⟨b.info.name, b.subjects, List.mem_singleton.mp hx, fun _ hs => hs⟩

theorem applied_of_mem_records (hx : x ∈ b.records scope) : x.identity.applied = x.identity := by
  obtain ⟨name, subjects, rfl, -⟩ := exists_record_of_mem hx
  rw [identity_record, Identity.applied_placed]

theorem records_of_isSplit (h : b.IsSplit) : b.records scope =
    b.subjects.map fun s => b.record scope (b.info.name ++ "-" ++ s.name) [s] := by
  simp [records, h.1, h.2]

theorem records_of_not_isSplit (h : ¬ b.IsSplit) :
    b.records scope = [b.record scope b.info.name b.subjects] := by
  refine if_neg fun hsplit => h ?_
  rw [Bool.and_eq_true, decide_eq_true_eq] at hsplit
  exact hsplit

/-- Of the subjects of one name the first has the record that is kept. -/
theorem mem_distinct_records_iff (h : b.IsSplit) : x ∈ Record.distinct (b.records scope) ↔
    ∃ t, b.subjects.find? (·.name == t.name) = some t ∧
      x = b.record scope (b.info.name ++ "-" ++ t.name) [t] := by
  have hsame (s t : Subject) :
      (b.record scope (b.info.name ++ "-" ++ s.name) [s]).identity =
        (b.record scope (b.info.name ++ "-" ++ t.name) [t]).identity ↔ s.name = t.name := by
    rw [identity_record, identity_record]
    constructor
    · exact fun he => String.append_right_inj _ |>.mp (congrArg Identity.name he)
    · exact fun he => by rw [he]
  rw [records_of_isSplit h, Record.mem_distinct_iff]
  constructor
  · rintro ⟨before, after, hsplit, hbefore⟩
    obtain ⟨first, rest, hsubjects, rfl, hrest⟩ := List.map_eq_append_iff.mp hsplit
    obtain ⟨t, rest, rfl, rfl, rfl⟩ := List.map_eq_cons_iff.mp hrest
    refine ⟨t, List.find?_eq_some_iff_append.mpr ⟨by simp, first, rest, hsubjects, ?_⟩, rfl⟩
    intro s hs
    have hne := hbefore _ (List.mem_map_of_mem hs)
    rw [ne_eq, hsame] at hne
    simpa using hne
  · rintro ⟨t, hfind, rfl⟩
    obtain ⟨-, first, rest, hsubjects, hfirst⟩ := List.find?_eq_some_iff_append.mp hfind
    rw [hsubjects, List.map_append, List.map_cons]
    refine ⟨_, _, rfl, List.forall_mem_map.mpr fun s hs => ?_⟩
    rw [ne_eq, hsame]
    simpa using hfirst s hs

theorem keeps_iff (hs : s ∈ b.subjects) : b.Keeps s ↔
    ∃ x ∈ Record.distinct (b.records scope), s.toValue b.info.ns ∈ x.subjects := by
  by_cases hsplit : b.IsSplit
  · constructor
    · intro hkeeps
      obtain ⟨t, hfind⟩ : ∃ t, b.subjects.find? (·.name == s.name) = some t := by
        rw [← Option.isSome_iff_exists, List.find?_isSome]
        exact ⟨s, hs, beq_self_eq_true s.name⟩
      have hname : t.name = s.name := by simpa using List.find?_some hfind
      refine ⟨_, (mem_distinct_records_iff hsplit).mpr ⟨t, hname.symm ▸ hfind, rfl⟩, ?_⟩
      rw [← hkeeps hsplit t hfind]
      exact List.mem_singleton_self _
    · rintro ⟨x, hx, hmem⟩ _ u hu
      obtain ⟨t, hfind, rfl⟩ := (mem_distinct_records_iff hsplit).mp hx
      have hvalue := List.mem_singleton.mp hmem
      rw [← Subject.name_eq_of_toValue hvalue, hu] at hfind
      rw [Option.some.inj hfind, hvalue]
  · refine iff_of_true (fun h => absurd h hsplit)
      ⟨b.record scope b.info.name b.subjects, ?_, List.mem_map_of_mem hs⟩
    exact Record.mem_distinct_iff.mpr
      ⟨[], [], records_of_not_isSplit hsplit, fun _ hs => absurd hs List.not_mem_nil⟩

/-- All subjects are kept if and only if those of one name read alike. -/
theorem forall_keeps_iff : (∀ s ∈ b.subjects, b.Keeps s) ↔
    (b.IsSplit → ∀ s ∈ b.subjects, ∀ t ∈ b.subjects, s.name = t.name →
      s.toValue b.info.ns = t.toValue b.info.ns) := by
  constructor
  · intro h hsplit s hs t ht hname
    obtain ⟨u, hu⟩ : ∃ u, b.subjects.find? (·.name == s.name) = some u := by
      rw [← Option.isSome_iff_exists, List.find?_isSome]
      exact ⟨s, hs, beq_self_eq_true s.name⟩
    rw [← h s hs hsplit u hu, ← h t ht hsplit u (hname ▸ hu)]
  · intro h s hs hsplit t ht
    have hname : t.name = s.name := by simpa using List.find?_some ht
    exact h hsplit t (List.mem_of_find?_eq_some ht) s hs hname

/-! ### What is kept of a binding -/

/-- A record that has more labels than one of the binding grants the same role to the same
subjects. -/
theorem isGrant_of_extends (hx : x ∈ b.records scope) (h : Record.Extends x r)
    (hobject : r.identity ∈ b.objects scope) : b.IsGrant scope r ∧ r.subjects = x.subjects := by
  obtain ⟨name, subjects, rfl, -⟩ := exists_record_of_mem hx
  refine ⟨⟨hobject, h.kind, h.toValue_at (by decide)⟩, ?_⟩
  rw [Record.subjects, h.toValue_at (by decide), Record.subjects]

theorem grantsKept_of_keepsFirst (h : KeepsFirst (b.records scope) rs) :
    b.GrantsKept scope rs where
  granted := by
    intro s hs
    have hkeeps : b.Keeps s ↔
        ∃ x ∈ Record.distinct (b.records scope), s.toValue b.info.ns ∈ x.subjects := keeps_iff hs
    rw [hkeeps]
    constructor
    · rintro ⟨x, hx, hv⟩
      have hmem := Record.mem_of_mem_distinct hx
      obtain ⟨r, hr, hextends, hid⟩ := h.kept x hx
      obtain ⟨hgrant, hsubjects⟩ :=
        isGrant_of_extends hmem hextends (hid ▸ List.mem_map_of_mem hmem)
      exact ⟨r, hr, hgrant, hsubjects ▸ hv⟩
    · rintro ⟨r, hr, hgrant, hv⟩
      obtain ⟨x, hx, hextends⟩ := h.only r hr hgrant.object
      obtain ⟨-, hsubjects⟩ :=
        isGrant_of_extends (Record.mem_of_mem_distinct hx) hextends hgrant.object
      exact ⟨x, hx, hsubjects ▸ hv⟩
  declared := by
    intro r hr hobject
    obtain ⟨x, hx, hextends⟩ := h.only r hr hobject
    have hmem := Record.mem_of_mem_distinct hx
    obtain ⟨hgrant, hsubjects⟩ := isGrant_of_extends hmem hextends hobject
    refine ⟨hgrant, fun v hv => ?_⟩
    obtain ⟨name, subjects, rfl, hall⟩ := exists_record_of_mem hmem
    rw [hsubjects] at hv
    obtain ⟨s, hs, rfl⟩ := List.mem_map.mp hv
    exact ⟨s, hall s hs, rfl⟩

/-- Where no unit before a binding has a record of one of its objects, its records in manifests, and
in those of a group around it, grant its role to its own subjects alone, and to just those that are
kept. These are all of them if and only if they stand in one record or those of one name read
alike. -/
theorem grants_kept {files : FileTree} {d : Definition}
    {before after : List (Definition × List Meta)} {groups : List Meta}
    (h : d.records files = .ok rs)
    (hunits : d.units = before ++ (.binding scope b, groups) :: after)
    (hfirst : ∀ u ∈ before, ∀ part, u.1.records files = .ok part →
      ∀ y ∈ part, y.identity.applied ∉ b.objects scope) :
    (∀ o, b.GrantsKept scope (Manifest.prepare o rs)) ∧ (¬ d.IsUnit → b.GrantsKept scope rs) ∧
      ((∀ s ∈ b.subjects, b.Keeps s) ↔
        (b.IsSplit → ∀ s ∈ b.subjects, ∀ t ∈ b.subjects, s.name = t.name →
          s.toValue b.info.ns = t.toValue b.info.ns)) := by
  obtain ⟨hprepared, hgroup⟩ := Definition.keepsFirst_of_units h hunits rfl
    (fun _ hx => applied_of_mem_records hx) hfirst
  exact ⟨fun o => grantsKept_of_keepsFirst (hprepared o),
    fun hd => grantsKept_of_keepsFirst (hgroup hd), forall_keeps_iff⟩

/-- A role and a binding with one record for each of its subjects, as the members of a group. -/
theorem grants_kept_deploy :
    let b := ((named "deploy" (.role "deployer")).addSubject (.serviceAccount "ci")).addSubject
      (.user "ann")
    let split := { b with onePerSubject := true }
    let d := Definition.group { name := "team" }
      [.role .namespaced (.named "deployer"), .binding .namespaced split] false
    ∃ rs, d.records .empty = .ok rs ∧ (∀ s ∈ split.subjects, split.Keeps s) ∧
      split.GrantsKept .namespaced rs ∧
      ∀ o, split.GrantsKept .namespaced (Manifest.prepare o rs) := by
  intro b split d
  obtain ⟨rs, hrs⟩ : ∃ rs, d.records .empty = .ok rs := ⟨_, rfl⟩
  have hunits : d.units = [(.role .namespaced (.named "deployer"), [{ name := "team" }])] ++
      (.binding .namespaced split, [{ name := "team" }]) :: [] := rfl
  obtain ⟨hprepared, hgroup, hall⟩ := grants_kept hrs hunits fun u hu part hpart y hy => by
    obtain rfl := List.mem_singleton.mp hu
    obtain rfl := Except.ok.inj hpart
    obtain rfl := List.mem_singleton.mp hy
    decide +kernel
  refine ⟨rs, hrs, hall.mpr fun _ => ?_, hgroup id, hprepared⟩
  decide +kernel

/-- A user and a service account of one name. The account is not granted the role. -/
theorem not_granted_ci :
    let b := ((named "deploy" (.role "deployer")).addSubject (.user "ci")).addSubject
      (.serviceAccount "ci")
    let split := { b with onePerSubject := true }
    split.subjects.Nodup ∧ ∀ o, ∀ r ∈ Manifest.prepare o (split.records .namespaced),
      (Subject.serviceAccount "ci").toValue split.info.ns ∉ r.subjects := by
  intro b split
  refine ⟨by decide, fun o r hr hmem => ?_⟩
  have hunits : (Definition.binding .namespaced split).units =
      [] ++ (.binding .namespaced split, []) :: [] := rfl
  have hrecords : (Definition.binding .namespaced split).records .empty =
      .ok (split.records .namespaced) := rfl
  obtain ⟨hprepared, -⟩ := Definition.keepsFirst_of_units hrecords hunits rfl
    (fun _ hx => applied_of_mem_records hx) fun _ hu => absurd hu List.not_mem_nil
  have hkept := grantsKept_of_keepsFirst (hprepared o)
  have hobject : r.identity ∈ split.objects .namespaced := by
    obtain ⟨before, x, after, hsplit, rfl, -⟩ := (Manifest.mem_prepare_iff o).mp hr
    have hx : x ∈ split.records .namespaced := hsplit ▸ List.mem_append_right _ List.mem_cons_self
    rw [Manifest.identity_completed, applied_of_mem_records hx]
    exact List.mem_map_of_mem hx
  have hlost : ¬ split.Keeps (.serviceAccount "ci") := fun hkeeps =>
    absurd (hkeeps ⟨rfl, by decide⟩ (.user "ci") (by decide)) (by decide)
  refine hlost ((hkept.granted _ (by decide)).mpr ⟨r, hr, ?_, hmem⟩)
  exact (hkept.declared r hr hobject).1

end Binding

end Rollout
