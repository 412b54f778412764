import Rollout.Proofs.Definition.Unit

/-!
# What is kept of a unit

A group keeps the first record of each object, and so do the manifests that are made of records. Of
a unit they keep the first record of each of its objects, if no unit before it has a record of the
same object. In manifests a record may first be put into a namespace, so it is the object to which
it is applied that counts.
-/

namespace Rollout

/-- The object to which a record is applied: in the default namespace, if it is in none and its kind
lives in one. -/
def Identity.applied (id : Identity) : Identity :=
  { id with
    namespaceName :=
      if Kind.isClusterScoped id.kind then id.namespaceName
      else some (id.namespaceName.getD defaultNamespace) }

theorem Identity.applied_placed (kind name ns : String) :
    (placed kind name ns).applied = placed kind name ns := by
  unfold applied placed
  cases Kind.isClusterScoped kind <;> rfl

theorem Manifest.identity_completed (o : ManifestOptions) (r : Record) :
    (completed o r).identity = r.identity.applied := by
  have hcompletes := completes_completed o r
  have hkind := hcompletes.toExtends.kind
  have hname : (completed o r).name = r.name := by
    rw [Record.name, hcompletes.toExtends.name?, Record.name]
  rw [Record.identity, hcompletes.ns, hkind, hname]
  rfl

namespace Record

/-- Of each object that has a record among some of a unit, the first such record is kept, and no
other one of the object is there. -/
structure KeepsFirst (own out : List Record) : Prop where
  kept : ∀ x ∈ distinct own, ∃ r ∈ out, Extends x r ∧ r.identity = x.identity
  only : ∀ r ∈ out, r.identity ∈ own.map identity → ∃ x ∈ distinct own, Extends x r

variable {own out : List Record}

theorem KeepsFirst.congr {out' : List Record} (h : KeepsFirst own out)
    (hout : ∀ r, r ∈ out' ↔ r ∈ out) : KeepsFirst own out' where
  kept := by
    intro x hx
    obtain ⟨r, hr, hkept⟩ := h.kept x hx
    exact ⟨r, (hout r).mpr hr, hkept⟩
  only := fun r hr => h.only r ((hout r).mp hr)

/-- Records that are changed in passing, behind others of other objects. -/
theorem keepsFirst_distinct {f : Record → Record}
    (hf : ∀ x ∈ own, Extends x (f x) ∧ (f x).identity = x.identity) {before : List Record}
    (hbefore : ∀ y ∈ before, y.identity ∉ own.map identity) (after : List Record) :
    KeepsFirst own (distinct (before ++ (own.map f ++ after))) := by
  have hkept : ∀ x ∈ distinct own, f x ∈ distinct (before ++ (own.map f ++ after)) := by
    intro x hx
    have hmem := mem_of_mem_distinct hx
    obtain ⟨first, rest, rfl, hfirst⟩ := mem_distinct_iff.mp hx
    refine mem_distinct_iff.mpr ⟨before ++ first.map f, rest.map f ++ after, by simp, ?_⟩
    rw [(hf x hmem).2]
    refine List.forall_mem_append.mpr ⟨fun y hy he => ?_, List.forall_mem_map.mpr fun y hy => ?_⟩
    · exact hbefore y hy (he ▸ List.mem_map_of_mem hmem)
    · rw [(hf y (List.mem_append_left _ hy)).2]
      exact hfirst y hy
  refine ⟨fun x hx => ⟨f x, hkept x hx, hf x (mem_of_mem_distinct hx)⟩, fun r hr hid => ?_⟩
  obtain ⟨y, hy, hyr⟩ := List.mem_map.mp hid
  obtain ⟨x, hx, hxy⟩ := exists_mem_distinct_identity hy
  have hfx := hf x (mem_of_mem_distinct hx)
  -- no two records that are kept are of one object
  have hsame : (f x).identity = r.identity := by rw [hfx.2, hxy, hyr]
  have heq := List.inj_on_of_nodup_map (nodup_distinctFrom [] _) (hkept x hx) hr hsame
  exact ⟨x, hx, heq ▸ hfx.1⟩

end Record

namespace Definition

open Record (Extends KeepsFirst)

variable {files : FileTree} {rs own : List Record} {d : Definition}

/-- The records of the units before one, those of the unit itself and those of the units behind
it. -/
theorem exists_split_of_generate {before after : List (Definition × List Meta)}
    {u : Definition × List Meta} {parts : List (List Record)}
    (h : Generate files (before ++ u :: after) parts) (hown : u.1.records files = .ok own) :
    ∃ first rest, parts.flatten = first ++ (own.map (labelledBy u.2) ++ rest) ∧
      ∀ y ∈ first, ∃ v ∈ before, ∃ part, v.1.records files = .ok part ∧
        ∃ x ∈ part, y.identity = x.identity := by
  induction before generalizing parts with
  | nil =>
    obtain ⟨part, rest, hpart, -, rfl⟩ := List.forall₂_cons_left_iff.mp h
    have hsame : part = own.map (labelledBy u.2) := by
      rw [unitRecords, hown] at hpart
      exact (Except.ok.inj hpart).symm
    exact ⟨[], rest.flatten, by rw [← hsame]; rfl, fun _ hy => absurd hy List.not_mem_nil⟩
  | cons v before ih =>
    obtain ⟨part, rest, hpart, hrest, rfl⟩ := List.forall₂_cons_left_iff.mp h
    obtain ⟨first, behind, hsplit, hfirst⟩ := ih hrest
    obtain ⟨xs, hxs, rfl⟩ := map_eq_ok_iff.mp hpart
    refine ⟨xs.map (labelledBy v.2) ++ first, behind, ?_, ?_⟩
    · rw [List.flatten_cons, hsplit, List.append_assoc]
    · refine List.forall_mem_append.mpr ⟨List.forall_mem_map.mpr fun x hx => ?_, fun y hy => ?_⟩
      · exact ⟨v, List.mem_cons_self, xs, hxs, x, hx, identity_labelledBy v.2 x⟩
      · obtain ⟨w, hw, hy⟩ := hfirst y hy
        exact ⟨w, List.mem_cons_of_mem v hw, hy⟩

/-- What is kept of a unit when the records of all units are changed in passing. -/
theorem keepsFirst_map {before after : List (Definition × List Meta)} {u : Definition × List Meta}
    (h : d.records files = .ok rs) (hunits : d.units = before ++ u :: after)
    (hown : u.1.records files = .ok own) {f : Record → Record} (hf : ∀ r, Extends r (f r))
    (hsame : ∀ r s, r.identity = s.identity → (f r).identity = (f s).identity)
    (hstays : ∀ x ∈ own, (f x).identity = x.identity)
    (hfirst : ∀ v ∈ before, ∀ part, v.1.records files = .ok part →
      ∀ y ∈ part, (f y).identity ∉ own.map Record.identity) :
    KeepsFirst own (Record.distinct (rs.map f)) := by
  obtain ⟨parts, hparts, hrs⟩ := records_eq_of_units h
  have hdistinct : Record.distinct (rs.map f) = Record.distinct (parts.flatten.map f) := by
    obtain rfl | rfl := hrs
    · rfl
    · exact Record.distinct_map_distinct hsame _
  rw [hunits] at hparts
  obtain ⟨first, rest, hsplit, hbefore⟩ := exists_split_of_generate hparts hown
  rw [hdistinct, hsplit, List.map_append, List.map_append, List.map_map]
  refine Record.keepsFirst_distinct (fun x hx => ⟨?_, ?_⟩) (List.forall_mem_map.mpr ?_) _
  · exact (extends_labelledBy u.2 x).trans (hf _)
  · exact (hsame _ x (identity_labelledBy u.2 x)).trans (hstays x hx)
  · intro y hy
    obtain ⟨v, hv, part, hpart, x, hx, hid⟩ := hbefore y hy
    rw [hsame y x hid]
    exact hfirst v hv part hpart x hx

/-- Of a unit that is kept apart from those before it, manifests and groups keep the first record of
each object. -/
theorem keepsFirst_of_units {before after : List (Definition × List Meta)}
    {u : Definition × List Meta} (h : d.records files = .ok rs)
    (hunits : d.units = before ++ u :: after) (hown : u.1.records files = .ok own)
    (hplaced : ∀ x ∈ own, x.identity.applied = x.identity)
    (hfirst : ∀ v ∈ before, ∀ part, v.1.records files = .ok part →
      ∀ y ∈ part, y.identity.applied ∉ own.map Record.identity) :
    (∀ o, KeepsFirst own (Manifest.prepare o rs)) ∧ (¬ d.IsUnit → KeepsFirst own rs) := by
  constructor
  · intro o
    have hkept : KeepsFirst own (Record.distinct (rs.map (Manifest.completed o))) := by
      refine keepsFirst_map h hunits hown
        (fun r => (Manifest.completes_completed o r).toExtends) (fun r s hrs => ?_)
        (fun x hx => ?_) fun v hv part hpart y hy => ?_
      · rw [Manifest.identity_completed, Manifest.identity_completed, hrs]
      · rw [Manifest.identity_completed, hplaced x hx]
      · rw [Manifest.identity_completed]
        exact hfirst v hv part hpart y hy
    exact hkept.congr fun r => (Record.sortForApply_perm _).mem_iff
  · intro hgroup
    have hkept : KeepsFirst own (Record.distinct (rs.map id)) := by
      refine keepsFirst_map h hunits hown (fun r => .refl r) (fun r s hrs => hrs)
        (fun x _ => rfl) fun v hv part hpart y hy hid => ?_
      obtain ⟨x, hx, hxy⟩ := List.mem_map.mp hid
      refine hfirst v hv part hpart y hy (List.mem_map.mpr ⟨x, hx, ?_⟩)
      rw [← hplaced x hx, hxy]
      rfl
    rw [List.map_id] at hkept
    cases d with
    | group info members create =>
      obtain ⟨parts, -, rfl⟩ := records_group_eq_ok_iff.mp h
      rwa [groupRecords, Record.distinct_distinct] at hkept
    | _ => exact absurd trivial hgroup

end Definition

end Rollout
