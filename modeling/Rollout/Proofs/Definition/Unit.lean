import Mathlib.Data.List.Forall2
import Rollout.Definition.Basic
import Rollout.Proofs.Manifest
import Rollout.Proofs.Record.Distinct
import Rollout.Proofs.Record.Object
import Rollout.Proofs.Success

/-!
# The units of a definition

A definition is a tree of groups, whose leaves are the units that have records of their own. The
namespace that a group asks for counts as a unit of it. The records of a definition are those of
its units from left to right, each labelled by the groups around its unit, from the innermost to
the outermost. Each group takes out repeated records, but this comes to taking them out once,
at the end.
-/

namespace Rollout

/-- What stands on the right belongs to something on the left. -/
theorem exists_of_mem_forall₂ {α β : Type} {R : α → β → Prop} {as : List α} {bs : List β}
    (h : List.Forall₂ R as bs) {b : β} (hb : b ∈ bs) : ∃ a ∈ as, R a b := by
  induction h with
  | nil => exact absurd hb List.not_mem_nil
  | @cons a c as bs hac _ ih =>
    obtain rfl | hb := List.mem_cons.mp hb
    · exact ⟨a, List.mem_cons_self, hac⟩
    · obtain ⟨d, hd, hdb⟩ := ih hb
      exact ⟨d, List.mem_cons_of_mem a hd, hdb⟩

namespace Definition

variable {files : FileTree} {rs : List Record} {r : Record}

/-- The definition is not a group. -/
def IsUnit : Definition → Prop
  | group .. => False
  | _ => True

/-- What holds of units, and of groups if it holds of all members, holds of all definitions. -/
@[elab_as_elim]
theorem treeInduction {P : Definition → Prop} (unit : ∀ d, d.IsUnit → P d)
    (group : ∀ info members create, (∀ d ∈ members, P d) → P (group info members create))
    (d : Definition) : P d := by
  cases d with
  | group info members create =>
    exact group info members create fun d hd => treeInduction unit group d
  | _ => exact unit _ trivial
termination_by sizeOf d
decreasing_by
  have hlt := List.sizeOf_lt_of_mem hd
  simp_wf
  omega

/-! ### Labels of groups -/

/-- What a label keeps, the labels of a group keep. -/
theorem labelMember_keeps {P : Record → Prop}
    (hlabel : ∀ r key value, P r → P (r.insertLabel key value)) (info : Meta) (hr : P r) :
    P (labelMember info r) := by
  have hlabels : ∀ (labels : Assoc String) (s : Record), P s →
      P (labels.foldl (fun r label => r.insertLabel label.1 label.2) s) := by
    intro labels
    induction labels with
    | nil => exact fun s hs => hs
    | cons label labels ih => exact fun s hs => ih _ (hlabel s label.1 label.2 hs)
  exact hlabels info.labels _ (hlabel r Label.partOf info.name hr)

theorem extends_labelMember (info : Meta) (r : Record) :
    Record.Extends r (labelMember info r) :=
  labelMember_keeps (fun s key value hs => hs.trans (Manifest.extends_insertLabel s key value))
    info (.refl r)

theorem describes_labelMember (info : Meta) {id : Identity} (h : r.Describes id) :
    (labelMember info r).Describes id :=
  labelMember_keeps (P := (·.Describes id)) (fun _ key value hs => hs.insertLabel key value) info h

theorem namespace?_labelMember (info : Meta) (r : Record) :
    (labelMember info r).namespace? = r.namespace? := by
  refine labelMember_keeps (fun s key value hs => ?_) info (P := (·.namespace? = r.namespace?)) rfl
  exact (Record.namespace?_insertMetadataText s (by decide) key value).trans hs

theorem identity_labelMember (info : Meta) (r : Record) :
    (labelMember info r).identity = r.identity := by
  have hextends := extends_labelMember info r
  rw [Record.identity, Record.name, hextends.kind, hextends.name?, namespace?_labelMember]
  rfl

/-- The labels of several groups around each other, the innermost first. -/
def labelledBy (groups : List Meta) (r : Record) : Record :=
  groups.foldl (fun r info => labelMember info r) r

theorem labelledBy_concat (groups : List Meta) (info : Meta) (r : Record) :
    labelledBy (groups ++ [info]) r = labelMember info (labelledBy groups r) := by
  rw [labelledBy, List.foldl_append]
  rfl

theorem labelledBy_keeps {P : Record → Prop}
    (hmember : ∀ info r, P r → P (labelMember info r)) (groups : List Meta) (hr : P r) :
    P (labelledBy groups r) := by
  induction groups generalizing r with
  | nil => exact hr
  | cons info groups ih => exact ih (hmember info r hr)

theorem describes_labelledBy (groups : List Meta) {id : Identity} (h : r.Describes id) :
    (labelledBy groups r).Describes id :=
  labelledBy_keeps (P := (·.Describes id)) (fun info _ hs => describes_labelMember info hs) groups h

theorem extends_labelledBy (groups : List Meta) (r : Record) :
    Record.Extends r (labelledBy groups r) :=
  labelledBy_keeps (fun info _ hs => hs.trans (extends_labelMember info _)) groups (.refl r)

theorem identity_labelledBy (groups : List Meta) (r : Record) :
    (labelledBy groups r).identity = r.identity :=
  labelledBy_keeps (P := (·.identity = r.identity))
    (fun info s hs => (identity_labelMember info s).trans hs) groups rfl

theorem namespace?_labelledBy (groups : List Meta) (r : Record) :
    (labelledBy groups r).namespace? = r.namespace? :=
  labelledBy_keeps (P := (·.namespace? = r.namespace?))
    (fun info s hs => (namespace?_labelMember info s).trans hs) groups rfl

/-! ### Units and their records -/

/-- The unit for the namespace that a group asks for. -/
def namespaceUnits (info : Meta) (create : Bool) : List (Definition × List Meta) :=
  if create then [(ofNamespace (.named info.ns), [])] else []

mutual

/-- The units of a definition from left to right, each with the groups around it, the innermost
first. -/
def units : Definition → List (Definition × List Meta)
  | group info members create =>
    (namespaceUnits info create ++ memberUnits members).map fun u => (u.1, u.2 ++ [info])
  | d => [(d, [])]

/-- The units of several definitions. -/
def memberUnits : List Definition → List (Definition × List Meta)
  | [] => []
  | d :: ds => units d ++ memberUnits ds

end

theorem memberUnits_eq (ds : List Definition) : memberUnits ds = ds.flatMap units := by
  induction ds with
  | nil => rfl
  | cons d ds ih => rw [memberUnits, ih, List.flatMap_cons]

theorem units_of_isUnit {d : Definition} (hd : d.IsUnit) : d.units = [(d, [])] := by
  cases d with
  | group => exact hd.elim
  | _ => rfl

/-- What a definition has to do with each of its units: what a unit has to do with itself and a
group with the namespace it asks for, if a group has it to do with the units of its members when
those have. -/
theorem forall_mem_units {P : Definition → Definition × List Meta → Prop}
    (self : ∀ d, d.IsUnit → P d (d, []))
    (namespaceUnit : ∀ info members,
      P (group info members true) (ofNamespace (.named info.ns), [info]))
    (member : ∀ info members create, ∀ d ∈ members, ∀ u ∈ d.units, P d u →
      P (group info members create) (u.1, u.2 ++ [info]))
    (d : Definition) : ∀ u ∈ d.units, P d u := by
  induction d using treeInduction with
  | unit d hd =>
    rw [units_of_isUnit hd]
    exact List.forall_mem_singleton.mpr (self d hd)
  | group info members create ih =>
    rw [units, memberUnits_eq, List.forall_mem_map, List.forall_mem_append]
    constructor
    · cases create with
      | false => exact List.forall_mem_nil _
      | true => exact List.forall_mem_singleton.mpr (namespaceUnit info members)
    · intro u hu
      obtain ⟨d, hd, hu⟩ := List.mem_flatMap.mp hu
      exact member info members create d hd u hu (ih d hd u hu)

theorem isUnit_of_mem_units {d : Definition} : ∀ u ∈ d.units, u.1.IsUnit :=
  forall_mem_units (P := fun _ u => u.1.IsUnit) (fun _ hd => hd) (fun _ _ => trivial)
    (fun _ _ _ _ _ _ _ hu => hu) d

/-- The records of a unit, labelled by the groups around it. -/
def unitRecords (files : FileTree) (u : Definition × List Meta) :
    Except SourceError (List Record) :=
  (u.1.records files).map (·.map (labelledBy u.2))

/-- Each unit generates its part. -/
def Generate (files : FileTree) (us : List (Definition × List Meta))
    (parts : List (List Record)) : Prop :=
  List.Forall₂ (fun u part => unitRecords files u = .ok part) us parts

/-- One group more labels the records once more. -/
theorem unitRecords_concat {u : Definition × List Meta} {part : List Record}
    (h : unitRecords files u = .ok part) (info : Meta) :
    unitRecords files (u.1, u.2 ++ [info]) = .ok (part.map (labelMember info)) := by
  obtain ⟨own, hown, rfl⟩ := map_eq_ok_iff.mp h
  refine map_eq_ok_iff.mpr ⟨own, hown, ?_⟩
  rw [List.map_map]
  exact List.map_congr_left fun r _ => labelledBy_concat u.2 info r

theorem Generate.concat {us : List (Definition × List Meta)} {parts : List (List Record)}
    (h : Generate files us parts) (info : Meta) :
    Generate files (us.map fun u => (u.1, u.2 ++ [info]))
      (parts.map (·.map (labelMember info))) := by
  rw [Generate, List.forall₂_map_left_iff, List.forall₂_map_right_iff]
  exact h.imp fun u part hpart => unitRecords_concat hpart info

theorem generate_namespaceUnits (files : FileTree) (info : Meta) (create : Bool) : ∃ parts,
    Generate files (namespaceUnits info create) parts ∧
      parts.flatten = namespaceRecords info create := by
  cases create with
  | false => exact ⟨[], .nil, rfl⟩
  | true =>
    refine ⟨[(NamespaceDefinition.named info.ns).records.map id], .cons rfl .nil, ?_⟩
    rw [List.map_id]
    exact List.append_nil _

theorem memberRecords_cons (files : FileTree) (d : Definition) (ds : List Definition) :
    memberRecords files (d :: ds) =
      d.records files >>= fun own => (memberRecords files ds).map (own ++ ·) := by
  rw [memberRecords]
  cases d.records files with
  | error e => rfl
  | ok own => cases memberRecords files ds <;> rfl

theorem records_group (files : FileTree) (info : Meta) (members : List Definition)
    (create : Bool) : (group info members create).records files =
      (memberRecords files members).map (groupRecords info create) := by
  rw [records]
  cases memberRecords files members <;> rfl

/-- Members succeed together when each of them does. -/
theorem memberRecords_eq_ok_iff {ds : List Definition} : memberRecords files ds = .ok rs ↔
    ∃ parts, List.Forall₂ (fun d part => d.records files = .ok part) ds parts ∧
      parts.flatten = rs := by
  induction ds generalizing rs with
  | nil =>
    simp only [memberRecords, Except.ok.injEq, List.forall₂_nil_left_iff, exists_eq_left,
      List.flatten_nil]
  | cons d ds ih =>
    simp only [memberRecords_cons, bind_eq_ok_iff, map_eq_ok_iff, ih, List.forall₂_cons_left_iff]
    constructor
    · rintro ⟨own, hown, -, ⟨parts, hparts, rfl⟩, rfl⟩
      exact ⟨own :: parts, ⟨own, parts, hown, hparts, rfl⟩, rfl⟩
    · rintro ⟨-, ⟨own, parts, hown, hparts, rfl⟩, rfl⟩
      exact ⟨own, hown, parts.flatten, ⟨parts, hparts, rfl⟩, rfl⟩

theorem records_group_eq_ok_iff {info : Meta} {members : List Definition} {create : Bool} :
    (group info members create).records files = .ok rs ↔ ∃ parts,
      List.Forall₂ (fun d part => d.records files = .ok part) members parts ∧
        groupRecords info create parts.flatten = rs := by
  simp only [records_group, map_eq_ok_iff, memberRecords_eq_ok_iff]
  constructor
  · rintro ⟨-, ⟨parts, hparts, rfl⟩, rfl⟩
    exact ⟨parts, hparts, rfl⟩
  · rintro ⟨parts, hparts, rfl⟩
    exact ⟨parts.flatten, ⟨parts, hparts, rfl⟩, rfl⟩

/-- The records of members are those of their units. A member may have taken out repeated records
already, but what is then distinct stays the same. -/
theorem generate_members {ds : List Definition} {own : List (List Record)}
    (hown : List.Forall₂ (fun d part => d.records files = .ok part) ds own)
    (hunits : ∀ d ∈ ds, ∀ part, d.records files = .ok part → ∃ parts,
      Generate files d.units parts ∧ Record.distinct part = Record.distinct parts.flatten) :
    ∃ parts, Generate files (ds.flatMap units) parts ∧
      Record.distinct own.flatten = Record.distinct parts.flatten := by
  induction hown with
  | nil => exact ⟨[], .nil, rfl⟩
  | @cons d part ds own hpart _ ih =>
    obtain ⟨hd, hds⟩ := List.forall_mem_cons.mp hunits
    obtain ⟨first, hfirst, hfirstEq⟩ := hd part hpart
    obtain ⟨rest, hrest, hrestEq⟩ := ih hds
    refine ⟨first ++ rest, List.rel_append hfirst hrest, ?_⟩
    rw [List.flatten_cons, List.flatten_append]
    exact Record.distinct_append_congr hfirstEq hrestEq

/-- The records of a definition are those of its units, in order and labelled by the groups around
them, once repeated records are taken out. -/
theorem records_eq_of_units {d : Definition} (h : d.records files = .ok rs) : ∃ parts,
    Generate files d.units parts ∧ (rs = parts.flatten ∨ rs = Record.distinct parts.flatten) := by
  induction d using treeInduction generalizing rs with
  | unit d hd =>
    refine ⟨[rs], ?_, .inl (List.append_nil rs).symm⟩
    rw [units_of_isUnit hd]
    refine .cons (map_eq_ok_iff.mpr ⟨rs, h, List.map_id rs⟩) .nil
  | group info members create ih =>
    obtain ⟨own, hown, rfl⟩ := records_group_eq_ok_iff.mp h
    obtain ⟨parts, hparts, hdistinct⟩ := generate_members hown fun d hd part hpart => by
      obtain ⟨parts, hparts, rfl | rfl⟩ := ih d hd hpart
      · exact ⟨parts, hparts, rfl⟩
      · exact ⟨parts, hparts, Record.distinct_distinct _⟩
    obtain ⟨before, hbefore, hnamespace⟩ := generate_namespaceUnits files info create
    have hall : Generate files (namespaceUnits info create ++ members.flatMap units)
        (before ++ parts) := List.rel_append hbefore hparts
    refine ⟨(before ++ parts).map (·.map (labelMember info)), ?_, .inr ?_⟩
    · rw [units, memberUnits_eq]
      exact hall.concat info
    · rw [groupRecords, ← hnamespace, ← List.map_flatten, List.flatten_append]
      exact Record.distinct_map_congr (identity_labelMember info)
        (Record.distinct_append_congr rfl hdistinct)

/-- Where a record comes from: it is one of a unit, labelled by the groups around that. -/
theorem exists_unit_of_mem {d : Definition} (h : d.records files = .ok rs) (hr : r ∈ rs) :
    ∃ u ∈ d.units, ∃ own, u.1.records files = .ok own ∧ ∃ x ∈ own, r = labelledBy u.2 x := by
  obtain ⟨parts, hparts, hrs⟩ := records_eq_of_units h
  have hmem : r ∈ parts.flatten := by
    obtain rfl | rfl := hrs
    · exact hr
    · obtain ⟨before, after, hsplit, -⟩ := Record.mem_distinct_iff.mp hr
      rw [hsplit]
      exact List.mem_append_right before List.mem_cons_self
  obtain ⟨part, hpart, hr⟩ := List.mem_flatten.mp hmem
  obtain ⟨u, hu, hgenerated⟩ := exists_of_mem_forall₂ hparts hpart
  obtain ⟨own, hown, rfl⟩ := map_eq_ok_iff.mp hgenerated
  obtain ⟨x, hx, rfl⟩ := List.mem_map.mp hr
  exact ⟨u, hu, own, hown, x, hx, rfl⟩

/-- Each unit has records, and the objects of all of them are among those of the definition. -/
theorem identities_of_units {d : Definition} (h : d.records files = .ok rs) : ∀ u ∈ d.units,
    ∃ own, u.1.records files = .ok own ∧ own.map Record.identity ⊆ rs.map Record.identity := by
  obtain ⟨parts, hparts, hrs⟩ := records_eq_of_units h
  intro u hu
  obtain ⟨part, hpart, hgenerated⟩ := exists_of_mem_forall₂ hparts.flip hu
  obtain ⟨own, hown, rfl⟩ := map_eq_ok_iff.mp hgenerated
  refine ⟨own, hown, fun id hid => ?_⟩
  obtain ⟨x, hx, rfl⟩ := List.mem_map.mp hid
  have hmem : labelledBy u.2 x ∈ parts.flatten :=
    List.mem_flatten.mpr ⟨_, hpart, List.mem_map_of_mem hx⟩
  rw [← identity_labelledBy u.2 x]
  obtain rfl | rfl := hrs
  · exact List.mem_map_of_mem hmem
  · exact List.mem_map.mpr (Record.exists_mem_distinct_identity hmem)

/-- A group has one record of each object. -/
theorem nodup_identities {d : Definition} (hgroup : ¬ d.IsUnit) (h : d.records files = .ok rs) :
    (rs.map Record.identity).Nodup := by
  cases d with
  | group =>
    obtain ⟨parts, -, rfl⟩ := records_group_eq_ok_iff.mp h
    exact Record.nodup_distinctFrom [] _
  | _ => exact absurd trivial hgroup

end Definition

end Rollout
