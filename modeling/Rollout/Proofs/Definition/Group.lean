import Rollout.Proofs.Definition.Kind

/-!
# Records of groups

A group fails with its first member that does. Otherwise it collects the record of its namespace
and those of its members: the first of each identity, in order, with the labels of the group behind
those that the record has. Groups may be members of groups. What then comes out are the records of
all units inside, each labelled from the innermost group outwards, once repeated identities are
taken out.
-/

namespace Rollout

variable {files : FileTree}

/-! ### The labels that a group gives -/

namespace Record

/-- What a mapping of labels becomes when it is given some that it may have. -/
def gainLabels (labels : Assoc String) (old : Assoc Value) : Assoc Value :=
  labels.foldl (fun gained label => gained.insertNew label.1 (.text label.2)) old

theorem prefix_gainLabels (labels : Assoc String) (old : Assoc Value) :
    old <+: gainLabels labels old := by
  induction labels generalizing old with
  | nil => exact List.prefix_refl old
  | cons label labels ih => exact (Assoc.prefix_insertNew old label.1 _).trans (ih _)

theorem nodup_keys_gainLabels (labels : Assoc String) {old : Assoc Value} (h : old.keys.Nodup) :
    (gainLabels labels old).keys.Nodup := by
  induction labels generalizing old with
  | nil => exact h
  | cons label labels ih => exact ih (Assoc.nodup_keys_insertNew h label.1 _)

theorem get?_gainLabels (labels : Assoc String) (old : Assoc Value) (key : String) :
    (gainLabels labels old).get? key =
      (old.get? key).or ((labels.get? key).map .text) := by
  induction labels generalizing old with
  | nil => exact (Option.or_none).symm
  | cons label labels ih =>
    obtain ⟨k, v⟩ := label
    have hstep : gainLabels ((k, v) :: labels) old =
        gainLabels labels (old.insertNew k (.text v)) := rfl
    rw [hstep, ih, Assoc.get?_insertNew, Option.or_assoc, Assoc.get?_cons]
    by_cases hk : key = k
    · simp [hk]
    · simp [hk]

/-- The record is another one but for its labels: `old` has become `new`. These begin with the old
ones, and a key that was not among them has what it has among the labels that are given. -/
structure Gains (labels : Assoc String) (x r : Record) (old new : Assoc Value) : Prop where
  had : x.metadata.get? "labels" = some (.mapping old)
  content : r = x.mapMetadata fun metadata => metadata.insert "labels" (.mapping new)
  begins : old <+: new
  lookup : ∀ key, new.get? key = (old.get? key).or ((labels.get? key).map .text)
  distinct : old.keys.Nodup → new.keys.Nodup

/-- Giving a record labels one by one gives it all of them. -/
theorem foldl_insertLabel (labels : Assoc String) {x : Record} {old : Assoc Value}
    (hsome : x.metadata? = some x.metadata)
    (hold : x.metadata.get? "labels" = some (.mapping old)) :
    labels.foldl (fun r label => r.insertLabel label.1 label.2) x =
      x.mapMetadata fun metadata =>
        metadata.insert "labels" (.mapping (gainLabels labels old)) := by
  induction labels generalizing x old with
  | nil => exact (mapMetadata_of_eq hsome (Assoc.insert_of_get? hold)).symm
  | cons label labels ih =>
    have hentries : x.metadataEntries "labels" = old := by
      rw [metadataEntries, hold]
      rfl
    have hstep : x.insertLabel label.1 label.2 = x.mapMetadata fun metadata =>
        metadata.insert "labels" (.mapping (old.insertNew label.1 (.text label.2))) := by
      rw [insertLabel, insertMetadataText_eq, hentries]
    have hnext : (x.mapMetadata fun metadata => metadata.insert "labels"
        (.mapping (old.insertNew label.1 (.text label.2)))).metadata.get? "labels" =
        some (.mapping (old.insertNew label.1 (.text label.2))) := by
      rw [metadata_mapMetadata, Assoc.get?_insert_self]
    rw [List.foldl_cons, hstep, ih ?_ hnext, mapMetadata_mapMetadata]
    · refine congrArg x.mapMetadata (funext fun metadata => ?_)
      exact Assoc.insert_insert metadata "labels" _ _
    · rw [metadata?_mapMetadata, metadata_mapMetadata]

end Record

open Record (Gains)

namespace Definition

/-- The labels that a group gives: the one that names it stands before its own. -/
def groupLabels (info : Meta) : Assoc String := (Label.partOf, info.name) :: info.labels

theorem gains_labelMember (info : Meta) {x : Record} {id : Identity} (h : x.Describes id) :
    ∃ old new, Gains (groupLabels info) x (labelMember info x) old new := by
  obtain ⟨old, hold⟩ := h.labels
  exact ⟨old, Record.gainLabels (groupLabels info) old, hold,
    Record.foldl_insertLabel (groupLabels info) h.metadata?_eq hold,
    Record.prefix_gainLabels _ _, Record.get?_gainLabels _ _,
    Record.nodup_keys_gainLabels _⟩

/-! ### What a group collects -/

/-- `rs` is what a group makes of the records `xs` of its namespace and its members. -/
structure Collects (info : Meta) (xs rs : List Record) : Prop where
  /-- Each identity stands for one record. -/
  nodup : (rs.map Record.identity).Nodup
  /-- None is lost, and none comes from elsewhere. -/
  identities : ∀ id, id ∈ rs.map Record.identity ↔ id ∈ xs.map Record.identity
  /-- Each record is the first one that has its identity, with the labels of the group. -/
  first : ∀ r ∈ rs, ∃ before x after, xs = before ++ x :: after ∧ r.identity = x.identity ∧
    (∀ y ∈ before, y.identity ≠ x.identity) ∧ ∃ old new, Gains (groupLabels info) x r old new
  /-- The records stand in the order in which their identities first occur. -/
  order : rs.Pairwise fun r s =>
    (xs.map Record.identity).idxOf r.identity < (xs.map Record.identity).idxOf s.identity

theorem collects_distinct (info : Meta) {xs : List Record}
    (h : ∀ x ∈ xs, ∃ id, x.Describes id) :
    Collects info xs (Record.distinct (xs.map (labelMember info))) := by
  have hidentities : (xs.map (labelMember info)).map Record.identity =
      xs.map Record.identity := by
    rw [List.map_map]
    exact List.map_congr_left fun x _ => identity_labelMember info x
  refine ⟨Record.nodup_distinctFrom [] _, fun id => ?_, fun r hr => ?_, ?_⟩
  · rw [Record.distinct, Record.mem_identities_distinctFrom_iff, hidentities]
    exact and_iff_left List.not_mem_nil
  · obtain ⟨before, after, hsplit, hbefore⟩ := Record.mem_distinct_iff.mp hr
    obtain ⟨xs₁, xs₂, rfl, rfl, hrest⟩ := List.map_eq_append_iff.mp hsplit
    obtain ⟨x, xs₂, rfl, rfl, rfl⟩ := List.map_eq_cons_iff.mp hrest
    obtain ⟨id, hid⟩ := h x (List.mem_append_right _ List.mem_cons_self)
    refine ⟨xs₁, x, xs₂, rfl, identity_labelMember info x, fun y hy => ?_,
      gains_labelMember info hid⟩
    have hne := hbefore _ (List.mem_map_of_mem hy)
    rwa [identity_labelMember, identity_labelMember] at hne
  · rw [← hidentities]
    exact Record.pairwise_idxOf_distinct _

theorem describes_of_mem_namespaceRecords {info : Meta} {create : Bool} {r : Record}
    (hr : r ∈ namespaceRecords info create) : ∃ id, r.Describes id := by
  cases create with
  | false => exact absurd hr List.not_mem_nil
  | true =>
    obtain ⟨kind, -, name, ns, -, hdescribes⟩ := NamespaceDefinition.isBuiltin_of_mem_records hr
    exact ⟨_, hdescribes⟩

theorem memberRecords_eq_mapM (ds : List Definition) :
    memberRecords files ds = (ds.mapM (records files)).map List.flatten := by
  induction ds with
  | nil => rfl
  | cons d ds ih =>
    rw [memberRecords_cons, ih, List.mapM_cons]
    cases d.records files with
    | error e => rfl
    | ok own => cases ds.mapM (records files) <;> rfl

/-- The members of a group fail with the first of them that does. -/
theorem memberRecords_eq_error_iff {ds : List Definition} {e : SourceError} :
    memberRecords files ds = .error e ↔ ∃ before d after, ds = before ++ d :: after ∧
      (∀ m ∈ before, ∃ own, m.records files = .ok own) ∧ d.records files = .error e := by
  rw [memberRecords_eq_mapM, map_eq_error_iff, mapM_eq_error_iff]

/-- A group fails with the error of the first member that fails. Otherwise its records are those of
its namespace, if it asks for one, and of its members, as it collects them. They are also those of
all units inside it, in order and each labelled by the groups around it, with the first record of
each identity taken. -/
theorem group_collects (files : FileTree) (info : Meta) (members : List Definition)
    (create : Bool) :
    (∀ e, (group info members create).records files = .error e ↔
      ∃ before d after, members = before ++ d :: after ∧
        (∀ m ∈ before, ∃ own, m.records files = .ok own) ∧ d.records files = .error e) ∧
    (∀ rs, (group info members create).records files = .ok rs → ∃ parts,
      List.Forall₂ (fun d part => d.records files = .ok part) members parts ∧
        Collects info (namespaceRecords info create ++ parts.flatten) rs ∧
      ∃ unitParts, Generate files (group info members create).units unitParts ∧
        rs = Record.distinct unitParts.flatten) ∧
    (namespaceRecords info create).map Record.identity =
      if create then [⟨"Namespace", info.ns, none⟩] else [] := by
  refine ⟨fun e => ?_, fun rs h => ?_, ?_⟩
  · rw [records_group, map_eq_error_iff]
    exact memberRecords_eq_error_iff
  · obtain ⟨parts, hparts, hrs⟩ := records_group_eq_ok_iff.mp h
    obtain ⟨unitParts, hunitParts, hunits⟩ := records_eq_of_units h
    have hdescribes : ∀ x ∈ namespaceRecords info create ++ parts.flatten,
        ∃ id, x.Describes id := by
      intro x hx
      obtain hx | hx := List.mem_append.mp hx
      · exact describes_of_mem_namespaceRecords hx
      · obtain ⟨part, hpart, hx⟩ := List.mem_flatten.mp hx
        obtain ⟨d, -, hd⟩ := exists_of_mem_forall₂ hparts hpart
        exact exists_describes_of_mem hd hx
    have hdistinct : Record.distinct rs = rs := by rw [← hrs, groupRecords, Record.distinct_distinct]
    refine ⟨parts, hparts, hrs ▸ collects_distinct info hdescribes, unitParts, hunitParts, ?_⟩
    obtain hunits | hunits := hunits
    · rw [← hunits, hdistinct]
    · exact hunits
  · cases create <;> rfl

/-- Two applications with one ConfigMap. It is collected once. -/
theorem group_collects_shop :
    let settings := ConfigMap.named "settings"
    let members := [app { workload := (Workload.named "web").addConfigMap settings },
      app { workload := (Workload.named "api").addConfigMap settings }]
    ∃ rs, (group { name := "shop" } members false).records .empty = .ok rs ∧
      rs.map Record.identity = [⟨"Deployment", "web", some "default"⟩,
        ⟨"ConfigMap", "settings", some "default"⟩, ⟨"Deployment", "api", some "default"⟩] ∧
      ∃ parts, List.Forall₂ (fun d part => d.records .empty = .ok part) members parts ∧
        Collects { name := "shop" } parts.flatten rs := by
  intro settings members
  have hgenerates : ∃ rs, (group { name := "shop" } members false).records .empty = .ok rs ∧
      rs.map Record.identity = [⟨"Deployment", "web", some "default"⟩,
        ⟨"ConfigMap", "settings", some "default"⟩, ⟨"Deployment", "api", some "default"⟩] :=
    ⟨_, rfl, by decide +kernel⟩
  obtain ⟨rs, hrs, hidentities⟩ := hgenerates
  obtain ⟨-, hcollects, -⟩ := group_collects .empty { name := "shop" } members false
  obtain ⟨parts, hparts, hcollects, -⟩ := hcollects rs hrs
  exact ⟨rs, hrs, hidentities, parts, hparts, hcollects⟩

end Definition

end Rollout
