import Rollout.Manifest
import Rollout.Proofs.Record.Metadata
import Rollout.Proofs.Record.Order

/-!
# Records to apply

Completing a record adds labels, annotations and a namespace to what it has, and a
completed record is complete. So preparing the prepared records again changes nothing.
-/

namespace Rollout.Manifest

open Record (Carries Extends growing)

/-- A record has all standard labels and annotations. -/
structure IsStamped (r : Record) : Prop where
  managedBy : r.Carries "labels" Label.managedBy
  component : r.Carries "labels" Label.component
  generatedBy : r.Carries "annotations" Label.generatedBy
  generatorVersion : r.Carries "annotations" Label.generatorVersion

theorem IsStamped.mono {r s : Record} (hr : IsStamped r) (h : Extends r s) : IsStamped s where
  managedBy := h.carries (by decide) hr.managedBy
  component := h.carries (by decide) hr.component
  generatedBy := h.carries (by decide) hr.generatedBy
  generatorVersion := h.carries (by decide) hr.generatorVersion

theorem labels_mem_growing : "labels" ∈ growing := by decide

theorem annotations_mem_growing : "annotations" ∈ growing := by decide

theorem extends_insertLabel (r : Record) (key value : String) :
    Extends r (r.insertLabel key value) :=
  .insertMetadataText r labels_mem_growing key value

theorem extends_annotate (r : Record) (key value : String) :
    Extends r (r.annotate key value) :=
  .insertMetadataText r annotations_mem_growing key value

theorem extends_stamp (r : Record) : Extends r (stamp r) := by
  refine .trans ?_ (extends_annotate _ _ _)
  refine .trans ?_ (extends_annotate _ _ _)
  exact .trans (extends_insertLabel r _ _) (extends_insertLabel _ _ _)

theorem isStamped_stamp (r : Record) : IsStamped (stamp r) where
  managedBy := by
    refine (extends_annotate _ _ _).carries labels_mem_growing ?_
    refine (extends_annotate _ _ _).carries labels_mem_growing ?_
    refine (extends_insertLabel _ _ _).carries labels_mem_growing ?_
    exact Record.carries_insertMetadataText r _ _ _
  component := by
    refine (extends_annotate _ _ _).carries labels_mem_growing ?_
    refine (extends_annotate _ _ _).carries labels_mem_growing ?_
    exact Record.carries_insertMetadataText _ _ _ _
  generatedBy := by
    refine (extends_annotate _ _ _).carries annotations_mem_growing ?_
    exact Record.carries_insertMetadataText _ _ _ _
  generatorVersion := Record.carries_insertMetadataText _ _ _ _

theorem stamp_of_isStamped {r : Record} (h : IsStamped r) : stamp r = r := by
  simp only [stamp, Record.insertLabel, Record.annotate, h.managedBy.insertMetadataText_eq,
    h.component.insertMetadataText_eq, h.generatedBy.insertMetadataText_eq,
    h.generatorVersion.insertMetadataText_eq]

theorem namespace?_stamp (r : Record) : (stamp r).namespace? = r.namespace? := by
  simp only [stamp, Record.insertLabel, Record.annotate,
    Record.namespace?_insertMetadataText _ annotations_mem_growing,
    Record.namespace?_insertMetadataText _ labels_mem_growing]

theorem extends_fillNamespace (r : Record) : Extends r (fillNamespace r) := by
  unfold fillNamespace
  split
  · exact .refl r
  · exact .setNamespace r defaultNamespace

theorem namespace?_fillNamespace (r : Record) : (fillNamespace r).namespace? =
    if Kind.isClusterScoped r.kind then r.namespace?
    else some (r.namespace?.getD defaultNamespace) := by
  unfold fillNamespace
  cases hscope : Kind.isClusterScoped r.kind with
  | true => simp
  | false =>
    cases hns : r.namespace? with
    | some ns => simp [hns]
    | none => simpa using Record.namespace?_setNamespace r defaultNamespace

theorem fillNamespace_of_complete {r : Record}
    (h : Kind.isClusterScoped r.kind = true ∨ r.namespace?.isSome = true) :
    fillNamespace r = r :=
  if_pos (Bool.or_eq_true_iff.mpr h)

theorem fillNamespace_idem (r : Record) : fillNamespace (fillNamespace r) = fillNamespace r := by
  refine fillNamespace_of_complete ?_
  rw [(extends_fillNamespace r).kind, namespace?_fillNamespace]
  cases Kind.isClusterScoped r.kind with
  | true => exact .inl rfl
  | false => exact .inr rfl

/-- `r` is `x` as it is applied: in a namespace, if its kind lives in one, and else with
further labels and annotations alone. -/
structure Completes (x r : Record) : Prop extends Extends x r where
  ns : r.namespace? =
    if Kind.isClusterScoped r.kind then x.namespace?
    else some (x.namespace?.getD defaultNamespace)

variable (o : ManifestOptions)

theorem completes_completed (x : Record) : Completes x (completed o x) := by
  have hstamp : ∃ y, completed o x = fillNamespace y ∧ Extends x y ∧
      y.namespace? = x.namespace? := by
    cases ho : o.standardLabels with
    | true => exact ⟨stamp x, by simp [completed, ho], extends_stamp x, namespace?_stamp x⟩
    | false => exact ⟨x, by simp [completed, ho], .refl x, rfl⟩
  obtain ⟨y, hy, hextends, hns⟩ := hstamp
  rw [hy]
  refine ⟨hextends.trans (extends_fillNamespace y), ?_⟩
  rw [namespace?_fillNamespace, (extends_fillNamespace y).kind, hns]

theorem completed_idem (x : Record) : completed o (completed o x) = completed o x := by
  unfold completed
  cases o.standardLabels with
  | false => exact fillNamespace_idem x
  | true =>
    have hstamped := (isStamped_stamp x).mono (extends_fillNamespace (stamp x))
    rw [if_pos rfl, if_pos rfl, stamp_of_isStamped hstamped, fillNamespace_idem]

/-- `rs` are the records to apply for the inputs `xs`. -/
structure Prepares (xs rs : List Record) : Prop where
  /-- Each identity stands for one record. -/
  nodup : (rs.map Record.identity).Nodup
  identities : ∀ id, id ∈ rs.map Record.identity ↔
    id ∈ xs.map fun x => (completed o x).identity
  /-- Each record is the first input that has its identity, completed. -/
  first : ∀ r ∈ rs, ∃ before x after, xs = before ++ x :: after ∧ r = completed o x ∧
    Completes x r ∧ ∀ y ∈ before, (completed o y).identity ≠ r.identity
  priority : rs.Pairwise fun r s => Kind.priority r.kind ≤ Kind.priority s.kind
  /-- The records of one known kind stand in the order of the inputs. -/
  inputOrder : ∀ kind, Kind.priority kind ≠ Kind.lastPriority →
    (rs.filter (·.kind = kind)).Pairwise fun r s =>
      (xs.map (completed o)).idxOf r < (xs.map (completed o)).idxOf s
  /-- The records of all other kinds go by name. -/
  byName : (rs.filter fun r => Kind.priority r.kind = Kind.lastPriority).Pairwise
    fun r s => Record.nameLe r.name? s.name? = true

theorem mem_prepare_iff {xs : List Record} {r : Record} : r ∈ prepare o xs ↔
    ∃ before x after, xs = before ++ x :: after ∧ r = completed o x ∧
      ∀ y ∈ before, (completed o y).identity ≠ r.identity := by
  rw [prepare, (Record.sortForApply_perm _).mem_iff, Record.mem_distinct_iff]
  constructor
  · rintro ⟨before, after, h, hbefore⟩
    obtain ⟨before', rest, rfl, rfl, hrest⟩ := List.map_eq_append_iff.mp h
    obtain ⟨x, after', rfl, rfl, rfl⟩ := List.map_eq_cons_iff.mp hrest
    exact ⟨before', x, after', rfl, rfl, fun y hy => hbefore _ (List.mem_map_of_mem hy)⟩
  · rintro ⟨before, x, after, rfl, rfl, hbefore⟩
    refine ⟨before.map (completed o), after.map (completed o), by simp, ?_⟩
    intro s hs
    obtain ⟨y, hy, rfl⟩ := List.mem_map.mp hs
    exact hbefore y hy

theorem nodup_prepare (xs : List Record) : ((prepare o xs).map Record.identity).Nodup :=
  ((Record.sortForApply_perm _).map _).nodup_iff.mpr (Record.nodup_distinctFrom [] _)

/-- The prepared records are those to apply, in the order of application, and preparing
them again changes nothing. -/
theorem prepare_prepares (xs : List Record) :
    Prepares o xs (prepare o xs) ∧ prepare o (prepare o xs) = prepare o xs := by
  have hsorted : (prepare o xs).Pairwise fun r s => Record.appliedBefore r s = true :=
    Record.pairwise_sortForApply _
  refine ⟨⟨nodup_prepare o xs, fun id => ?_, fun r hr => ?_, ?_, fun kind hkind => ?_, ?_⟩, ?_⟩
  · rw [prepare, ((Record.sortForApply_perm _).map _).mem_iff, Record.distinct,
      Record.mem_identities_distinctFrom_iff, List.map_map]
    exact and_iff_left List.not_mem_nil
  · obtain ⟨before, x, after, hxs, rfl, hbefore⟩ := (mem_prepare_iff o).mp hr
    exact ⟨before, x, after, hxs, rfl, completes_completed o x, hbefore⟩
  · refine hsorted.imp fun {r s} h => ?_
    obtain hlt | ⟨heq, -⟩ := Record.appliedBefore_iff.mp h
    · exact Nat.le_of_lt hlt
    · exact Nat.le_of_eq heq
  · rw [prepare, Record.filter_kind_sortForApply hkind]
    exact (Record.pairwise_distinctFrom [] _).sublist List.filter_sublist
  · refine (hsorted.sublist List.filter_sublist).imp_of_mem fun {r s} hr hs h => ?_
    have hr' := of_decide_eq_true (List.mem_filter.mp hr).2
    have hs' := of_decide_eq_true (List.mem_filter.mp hs).2
    obtain hlt | ⟨-, hname⟩ := Record.appliedBefore_iff.mp h
    · rw [hr', hs'] at hlt
      exact absurd hlt (Nat.lt_irrefl _)
    · exact hname hr'
  · have hcompleted : ∀ r ∈ prepare o xs, completed o r = r := by
      intro r hr
      obtain ⟨-, x, -, -, rfl, -⟩ := (mem_prepare_iff o).mp hr
      exact completed_idem o x
    rw [prepare, List.map_congr_left hcompleted, List.map_id',
      Record.distinct_of_nodup (nodup_prepare o xs), Record.sortForApply_of_pairwise hsorted]

end Rollout.Manifest
