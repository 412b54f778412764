import Rollout.Meta
import Rollout.Proofs.Record.Metadata
import Rollout.Record.Order

/-!
# Records of objects

Every record that is generated describes one object: it has a version, the kind, the name and
the place of that object, and a mapping of labels. Whatever is done to a record afterwards
labels the object or moves it into another namespace, and the record goes on to describe it.
-/

namespace Rollout

/-- The identity of an object: it has a namespace if objects of its kind live in one. -/
def Identity.placed (kind name ns : String) : Identity :=
  ⟨kind, name, if Kind.isClusterScoped kind then none else some ns⟩

theorem Identity.placed_of_namespaced {kind : String} (h : Kind.isClusterScoped kind = false)
    (name ns : String) : placed kind name ns = ⟨kind, name, some ns⟩ := by
  rw [placed, h]
  rfl

namespace Record

/-- The record describes the object with an identity, and nothing that it needs is missing. -/
structure Describes (r : Record) (id : Identity) : Prop where
  apiVersion : ∃ v, r.apiVersion? = some v ∧ v ≠ ""
  kind : r.kind? = some id.kind
  name : r.name? = some id.name
  place : r.metadata.get? "namespace" = id.namespaceName.map .text
  labels : ∃ l, r.metadata.get? "labels" = some (.mapping l)

/-- A record with the metadata of something that is defined describes an object of its kind. -/
theorem describes_of_meta {version kind : String} {namespaced : Bool} (hversion : version ≠ "")
    (hscope : Kind.isClusterScoped kind = !namespaced) (name : String) (info : Meta)
    (rest : Assoc Value) :
    Describes ⟨("apiVersion", .text version) :: ("kind", .text kind) ::
      ("metadata", info.toValueNamed name namespaced) :: rest⟩ (.placed kind name info.ns) where
  apiVersion := ⟨version, rfl, hversion⟩
  kind := rfl
  name := rfl
  place := by
    rw [Identity.placed, hscope]
    cases namespaced with
    | true => rfl
    | false =>
      change Assoc.get? ([("name", _), ("labels", _)] ++ if info.annotations.isEmpty then []
        else [("annotations", _)]) "namespace" = none
      split <;> rfl
  labels := by
    refine ⟨info.allLabels.mapValues .text, ?_⟩
    cases namespaced <;> rfl

namespace Describes

variable {r s : Record} {id : Identity}

theorem identity (h : r.Describes id) : r.identity = id := by
  have hns : r.namespace? = id.namespaceName := by
    rw [namespace?, h.place]
    cases id.namespaceName <;> rfl
  rw [Record.identity, Record.kind, h.kind, Record.name, h.name, hns]
  rfl

theorem kind_eq (h : r.Describes id) : r.kind = id.kind := congrArg Identity.kind h.identity

theorem namespace?_eq (h : r.Describes id) : r.namespace? = id.namespaceName :=
  congrArg Identity.namespaceName h.identity

theorem has_namespace (h : r.Describes id) :
    r.metadata.has "namespace" = id.namespaceName.isSome := by
  rw [Assoc.has, h.place, Option.isSome_map]

/-- A record is complete if its object has a kind and a name. -/
theorem missingFields (h : r.Describes id) (hkind : id.kind ≠ "") (hname : id.name ≠ "") :
    r.missingFields = [] := by
  obtain ⟨v, hv, hne⟩ := h.apiVersion
  simp [Record.missingFields, hv, h.kind, h.name, hne, hkind, hname]

/-- A record that has more labels and annotations describes the same object, at the place that
it names. -/
theorem of_extends (h : r.Describes id) (hs : Extends r s) {ns : Option String}
    (hplace : s.metadata.get? "namespace" = ns.map .text) :
    s.Describes ⟨id.kind, id.name, ns⟩ where
  apiVersion := by
    obtain ⟨v, hv, hne⟩ := h.apiVersion
    refine ⟨v, ?_, hne⟩
    rw [apiVersion?, hs.field? (by decide)]
    exact hv
  kind := by
    rw [kind?, hs.field? (by decide)]
    exact h.kind
  name := hs.name?.trans h.name
  place := hplace
  labels := by
    obtain ⟨l, hl⟩ := h.labels
    obtain ⟨l', hl', -⟩ := hs.entries "labels" (by decide) l hl
    exact ⟨l', hl'⟩

theorem metadata?_eq (h : r.Describes id) : r.metadata? = some r.metadata := by
  cases hmetadata : r.metadata? with
  | none =>
    have hname := h.name
    simp [name?, Record.metadata, hmetadata, Assoc.get?_nil] at hname
  | some m => rw [Record.metadata, hmetadata, Option.getD_some]

/-- Moving a record to where it is changes nothing. -/
theorem setNamespace_self {kind name ns : String} (h : r.Describes ⟨kind, name, some ns⟩) :
    r.setNamespace ns = r :=
  mapMetadata_of_eq h.metadata?_eq (Assoc.insert_of_get? h.place)

theorem setNamespace (h : r.Describes id) (ns : String) :
    (r.setNamespace ns).Describes ⟨id.kind, id.name, some ns⟩ := by
  refine h.of_extends (.setNamespace r ns) ?_
  rw [Record.setNamespace, metadata_mapMetadata, Assoc.get?_insert_self]
  rfl

theorem insertMetadataText (h : r.Describes id) {field : String} (hfield : field ∈ growing)
    (key value : String) : (r.insertMetadataText field key value).Describes id := by
  have hne : "namespace" ≠ field := by
    rintro rfl
    exact absurd hfield (by decide)
  refine h.of_extends (.insertMetadataText r hfield key value) ?_
  rw [insertMetadataText_eq, metadata_mapMetadata, Assoc.get?_insert_of_ne _ hne]
  exact h.place

theorem insertLabel (h : r.Describes id) (key value : String) :
    (r.insertLabel key value).Describes id := h.insertMetadataText (by decide) key value

theorem annotate (h : r.Describes id) (key value : String) :
    (r.annotate key value).Describes id := h.insertMetadataText (by decide) key value

end Describes

end Record

end Rollout
