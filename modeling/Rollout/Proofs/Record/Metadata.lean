import Rollout.Proofs.Assoc
import Rollout.Record.Basic

/-!
# Steps on the metadata of a record

Labels, annotations and the namespace are set through the metadata. Such a step changes no
other field of the record and nothing else in the metadata, and it does nothing when the
record has what it would add.
-/

namespace Rollout.Record

theorem metadata?_mapMetadata (r : Record) (f : Assoc Value → Assoc Value) :
    (r.mapMetadata f).metadata? = some (f r.metadata) := by
  rw [metadata?, field?, mapMetadata, set, Assoc.get?_insert_self]
  rfl

@[simp]
theorem metadata_mapMetadata (r : Record) (f : Assoc Value → Assoc Value) :
    (r.mapMetadata f).metadata = f r.metadata := by
  rw [metadata, metadata?_mapMetadata, Option.getD_some]

theorem mapMetadata_mapMetadata (r : Record) (f g : Assoc Value → Assoc Value) :
    (r.mapMetadata f).mapMetadata g = r.mapMetadata (g ∘ f) := by
  rw [mapMetadata, metadata_mapMetadata, mapMetadata, mapMetadata, set, set, set,
    Assoc.insert_insert]
  rfl

/-- Metadata that stay the same leave the whole record the same. -/
theorem mapMetadata_of_eq {r : Record} {m : Assoc Value} (hm : r.metadata? = some m)
    {f : Assoc Value → Assoc Value} (hf : f m = m) : r.mapMetadata f = r := by
  have hmetadata : r.metadata = m := by rw [metadata, hm, Option.getD_some]
  have hfield : r.fields.get? "metadata" = some (.mapping m) := by
    obtain ⟨v, hv, he⟩ := Option.bind_eq_some_iff.mp hm
    cases v <;> simp [Value.entries?] at he
    rw [← he]
    exact hv
  rw [mapMetadata, hmetadata, hf, set, Assoc.insert_of_get? hfield]

/-- The entries of a mapping inside the metadata, and none for any other value. -/
def metadataEntries (r : Record) (field : String) : Assoc Value :=
  ((r.metadata.get? field).map Value.entries).getD []

theorem insertMetadataText_eq (r : Record) (field key value : String) :
    r.insertMetadataText field key value = r.mapMetadata fun m =>
      m.insert field (.mapping ((r.metadataEntries field).insertNew key (.text value))) :=
  rfl

/-- The mappings inside the metadata that may get further keys. -/
def growing : List String := ["labels", "annotations"]

/-- The keys of the metadata whose values may change. -/
def loose : List String := "namespace" :: growing

/-- `s` is `r` but for its labels, annotations and namespace, and its labels and annotations
begin with those of `r`. -/
structure Extends (r s : Record) : Prop where
  fields : s.fields.without ["metadata"] = r.fields.without ["metadata"]
  isMapping : r.metadata?.isSome = true → s.metadata?.isSome = true
  metadata : s.metadata.without loose = r.metadata.without loose
  entries : ∀ field ∈ growing, ∀ m, r.metadata.get? field = some (.mapping m) →
    ∃ n, s.metadata.get? field = some (.mapping n) ∧ m <+: n

namespace Extends

variable {r s t : Record}

theorem refl (r : Record) : Extends r r where
  fields := rfl
  isMapping := id
  metadata := rfl
  entries := fun _ _ m hm => ⟨m, hm, List.prefix_refl m⟩

theorem trans (first : Extends r s) (second : Extends s t) : Extends r t where
  fields := second.fields.trans first.fields
  isMapping := fun h => second.isMapping (first.isMapping h)
  metadata := second.metadata.trans first.metadata
  entries := by
    intro field hfield m hm
    obtain ⟨n, hn, hmn⟩ := first.entries field hfield m hm
    obtain ⟨l, hl, hnl⟩ := second.entries field hfield n hn
    exact ⟨l, hl, hmn.trans hnl⟩

theorem field? (h : Extends r s) {key : String} (hkey : key ≠ "metadata") :
    s.field? key = r.field? key := by
  have hnot : key ∉ ["metadata"] := by simpa using hkey
  rw [Record.field?, Record.field?, ← Assoc.get?_without _ hnot, h.fields,
    Assoc.get?_without _ hnot]

theorem kind (h : Extends r s) : s.kind = r.kind := by
  rw [Record.kind, Record.kind, kind?, kind?, h.field? (by decide)]

theorem name? (h : Extends r s) : s.name? = r.name? := by
  have hnot : "name" ∉ loose := by decide
  rw [Record.name?, Record.name?, ← Assoc.get?_without _ hnot, h.metadata,
    Assoc.get?_without _ hnot]

/-- A change of one loose key of the metadata is such a step, if the mapping under that key
only grows. -/
theorem of_mapMetadata {key : String} (hkey : key ∈ loose) {v : Value}
    (hv : key ∈ growing → ∀ m, r.metadata.get? key = some (.mapping m) →
      ∃ n, v = .mapping n ∧ m <+: n) :
    Extends r (r.mapMetadata fun m => m.insert key v) where
  fields := Assoc.without_insert _ (by simp) _
  isMapping := fun _ => by rw [metadata?_mapMetadata, Option.isSome_some]
  metadata := by rw [metadata_mapMetadata, Assoc.without_insert _ hkey]
  entries := by
    intro field hfield m hm
    rw [metadata_mapMetadata, Assoc.get?_insert]
    by_cases he : field = key
    · subst he
      obtain ⟨n, rfl, hn⟩ := hv hfield m hm
      exact ⟨n, if_pos rfl, hn⟩
    · exact ⟨m, by rw [if_neg he, hm], List.prefix_refl m⟩

theorem setNamespace (r : Record) (ns : String) : Extends r (r.setNamespace ns) :=
  of_mapMetadata (by decide) fun h => absurd h (by decide)

theorem insertMetadataText (r : Record) {field : String} (hfield : field ∈ growing)
    (key value : String) : Extends r (r.insertMetadataText field key value) := by
  rw [insertMetadataText_eq]
  refine of_mapMetadata (List.mem_cons_of_mem _ hfield) fun _ m hm => ⟨_, rfl, ?_⟩
  have hentries : r.metadataEntries field = m := by rw [metadataEntries, hm]; rfl
  rw [hentries]
  exact Assoc.prefix_insertNew m key _

end Extends

theorem namespace?_setNamespace (r : Record) (ns : String) :
    (r.setNamespace ns).namespace? = some ns := by
  rw [namespace?, setNamespace, metadata_mapMetadata, Assoc.get?_insert_self]
  rfl

theorem namespace?_insertMetadataText (r : Record) {field : String} (h : field ∈ growing)
    (key value : String) : (r.insertMetadataText field key value).namespace? = r.namespace? := by
  have hne : "namespace" ≠ field := by
    rintro rfl
    exact absurd h (by decide)
  rw [namespace?, namespace?, insertMetadataText_eq, metadata_mapMetadata,
    Assoc.get?_insert_of_ne _ hne]

/-- A mapping inside the metadata has a key. -/
def Carries (r : Record) (field key : String) : Prop :=
  ∃ m, r.metadata.get? field = some (.mapping m) ∧ Assoc.has m key = true

theorem carries_insertMetadataText (r : Record) (field key value : String) :
    (r.insertMetadataText field key value).Carries field key := by
  refine ⟨_, ?_, Assoc.has_insertNew (r.metadataEntries field) key (.text value)⟩
  rw [insertMetadataText_eq, metadata_mapMetadata, Assoc.get?_insert_self]

theorem Extends.carries {r s : Record} (h : Extends r s) {field key : String}
    (hfield : field ∈ growing) (hr : r.Carries field key) : s.Carries field key := by
  obtain ⟨m, hm, hhas⟩ := hr
  obtain ⟨n, hn, hmn⟩ := h.entries field hfield m hm
  exact ⟨n, hn, Assoc.has_of_prefix hmn hhas⟩

/-- A text for a key that has a value is not taken. -/
theorem Carries.insertMetadataText_eq {r : Record} {field key : String} (h : r.Carries field key)
    (value : String) : r.insertMetadataText field key value = r := by
  obtain ⟨m, hm, hhas⟩ := h
  have hsome : r.metadata? = some r.metadata := by
    cases he : r.metadata? with
    | none => simp [metadata, he, Assoc.get?] at hm
    | some n => rw [metadata, he, Option.getD_some]
  have hentries : r.metadataEntries field = m := by rw [metadataEntries, hm]; rfl
  refine mapMetadata_of_eq hsome ?_
  change r.metadata.insert field (.mapping ((r.metadataEntries field).insertNew key _)) = _
  rw [hentries, Assoc.insertNew_of_has hhas]
  exact Assoc.insert_of_get? hm

end Rollout.Record
