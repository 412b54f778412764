import Rollout.Proofs.Hcl.Expression
import Rollout.Proofs.Terraform.Address
import Rollout.Terraform.Files

/-!
# What resources hold of their records

A resource holds the fields of its record as literals, in their order. Those that the provider knows
from the type of the resource are left out, the content of a Secret is renamed, and a record in the
namespace of the module, or in none, is put into the namespace of a variable. The reference to that
variable is all there is to be evaluated.
-/

namespace Rollout

variable {r : Record} {rs : List Record}

theorem Record.field?_of_metadata? {metadata : Assoc Value} (h : r.metadata? = some metadata) :
    r.field? "metadata" = some (.mapping metadata) := by
  obtain ⟨v, hfield, hv⟩ := Option.bind_eq_some_iff.mp h
  cases v with
  | mapping entries =>
    obtain rfl := Option.some.inj hv
    exact hfield
  | _ => exact nomatch hv

theorem Hcl.get?_convertEntries (ofText : String → Hcl) (m : Assoc Value) (key : String) :
    Assoc.get? (convertEntries ofText m) key = (m.get? key).map (convert ofText) := by
  induction m with
  | nil => rfl
  | cons e m ih =>
    obtain ⟨k, v⟩ := e
    rw [convertEntries, Assoc.get?_cons, Assoc.get?_cons, ih]
    split <;> rfl

theorem Hcl.keys_convertEntries (ofText : String → Hcl) (m : Assoc Value) :
    Assoc.keys (convertEntries ofText m) = m.keys := by
  induction m with
  | nil => rfl
  | cons e m ih =>
    obtain ⟨k, v⟩ := e
    exact congrArg (k :: ·) ih

namespace Terraform

/-- The metadata that a resource holds. -/
def Block.metadata (b : Block) : Assoc Hcl := ((b.body.get? "metadata").map Hcl.entries).getD []

/-- The namespace that a resource is put into. -/
def Block.namespace? (b : Block) : Option Hcl := b.metadata.get? "namespace"

/-- The variable of a module for the namespace. -/
def namespaceVariable : Hcl := .expression "var.namespace"

/-- The fields of a record as literals. -/
def literals (r : Record) : Assoc Hcl := Hcl.convertEntries .text r.fields

/-- The fields of a record as literals, bound to the variable if the record is. -/
def boundFields (m : TerraformModule) (r : Record) : Assoc Hcl :=
  if isBound m r then bind (literals r) else literals r

/-! ### Fields that are left out and renamed -/

section TypedBody

variable {body : Assoc Hcl} {kind : String}

theorem erase_content (body : Assoc Hcl) :
    (body.erase "data").erase "stringData" = body.without ["data", "stringData"] := by
  rw [Assoc.erase_eq_without, Assoc.erase_eq_without, Assoc.without_without]
  rfl

/-- The fields that the type of a resource tells are left out, whatever else is done. -/
theorem typedBody_eq (kind : String) (body : Assoc Hcl) :
    typedBody kind body =
      if kind = "Secret" then renameContent (body.without ["apiVersion", "kind", "status"])
      else body.without ["apiVersion", "kind", "status"] := by
  simp only [typedBody, Assoc.erase_eq_without, Assoc.without_without, List.cons_append,
    List.nil_append]

theorem get?_renameContent (body : Assoc Hcl) {key : String}
    (hkey : key ∉ ["data", "stringData", "binary_data"]) :
    (renameContent body).get? key = body.get? key := by
  simp only [List.mem_cons, List.not_mem_nil, or_false, not_or] at hkey
  obtain ⟨hdata, hstring, hbinary⟩ := hkey
  unfold renameContent
  cases body.get? "data" <;> cases body.get? "stringData" <;>
    simp [Assoc.get?_insert_of_ne, Assoc.get?_erase_of_ne, hdata, hstring, hbinary]

theorem get?_typedBody (kind : String) (body : Assoc Hcl) {key : String}
    (hkey : key ∉ ["apiVersion", "kind", "status", "data", "stringData", "binary_data"]) :
    (typedBody kind body).get? key = body.get? key := by
  obtain ⟨hdropped, hcontent⟩ :
      key ∉ ["apiVersion", "kind", "status"] ∧ key ∉ ["data", "stringData", "binary_data"] :=
    not_or.mp (mt List.mem_append.mpr hkey)
  have hbody := Assoc.get?_without body hdropped
  rw [typedBody_eq]
  split
  · exact (get?_renameContent _ hcontent).trans hbody
  · exact hbody

/-- What a Secret holds beside its content stays as it is. A value under the name for encoded bytes
is only replaced by such bytes. -/
theorem without_renameContent {keys : List String} (hdata : "data" ∈ keys)
    (hstring : "stringData" ∈ keys) (hbinary : body.has "data" = true → "binary_data" ∈ keys) :
    (renameContent body).without keys = body.without keys := by
  have hcontent : ["data", "stringData"] ⊆ keys :=
    List.forall_mem_cons.mpr ⟨hdata, List.forall_mem_singleton.mpr hstring⟩
  have hrest := Assoc.without_without_of_subset body hcontent
  rw [Assoc.has] at hbinary
  simp only [renameContent, erase_content]
  cases hget : body.get? "data" with
  | none => cases body.get? "stringData" <;> simp [Assoc.without_insert, hdata, hrest]
  | some v =>
    rw [hget] at hbinary
    cases body.get? "stringData" <;> simp [Assoc.without_insert, hdata, hrest, hbinary rfl]

theorem get?_renameContent_of_content (body : Assoc Hcl) :
    (renameContent body).get? "stringData" = none ∧
      (renameContent body).get? "data" = body.get? "stringData" ∧
      (renameContent body).get? "binary_data" =
        (body.get? "data").or (body.get? "binary_data") := by
  have hstring : (body.without ["data", "stringData"]).get? "stringData" = none :=
    Assoc.get?_without_of_mem body (by decide)
  have hdata : (body.without ["data", "stringData"]).get? "data" = none :=
    Assoc.get?_without_of_mem body (by decide)
  have hbinary : (body.without ["data", "stringData"]).get? "binary_data" =
      body.get? "binary_data" := Assoc.get?_without body (by decide)
  simp only [renameContent, erase_content]
  cases body.get? "data" <;> cases body.get? "stringData" <;>
    simp [Assoc.get?_insert, hstring, hdata, hbinary]

theorem nodup_keys_renameContent (h : body.keys.Nodup) : (renameContent body).keys.Nodup := by
  have hrest := Assoc.nodup_keys_without h ["data", "stringData"]
  simp only [renameContent, erase_content]
  cases body.get? "data" <;> cases body.get? "stringData" <;>
    simp only [Assoc.nodup_keys_insert, hrest]

/-- Nothing but the metadata holds expressions. -/
def NamespaceOnly (body : Assoc Hcl) : Prop := ∀ e ∈ body, e.1 ≠ "metadata" → e.2.sources = []

theorem NamespaceOnly.without (h : NamespaceOnly body) (keys : List String) :
    NamespaceOnly (body.without keys) :=
  fun e he => h e (List.mem_filter.mp he).1

theorem NamespaceOnly.sources_of_get? (h : NamespaceOnly body) {key : String}
    (hkey : key ≠ "metadata") {v : Hcl} (hv : body.get? key = some v) : v.sources = [] :=
  h (key, v) (Assoc.mem_of_get? hv) hkey

theorem NamespaceOnly.insert (h : NamespaceOnly body) (key : String) {v : Hcl}
    (hv : v.sources = []) : NamespaceOnly (body.insert key v) := by
  intro e he hne
  obtain rfl | he := Assoc.mem_of_mem_insert he
  · exact hv
  · exact h e he hne

theorem NamespaceOnly.entrySources_without (h : NamespaceOnly body) {keys : List String}
    (hkeys : "metadata" ∉ keys) : Hcl.entrySources (body.without keys) = Hcl.entrySources body :=
  Hcl.entrySources_without fun e he hmem => h e he (ne_of_mem_of_not_mem hmem hkeys)

theorem NamespaceOnly.entrySources_insert (h : NamespaceOnly body) {key : String}
    (hkey : key ≠ "metadata") {v : Hcl} (hv : v.sources = []) :
    Hcl.entrySources (body.insert key v) = Hcl.entrySources body :=
  Hcl.entrySources_insert_of_none (fun e he hsame => h e he (hsame ▸ hkey)) hv

theorem NamespaceOnly.entrySources_renameContent (h : NamespaceOnly body) :
    Hcl.entrySources (renameContent body) = Hcl.entrySources body := by
  have hrest := h.without ["data", "stringData"]
  have hsources : Hcl.entrySources (body.without ["data", "stringData"]) =
      Hcl.entrySources body := h.entrySources_without (by decide)
  simp only [renameContent, erase_content]
  cases hdata : body.get? "data" with
  | none =>
    cases hstring : body.get? "stringData" with
    | none => exact hsources
    | some w =>
      have hw := h.sources_of_get? (by decide) hstring
      exact (hrest.entrySources_insert (by decide) hw).trans hsources
  | some v =>
    have hv := h.sources_of_get? (by decide) hdata
    cases hstring : body.get? "stringData" with
    | none => exact (hrest.entrySources_insert (by decide) hv).trans hsources
    | some w =>
      have hw := h.sources_of_get? (by decide) hstring
      exact ((hrest.insert "data" hw).entrySources_insert (by decide) hv).trans
        ((hrest.entrySources_insert (by decide) hw).trans hsources)

theorem NamespaceOnly.entrySources_typedBody (h : NamespaceOnly body) (kind : String) :
    Hcl.entrySources (typedBody kind body) = Hcl.entrySources body := by
  have hsources : Hcl.entrySources (body.without ["apiVersion", "kind", "status"]) =
      Hcl.entrySources body := h.entrySources_without (by decide)
  rw [typedBody_eq]
  split
  · exact (h.without _).entrySources_renameContent.trans hsources
  · exact hsources

/-- The fields of a record that its resource has not, or has under another name or from there. -/
def changedKeys (r : Record) : List String :=
  match resourceType? r.kind with
  | none => []
  | some _ =>
    ["apiVersion", "kind", "status"] ++
      if r.kind = "Secret" then
        ["data", "stringData"] ++ if r.fields.has "data" then ["binary_data"] else []
      else []

theorem without_typedBody {keys : List String} {typeName : String}
    (htype : resourceType? r.kind = some typeName) (hkeys : changedKeys r ⊆ keys)
    (hdata : body.has "data" = r.fields.has "data") :
    (typedBody r.kind body).without keys = body.without keys := by
  rw [changedKeys, htype] at hkeys
  have hdropped : ["apiVersion", "kind", "status"] ⊆ keys :=
    List.Subset.trans (List.subset_append_left _ _) hkeys
  have hrest := Assoc.without_without_of_subset body hdropped
  rw [typedBody_eq]
  split
  · rename_i hsecret
    rw [if_pos hsecret] at hkeys
    refine (without_renameContent ?_ ?_ fun hhas => ?_).trans hrest
    · exact hkeys (by simp)
    · exact hkeys (by simp)
    · rw [Assoc.has, Assoc.get?_without _ (by decide)] at hhas
      have hbody : r.fields.has "data" = true := hdata.symm.trans hhas
      exact hkeys (by simp [hbody])
  · exact hrest

theorem get?_typedBody_of_dropped (kind : String) (body : Assoc Hcl) {key : String}
    (hkey : key ∈ ["apiVersion", "kind", "status"]) : (typedBody kind body).get? key = none := by
  have hbody := Assoc.get?_without_of_mem body hkey
  rw [typedBody_eq]
  split
  · refine (get?_renameContent _ ?_).trans hbody
    have hapart : ∀ k ∈ ["apiVersion", "kind", "status"],
        k ∉ ["data", "stringData", "binary_data"] := by decide
    exact hapart key hkey
  · exact hbody

theorem get?_typedBody_of_secret (body : Assoc Hcl) :
    (typedBody "Secret" body).get? "stringData" = none ∧
      (typedBody "Secret" body).get? "data" = body.get? "stringData" ∧
      (typedBody "Secret" body).get? "binary_data" =
        (body.get? "data").or (body.get? "binary_data") := by
  have hcontent := get?_renameContent_of_content
    (body.without ["apiVersion", "kind", "status"])
  rw [typedBody_eq, if_pos rfl]
  simpa [Assoc.get?_without] using hcontent

theorem nodup_keys_typedBody (h : body.keys.Nodup) (kind : String) :
    (typedBody kind body).keys.Nodup := by
  have hrest := Assoc.nodup_keys_without h ["apiVersion", "kind", "status"]
  rw [typedBody_eq]
  split
  · exact nodup_keys_renameContent hrest
  · exact hrest

end TypedBody

/-! ### The namespace -/

section BoundFields

variable (m : TerraformModule) {metadata : Assoc Value}

/-- The metadata of a record as literals, bound to the variable if the record is. -/
def boundMetadata (m : TerraformModule) (r : Record) : Assoc Hcl :=
  if isBound m r then
    Assoc.insert (Hcl.convertEntries .text r.metadata) "namespace" namespaceVariable
  else Hcl.convertEntries .text r.metadata

theorem metadata_eq_of_metadata? (h : r.metadata? = some metadata) : r.metadata = metadata := by
  rw [Record.metadata, h, Option.getD_some]

theorem get?_literals (r : Record) (key : String) :
    (literals r).get? key = (r.field? key).map Hcl.ofValue :=
  Hcl.get?_convertEntries .text r.fields key

theorem get?_metadata_literals (h : r.metadata? = some metadata) :
    (literals r).get? "metadata" = some (.object (Hcl.convertEntries .text metadata)) := by
  rw [get?_literals, Record.field?_of_metadata? h]
  rfl

/-- Only the metadata differ from the literals, and they keep their place. -/
theorem boundFields_eq (h : r.metadata? = some metadata) :
    boundFields m r = (literals r).insert "metadata" (.object (boundMetadata m r)) := by
  rw [boundFields, boundMetadata, metadata_eq_of_metadata? h]
  split
  · rw [bind, get?_metadata_literals h]
    rfl
  · rw [Assoc.insert_of_get? (get?_metadata_literals h)]

theorem keys_boundFields (h : r.metadata? = some metadata) :
    (boundFields m r).keys = r.fields.keys := by
  have hmem : "metadata" ∈ (literals r).keys :=
    List.mem_map.mpr ⟨_, Assoc.mem_of_get? (get?_metadata_literals h), rfl⟩
  rw [boundFields_eq m h, Assoc.keys_insert_of_mem hmem, literals, Hcl.keys_convertEntries]

theorem get?_boundFields (h : r.metadata? = some metadata) {key : String}
    (hkey : key ≠ "metadata") : (boundFields m r).get? key = (r.field? key).map Hcl.ofValue := by
  rw [boundFields_eq m h, Assoc.get?_insert_of_ne _ hkey, get?_literals]

theorem namespaceOnly_boundFields (h : r.metadata? = some metadata) :
    NamespaceOnly (boundFields m r) := by
  rw [boundFields_eq m h]
  intro e he hne
  obtain rfl | he := Assoc.mem_of_mem_insert he
  · exact absurd rfl hne
  · exact Hcl.entrySources_eq_nil_iff.mp (Hcl.entrySources_convertEntries r.fields) e he

/-- The reference to the variable is the only expression, and it is there if the record is bound. -/
theorem entrySources_boundFields (h : r.metadata? = some metadata) :
    Hcl.entrySources (boundFields m r) = if isBound m r then ["var.namespace"] else [] := by
  have hfields : Hcl.entrySources (literals r) = [] := Hcl.entrySources_convertEntries r.fields
  rw [boundFields_eq m h, Hcl.entrySources_insert hfields, Hcl.sources, boundMetadata]
  split
  · exact Hcl.entrySources_insert (Hcl.entrySources_convertEntries _) _ _
  · exact Hcl.entrySources_convertEntries _

end BoundFields

/-! ### Resources -/

section Blocks

variable (m : TerraformModule) (before : List String) {metadata : Assoc Value}

theorem body_blockOf (r : Record) : (blockOf m before r).body =
    if (resourceType? r.kind).isSome then typedBody r.kind (boundFields m r)
    else boundFields m r := by
  unfold blockOf
  cases resourceType? r.kind <;> rfl

theorem get?_body_blockOf (h : r.metadata? = some metadata) :
    (blockOf m before r).body.get? "metadata" = some (.object (boundMetadata m r)) := by
  have hfields : (boundFields m r).get? "metadata" = some (.object (boundMetadata m r)) := by
    rw [boundFields_eq m h, Assoc.get?_insert_self]
  rw [body_blockOf]
  split
  · exact (get?_typedBody _ _ (by decide)).trans hfields
  · exact hfields

/-- The metadata of a resource are those of the record, in the namespace of the module if the
record is bound to it. -/
theorem metadata_blockOf (h : r.metadata? = some metadata) : (blockOf m before r).metadata =
      if isBound m r then
        Assoc.insert (Hcl.convertEntries .text metadata) "namespace" namespaceVariable
      else Hcl.convertEntries .text metadata := by
  rw [Block.metadata, get?_body_blockOf m before h, ← metadata_eq_of_metadata? h]
  rfl

theorem kind_blockOf (r : Record) :
    (blockOf m before r).kind = r.kind := by
  unfold blockOf
  cases resourceType? r.kind <;> rfl

theorem name_blockOf (r : Record) :
    (blockOf m before r).name = nameOf r := by
  unfold blockOf
  cases resourceType? r.kind <;> rfl

theorem exists_block_of_mem (hr : r ∈ rs) :
    ∃ before', blockOf m before' r ∈ blocksFrom m before rs := by
  induction rs generalizing before with
  | nil => exact absurd hr List.not_mem_nil
  | cons s rs ih =>
    rw [blocksFrom_cons]
    obtain rfl | hr := List.mem_cons.mp hr
    · exact ⟨before, List.mem_cons_self⟩
    · obtain ⟨before', hmem⟩ := ih (typeOf s :: before) hr
      exact ⟨before', List.mem_cons_of_mem _ hmem⟩

/-- A resource holds what the fields that it is made from hold to be evaluated, as a manifest or in
blocks of its own. -/
theorem sources_item (b : Block) : b.item.sources = Hcl.entrySources b.body := by
  rw [Block.item, Hcl.Item.sources]
  split
  · exact List.append_nil _
  · exact Hcl.allSources_recordItems b.body

end Blocks

/-! ### Lowering -/

/-- The kind of a record lives in a namespace, and the record is in that of the module or in
none. -/
def IsAtHome (m : TerraformModule) (r : Record) : Prop :=
  Kind.isClusterScoped r.kind = false ∧
    (r.namespace? = none ∨ r.namespace? = some m.boundNamespace)

theorem isBound_iff (m : TerraformModule) (r : Record) : isBound m r = true ↔ IsAtHome m r := by
  rw [isBound, IsAtHome, Bool.and_eq_true, Bool.not_eq_true']
  cases r.namespace? <;> simp

/-- A resource holds the fields of its record as literals, in their order and each as it is, but for
those that its type leaves out or names differently. In a Secret, plain texts become the data, and
encoded bytes the binary data. The metadata are put into the namespace of the variable if the record
is at home in the module, which is the only thing to be evaluated then. The namespace of any other
record stays a literal. -/
structure Lowers (m : TerraformModule) (r : Record) (b : Block) : Prop where
  kind_eq : b.kind = r.kind
  name_eq : b.name = nameOf r
  type_eq : b.resourceType = typeOf r
  fields : b.body.without ("metadata" :: changedKeys r) =
    (literals r).without ("metadata" :: changedKeys r)
  order : b.body.keys.filter (· ∉ changedKeys r) = r.fields.keys.filter (· ∉ changedKeys r)
  nodup : r.fields.keys.Nodup → b.body.keys.Nodup
  dropped : (resourceType? r.kind).isSome → ∀ key ∈ ["apiVersion", "kind", "status"],
    b.body.get? key = none
  content : r.kind = "Secret" → b.body.get? "stringData" = none ∧
    b.body.get? "data" = (r.field? "stringData").map Hcl.ofValue ∧
    b.body.get? "binary_data" = ((r.field? "data").or (r.field? "binary_data")).map Hcl.ofValue
  metadata : b.body.get? "metadata" = some (.object b.metadata)
  atHome : IsAtHome m r → b.item.sources = ["var.namespace"] ∧ b.metadata =
    Assoc.insert (Hcl.convertEntries .text r.metadata) "namespace" (.expression "var.namespace")
  away : ¬ IsAtHome m r → b.item.sources = [] ∧ b.metadata = Hcl.convertEntries .text r.metadata
  namespace_iff : b.namespace? = some (.expression "var.namespace") ↔ IsAtHome m r

section Lowering

variable (m : TerraformModule) (before : List String) {metadata : Assoc Value}
  (h : r.metadata? = some metadata)
include h

theorem has_boundFields : (boundFields m r).has "data" = r.fields.has "data" := by
  rw [Assoc.has, get?_boundFields m h (by decide), Option.isSome_map]
  rfl

theorem without_body_blockOf {keys : List String} (hkeys : changedKeys r ⊆ keys) :
    (blockOf m before r).body.without keys = (boundFields m r).without keys := by
  rw [body_blockOf]
  cases htype : resourceType? r.kind with
  | none => rfl
  | some typeName => exact without_typedBody htype hkeys (has_boundFields m h)

theorem entrySources_body_blockOf : Hcl.entrySources (blockOf m before r).body =
    if isBound m r then ["var.namespace"] else [] := by
  have hfields := namespaceOnly_boundFields m h
  rw [← entrySources_boundFields m h, body_blockOf]
  split
  · exact hfields.entrySources_typedBody r.kind
  · rfl

theorem namespace?_blockOf_eq_iff :
    (blockOf m before r).namespace? = some namespaceVariable ↔ isBound m r = true := by
  rw [Block.namespace?, metadata_blockOf m before h]
  cases isBound m r with
  | true => exact iff_of_true (Assoc.get?_insert_self _ _ _) rfl
  | false =>
    refine iff_of_false (fun hvariable => ?_) Bool.false_ne_true
    change Assoc.get? (Hcl.convertEntries .text metadata) "namespace" = _ at hvariable
    rw [Hcl.get?_convertEntries] at hvariable
    obtain ⟨v, -, hv⟩ := Option.map_eq_some_iff.mp hvariable
    have hsources := Hcl.sources_convert v
    rw [hv] at hsources
    exact List.cons_ne_nil _ _ hsources

theorem lowers_blockOf : Lowers m r (blockOf m before r) where
  kind_eq := kind_blockOf m before r
  name_eq := name_blockOf m before r
  type_eq := resourceType_blockOf m before r
  fields := by
    rw [without_body_blockOf m before h (List.subset_cons_self _ _), boundFields_eq m h,
      Assoc.without_insert _ List.mem_cons_self]
  order := by
    rw [← keys_boundFields m h, ← Assoc.keys_without, ← Assoc.keys_without,
      without_body_blockOf m before h (List.Subset.refl _)]
  nodup := by
    intro hnodup
    rw [← keys_boundFields m h] at hnodup
    rw [body_blockOf]
    split
    · exact nodup_keys_typedBody hnodup r.kind
    · exact hnodup
  dropped := by
    intro htyped key hkey
    rw [body_blockOf, if_pos htyped]
    exact get?_typedBody_of_dropped r.kind _ hkey
  content := by
    intro hsecret
    have htyped : (resourceType? r.kind).isSome = true := by
      rw [hsecret]
      decide
    rw [body_blockOf, if_pos htyped, hsecret]
    have hcontent := get?_typedBody_of_secret (boundFields m r)
    rw [get?_boundFields m h (by decide), get?_boundFields m h (by decide),
      get?_boundFields m h (by decide), ← Option.map_or] at hcontent
    exact hcontent
  metadata := by
    rw [Block.metadata, get?_body_blockOf m before h]
    rfl
  atHome := by
    intro hhome
    have hbound := (isBound_iff m r).mpr hhome
    rw [sources_item, entrySources_body_blockOf m before h, metadata_blockOf m before h, hbound,
      metadata_eq_of_metadata? h]
    exact ⟨rfl, rfl⟩
  away := by
    intro haway
    have hbound : isBound m r = false := by
      rwa [← Bool.not_eq_true, isBound_iff]
    rw [sources_item, entrySources_body_blockOf m before h, metadata_blockOf m before h, hbound,
      metadata_eq_of_metadata? h]
    exact ⟨rfl, rfl⟩
  namespace_iff := (namespace?_blockOf_eq_iff m before h).trans (isBound_iff m r)

end Lowering

theorem forall₂_lowers_blocksFrom (m : TerraformModule) (before : List String)
    (hrs : ∀ r ∈ rs, r.metadata?.isSome) : List.Forall₂ (Lowers m) rs (blocksFrom m before rs) := by
  -- the labels depend on the types before, the fields do not
  induction rs generalizing before with
  | nil => exact .nil
  | cons r rs ih =>
    obtain ⟨hr, hrest⟩ := List.forall_mem_cons.mp hrs
    obtain ⟨metadata, hmetadata⟩ := Option.isSome_iff_exists.mp hr
    rw [blocksFrom_cons]
    exact .cons (lowers_blockOf m before hmetadata) (ih _ hrest)

theorem flatMap_sources_of_forall₂ {m : TerraformModule} {bs : List Block}
    (h : List.Forall₂ (Lowers m) rs bs) : (bs.map Block.item).flatMap Hcl.Item.sources =
      (rs.filter (isBound m)).map fun _ => "var.namespace" := by
  induction h with
  | nil => rfl
  | @cons r b rs bs hlowers _ ih =>
    rw [List.map_cons, List.flatMap_cons, ih, List.filter_cons]
    split
    · rename_i hbound
      rw [(hlowers.atHome ((isBound_iff m r).mp hbound)).1]
      rfl
    · rename_i hbound
      rw [(hlowers.away fun hhome => hbound ((isBound_iff m r).mpr hhome)).1]
      rfl

/-- The records that become resources are the first ones of their identities, in the order of
application. -/
structure AppliedOnce (rs applied : List Record) : Prop where
  nodup : (applied.map Record.identity).Nodup
  identities : ∀ id, id ∈ applied.map Record.identity ↔ id ∈ rs.map Record.identity
  first : ∀ r ∈ applied, ∃ before after, rs = before ++ r :: after ∧
    ∀ s ∈ before, s.identity ≠ r.identity
  ordered : applied.Pairwise fun r s => Record.appliedBefore r s = true

theorem appliedOnce (rs : List Record) : AppliedOnce rs (applied rs) where
  nodup := ((Record.sortForApply_perm _).map _).nodup_iff.mpr (Record.nodup_distinctFrom [] rs)
  identities := by
    intro id
    rw [applied, ((Record.sortForApply_perm _).map _).mem_iff, Record.distinct,
      Record.mem_identities_distinctFrom_iff]
    exact and_iff_left List.not_mem_nil
  first := fun r hr =>
    Record.mem_distinct_iff.mp ((Record.sortForApply_perm _).mem_iff.mp hr)
  ordered := Record.pairwise_sortForApply _

end Terraform

end Rollout
