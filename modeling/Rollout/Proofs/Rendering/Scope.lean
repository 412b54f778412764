import Rollout.Proofs.Chart.Copied
import Rollout.Proofs.Definition.Kind
import Rollout.Proofs.Manifest
import Rollout.Proofs.Terraform.Lowering
import Rollout.Rendering

/-!
# Records without a namespace

A record without a namespace gets one wherever it is rendered, unless its kind is one of those
that never live in one: manifests put it into the default namespace, Terraform into that of a
variable, a chart into that of the release. The kind alone decides, so an object of a custom kind
for the whole cluster is placed by its kind, too, whatever the scope of the kind is.
-/

namespace Rollout

variable {r : Record} {id : Identity} {rs : List Record} {kind name : String}

namespace Record

theorem exists_mem_distinct (hrs : ∀ r ∈ rs, ∃ id, r.Describes id) (hr : r ∈ rs) :
    ∃ s ∈ distinct rs, s.Describes r.identity := by
  obtain ⟨s, hs, hid⟩ := exists_mem_distinct_identity hr
  obtain ⟨id, hdescribes⟩ := hrs s (mem_of_mem_distinct hs)
  rw [hdescribes.identity] at hid
  exact ⟨s, hs, hid ▸ hdescribes⟩

end Record

/-! ### Manifests -/

namespace Manifest

theorem describes_stamp (h : r.Describes id) : (stamp r).Describes id :=
  (((h.insertLabel _ _).insertLabel _ _).annotate _ _).annotate _ _

theorem describes_fillNamespace (h : r.Describes id) : (fillNamespace r).Describes
    ⟨id.kind, id.name, if Kind.isClusterScoped id.kind then id.namespaceName
      else some (id.namespaceName.getD defaultNamespace)⟩ := by
  rw [fillNamespace, h.kind_eq, h.namespace?_eq]
  cases hscope : Kind.isClusterScoped id.kind with
  | true => exact h
  | false =>
    cases hns : id.namespaceName with
    | none => exact h.setNamespace defaultNamespace
    | some ns =>
      have hid : ⟨id.kind, id.name, some ns⟩ = id := by rw [← hns]
      exact hid.symm ▸ h

theorem describes_completed (o : ManifestOptions) (h : r.Describes id) : (completed o r).Describes
    ⟨id.kind, id.name, if Kind.isClusterScoped id.kind then id.namespaceName
      else some (id.namespaceName.getD defaultNamespace)⟩ := by
  unfold completed
  cases o.standardLabels with
  | true => exact describes_fillNamespace (describes_stamp h)
  | false => exact describes_fillNamespace h

/-- Of the records to apply, one describes the object of each record as it is completed. -/
theorem exists_mem_prepare (o : ManifestOptions) (hrs : ∀ r ∈ rs, ∃ id, r.Describes id)
    (hr : r ∈ rs) : ∃ s ∈ prepare o rs, s.Describes (completed o r).identity := by
  have hcompleted : ∀ r ∈ rs.map (completed o), ∃ id, r.Describes id := by
    intro s hs
    obtain ⟨x, hx, rfl⟩ := List.mem_map.mp hs
    obtain ⟨id, hid⟩ := hrs x hx
    exact ⟨_, describes_completed o hid⟩
  obtain ⟨s, hs, hdescribes⟩ := Record.exists_mem_distinct hcompleted (List.mem_map_of_mem hr)
  exact ⟨s, (Record.sortForApply_perm _).mem_iff.mpr hs, hdescribes⟩

end Manifest

/-! ### Terraform -/

namespace Terraform

/-- A record without a namespace is bound to the variable for it, if its kind lives in one. -/
theorem namespace?_blockOf (m : TerraformModule) (before : List String)
    (h : r.Describes ⟨kind, name, none⟩) : (blockOf m before r).namespace? =
      if Kind.isClusterScoped kind then none else some namespaceVariable := by
  have hbound : isBound m r = !Kind.isClusterScoped kind := by
    rw [isBound, h.kind_eq, h.namespace?_eq]
    simp
  rw [Block.namespace?, metadata_blockOf m before h.metadata?_eq, hbound]
  cases Kind.isClusterScoped kind with
  | true =>
    change Assoc.get? (Hcl.convertEntries .text r.metadata) "namespace" = none
    rw [Hcl.get?_convertEntries, h.place]
    rfl
  | false => exact Assoc.get?_insert_self _ _ _

end Terraform

/-! ### Charts -/

namespace Yaml

/-- The line, or the lines, of an entry are in the text of a mapping. -/
theorem infix_writeEntries (indent : Nat) (pad : Bool) (hpad : pad = true ∨ indent = 0)
    {entries : Assoc Value} {key : String} {v : Value} (hmem : (key, v) ∈ entries)
    (hkey : isSimpleKey key = true) :
    spaces indent ++ (keyText key ++ ':' :: writeUnderKey indent v) <:+:
      writeEntries indent pad entries := by
  induction entries generalizing pad with
  | nil => exact absurd hmem List.not_mem_nil
  | cons e entries ih =>
    obtain ⟨k, w⟩ := e
    rw [writeEntries]
    obtain hhead | hmem := List.mem_cons.mp hmem
    · obtain ⟨rfl, rfl⟩ := Prod.mk.inj hhead
      have hspaces : (if pad then spaces indent else []) = spaces indent := by
        obtain rfl | rfl := hpad <;> simp [spaces]
      rw [if_pos hkey, hspaces, List.append_assoc]
      exact ⟨[], writeEntries indent true entries, by simp⟩
    · exact List.infix_append_of_infix_right (ih true (.inl rfl) hmem)

/-- The line of a text in the metadata of a record. -/
theorem infix_text_metadata {r : Record} {metadata : Assoc Value} (h : r.metadata? = some metadata)
    {key value : String} (hvalue : metadata.get? key = some (.text value))
    (hkey : isSimpleKey key = true) :
    spaces 2 ++ (keyText key ++ ':' :: ' ' :: textLine 4 value.toList) <:+:
      (text r.toValue).toList := by
  have hfields := Assoc.mem_of_get? (Record.field?_of_metadata? h)
  have hentry := Assoc.mem_of_get? hvalue
  have houter := infix_writeEntries 0 false (.inr rfl) hfields (by decide)
  have hinner := infix_writeEntries 2 true (.inl rfl) hentry hkey
  have htext : (text r.toValue).toList = writeEntries 0 false r.fields := by
    simp [text, Record.toValue, write, List.ne_nil_of_mem hfields]
  have hunder : writeUnderKey 0 (.mapping metadata) = '\n' :: writeEntries 2 true metadata := by
    simp [writeUnderKey, List.ne_nil_of_mem hentry]
  rw [htext]
  refine hinner.trans (.trans ?_ houter)
  rw [hunder]
  exact List.infix_append_of_infix_right <| List.infix_append_of_infix_right <|
    List.infix_cons <| List.infix_cons <| List.infix_refl _

end Yaml

namespace Chart

theorem describes_boundRecord (h : r.Describes ⟨kind, name, none⟩) :
    (boundRecord r).Describes (.placed kind name namespaceMark) :=
  describes_releasedIn h namespaceMark

/-- A line that ends in the mark for the namespace becomes one that ends in the action. -/
theorem replaceFrom_line (before key after : List Char)
    (hplain : ∀ c ∈ key, isBrace c = false)
    (hmark : ∀ c ∈ key, namespaceMark.toList.head? ≠ some c) :
    ∃ b a, Text.replaceFrom namespaceMark.toList namespaceAction 0
      (escapeChars (before ++ ' ' :: (key ++ (namespaceMark.toList ++ '\n' :: after)))) =
        b ++ ' ' :: (key ++ (namespaceAction ++ '\n' :: a)) := by
  have hspace : ' ' ∉ namespaceMark.toList := by decide
  have hbreak : ¬ namespaceMark.toList <+: '\n' :: escapeChars after := by
    have hhead : namespaceMark.toList.head? ≠ some '\n' := by decide
    rintro ⟨s, hs⟩
    obtain ⟨c, cs, hcs⟩ := List.exists_cons_of_ne_nil isMark_namespaceMark.1
    rw [hcs] at hs hhead
    exact hhead (congrArg some (List.cons.inj hs).1)
  rw [escapeChars_append_cons (by decide), escapeChars_of_forall hplain,
    escapeChars_of_forall fun c hc => (isMark_namespaceMark.2 c hc).1,
    escapeChars_single (c := '\n') fun h => absurd h (by decide),
    Text.replaceFrom_append_cons isMark_namespaceMark.1 hspace,
    Text.replaceFrom_append isMark_namespaceMark.1 hmark,
    Text.replaceFrom_append_self isMark_namespaceMark.1, Text.replaceFrom_cons hbreak]
  exact ⟨_, _, rfl⟩

/-- The line by which a template puts a record into the namespace of the release. -/
def namespaceLine : String := marked "  namespace: ‹‹ .Release.Namespace ››\n"

/-- The template of a record whose kind lives in a namespace has the line for it. -/
theorem contains_recordText (h : r.Describes id) (hscope : Kind.isClusterScoped id.kind = false) :
    Text.contains (recordText r) namespaceLine = true := by
  have hbound := describes_releasedIn h namespaceMark
  have hplace := hbound.place
  rw [hscope] at hplace
  obtain ⟨before, after, htext⟩ :=
    Yaml.infix_text_metadata hbound.metadata?_eq hplace (by decide)
  have hline : Yaml.spaces 2 ++ (Yaml.keyText "namespace" ++ ':' :: ' ' ::
      Yaml.textLine 4 namespaceMark.toList) =
        ' ' :: (" namespace: ".toList ++ (namespaceMark.toList ++ ['\n'])) := by decide
  have hprinted : namespaceLine.toList =
      ' ' :: (" namespace: ".toList ++ (namespaceAction ++ ['\n'])) := by decide
  have hsplit : (Yaml.text (boundRecord r).toValue).toList = before ++ ' ' ::
      (" namespace: ".toList ++ (namespaceMark.toList ++ '\n' :: after)) := by
    rw [boundRecord_eq, ← htext, hline]
    simp only [List.append_assoc, List.cons_append, List.nil_append]
  have hplain : " namespace: ".toList.all (isBrace · == false) = true := by decide
  have hmark : " namespace: ".toList.all (namespaceMark.toList.head? != some ·) = true := by decide
  obtain ⟨b, a, hb⟩ := replaceFrom_line before " namespace: ".toList after
    (fun c hc => beq_iff_eq.mp (List.all_eq_true.mp hplain c hc))
    (fun c hc => bne_iff_ne.mp (List.all_eq_true.mp hmark c hc))
  rw [Text.contains_iff, hprinted, toList_recordText, hsplit, hb]
  refine ⟨b, a, ?_⟩
  simp only [List.append_assoc, List.cons_append, List.nil_append]

end Chart

/-! ### Objects of custom kinds -/

/-- Wherever the record is rendered, its object has no namespace if its kind never lives in one.
Otherwise it is put into the default one, that of the module or that of the release. -/
structure Record.PlacedByKind (r : Record) (kind name : String) : Prop where
  applied : ∀ o, (Manifest.completed o r).Describes (.placed kind name defaultNamespace)
  resource : ∀ m before, (Terraform.blockOf m before r).namespace? =
    if Kind.isClusterScoped kind then none else some Terraform.namespaceVariable
  bound : (Chart.boundRecord r).Describes (.placed kind name Chart.namespaceMark)
  line : Kind.isClusterScoped kind = false →
    Text.contains (Chart.recordText r) Chart.namespaceLine = true

theorem Record.placedByKind (h : r.Describes ⟨kind, name, none⟩) : r.PlacedByKind kind name where
  applied := fun o => Manifest.describes_completed o h
  resource := fun m before => Terraform.namespace?_blockOf m before h
  bound := Chart.describes_boundRecord h
  line := Chart.contains_recordText h

namespace CustomResource

variable {c : CustomResource} {i : Instance}

theorem exists_describes_of_mem_records (hr : r ∈ c.records) : ∃ id, r.Describes id := by
  have hrecords : (Definition.customResource c).records .empty = .ok c.records := rfl
  exact Definition.exists_describes_of_mem hrecords hr

/-- An object of a custom kind for the whole cluster is rendered by its kind alone: no format gives
it a namespace if its kind is one of those that never live in one, and every format does if it is
not. -/
theorem placedByKind_of_cluster (hscope : c.scope = .cluster) (hi : i ∈ c.instances) :
    c.instanceRecord i ∈ c.records ∧ (c.instanceRecord i).Describes ⟨c.kind, i.name, none⟩ ∧
      (c.instanceRecord i).PlacedByKind c.kind i.name ∧
      (∀ o, ∃ r ∈ Manifest.prepare o c.records,
        r.Describes (.placed c.kind i.name defaultNamespace)) ∧
      (∀ m, ∃ b ∈ Terraform.blocks m c.records, b.kind = c.kind ∧ b.name = i.name ∧
        b.namespace? = if Kind.isClusterScoped c.kind then none
          else some Terraform.namespaceVariable) ∧
      ∀ chart : Chart, ∃ r ∈ Chart.copiedRecords chart
          (Chart.Primary.find? (.customResource c) c.records) c.records,
        r.PlacedByKind c.kind i.name := by
  have hx : c.instanceRecord i ∈ c.records :=
    List.mem_append_right _ (List.mem_map_of_mem hi)
  have hdescribes := c.describes_instanceRecord i
  rw [hscope] at hdescribes
  have hall : ∀ r ∈ c.records, ∃ id, r.Describes id := fun r => exists_describes_of_mem_records
  obtain ⟨s, hs, hs'⟩ := Record.exists_mem_distinct hall hx
  rw [hdescribes.identity] at hs'
  refine ⟨hx, hdescribes, Record.placedByKind hdescribes, fun o => ?_, fun m => ?_, fun chart => ?_⟩
  · obtain ⟨r, hr, hr'⟩ := Manifest.exists_mem_prepare o hall hx
    rw [(Manifest.describes_completed o hdescribes).identity] at hr'
    exact ⟨r, hr, hr'⟩
  · have hsorted := (Record.sortForApply_perm (Record.distinct c.records)).mem_iff.mpr hs
    obtain ⟨before, hb⟩ := Terraform.exists_block_of_mem m [] hsorted
    refine ⟨_, hb, ?_, ?_, Terraform.namespace?_blockOf m before hs'⟩
    · rw [Terraform.kind_blockOf, hs'.kind_eq]
    · rw [Terraform.name_blockOf, Terraform.nameOf, hs'.name, Option.getD_some]
  · have hnone : Chart.Primary.find? (.customResource c) c.records = none := rfl
    rw [hnone, Chart.copiedRecords_none, Record.distinct_append]
    exact ⟨s, List.mem_append_left _ hs, Record.placedByKind hs'⟩

/-- The custom kind `Tenant` for the whole cluster, with one object. -/
def tenants : CustomResource :=
  { (ofKind "platform.example" "v1" "Tenant").addInstance "acme" .empty with scope := .cluster }

theorem placedByKind_acme : tenants.scope = .cluster ∧ ∃ i ∈ tenants.instances,
    i.name = "acme" ∧ (tenants.instanceRecord i).PlacedByKind "Tenant" "acme" := by
  have hmem : (⟨"acme", none, .empty⟩ : Instance) ∈ tenants.instances := List.mem_singleton_self _
  exact ⟨rfl, _, hmem, rfl, (placedByKind_of_cluster rfl hmem).2.2.1⟩

/-- Nothing in its kind tells that an object of this kind has no namespace, and it gets one. -/
theorem acme_placed : ∃ i ∈ tenants.instances, (tenants.instanceRecord i).namespace? = none ∧
    (∃ r ∈ Manifest.prepare {} tenants.records, r.kind = "Tenant" ∧ r.name? = some "acme" ∧
      r.namespace? = some "default") ∧
    (Terraform.blockOf {} [] (tenants.instanceRecord i)).namespace? =
      some (.expression "var.namespace") ∧
    Text.contains (Chart.recordText (tenants.instanceRecord i)) Chart.namespaceLine = true := by
  have hmem : (⟨"acme", none, .empty⟩ : Instance) ∈ tenants.instances := List.mem_singleton_self _
  have hobject : (tenants.instanceRecord ⟨"acme", none, .empty⟩).Describes
      ⟨"Tenant", "acme", none⟩ := tenants.describes_instanceRecord _
  have hscope : Kind.isClusterScoped "Tenant" = false := by decide
  have hx : tenants.instanceRecord ⟨"acme", none, .empty⟩ ∈ tenants.records :=
    List.mem_append_right _ (List.mem_map_of_mem hmem)
  obtain ⟨r, hr, happlied⟩ := Manifest.exists_mem_prepare {}
    (fun r => exists_describes_of_mem_records) hx
  rw [(Manifest.describes_completed {} hobject).identity] at happlied
  refine ⟨_, hmem, hobject.namespace?_eq, ⟨r, hr, happlied.kind_eq, happlied.name, ?_⟩, ?_,
    Chart.contains_recordText hobject hscope⟩
  · rw [happlied.namespace?_eq, hscope]
    rfl
  · rw [Terraform.namespace?_blockOf {} [] hobject, hscope]
    rfl

end CustomResource

end Rollout
