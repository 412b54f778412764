import Mathlib.Algebra.Order.BigOperators.Group.List
import Mathlib.Algebra.Order.Group.Nat
import Rollout.Kustomize.Basic
import Rollout.Proofs.Bytes
import Rollout.Proofs.Codec.Fields
import Rollout.Proofs.Meta

/-!
# Kustomizations are read back

However a kustomization or an overlay has been set up, it is read back from what is written for
it, but for the values of operations on paths: a value that is null is written like any other one
and read as none. The file of a patch has an entry for each value, the null ones included. So the
files are those of before exactly if no operation has a null value.
-/

namespace Rollout

open Codec Fields

/-- Texts of the items of a list are longer in all if one is longer and none is shorter. -/
theorem length_flatMap_lt {α : Type} {l : List α} {f g : α → List Char}
    (hle : ∀ a ∈ l, (f a).length ≤ (g a).length)
    (hlt : ∃ a ∈ l, (f a).length < (g a).length) :
    (l.flatMap f).length < (l.flatMap g).length := by
  rw [List.length_flatMap, List.length_flatMap]
  exact List.sum_lt_sum _ _ hle hlt

namespace Yaml

theorem writeItems_eq_flatMap (indent : Nat) (vs : List Value) :
    writeItems indent true vs =
      vs.flatMap fun v => spaces indent ++ '-' :: ' ' :: write (indent + 2) v := by
  induction vs with
  | nil => rw [writeItems, List.flatMap_nil]
  | cons v vs ih => rw [writeItems, if_pos rfl, ih, List.flatMap_cons]

/-- The items at the left margin have no indentation. -/
theorem toList_text_list {vs : List Value} (h : vs ≠ []) :
    (text (.list vs)).toList = vs.flatMap fun v => '-' :: ' ' :: write 2 v := by
  have hpad : writeItems 0 false vs = writeItems 0 true vs := by
    cases vs with
    | nil => rfl
    | cons v vs =>
      rw [writeItems, writeItems]
      rfl
  have hempty : vs.isEmpty = false := List.isEmpty_eq_false_iff.mpr h
  rw [text, String.toList_ofList, write, hempty, if_neg Bool.false_ne_true, hpad,
    writeItems_eq_flatMap]
  rfl

theorem writeEntries_append (indent : Nat) (entries others : Assoc Value) :
    writeEntries indent true (entries ++ others) =
      writeEntries indent true entries ++ writeEntries indent true others := by
  induction entries with
  | nil => rw [List.nil_append, writeEntries, List.nil_append]
  | cons e entries ih => simp only [List.cons_append, writeEntries, ih, List.append_assoc]

theorem length_writeEntries_pos (indent : Nat) {entries : Assoc Value} (h : entries ≠ []) :
    0 < (writeEntries indent true entries).length := by
  cases entries with
  | nil => exact absurd rfl h
  | cons e entries =>
    apply List.length_pos_of_ne_nil
    rw [writeEntries]
    apply List.append_ne_nil_of_left_ne_nil
    apply List.append_ne_nil_of_right_ne_nil
    split
    · exact List.append_ne_nil_of_right_ne_nil _ (List.cons_ne_nil _ _)
    · exact List.cons_ne_nil _ _

/-- A mapping takes more space with further entries. -/
theorem length_write_mapping_lt (indent : Nat) (e : String × Value) (entries : Assoc Value)
    {others : Assoc Value} (h : others ≠ []) :
    (write indent (.mapping (e :: entries))).length <
      (write indent (.mapping (e :: entries ++ others))).length := by
  have hmore := length_writeEntries_pos indent h
  simp only [write, List.cons_append, List.isEmpty_cons, Bool.false_eq_true, if_false,
    writeEntries, writeEntries_append, List.length_append]
  omega

end Yaml

theorem ImageOverride.returns (i : ImageOverride) : ImageOverride.codec.Returns i :=
  returns_struct (by decide)
    (.seq readsBack_optionalText <|
      .seq readsBack_optionalText <|
      .map _ readsBack_requiredText)
    rfl

theorem DataGenerator.returns (g : DataGenerator) : DataGenerator.codec.Returns g :=
  returns_struct (by decide)
    (.seq readsBack_optionalText <|
      .seq readsBack_itemsText <|
      .seq readsBack_itemsText <|
      .seq readsBack_itemsText <|
      .map _ readsBack_requiredText)
    rfl

theorem PatchTarget.returns (t : PatchTarget) : PatchTarget.codec.Returns t := by
  have hgroup : t.group.isEmpty = true → t.group = "" := String.isEmpty_iff.mp
  exact returns_struct (by decide)
    (.seq readsBack_requiredText <|
      .seq readsBack_requiredText <|
      .seq (readsBack_defaulted (returns_text _)) <|
      .map _ (readsBack_elided (returns_text _) hgroup))
    rfl

namespace PatchOperation

/-- The operation with none in the place of a null value. -/
def withoutNull (o : PatchOperation) : PatchOperation :=
  { o with value := o.value.filter fun v => !v.isNull }

/-- All of an operation is read back but a null value. -/
theorem readsAs (o : PatchOperation) : codec.ReadsAs o o.withoutNull :=
  readsAs_struct (by decide)
    (.seq readsBack_optionalAny <|
      .seq readsBack_requiredText <|
      .map _ readsBack_requiredText)

theorem withoutNull_eq_self {o : PatchOperation} (h : o.value ≠ some .null) :
    o.withoutNull = o := by
  rw [withoutNull, filter_notNull_eq_self_iff.mpr h]

theorem encode_eq (o : PatchOperation) : codec.encode o = .mapping
    ([("op", .text o.op), ("path", .text o.path)] ++ (o.value.map ("value", ·)).toList) := by
  obtain ⟨op, path, value⟩ := o
  cases value with
  | none => rfl
  | some v => rfl

/-- The entry for a null value takes space. -/
theorem length_write_withoutNull_lt (indent : Nat) {o : PatchOperation}
    (h : o.value = some .null) : (Yaml.write indent (codec.encode o.withoutNull)).length <
      (Yaml.write indent (codec.encode o)).length := by
  have hnone : o.withoutNull.value = .none := by
    rw [withoutNull, h]
    rfl
  rw [encode_eq, encode_eq, hnone, h]
  exact Yaml.length_write_mapping_lt indent _ _ (List.cons_ne_nil _ _)

end PatchOperation

namespace Patch

/-- The operations of a patch on paths. -/
def ops : Patch → List PatchOperation
  | operations _ ops => ops
  | merging _ _ => []

/-- The patch without the null values of its operations. -/
def withoutNulls : Patch → Patch
  | operations target ops => operations target (ops.map PatchOperation.withoutNull)
  | merging target document => merging target document

@[simp] theorem target_withoutNulls (p : Patch) : p.withoutNulls.target = p.target := by
  cases p <;> rfl

@[simp] theorem fileName_withoutNulls (p : Patch) (place : Nat) :
    p.withoutNulls.fileName place = p.fileName place := by
  rw [fileName, fileName, target_withoutNulls]

theorem readsAs (p : Patch) : codec.ReadsAs p p.withoutNulls := by
  cases p with
  | operations target ops =>
    exact readsAs_tagged (by decide) ⟨rfl, rfl⟩ <| Variant.readsAs_ofFields rfl <|
      .seq (readsBack_requiredAs (readsAs_list fun o _ => o.readsAs)) <|
      .map _ (readsBack_required target.returns)
  | merging target document =>
    exact readsAs_tagged (by decide) ⟨rfl, rfl⟩ <| Variant.readsAs_ofFields rfl <|
      .seq (readsBack_required (returns_any _)) <|
      .map _ (readsBack_required target.returns)

theorem withoutNulls_eq_self {p : Patch} (h : ∀ o ∈ p.ops, o.value ≠ some .null) :
    p.withoutNulls = p := by
  cases p with
  | merging target document => rfl
  | operations target ops =>
    have hops : ops.map PatchOperation.withoutNull = ops.map id :=
      List.map_congr_left fun o ho => PatchOperation.withoutNull_eq_self (h o ho)
    rw [withoutNulls, hops, List.map_id]

/-- The text of a patch tells a null value from none. -/
theorem text_document_withoutNulls_iff (p : Patch) :
    Yaml.text p.withoutNulls.document = Yaml.text p.document ↔
      ∀ o ∈ p.ops, o.value ≠ some .null := by
  refine ⟨fun htext => ?_, fun h => by rw [withoutNulls_eq_self h]⟩
  cases p with
  | merging target document => exact nofun
  | operations target ops =>
    by_contra hnull
    push Not at hnull
    obtain ⟨o, ho, hvalue⟩ := hnull
    have hne : ops ≠ [] := List.ne_nil_of_mem ho
    let entry (f : PatchOperation → PatchOperation) (o : PatchOperation) : List Char :=
      '-' :: ' ' :: Yaml.write 2 (PatchOperation.codec.encode (f o))
    have hshorter {o : PatchOperation} (h : o.value = some .null) :
        (entry PatchOperation.withoutNull o).length < (entry id o).length :=
      Nat.add_lt_add_right (o.length_write_withoutNull_lt 2 h) 2
    have hle : ∀ o ∈ ops, (entry PatchOperation.withoutNull o).length ≤ (entry id o).length := by
      intro o _
      by_cases hvalue : o.value = some .null
      · exact Nat.le_of_lt (hshorter hvalue)
      · simp only [entry, PatchOperation.withoutNull_eq_self hvalue, id_eq, le_refl]
    have hlength := congrArg (fun s : String => s.toList.length) htext
    simp only [withoutNulls, document] at hlength
    rw [Yaml.toList_text_list (by simpa using hne), Yaml.toList_text_list (by simpa using hne),
      List.map_map, List.flatMap_map, List.flatMap_map] at hlength
    exact absurd hlength (Nat.ne_of_lt (length_flatMap_lt hle ⟨o, ho, hshorter hvalue⟩))

end Patch

namespace Kustomization

/-- The settings of a kustomization. -/
inductive IsSetting : (Kustomization → Kustomization) → Prop where
  | ns (ns : String) : IsSetting fun k => { k with ns := some ns }
  | nameStart (start : String) : IsSetting fun k => { k with nameStart := some start }
  | nameEnd (ending : String) : IsSetting fun k => { k with nameEnd := some ending }
  | label (key value : String) : IsSetting (·.withLabel key value)
  | note (key value : String) : IsSetting (·.withNote key value)
  | image (i : ImageOverride) : IsSetting (·.addImage i)
  | secretGenerator (g : DataGenerator) :
    IsSetting fun k => { k with secretGenerators := k.secretGenerators ++ [g] }
  | configMapGenerator (g : DataGenerator) :
    IsSetting fun k => { k with configMapGenerators := k.configMapGenerators ++ [g] }
  | patch (p : Patch) : IsSetting (·.addPatch p)
  | replicas (kind name : String) (count : Nat) : IsSetting (·.withReplicas kind name count)
  | data (name : String) (data : List (String × String)) : IsSetting (·.withData name data)

/-- A kustomization that has been set up. -/
def Built : Kustomization → Prop := Reached (· = {}) IsSetting

/-- The labels and the annotations are sorted. -/
structure Fits (k : Kustomization) : Prop where
  labels : k.commonLabels.IsSorted
  annotations : k.commonAnnotations.IsSorted

variable {k : Kustomization}

theorem Built.fits (h : k.Built) : k.Fits := by
  refine h.holds ?_ fun f k hf hk => ?_
  · rintro _ rfl
    exact ⟨List.Pairwise.nil, List.Pairwise.nil⟩
  · cases hf with
    | label key value => exact { hk with labels := hk.labels.insertSorted key value }
    | note key value => exact { hk with annotations := hk.annotations.insertSorted key value }
    -- no other setting changes the labels or the annotations
    | _ => exact { hk with }

/-- The kustomization without the null values of the operations of its patches. -/
def withoutNulls (k : Kustomization) : Kustomization :=
  { k with patches := k.patches.map Patch.withoutNulls }

/-- No operation of a patch has a null value. -/
def HasNoNulls (k : Kustomization) : Prop := ∀ p ∈ k.patches, ∀ o ∈ p.ops, o.value ≠ some .null

instance : DecidablePred HasNoNulls := fun k =>
  inferInstanceAs (Decidable (∀ p ∈ k.patches, ∀ o ∈ p.ops, o.value ≠ some .null))

/-- The keys of the fields of a kustomization. -/
def keys : List String :=
  ["namespace", "namePrefix", "nameSuffix", "commonLabels", "commonAnnotations", "images",
    "secretGenerators", "configMapGenerators", "patches"]

/-- All of a kustomization is read back but the null values of operations. -/
theorem readsBack_fields (h : k.Fits) : fields.ReadsBack keys k k.withoutNulls :=
  .congr
    (.seq (readsBack_itemsAs fun p _ => p.readsAs) <|
      .seq (readsBack_items fun g _ => g.returns) <|
      .seq (readsBack_items fun g _ => g.returns) <|
      .seq (readsBack_items fun i _ => i.returns) <|
      .seq (readsBack_sortedText h.annotations) <|
      .seq (readsBack_sortedText h.labels) <|
      .seq readsBack_optionalText <|
      .seq readsBack_optionalText <|
      .map _ readsBack_optionalText)
    rfl rfl

theorem readsAs (h : k.Fits) : codec.ReadsAs k k.withoutNulls :=
  readsAs_struct (by decide) (readsBack_fields h)

end Kustomization

namespace Overlay

/-- An overlay of which the kustomization has been set up. -/
def Built (o : Overlay) : Prop := o.kustomization.Built

/-- The overlay without the null values of the operations of its patches. -/
def withoutNulls (o : Overlay) : Overlay := o.mapKustomization Kustomization.withoutNulls

theorem readsAs {o : Overlay} (h : o.Built) : codec.ReadsAs o o.withoutNulls :=
  readsAs_mapping (by decide)
    (.seq (readsBack_part (Kustomization.readsBack_fields h.fits)) <|
      .map _ readsBack_requiredText)

end Overlay

namespace Kustomize

theorem patchFiles_withoutNulls (k : Kustomization) :
    patchFiles k.withoutNulls = (patchFiles k).map fun (name, p) => (name, p.withoutNulls) := by
  apply List.ext_getElem
  · simp only [patchFiles, Kustomization.withoutNulls, List.length_map, List.length_mapIdx]
  · intro i hi _
    simp only [patchFiles, Kustomization.withoutNulls, List.getElem_map, List.getElem_mapIdx,
      Patch.fileName_withoutNulls]

/-- Each file is named after its patch and the place of that. -/
theorem exists_fileName_of_mem_patchFiles {k : Kustomization} {x : String × Patch}
    (h : x ∈ patchFiles k) : ∃ place, x.1 = x.2.fileName place := by
  obtain ⟨place, _, rfl⟩ := List.mem_mapIdx.mp h
  exact ⟨place, rfl⟩

theorem forall_mem_patchFiles_iff {k : Kustomization} {P : Patch → Prop} :
    (∀ x ∈ patchFiles k, P x.2) ↔ ∀ p ∈ k.patches, P p := by
  constructor
  · intro h p hp
    obtain ⟨i, hi, rfl⟩ := List.mem_iff_getElem.mp hp
    exact h _ (List.mem_mapIdx.mpr ⟨i, hi, rfl⟩)
  · intro h x hx
    obtain ⟨i, hi, rfl⟩ := List.mem_mapIdx.mp hx
    exact h _ (List.getElem_mem hi)

/-- The document of a kustomization tells nothing of a patch but its target. -/
theorem document_withoutNulls (k : Kustomization) (resources : List String) :
    document k.withoutNulls resources = document k resources := by
  have hentries : listEntry "patches" (patchFiles k.withoutNulls)
      (fun (name, p) => patchEntry name p) =
        listEntry "patches" (patchFiles k) fun (name, p) => patchEntry name p := by
    simp only [listEntry, patchFiles_withoutNulls, List.isEmpty_map, List.map_map,
      Function.comp_def, patchEntry, Patch.target_withoutNulls]
  rw [document, document, hentries]
  rfl

/-- The files of a kustomization change exactly if an operation has a null value, wherever they
are put. -/
theorem kustomizationFiles_withoutNulls_iff (k : Kustomization) (resources : List String)
    (dir : String) :
    (kustomizationFiles k.withoutNulls resources).map (OutputFile.under dir) =
      (kustomizationFiles k resources).map (OutputFile.under dir) ↔ k.HasNoNulls := by
  have hpatch (x : String × Patch) :
      (OutputFile.ofValue x.1 x.2.withoutNulls.document).under dir =
        (OutputFile.ofValue x.1 x.2.document).under dir ↔
          ∀ o ∈ x.2.ops, o.value ≠ some .null := by
    rw [← x.2.text_document_withoutNulls_iff]
    constructor
    · intro hfile
      exact Bytes.ofText_injective (congrArg OutputFile.content hfile)
    · intro htext
      rw [OutputFile.ofValue, htext]
      rfl
  rw [kustomizationFiles, kustomizationFiles, document_withoutNulls, patchFiles_withoutNulls,
    List.map_cons, List.map_cons, List.cons_inj_right, List.map_map, List.map_map, List.map_map,
    List.map_inj_left, Kustomization.HasNoNulls, ← forall_mem_patchFiles_iff]
  exact forall₂_congr fun x _ => hpatch x

theorem length_kustomizationFiles_withoutNulls (k : Kustomization) (resources : List String) :
    (kustomizationFiles k.withoutNulls resources).length =
      (kustomizationFiles k resources).length := by
  simp only [kustomizationFiles, patchFiles_withoutNulls, List.length_cons, List.length_map]

theorem baseFiles_withoutNulls_iff (base : Kustomization) (rs : List Record) :
    (baseFiles base.withoutNulls rs).map (OutputFile.under "base") =
      (baseFiles base rs).map (OutputFile.under "base") ↔ base.HasNoNulls := by
  rw [baseFiles, baseFiles, List.map_append, List.map_append, List.append_cancel_left_eq,
    kustomizationFiles_withoutNulls_iff]

/-- Lists for each element of a list are put together to the same if they are the same one by
one, and not otherwise if they have the same lengths. -/
theorem flatMap_congr_iff {α β : Type} {f g : α → List β} {xs : List α}
    (h : ∀ x ∈ xs, (f x).length = (g x).length) :
    xs.flatMap f = xs.flatMap g ↔ ∀ x ∈ xs, f x = g x := by
  induction xs with
  | nil => exact iff_of_true rfl nofun
  | cons x xs ih =>
    obtain ⟨hx, hxs⟩ := List.forall_mem_cons.mp h
    rw [List.flatMap_cons, List.flatMap_cons, List.forall_mem_cons, ← ih hxs]
    constructor
    · intro happend
      exact List.append_inj happend hx
    · rintro ⟨hhead, htail⟩
      rw [hhead, htail]

/-- The files of a base and its overlays change exactly if an operation has a null value. -/
theorem files_withoutNulls_iff (base : Kustomization) (overlays : List Overlay)
    (rs : List Record) :
    files base.withoutNulls (overlays.map Overlay.withoutNulls) rs = files base overlays rs ↔
      base.HasNoNulls ∧ ∀ o ∈ overlays, o.kustomization.HasNoNulls := by
  have hlength : ((baseFiles base.withoutNulls rs).map (OutputFile.under "base")).length =
      ((baseFiles base rs).map (OutputFile.under "base")).length := by
    simp only [baseFiles, List.length_map, List.length_append,
      length_kustomizationFiles_withoutNulls]
  have hoverlays : (overlays.map Overlay.withoutNulls).flatMap (fun o =>
      (kustomizationFiles o.kustomization ["../../base"]).map
        (OutputFile.under (overlayDirectory o))) =
        (overlays.flatMap fun o =>
          (kustomizationFiles o.kustomization ["../../base"]).map
            (OutputFile.under (overlayDirectory o))) ↔
      ∀ o ∈ overlays, o.kustomization.HasNoNulls := by
    rw [List.flatMap_map, flatMap_congr_iff]
    · exact forall₂_congr fun o _ => kustomizationFiles_withoutNulls_iff o.kustomization _ _
    · intro o _
      simp only [List.length_map]
      exact length_kustomizationFiles_withoutNulls o.kustomization _
  rw [← hoverlays, ← baseFiles_withoutNulls_iff base rs]
  constructor
  · intro hfiles
    rw [files, files] at hfiles
    exact List.append_inj hfiles hlength
  · rintro ⟨hbase, hrest⟩
    rw [files, files, hbase, hrest]

end Kustomize

end Rollout
