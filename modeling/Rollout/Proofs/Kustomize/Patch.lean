import Rollout.Proofs.Assoc
import Rollout.Proofs.Decimal.Digits
import Rollout.Proofs.Kustomize
import Rollout.Proofs.Text

/-!
# Patches and their files

The document of a patch to merge has the identity of its target in front, and all fields of the
given document that are no part of an identity. The metadata count as one, so of these no field but
the name is left.

The files of the patches of a kustomization have different names, whatever their targets, since the
place of a patch is the number that its file name begins with.
-/

namespace Rollout

namespace Patch

/-! ### Documents to merge -/

/-- A field of the metadata of a document. -/
def metadataField? (v : Value) (key : String) : Option Value :=
  (v.field? "metadata").bind (·.field? key)

/-- A document is another one with the identity of a target: its API version, its kind and its name
are those of the target, and all else is as it is there. -/
structure Identified (target : PatchTarget) (document result : Value) : Prop where
  apiVersion : result.field? "apiVersion" = some (.text target.apiVersion)
  kind : result.field? "kind" = some (.text target.kind)
  name : metadataField? result "name" = some (.text target.name)
  metadata : ∀ key ≠ "name", metadataField? result key = metadataField? document key
  others : result.entries.without identityKeys = document.entries.without identityKeys

section Merging

variable (target : PatchTarget) (document : Value)

/-- The entries of an identity, in front of the others. -/
theorem document_merging : (merging target document).document =
    .mapping ([("apiVersion", .text target.apiVersion), ("kind", .text target.kind),
      ("metadata", .mapping [("name", .text target.name)])] ++
      document.entries.without identityKeys) := by
  rw [Patch.document, Assoc.without]
  simp

theorem field?_document_merging (key : String) : (merging target document).document.field? key =
    if key = "apiVersion" then some (.text target.apiVersion)
    else if key = "kind" then some (.text target.kind)
    else if key = "metadata" then some (.mapping [("name", .text target.name)])
    else Assoc.get? (document.entries.without identityKeys) key := by
  rw [document_merging]
  change Assoc.get? _ key = _
  rw [List.cons_append, List.cons_append, List.cons_append, Assoc.get?_cons, Assoc.get?_cons,
    Assoc.get?_cons]
  rfl

theorem metadataField?_document_merging (key : String) :
    metadataField? (merging target document).document key =
      if key = "name" then some (.text target.name) else none := by
  rw [metadataField?, field?_document_merging]
  exact Assoc.get?_cons "name" _ [] key

theorem without_document_merging :
    (merging target document).document.entries.without identityKeys =
      document.entries.without identityKeys := by
  have hidentity : Assoc.without [("apiVersion", Value.text target.apiVersion),
      ("kind", .text target.kind), ("metadata", .mapping [("name", .text target.name)])]
      identityKeys = [] := rfl
  rw [document_merging]
  change Assoc.without (_ ++ _) identityKeys = _
  rw [Assoc.without, List.filter_append]
  change Assoc.without _ identityKeys ++ Assoc.without _ identityKeys = _
  rw [hidentity, List.nil_append, Assoc.without_without_of_subset _ (List.Subset.refl _)]

/-- The document for a target is the given one with another identity just if this has no metadata
but a name. -/
theorem identified_document_iff :
    Identified target document (merging target document).document ↔
      ∀ key ≠ "name", metadataField? document key = none := by
  have hother (key : String) (hkey : key ≠ "name") :
      metadataField? (merging target document).document key = none := by
    rw [metadataField?_document_merging, if_neg hkey]
  constructor
  · intro h key hkey
    rw [← h.metadata key hkey, hother key hkey]
  · intro h
    exact
      { apiVersion := by rw [field?_document_merging, if_pos rfl]
        kind := by rw [field?_document_merging, if_neg (by decide), if_pos rfl]
        name := by rw [metadataField?_document_merging, if_pos rfl]
        metadata := fun key hkey => by rw [hother key hkey, h key hkey]
        others := without_document_merging target document }

end Merging

/-! ### Names of files -/

theorem toList_fileName (p : Patch) (place : Nat) : (p.fileName place).toList =
    "patch".toList ++ '-' :: (Nat.toDigits 10 (place + 1) ++
      '-' :: (p.target.kind.toLower ++ "-" ++ Name.fileName p.target.name ++ ".yaml").toList) := by
  have hname : p.fileName place = "patch-" ++ (toString (place + 1) ++
      ("-" ++ (p.target.kind.toLower ++ "-" ++ Name.fileName p.target.name ++ ".yaml"))) := by
    simp only [fileName, String.append_assoc]
    rfl
  have hdigits : (toString (place + 1)).toList = Nat.toDigits 10 (place + 1) :=
    String.toList_ofList
  have hdash (s : String) : ("-" ++ s).toList = '-' :: s.toList := by
    rw [String.toList_append]
    rfl
  rw [hname, String.toList_append, String.toList_append, hdigits, hdash]
  rfl

/-- The name of a file tells the place of the patch. -/
theorem fileName_inj {p q : Patch} {i j : Nat} (h : p.fileName i = q.fileName j) : i = j := by
  have hnone (n : Nat) : '-' ∉ Nat.toDigits 10 n := fun hmem =>
    absurd (isDigit_of_mem_toDigits hmem) (by decide)
  have hparts := congrArg (fun name : String => Text.partsOf '-' name.toList) h
  simp only [toList_fileName] at hparts
  rw [Text.partsOf_append_cons (by decide), Text.partsOf_append_cons (hnone _),
    Text.partsOf_append_cons (by decide), Text.partsOf_append_cons (hnone _)] at hparts
  have hdigits := (List.cons.inj (List.cons.inj hparts).2).1
  have hvalue := congrArg (fun digits => Nat.ofDigitChars 10 digits 0) hdigits
  simp only [Nat.ofDigitChars_ten_toDigits] at hvalue
  omega

end Patch

namespace Kustomize

/-- No two patches of a kustomization are written to one file. -/
theorem nodup_names_patchFiles (k : Kustomization) : ((patchFiles k).map (·.1)).Nodup := by
  refine List.pairwise_iff_getElem.mpr fun i j hi hj hlt heq => ?_
  simp only [patchFiles, List.getElem_map, List.getElem_mapIdx] at heq
  exact absurd (Patch.fileName_inj heq) (Nat.ne_of_lt hlt)

theorem map_snd_patchFiles (k : Kustomization) : (patchFiles k).map (·.2) = k.patches := by
  refine List.ext_getElem (by simp [patchFiles]) fun i hi _ => ?_
  simp only [patchFiles, List.getElem_map, List.getElem_mapIdx]

/-- The file of a patch stands at its place behind that of the kustomization. -/
theorem getElem?_kustomizationFiles {k : Kustomization} {p : Patch} {place : Nat}
    (h : k.patches[place]? = some p) (resources : List String) :
    (kustomizationFiles k resources)[place + 1]? =
      some (.ofValue (p.fileName place) p.document) := by
  rw [kustomizationFiles, List.getElem?_cons_succ, List.getElem?_map, patchFiles,
    List.getElem?_mapIdx, h]
  rfl

/-! ### Entries and files -/

theorem get?_optionEntry {key other : String} (h : other ≠ key) (value : Option String) :
    Assoc.get? (optionEntry key value) other = none := by
  cases value with
  | none => rfl
  | some s => exact (Assoc.get?_cons key _ [] other).trans (if_neg h)

theorem get?_mapEntry {key other : String} (h : other ≠ key) (m : Assoc String) :
    Assoc.get? (mapEntry key m) other = none := by
  unfold mapEntry
  split
  · rfl
  · exact (Assoc.get?_cons key _ [] other).trans (if_neg h)

theorem get?_listEntry {α : Type} (key other : String) (xs : List α) (f : α → Value) :
    Assoc.get? (listEntry key xs f) other =
      if other = key ∧ xs ≠ [] then some (.list (xs.map f)) else none := by
  unfold listEntry
  cases xs with
  | nil => simp [Assoc.get?_nil]
  | cons x xs => simp [Assoc.get?_cons, Assoc.get?_nil]

theorem field?_patches_document (k : Kustomization) (resources : List String) :
    (document k resources).field? "patches" =
      if k.patches = [] then none
      else some (.list ((patchFiles k).map fun x => patchEntry x.1 x.2)) := by
  have hnil : patchFiles k = [] ↔ k.patches = [] := by simp [patchFiles]
  have hfield : (document k resources).field? "patches" =
      Assoc.get? (listEntry "patches" (patchFiles k) fun x => patchEntry x.1 x.2) "patches" := by
    rw [document]
    change Assoc.get? (_ ++ _) "patches" = _
    simp (disch := decide) [Assoc.get?_append, Assoc.get?_cons, get?_optionEntry, get?_mapEntry,
      get?_listEntry]
  rw [hfield, get?_listEntry]
  by_cases h : k.patches = [] <;> simp [hnil, h]

/-- A kustomization lists one entry for each of its patches, and has one file for each, in the order
of the patches and under different names. -/
def WritesPatches (k : Kustomization) : Prop :=
  ∃ names : List String, ("kustomization.yaml" :: names).Nodup ∧
    names.length = k.patches.length ∧ ∀ resources,
      (document k resources).field? "patches" =
        (if k.patches = [] then none else some (.list (names.zipWith patchEntry k.patches))) ∧
      kustomizationFiles k resources =
        .ofValue "kustomization.yaml" (document k resources) ::
          names.zipWith (fun name p => .ofValue name p.document) k.patches

theorem writesPatches (k : Kustomization) : WritesPatches k := by
  have hother : "kustomization.yaml" ∉ (patchFiles k).map (·.1) := by
    intro hmem
    obtain ⟨x, hx, hname⟩ := List.mem_map.mp hmem
    obtain ⟨place, hplace⟩ := exists_fileName_of_mem_patchFiles hx
    have hchars := congrArg String.toList (hname.symm.trans hplace)
    rw [Patch.toList_fileName] at hchars
    exact absurd (List.cons.inj hchars).1 (by decide)
  have hzip {α : Type} (f : String → Patch → α) :
      (patchFiles k).map (fun x => f x.1 x.2) =
        ((patchFiles k).map (·.1)).zipWith f k.patches := by
    rw [← map_snd_patchFiles k, List.zipWith_map, List.zipWith_self]
  refine ⟨(patchFiles k).map (·.1), List.nodup_cons.mpr ⟨hother, nodup_names_patchFiles k⟩, ?_,
    fun resources => ⟨?_, ?_⟩⟩
  · simp [patchFiles]
  · rw [field?_patches_document, hzip]
  · rw [kustomizationFiles, ← hzip]

/-- The file for a patch to merge holds a document with the identity of the target, in which the
name is all that there is of metadata. Of the given document it has everything else, and so it is
that document with another identity just if this has no metadata but a name. -/
theorem merging_file (target : PatchTarget) (document : Value) :
    let result := (Patch.merging target document).document
    (result.field? "apiVersion" = some (.text target.apiVersion) ∧
      result.field? "kind" = some (.text target.kind) ∧
      result.field? "metadata" = some (.mapping [("name", .text target.name)]) ∧
      result.entries.without Patch.identityKeys = document.entries.without Patch.identityKeys) ∧
    (Patch.Identified target document result ↔
      ∀ key ≠ "name", Patch.metadataField? document key = none) ∧
    ∀ (k : Kustomization) (resources : List String) (place : Nat),
      k.patches[place]? = some (.merging target document) →
        (kustomizationFiles k resources)[place + 1]? =
          some (.ofValue ((Patch.merging target document).fileName place) result) := by
  intro result
  have hfield (key : String) := Patch.field?_document_merging target document key
  refine ⟨⟨hfield _, hfield _, hfield _, Patch.without_document_merging target document⟩,
    Patch.identified_document_iff target document, fun k resources place h => ?_⟩
  exact getElem?_kustomizationFiles h resources

/-- Labels in a document to merge. -/
theorem merged_labels_dropped :
    let target : PatchTarget := ⟨"apps", "v1", "Deployment", "web"⟩
    let labels : Value := .mapping [("tier", .text "front")]
    let document : Value := .mapping [("metadata", .mapping [("labels", labels)]),
      ("spec", .mapping [("replicas", .int 2)])]
    let result := (Patch.merging target document).document
    Patch.metadataField? document "labels" = some labels ∧
      Patch.metadataField? result "labels" = none ∧
      ¬ Patch.Identified target document result := by
  intro target labels document result
  have hdropped : Patch.metadataField? result "labels" = none := by decide +kernel
  have hgiven : Patch.metadataField? document "labels" = some labels := by decide +kernel
  refine ⟨hgiven, hdropped, fun h => ?_⟩
  have hkept := h.metadata "labels" (by decide)
  rw [hdropped, hgiven] at hkept
  exact nomatch hkept

end Kustomize

end Rollout
