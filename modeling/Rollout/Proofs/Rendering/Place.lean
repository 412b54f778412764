import Rollout.Proofs.Chart.Copied
import Rollout.Proofs.Definition.Kind
import Rollout.Proofs.Output.Files
import Rollout.Proofs.Record.FileName
import Rollout.Rendering

/-!
# Where formats put their files

Each format has an area of its own below the output directory: a directory, or, for compose,
some files and two directories. Where no name is one that leads elsewhere, no file of a format
goes outside of the area of the format.
-/

namespace Rollout

/-! ### Names in paths -/

namespace Name

/-- A text that is one step of a path. -/
def NoSlash (s : String) : Prop := '/' ∉ s.toList

instance (s : String) : Decidable (NoSlash s) := inferInstanceAs (Decidable ('/' ∉ s.toList))

theorem NoSlash.append {a b : String} (ha : NoSlash a) (hb : NoSlash b) : NoSlash (a ++ b) := by
  rw [NoSlash, String.toList_append, List.mem_append, not_or]
  exact ⟨ha, hb⟩

/-- A name that is one step of a path and stays below the directory it stands in. -/
structure IsPlain (s : String) : Prop where
  noSlash : NoSlash s
  notHere : s ≠ "."
  notOut : s ≠ ".."

instance (s : String) : Decidable (IsPlain s) :=
  decidable_of_iff (NoSlash s ∧ s ≠ "." ∧ s ≠ "..")
    ⟨fun h => ⟨h.1, h.2.1, h.2.2⟩, fun h => ⟨h.noSlash, h.notHere, h.notOut⟩⟩

theorem noSlash_fileName (s : String) : NoSlash (fileName s) := by
  rw [NoSlash, fileName, String.toList_ofList, List.mem_map]
  rintro ⟨c, -, hc⟩
  split at hc
  · exact absurd hc (by decide)
  · rename_i hsafe
    subst hc
    exact hsafe (by decide)

/-- A text without hyphens and without characters that are unsafe in the name of a file. -/
def KeptInFile (s : String) : Prop := ∀ c ∈ s.toList, c ≠ '-' ∧ isUnsafeInFile c = false

instance (s : String) : Decidable (KeptInFile s) :=
  List.decidableBAll (fun c => c ≠ '-' ∧ isUnsafeInFile c = false) s.toList

/-- A file name without hyphens and unsafe characters is that of no other name. -/
theorem fileName_eq_iff {s t : String} (h : KeptInFile t) : fileName s = t ↔ s = t := by
  have hlist : fileName s = t ↔
      s.toList.map (fun c => if isUnsafeInFile c then '-' else c) = t.toList := by
    rw [fileName, ← String.toList_inj, String.toList_ofList]
  rw [hlist, ← String.toList_inj]
  constructor
  · intro hchars
    have hkept : s.toList.map (fun c => if isUnsafeInFile c then '-' else c) =
        s.toList.map id := by
      refine List.map_congr_left fun c hc => if_neg fun hunsafe => ?_
      have hmem := List.mem_map_of_mem (f := fun c => if isUnsafeInFile c then '-' else c) hc
      rw [hchars] at hmem
      exact (h _ hmem).1 (if_pos hunsafe)
    rw [← hchars, hkept, List.map_id]
  · intro hchars
    have hkept : s.toList.map (fun c => if isUnsafeInFile c then '-' else c) =
        s.toList.map id := by
      refine List.map_congr_left fun c hc => if_neg ?_
      rw [(h c (hchars ▸ hc)).2]
      exact Bool.false_ne_true
    rw [hkept, List.map_id, hchars]

/-- Only two dots are made into two dots. -/
theorem fileName_ne_out {s : String} (h : s ≠ "..") : fileName s ≠ ".." :=
  fun heq => h ((fileName_eq_iff (by decide)).mp heq)

/-- Only letters change in lower case, and no capital one is left. -/
theorem toLower_eq_iff {c d : Char} (hd : d.val < 65) : c.toLower = d ↔ c = d := by
  have hlow : d.toNat < 65 := UInt32.lt_iff_toNat_lt.mp hd
  cases hupper : c.isUpper with
  | true =>
    -- a capital letter has a small one, and both come later
    have hsmall := Text.isLower_iff.mp (Text.isLower_toLower hupper)
    have hlarge := Text.isUpper_iff.mp hupper
    refine iff_of_false ?_ ?_ <;> rintro rfl <;> omega
  | false => rw [Text.toLower_of_isUpper_eq_false hupper]

theorem NoSlash.toLower {s : String} (h : NoSlash s) : NoSlash s.toLower := by
  have hmap : s.toLower = s.map Char.toLower := rfl
  rw [NoSlash, hmap, String.toList_map, List.mem_map]
  rintro ⟨c, hc, hlower⟩
  exact h ((toLower_eq_iff (by decide)).mp hlower ▸ hc)

theorem noSlash_toString (n : Nat) : NoSlash (toString n) := by
  intro hmem
  have hdigits : '/' ∈ Nat.toDigits 10 n := by
    rw [← Nat.toList_repr]
    exact hmem
  exact absurd (Nat.isDigit_of_mem_toDigits (by decide) (by decide) hdigits) (by decide)

end Name

open Name (NoSlash IsPlain noSlash_fileName)

namespace Record

theorem noSlash_lowerKind {r : Record} (h : NoSlash r.kind) : NoSlash r.lowerKind := by
  refine NoSlash.toLower ?_
  unfold kind at h
  cases hkind : r.kind? with
  | none => decide
  | some kind =>
    rw [hkind] at h
    exact h

theorem noSlash_fileNames {rs : List Record} (h : ∀ r ∈ rs, NoSlash r.kind) :
    ∀ name ∈ fileNames rs, NoSlash name := by
  induction rs using List.reverseRecOn with
  | nil => exact List.forall_mem_nil _
  | append_singleton rs r ih =>
    obtain ⟨hrs, hr⟩ := List.forall_mem_append.mp h
    have hkind := noSlash_lowerKind (hr r (List.mem_singleton_self r))
    have hdash : NoSlash "-" := by decide
    have hyaml : NoSlash ".yaml" := by decide
    have hname : NoSlash r.nameInFile := noSlash_fileName _
    rw [fileNames_concat, List.forall_mem_append, List.forall_mem_singleton]
    refine ⟨ih hrs, ?_⟩
    unfold nameAmong
    split
    · have hns : NoSlash (Name.fileName (r.namespace?.getD "cluster")) := noSlash_fileName _
      exact ((((hkind.append hdash).append hns).append hdash).append hname).append hyaml
    · exact ((hkind.append hdash).append hname).append hyaml

end Record

/-! ### Paths of the files of each format -/

open OutputFile (Tidy)

/-- All paths are tidy. -/
def OutputFile.AllTidy (fs : List OutputFile) : Prop := ∀ f ∈ fs, Tidy f.path

open OutputFile (AllTidy)

theorem OutputFile.allTidy_append {fs gs : List OutputFile} (hf : AllTidy fs) (hg : AllTidy gs) :
    AllTidy (fs ++ gs) :=
  List.forall_mem_append.mpr ⟨hf, hg⟩

theorem OutputFile.allTidy_under {dir : String} {fs : List OutputFile}
    (hdir : Text.startsWith dir "/" = false) (hout : ".." ∉ FileTree.steps dir)
    (h : AllTidy fs) : AllTidy (fs.map (.under dir)) := by
  intro f hf
  obtain ⟨g, hg, rfl⟩ := List.mem_map.mp hf
  exact (h g hg).join hdir hout

/-- A name that does not lead out is the path of a directory below which paths are tidy. -/
theorem OutputFile.allTidy_under_of_noSlash {name : String} {fs : List OutputFile}
    (hname : NoSlash name) (hout : name ≠ "..") (h : AllTidy fs) :
    AllTidy (fs.map (.under name)) := by
  refine allTidy_under (startsWith_slash_of_notMem hname) ?_ h
  rw [FileTree.steps_of_notMem hname, List.mem_singleton]
  exact hout.symm

/-- Files of records directly in a directory. -/
theorem OutputFile.allTidy_ofRecords {place : String} {rs : List Record}
    (h : ∀ r ∈ rs, NoSlash r.kind) (hplace : ∀ name, NoSlash name → Tidy (place ++ name))
    (text : Record → String) : AllTidy (ofRecords place text rs) := by
  intro f hf
  have hpath := List.mem_map_of_mem (f := OutputFile.path) hf
  rw [paths_ofRecords] at hpath
  obtain ⟨name, hname, heq⟩ := List.mem_map.mp hpath
  exact heq ▸ hplace name (Record.noSlash_fileNames h name hname)

section Records

variable {rs : List Record} (h : ∀ r ∈ rs, NoSlash r.kind)
include h

theorem Manifest.noSlash_prepare (o : ManifestOptions) : ∀ r ∈ prepare o rs, NoSlash r.kind := by
  intro r hr
  obtain ⟨before, x, after, hrs, rfl, -⟩ := (mem_prepare_iff o).mp hr
  rw [(completes_completed o x).kind]
  exact h x (hrs ▸ List.mem_append_right _ List.mem_cons_self)

theorem Manifest.allTidy_documents (o : ManifestOptions) :
    AllTidy (OutputFile.ofRecords "" documentText (prepare o rs)) := by
  refine OutputFile.allTidy_ofRecords (noSlash_prepare h o) (fun name hname => ?_) _
  rw [String.empty_append]
  exact OutputFile.tidy_of_notMem hname

theorem Manifest.allTidy_files {o : ManifestOptions}
    (ho : ∀ name, o.layout = .single name → NoSlash name) : AllTidy (files o rs) := by
  have hdocuments : AllTidy (documentFiles o rs) := by
    obtain ⟨layout, labels, list⟩ := o
    cases layout with
    | perRecord =>
      rw [documentFiles_perRecord ⟨.perRecord, labels, list⟩]
      exact allTidy_documents h _
    | single name =>
      exact List.forall_mem_singleton.mpr (OutputFile.tidy_of_notMem (ho name rfl))
  refine OutputFile.allTidy_append hdocuments ?_
  split
  · have hname : NoSlash "kustomization.yaml" := by decide
    exact List.forall_mem_singleton.mpr (OutputFile.tidy_of_notMem hname)
  · exact List.forall_mem_nil _

end Records

namespace Kustomize

/-- The kinds that the patches of a kustomization are for are without a slash. -/
def PlainTargets (k : Kustomization) : Prop := ∀ p ∈ k.patches, NoSlash p.target.kind

theorem noSlash_patch_fileName {p : Patch} (h : NoSlash p.target.kind) (place : Nat) :
    NoSlash (p.fileName place) := by
  have hstart : NoSlash s!"patch-{place + 1}-" :=
    ((by decide : NoSlash "patch-").append (Name.noSlash_toString _)).append (by decide)
  have hdash : NoSlash "-" := by decide
  have hname := noSlash_fileName p.target.name
  exact (((hstart.append h.toLower).append hdash).append hname).append (by decide)

theorem allTidy_kustomizationFiles {k : Kustomization} (h : PlainTargets k)
    (resources : List String) : AllTidy (kustomizationFiles k resources) := by
  have hfile : NoSlash "kustomization.yaml" := by decide
  refine List.forall_mem_cons.mpr ⟨OutputFile.tidy_of_notMem hfile, fun f hf => ?_⟩
  obtain ⟨⟨name, p⟩, hpatch, rfl⟩ := List.mem_map.mp hf
  obtain ⟨place, hplace, heq⟩ := List.mem_mapIdx.mp hpatch
  obtain ⟨rfl, rfl⟩ := Prod.mk.inj heq
  exact OutputFile.tidy_of_notMem (noSlash_patch_fileName (h _ (List.getElem_mem hplace)) place)

theorem allTidy_files {base : Kustomization} {overlays : List Overlay} {rs : List Record}
    (hbase : PlainTargets base)
    (hoverlays : ∀ o ∈ overlays, o.name ≠ ".." ∧ PlainTargets o.kustomization)
    (h : ∀ r ∈ rs, NoSlash r.kind) : AllTidy (files base overlays rs) := by
  refine OutputFile.allTidy_append ?_ fun f hf => ?_
  · refine OutputFile.allTidy_under_of_noSlash (by decide) (by decide) ?_
    rw [baseFiles_eq, Manifest.documentFiles_perRecord {}]
    exact OutputFile.allTidy_append (Manifest.allTidy_documents h {})
      (allTidy_kustomizationFiles hbase _)
  · obtain ⟨o, ho, hf⟩ := List.mem_flatMap.mp hf
    obtain ⟨hname, hpatches⟩ := hoverlays o ho
    have hdir : Tidy (Name.fileName o.name) := OutputFile.tidy_of_notMem (noSlash_fileName _)
    obtain ⟨before, hsteps, hmoves⟩ := OutputFile.steps_join "overlays" hdir.relative
    refine OutputFile.allTidy_under ?_ ?_ (allTidy_kustomizationFiles hpatches _) f hf
    · exact (OutputFile.startsWith_join _ hdir.relative).trans (by decide)
    · rw [overlayDirectory, hsteps, List.mem_append, not_or, ← OutputFile.mem_moves_out, hmoves,
        FileTree.steps_of_notMem (noSlash_fileName _), List.mem_singleton,
        FileTree.steps_of_notMem (by decide)]
      exact ⟨by decide, (Name.fileName_ne_out hname).symm⟩

end Kustomize

namespace Chart

theorem tidy_template {name : String} (h : NoSlash name) : Tidy ("templates/" ++ name) := by
  have hname := OutputFile.tidy_of_notMem h
  have hslash : "templates/" = "templates" ++ "/" := by decide
  rw [hslash, OutputFile.append_slash_eq_join hname (by decide) (by decide)]
  refine hname.join (by decide) ?_
  rw [FileTree.steps_of_notMem (by decide)]
  decide

/-- The record of the workload of a chart is a Deployment or a StatefulSet. -/
theorem Primary.kind_of_find? {d : Definition} {rs : List Record} {p : Primary}
    (h : find? d rs = some p) : p.kind = "Deployment" ∨ p.kind = "StatefulSet" := by
  have hnamed : ∀ {kind name : String} {found : Placed}, findNamed rs kind name = some found →
      found.record.kind? = some kind := by
    intro kind name found hfound
    have hboth := List.find?_some hfound
    rw [Bool.and_eq_true, beq_iff_eq] at hboth
    exact hboth.1
  obtain ⟨w, -, h⟩ := Option.bind_eq_some_iff.mp h
  obtain ⟨found, hfound, h⟩ := Option.bind_eq_some_iff.mp h
  obtain rfl := Option.some.inj h
  obtain hfound | ⟨-, hfound⟩ := Option.or_eq_some_iff.mp hfound
  · exact .inl (congrArg (Option.getD · "Deployment") (hnamed hfound))
  · exact .inr (congrArg (Option.getD · "Deployment") (hnamed hfound))

/-- The paths of files that do not depend on the records of a chart, but for the type of the
workload. -/
def fixedPaths : List String :=
  ["Chart.yaml", "values.yaml", ".helmignore", "requirements.yaml", "templates/_helpers.tpl",
    "templates/deployment.yaml", "templates/statefulset.yaml", "templates/service.yaml",
    "templates/serviceaccount.yaml", "templates/ingress.yaml", "templates/hpa.yaml",
    "templates/NOTES.txt", "templates/tests/test-connection.yaml"]

theorem tidy_of_mem_fixedPaths : ∀ {path : String}, path ∈ fixedPaths → Tidy path := by
  decide +kernel

theorem path_mem_of_mem_primaryFiles {d : Definition} {rs : List Record} {p : Primary}
    (h : Primary.find? d rs = some p) (chart : String) :
    ∀ f ∈ primaryFiles chart p, f.path ∈ fixedPaths := by
  have hkind : "templates/" ++ p.kind.toLower ++ ".yaml" ∈ fixedPaths := by
    obtain hkind | hkind := Primary.kind_of_find? h <;> rw [hkind] <;>
      decide +kernel
  intro f hf
  simp only [primaryFiles, List.mem_cons, List.not_mem_nil, or_false] at hf
  obtain rfl | rfl | rfl | rfl | rfl := hf
  · exact hkind
  · exact (by decide : "templates/service.yaml" ∈ fixedPaths)
  · exact (by decide : "templates/serviceaccount.yaml" ∈ fixedPaths)
  · exact (by decide : "templates/ingress.yaml" ∈ fixedPaths)
  · exact (by decide : "templates/hpa.yaml" ∈ fixedPaths)

theorem mem_of_mem_copiedRecords {c : Chart} {p : Option Primary} {rs : List Record} {r : Record}
    (h : r ∈ copiedRecords c p rs) : r ∈ rs ∨ r ∈ c.resources :=
  mem_of_mem_copySources (Record.mem_of_mem_distinct h)

theorem path_mem_of_mem_metadataFiles (c : Chart) (values : Value) :
    ∀ f ∈ metadataFiles c values, f.path ∈ fixedPaths := by
  refine List.forall_mem_append.mpr ⟨fun f hf => ?_, ?_⟩
  · simp only [List.mem_cons, List.not_mem_nil, or_false] at hf
    obtain rfl | rfl | rfl := hf
    · exact (by decide : "Chart.yaml" ∈ fixedPaths)
    · exact (by decide : "values.yaml" ∈ fixedPaths)
    · exact (by decide : ".helmignore" ∈ fixedPaths)
  · split
    · exact List.forall_mem_singleton.mpr (by decide : "requirements.yaml" ∈ fixedPaths)
    · exact List.forall_mem_nil _

theorem path_mem_of_mem_testFiles (c : Chart) (p : Option Primary) :
    ∀ f ∈ testFiles c p, f.path ∈ fixedPaths := by
  unfold testFiles
  split
  · exact List.forall_mem_singleton.mpr
      (by decide : "templates/tests/test-connection.yaml" ∈ fixedPaths)
  · exact List.forall_mem_nil _

/-- The files of a chart are those at fixed paths and those of the records that are copied. -/
theorem exists_eq_of_files {c : Chart} {d : Definition} {rs : List Record} {fs : List OutputFile}
    (h : c.files d rs = .ok fs) : ∃ before notes after,
      fs = before ++ recordFiles (copiedRecords c (Primary.find? d rs) rs) ++ notes :: after ∧
        (∀ f ∈ before, f.path ∈ fixedPaths) ∧ ∀ f ∈ notes :: after, f.path ∈ fixedPaths := by
  obtain ⟨values, -, h⟩ := bind_eq_ok_iff.mp h
  obtain rfl := Except.ok.inj h
  refine ⟨metadataFiles c values ++ [.ofText "templates/_helpers.tpl" (fill helpersText c.name)] ++
      ((Primary.find? d rs).map (primaryFiles c.name)).getD [],
    .ofText "templates/NOTES.txt" (noteText c.name c.notes (Primary.find? d rs).isSome),
    testFiles c (Primary.find? d rs), ?_, ?_, ?_⟩
  · simp only [List.append_assoc, List.singleton_append]
  · have hprimary : ∀ f ∈ ((Primary.find? d rs).map (primaryFiles c.name)).getD [],
        f.path ∈ fixedPaths := by
      cases hp : Primary.find? d rs with
      | none => exact List.forall_mem_nil _
      | some p => exact path_mem_of_mem_primaryFiles hp c.name
    refine List.forall_mem_append.mpr ⟨List.forall_mem_append.mpr ⟨?_, ?_⟩, hprimary⟩
    · exact path_mem_of_mem_metadataFiles c values
    · exact List.forall_mem_singleton.mpr (by decide : "templates/_helpers.tpl" ∈ fixedPaths)
  · refine List.forall_mem_cons.mpr ⟨?_, path_mem_of_mem_testFiles c _⟩
    exact (by decide : "templates/NOTES.txt" ∈ fixedPaths)

theorem allTidy_treeFiles {c : Chart} {d : Definition} {rs : List Record} {fs : List OutputFile}
    (hname : NoSlash c.name ∧ c.name ≠ "..") (hresources : ∀ r ∈ c.resources, NoSlash r.kind)
    (h : ∀ r ∈ rs, NoSlash r.kind) (hfiles : c.treeFiles d rs = .ok fs) : AllTidy fs := by
  obtain ⟨inner, hinner, rfl⟩ := map_eq_ok_iff.mp hfiles
  obtain ⟨before, notes, after, rfl, hbefore, hafter⟩ := exists_eq_of_files hinner
  have hkinds : ∀ r ∈ copiedRecords c (Primary.find? d rs) rs, NoSlash r.kind := by
    intro r hr
    obtain hr | hr := mem_of_mem_copiedRecords hr
    · exact h r hr
    · exact hresources r hr
  have hcopied := OutputFile.allTidy_ofRecords hkinds (fun _ => tidy_template) recordText
  refine OutputFile.allTidy_under_of_noSlash hname.1 hname.2 ?_
  refine OutputFile.allTidy_append (OutputFile.allTidy_append ?_ hcopied) ?_
  · exact fun f hf => tidy_of_mem_fixedPaths (hbefore f hf)
  · exact fun f hf => tidy_of_mem_fixedPaths (hafter f hf)

end Chart

/-- The names of all files of a module. -/
def Terraform.fileNames : List String :=
  ["main.tf", "variables.tf", "outputs.tf", "versions.tf", "providers.tf", "locals.tf", "data.tf",
    "modules.tf", "backend.tf", "terraform.tfvars.example", "README.md"]

theorem Terraform.path_mem_fileNames (m : TerraformModule) (name directory : String)
    (rs : List Record) : ∀ f ∈ files m name directory rs, f.path ∈ fileNames := by
  have hoptional : ∀ {α : Type} (path : String) (xs : List α) (items : List Hcl.Item),
      path ∈ fileNames → ∀ f ∈ fileOf path xs items, f.path ∈ fileNames := by
    intro α path xs items hpath f hf
    unfold fileOf at hf
    split at hf
    · exact absurd hf List.not_mem_nil
    · exact List.mem_singleton.mp hf ▸ hpath
  intro f hf
  simp only [files, List.mem_append, List.mem_cons, List.not_mem_nil, or_false] at hf
  obtain ((((hf | hf) | hf) | hf) | hf) | hf := hf
  · obtain rfl | rfl | rfl | rfl | rfl := hf <;> simp [hclFile, OutputFile.ofText, fileNames]
  · exact hoptional _ _ _ (by decide) f hf
  · exact hoptional _ _ _ (by decide) f hf
  · exact hoptional _ _ _ (by decide) f hf
  · exact hoptional _ _ _ (by decide) f hf
  · obtain rfl | rfl := hf <;> simp [OutputFile.ofText, fileNames]

theorem Terraform.allTidy_files (m : TerraformModule) (name directory : String)
    (rs : List Record) : AllTidy (files m name directory rs) := by
  have hnames : ∀ path ∈ fileNames, NoSlash path := by decide
  exact fun f hf =>
    OutputFile.tidy_of_notMem (hnames f.path (path_mem_fileNames m name directory rs f hf))

end Rollout
