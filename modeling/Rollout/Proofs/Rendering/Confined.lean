import Rollout.Proofs.Kustomize
import Rollout.Proofs.Rendering.Area

/-!
# Files that stay below their directory

What formats write is named after names, keys and kinds. A name becomes a file name by which it
is one step of a path, though the step may still be two dots. A kind is only put in lower case, and
a chart stands in a directory of its very name. So the paths of a format are confined just as
these texts do not lead out: kinds on their way, the names of charts, overlays and configuration
at all.
-/

namespace Rollout

open OutputFile (Confined Tidy front)

/-! ### Names of files -/

namespace Name

/-- A file name is one step of a path. -/
theorem steps_fileName (s : String) : FileTree.steps (fileName s) = [fileName s] :=
  FileTree.steps_of_notMem (noSlash_fileName s)

theorem fileName_mem_iff {s : String} {ts : List String} (h : ∀ t ∈ ts, KeptInFile t) :
    fileName s ∈ ts ↔ s ∈ ts := by
  constructor
  · intro hmem
    have hsame : s = fileName s := (fileName_eq_iff (h _ hmem)).mp rfl
    rwa [← hsame] at hmem
  · intro hmem
    have hsame : fileName s = s := (fileName_eq_iff (h s hmem)).mpr rfl
    rwa [hsame]

/-- The steps of a path in lower case. -/
theorem steps_toLower (s : String) :
    FileTree.steps s.toLower = (FileTree.steps s).map String.toLower := by
  have hmap : s.toLower = s.map Char.toLower := rfl
  rw [FileTree.steps, FileTree.steps, Text.parts, Text.parts, hmap, String.toList_map,
    Text.partsOf_map fun c => toLower_eq_iff (by decide), List.map_map, List.map_map]
  refine List.map_congr_left fun cs _ => String.toList_injective ?_
  have hmap : (String.ofList cs).toLower = (String.ofList cs).map Char.toLower := rfl
  simp only [Function.comp_apply, hmap, String.toList_map, String.toList_ofList]

theorem toLower_eq_out_iff {s : String} : s.toLower = ".." ↔ s = ".." := by
  have hmap : s.toLower = s.map Char.toLower := rfl
  have hdot (c : Char) : c.toLower = '.' ↔ c = '.' := toLower_eq_iff (by decide)
  have hdots : "..".toList = ['.', '.'] := rfl
  rw [hmap, ← String.toList_inj, ← String.toList_inj, String.toList_map, hdots]
  constructor
  · intro h
    obtain ⟨c, rest, hlist, hc, hrest⟩ := List.map_eq_cons_iff.mp h
    obtain ⟨d, last, rfl, hd, hlast⟩ := List.map_eq_cons_iff.mp hrest
    rw [hlist, (hdot c).mp hc, (hdot d).mp hd, List.map_eq_nil_iff.mp hlast]
  · intro h
    rw [h]
    rfl

theorem front_toLower (s : String) : front s.toLower = (front s).map String.toLower := by
  rw [front, front, steps_toLower, List.map_dropLast]

theorem out_mem_map_toLower_iff {steps : List String} :
    ".." ∈ steps.map String.toLower ↔ ".." ∈ steps := by
  rw [List.mem_map]
  constructor
  · rintro ⟨step, hstep, hout⟩
    exact toLower_eq_out_iff.mp hout ▸ hstep
  · intro h
    exact ⟨"..", h, toLower_eq_out_iff.mpr rfl⟩

/-- A path in lower case leads where the path itself leads. -/
theorem tidy_toLower_iff {s : String} : Tidy s.toLower ↔ Tidy s := by
  have hmap : s.toLower = s.map Char.toLower := rfl
  have hslash (c : Char) : c.toLower = '/' ↔ c = '/' := toLower_eq_iff (by decide)
  have hstart : Text.startsWith s.toLower "/" = Text.startsWith s "/" := by
    rw [OutputFile.slash_eq, Text.startsWith_singleton, Text.startsWith_singleton, hmap,
      String.toList_map, List.head?_map]
    cases s.toList.head? with
    | none => rfl
    | some c => simp only [Option.map_some, Option.some.injEq, hslash]
  have hway : ".." ∉ front s.toLower ↔ ".." ∉ front s := by
    rw [front_toLower, out_mem_map_toLower_iff]
  constructor
  · intro h
    exact ⟨hstart.symm.trans h.relative, hway.mp h.descends⟩
  · intro h
    exact ⟨hstart.trans h.relative, hway.mpr h.descends⟩

end Name

namespace Record

/-- A name for the file of a record: its kind in lower case, and then more that is not just
dots. -/
def Names (r : Record) (name : String) : Prop :=
  ∃ rest : String, '/' ∉ rest.toList ∧ 'y' ∈ rest.toList ∧ name = r.lowerKind ++ rest

theorem names_of_append {r : Record} {middle : String} (h : Name.NoSlash middle) :
    r.Names (r.lowerKind ++ (middle ++ ".yaml")) :=
  ⟨middle ++ ".yaml", h.append (by decide), Text.mem_append_right _ (by decide), rfl⟩

theorem names_nameAmong (taken : List String) (r : Record) : r.Names (nameAmong taken r) := by
  have hdash : Name.NoSlash "-" := by decide
  have hname : Name.NoSlash r.nameInFile := Name.noSlash_fileName _
  have hns : Name.NoSlash (Name.fileName (r.namespace?.getD "cluster")) := Name.noSlash_fileName _
  unfold nameAmong
  split
  · have hlong := names_of_append (r := r) (((hdash.append hns).append hdash).append hname)
    simpa only [longFileName, String.append_assoc] using hlong
  · have hshort := names_of_append (r := r) (hdash.append hname)
    simpa only [fileName, String.append_assoc] using hshort

/-- What a name for the file of a record tells of its kind, the names of all files tell of all
kinds. -/
theorem forall_mem_fileNames_iff {P Q : String → Prop}
    (h : ∀ (r : Record) name, r.Names name → (P name ↔ Q r.lowerKind)) (rs : List Record) :
    (∀ name ∈ fileNames rs, P name) ↔ ∀ r ∈ rs, Q r.lowerKind := by
  induction rs using List.reverseRecOn with
  | nil => exact iff_of_true (List.forall_mem_nil _) (List.forall_mem_nil _)
  | append_singleton rs r ih =>
    rw [fileNames_concat, List.forall_mem_append, List.forall_mem_append, ih,
      List.forall_mem_singleton, List.forall_mem_singleton, h r _ (names_nameAmong _ r)]

/-- A record without a kind is named after a kind that leads nowhere. -/
theorem tidy_lowerKind_iff (r : Record) : Tidy r.lowerKind ↔ Tidy r.kind := by
  rw [lowerKind, Name.tidy_toLower_iff, kind]
  cases r.kind? with
  | none => exact iff_of_true (by decide) (by decide)
  | some kind => exact Iff.rfl

theorem out_mem_front_lowerKind_iff (r : Record) :
    ".." ∈ front r.lowerKind ↔ ".." ∈ front r.kind := by
  rw [lowerKind, Name.front_toLower, Name.out_mem_map_toLower_iff, kind]
  cases r.kind? with
  | none => exact iff_of_false (by decide) (by decide)
  | some kind => exact Iff.rfl

end Record

/-! ### The files of each format -/

/-- All paths are confined. -/
def OutputFile.AllConfined (fs : List OutputFile) : Prop := ∀ f ∈ fs, Confined f.path

open OutputFile (AllConfined)

theorem OutputFile.allConfined_append_iff {fs gs : List OutputFile} :
    AllConfined (fs ++ gs) ↔ AllConfined fs ∧ AllConfined gs :=
  List.forall_mem_append

theorem OutputFile.allConfined_under_iff {dir : String} (hdir : Confined dir)
    {fs : List OutputFile} : AllConfined (fs.map (.under dir)) ↔ AllConfined fs :=
  List.forall_mem_map.trans (forall₂_congr fun _ _ => hdir.join_iff)

theorem OutputFile.allConfined_ofRecords_iff {place : String} {text : Record → String}
    {rs : List Record} : AllConfined (ofRecords place text rs) ↔
      ∀ name ∈ Record.fileNames rs, Confined (place ++ name) := by
  have hpaths : AllConfined (ofRecords place text rs) ↔
      ∀ path ∈ (ofRecords place text rs).map (·.path), Confined path := List.forall_mem_map.symm
  rw [hpaths, paths_ofRecords, List.forall_mem_map]

namespace Manifest

/-- The kinds of the records to apply are those of the records. -/
theorem forall_kind_prepare_iff (o : ManifestOptions) {Q : String → Prop} {rs : List Record} :
    (∀ r ∈ prepare o rs, Q r.kind) ↔ ∀ r ∈ rs, Q r.kind := by
  have hkinds (x : Record) : (completed o x).identity.kind = x.kind :=
    (completes_completed o x).kind
  constructor
  · intro h r hr
    obtain ⟨s, hs, hsame⟩ := List.mem_map.mp
      (((prepare_prepares o rs).1.identities _).mpr (List.mem_map_of_mem hr))
    have hkind : s.kind = r.kind := (congrArg Identity.kind hsame).trans (hkinds r)
    exact hkind ▸ h s hs
  · intro h r hr
    obtain ⟨before, x, after, rfl, rfl, -⟩ := (mem_prepare_iff o).mp hr
    have hkind : (completed o x).kind = x.kind := hkinds x
    rw [hkind]
    exact h x (List.mem_append_right _ List.mem_cons_self)

theorem allConfined_documents_iff (o : ManifestOptions) {rs : List Record} :
    AllConfined (OutputFile.ofRecords "" documentText (prepare o rs)) ↔
      ∀ r ∈ rs, Tidy r.kind := by
  rw [OutputFile.allConfined_ofRecords_iff, ← forall_kind_prepare_iff o]
  rw [Record.forall_mem_fileNames_iff (Q := Tidy)]
  · exact forall₂_congr fun r _ => r.tidy_lowerKind_iff
  · rintro r name ⟨rest, hslash, hmem, rfl⟩
    rw [String.empty_append]
    exact OutputFile.confined_append_iff hslash hmem (by decide) _

/-- Manifests are confined just as the kinds of the records lead nowhere, or as the name of the
one file is. -/
theorem allConfined_files_iff (o : ManifestOptions) (rs : List Record) :
    AllConfined (files o rs) ↔
      match o.layout with
      | .perRecord => ∀ r ∈ rs, Tidy r.kind
      | .single name => Confined name := by
  have hlist : AllConfined (if o.kustomization then
      [.ofValue "kustomization.yaml" (fileList ((documentFiles o rs).map (·.path)))] else []) := by
    split
    · exact List.forall_mem_singleton.mpr (by decide : Confined "kustomization.yaml")
    · exact List.forall_mem_nil _
  rw [files, OutputFile.allConfined_append_iff, and_iff_left hlist]
  obtain ⟨layout, labels, list⟩ := o
  cases layout with
  | perRecord =>
    rw [documentFiles_perRecord ⟨.perRecord, labels, list⟩]
    exact allConfined_documents_iff _
  | single name => exact List.forall_mem_singleton

end Manifest

namespace Kustomize

/-- The kinds that patches are for lead nowhere on their way, after their first step. -/
def ConfinedTargets (k : Kustomization) : Prop :=
  ∀ p ∈ k.patches, ".." ∉ (front p.target.kind).tail

theorem confined_patch_fileName_iff (p : Patch) (place : Nat) :
    Confined (p.fileName place) ↔ ".." ∉ (front p.target.kind).tail := by
  have hstart : Name.NoSlash ("patch-" ++ (toString (place + 1) ++ "-")) :=
    (by decide : Name.NoSlash "patch-").append ((Name.noSlash_toString _).append (by decide))
  have hend : Name.NoSlash ("-" ++ Name.fileName p.target.name ++ ".yaml") :=
    ((by decide : Name.NoSlash "-").append (Name.noSlash_fileName _)).append (by decide)
  have hp : 'p' ∈ ("patch-" ++ (toString (place + 1) ++ "-")).toList :=
    Text.mem_append_left (by decide) _
  have hy : 'y' ∈ ("-" ++ Name.fileName p.target.name ++ ".yaml").toList :=
    Text.mem_append_right _ (by decide)
  have hfile : p.fileName place = "patch-" ++ (toString (place + 1) ++ "-") ++
      (p.target.kind.toLower ++ ("-" ++ Name.fileName p.target.name ++ ".yaml")) := by
    simp only [Patch.fileName, String.append_assoc]
    rfl
  rw [hfile, OutputFile.confined_append_append_iff hend hy (by decide) hstart hp (by decide),
    Name.front_toLower, ← List.map_tail, Name.out_mem_map_toLower_iff]

theorem relative_patch_fileName (p : Patch) (place : Nat) :
    Text.startsWith (p.fileName place) "/" = false := by
  have hfile : p.fileName place = "patch-" ++ (toString (place + 1) ++ "-" ++
      p.target.kind.toLower ++ "-" ++ Name.fileName p.target.name ++ ".yaml") := by
    simp only [Patch.fileName, String.append_assoc]
    rfl
  rw [hfile, OutputFile.startsWith_append (by decide)]
  decide

/-- The files of a kustomization are confined below a directory just as the directory is and the
kinds lead nowhere. -/
theorem allConfined_kustomizationFiles_iff {dir : String} (k : Kustomization)
    (resources : List String) :
    AllConfined ((kustomizationFiles k resources).map (.under dir)) ↔
      Confined dir ∧ ConfinedTargets k := by
  have hfile : Confined (OutputFile.join dir "kustomization.yaml") ↔ Confined dir :=
    (OutputFile.confined_join_iff (by decide)).trans (and_iff_left (by decide))
  have hpatch (x : String × Patch) (hx : x ∈ patchFiles k) :
      Confined (OutputFile.join dir x.1) ↔
        Confined dir ∧ ".." ∉ (front x.2.target.kind).tail := by
    obtain ⟨place, hname⟩ := exists_fileName_of_mem_patchFiles hx
    rw [hname, OutputFile.confined_join_iff (relative_patch_fileName x.2 place),
      confined_patch_fileName_iff]
  have hall : AllConfined ((kustomizationFiles k resources).map (.under dir)) ↔
      Confined (OutputFile.join dir "kustomization.yaml") ∧
        ∀ x ∈ patchFiles k, Confined (OutputFile.join dir x.1) := by
    rw [AllConfined, List.forall_mem_map, kustomizationFiles, List.forall_mem_cons,
      List.forall_mem_map]
    rfl
  rw [hall, hfile, forall₂_congr hpatch, ConfinedTargets, ← forall_mem_patchFiles_iff]
  constructor
  · rintro ⟨hdir, h⟩
    exact ⟨hdir, fun x hx => (h x hx).2⟩
  · rintro ⟨hdir, h⟩
    exact ⟨hdir, fun x hx => ⟨hdir, h x hx⟩⟩

theorem confined_overlayDirectory_iff (o : Overlay) :
    Confined (overlayDirectory o) ↔ o.name ≠ ".." := by
  have hname := Name.noSlash_fileName o.name
  rw [overlayDirectory, OutputFile.confined_join_iff (OutputFile.startsWith_slash_of_notMem hname),
    and_iff_right (by decide), OutputFile.confined_of_notMem hname]
  exact not_congr (Name.fileName_eq_iff (by decide))

/-- The files of a base and of overlays are confined just as no overlay is named two dots and
the kinds of records and patches lead nowhere. -/
theorem allConfined_files_iff (base : Kustomization) (overlays : List Overlay)
    (rs : List Record) : AllConfined (files base overlays rs) ↔
      (∀ r ∈ rs, Tidy r.kind) ∧ ConfinedTargets base ∧
        ∀ o ∈ overlays, o.name ≠ ".." ∧ ConfinedTargets o.kustomization := by
  have hbase : AllConfined ((baseFiles base rs).map (.under "base")) ↔
      (∀ r ∈ rs, Tidy r.kind) ∧ ConfinedTargets base := by
    rw [baseFiles_eq, Manifest.documentFiles_perRecord {}, List.map_append,
      OutputFile.allConfined_append_iff, OutputFile.allConfined_under_iff (by decide),
      Manifest.allConfined_documents_iff, allConfined_kustomizationFiles_iff,
      and_iff_right (by decide : Confined "base")]
  have hoverlays : AllConfined (overlays.flatMap fun o =>
      (kustomizationFiles o.kustomization ["../../base"]).map (.under (overlayDirectory o))) ↔
        ∀ o ∈ overlays, o.name ≠ ".." ∧ ConfinedTargets o.kustomization := by
    have heach (o : Overlay) : AllConfined ((kustomizationFiles o.kustomization
        ["../../base"]).map (.under (overlayDirectory o))) ↔
          o.name ≠ ".." ∧ ConfinedTargets o.kustomization :=
      (allConfined_kustomizationFiles_iff _ _).trans
        (and_congr_left fun _ => confined_overlayDirectory_iff o)
    simp only [AllConfined, List.forall_mem_flatMap]
    exact forall₂_congr fun o _ => heach o
  rw [files, OutputFile.allConfined_append_iff, hbase, hoverlays, and_assoc]

end Kustomize

namespace Compose

/-- Where data are mounted that have keys at all, neither their name nor a key is two dots. -/
def Mounts (name : String) (mountPath : Option String) (data : ResolvedData) : Prop :=
  mountPath.isSome → ∀ key ∈ data.text.keys ++ data.binary.keys, name ≠ ".." ∧ key ≠ ".."

instance (name : String) (mountPath : Option String) (data : ResolvedData) :
    Decidable (Mounts name mountPath data) :=
  inferInstanceAs (Decidable (mountPath.isSome →
    ∀ key ∈ data.text.keys ++ data.binary.keys, name ≠ ".." ∧ key ≠ ".."))

theorem confined_mounted_iff {parent : String} (hparent : parent ∈ [configParent, secretParent])
    (name key : String) :
    Confined (parent ++ "/" ++ Name.fileName name ++ "/" ++ Name.fileName key) ↔
      name ≠ ".." ∧ key ≠ ".." := by
  have hparents : ∀ p ∈ [configParent, secretParent], Name.NoSlash p ∧ p ≠ "" ∧ p ≠ ".." := by
    decide +kernel
  obtain ⟨hslash, hne, hout⟩ := hparents parent hparent
  have hout_iff (s : String) : Name.fileName s = ".." ↔ s = ".." :=
    Name.fileName_eq_iff (by decide)
  have hrelative : Text.startsWith
      (parent ++ "/" ++ Name.fileName name ++ "/" ++ Name.fileName key) "/" = false := by
    rw [String.append_assoc, String.append_assoc, String.append_assoc,
      OutputFile.startsWith_append hne]
    exact OutputFile.startsWith_slash_of_notMem hslash
  rw [OutputFile.confined_iff_of_relative hrelative, steps_mounted hslash name key,
    List.mem_cons, List.mem_cons, List.mem_singleton, or_iff_right hout.symm, not_or]
  exact and_congr (not_congr (eq_comm.trans (hout_iff name)))
    (not_congr (eq_comm.trans (hout_iff key)))

/-- The files of attached data are confined just as their name and keys are where they are
mounted. -/
theorem allConfined_attachment_iff (a : Attachment) {parent : String}
    (hparent : parent ∈ [configParent, secretParent]) :
    AllConfined (a.files parent) ↔ Mounts a.name a.mountPath a.data := by
  unfold Attachment.files Mounts
  cases hmount : a.mountPath with
  | none => exact iff_of_true (List.forall_mem_nil _) nofun
  | some path =>
    rw [Option.isNone_some, if_neg Bool.false_ne_true, OutputFile.allConfined_append_iff,
      List.forall_mem_append, forall_prop_of_true Option.isSome_some]
    simp only [AllConfined, List.forall_mem_map, Assoc.keys]
    exact and_congr (forall₂_congr fun e _ => confined_mounted_iff hparent a.name e.1)
      (forall₂_congr fun e _ => confined_mounted_iff hparent a.name e.1)

/-- What a workload mounts is named confined. -/
def Confines (tree : FileTree) (w : Workload) : Prop :=
  (∀ c ∈ w.configMaps, ∀ data, c.resolve tree = .ok data → Mounts c.info.name c.mountPath data) ∧
    ∀ s ∈ w.secrets, ∀ data, s.resolve tree = .ok data → Mounts s.info.name s.mountPath data

theorem allConfined_deployed_iff {tree : FileTree} {w : Workload} {x : Deployed}
    (h : deployed tree w = .ok x) : AllConfined x.files ↔ Confines tree w := by
  obtain ⟨secrets, hsecrets, h⟩ := bind_eq_ok_iff.mp h
  obtain ⟨configMaps, hmaps, h⟩ := bind_eq_ok_iff.mp h
  obtain rfl := Except.ok.inj h
  have hfiles : AllConfined (Deployed.files ⟨w, secrets, configMaps⟩) ↔
      (∀ a ∈ configMaps, Mounts a.name a.mountPath a.data) ∧
        ∀ a ∈ secrets, Mounts a.name a.mountPath a.data := by
    rw [Deployed.files, OutputFile.allConfined_append_iff]
    simp only [AllConfined, List.forall_mem_flatMap]
    exact and_congr
      (forall₂_congr fun a _ => allConfined_attachment_iff a List.mem_cons_self)
      (forall₂_congr fun a _ => allConfined_attachment_iff a
        (List.mem_cons_of_mem _ List.mem_cons_self))
  rw [hfiles, forall_mem_mapM_iff hmaps, forall_mem_mapM_iff hsecrets]
  simp only [forall_map_eq_ok_iff, Confines]

/-- The files of compose are confined just as what workloads mount is named so. -/
theorem allConfined_files_iff {o : ComposeOptions} {tree : FileTree} {d : Definition}
    {fs : List OutputFile} (h : files o tree d = .ok fs) :
    AllConfined fs ↔ ∀ w ∈ d.workloads, Confines tree w := by
  obtain ⟨p, hp, rfl⟩ := map_eq_ok_iff.mp h
  unfold project at hp
  dsimp only at hp
  split at hp
  · exact absurd hp nofun
  obtain ⟨ds, hds, hp⟩ := bind_eq_ok_iff.mp hp
  rw [mapError_eq_ok_iff] at hds
  obtain rfl := Except.ok.inj hp
  have henv (text : String) : AllConfined (if o.envFile then [.ofText ".env" text] else []) := by
    split
    · exact List.forall_mem_singleton.mpr (by decide : Confined ".env")
    · exact List.forall_mem_nil _
  have hoverrides (f : ComposeOverride → Value) :
      AllConfined (o.overrides.map fun kind => .ofValue kind.fileName (f kind)) := by
    refine List.forall_mem_map.mpr fun kind _ => ?_
    cases kind
    · exact (by decide : Confined ComposeOverride.development.fileName)
    · exact (by decide : Confined ComposeOverride.production.fileName)
  have hmounted : AllConfined (ds.flatMap Deployed.files) ↔ ∀ w ∈ d.workloads, Confines tree w := by
    rw [AllConfined, List.forall_mem_flatMap]
    constructor
    · intro hall w hw
      obtain ⟨x, hx, hdeployed⟩ := exists_mem_of_mapM hds hw
      exact (allConfined_deployed_iff hdeployed).mp (hall x hx)
    · intro hall x hx
      obtain ⟨w, hw, hdeployed⟩ := exists_of_mem_mapM hds hx
      exact (allConfined_deployed_iff hdeployed).mpr (hall w hw)
  have hfile : AllConfined [.ofValue fileName (document o.version (networkName d.name) ds)] :=
    List.forall_mem_singleton.mpr (by decide : Confined fileName)
  rw [projectFiles, OutputFile.allConfined_append_iff, OutputFile.allConfined_append_iff,
    OutputFile.allConfined_append_iff, and_iff_left (hoverrides _), and_iff_left (henv _),
    and_iff_right hfile, hmounted]

end Compose

namespace Chart

/-- The template for a record stands in a directory, below which no step is the first. -/
theorem confined_template_iff {r : Record} {name : String} (h : r.Names name) :
    Confined ("templates/" ++ name) ↔ ".." ∉ front r.lowerKind := by
  obtain ⟨rest, hslash, hmem, rfl⟩ := h
  obtain ⟨hfront, hlast⟩ := OutputFile.front_append hslash r.lowerKind
  have hend : OutputFile.last r.lowerKind ++ rest ≠ ".." :=
    OutputFile.ne_out_of_mem (Text.mem_append_right _ hmem) (by decide)
  have hsteps : FileTree.steps ("templates/" ++ (r.lowerKind ++ rest)) =
      ["templates"] ++ (front r.lowerKind ++ [OutputFile.last r.lowerKind ++ rest]) := by
    rw [(by decide : "templates/" = "templates" ++ "/"), FileTree.steps_append_slash,
      OutputFile.steps_eq (r.lowerKind ++ rest), hfront, hlast,
      FileTree.steps_of_notMem (by decide)]
  have hrelative : Text.startsWith ("templates/" ++ (r.lowerKind ++ rest)) "/" = false :=
    (OutputFile.startsWith_append (by decide) _).trans (by decide)
  rw [OutputFile.confined_iff_of_relative hrelative, hsteps, List.mem_append, List.mem_append,
    List.mem_singleton, List.mem_singleton, or_iff_right (by decide), or_iff_left hend.symm]

theorem allConfined_recordFiles_iff (rs : List Record) :
    AllConfined (recordFiles rs) ↔ ∀ r ∈ rs, ".." ∉ front r.kind := by
  have hnames := Record.forall_mem_fileNames_iff
    (P := fun name => Confined ("templates/" ++ name)) (Q := fun kind => ".." ∉ front kind)
    (fun _ _ h => confined_template_iff h) rs
  have hfiles : AllConfined (recordFiles rs) ↔
      ∀ name ∈ Record.fileNames rs, Confined ("templates/" ++ name) :=
    OutputFile.allConfined_ofRecords_iff
  rw [hfiles, hnames]
  exact forall₂_congr fun r _ => not_congr r.out_mem_front_lowerKind_iff

/-- The files of a chart are confined just as its name is and the kinds of the records that are
copied lead out nowhere on their way. -/
theorem allConfined_treeFiles_iff {c : Chart} {d : Definition} {rs : List Record}
    {fs : List OutputFile} (h : c.treeFiles d rs = .ok fs) : AllConfined fs ↔
      Confined c.name ∧ ∀ r ∈ copiedRecords c (Primary.find? d rs) rs, ".." ∉ front r.kind := by
  obtain ⟨inner, hinner, rfl⟩ := map_eq_ok_iff.mp h
  obtain ⟨before, notes, after, rfl, hbefore, hafter⟩ := exists_eq_of_files hinner
  have hfixed : ∀ path ∈ fixedPaths, Confined path := by decide +kernel
  by_cases hname : Confined c.name
  · have hstart : AllConfined before := fun f hf => hfixed _ (hbefore f hf)
    have hend : AllConfined (notes :: after) := fun f hf => hfixed _ (hafter f hf)
    rw [OutputFile.allConfined_under_iff hname, OutputFile.allConfined_append_iff,
      OutputFile.allConfined_append_iff, and_iff_left hend, and_iff_right hstart,
      and_iff_right hname, allConfined_recordFiles_iff]
  · refine iff_of_false (fun hall => hname ?_) fun hboth => hname hboth.1
    have hnotes := hfixed _ (hafter notes List.mem_cons_self)
    have hfile := hall (notes.under c.name) <| List.mem_map_of_mem <|
      List.mem_append_right _ List.mem_cons_self
    exact ((OutputFile.confined_join_iff hnotes.relative).mp hfile).1

end Chart

namespace Rendering

/-- A name becomes one step of a path, which is empty or made of dots only if the name is. The
files of a format are confined to its directory exactly if the texts that their paths are made of
do not lead out: kinds of records and of the targets of patches, the name of the one file, the
names of overlays, of mounted configuration and its keys, and that of a chart. -/
theorem paths_confined (s : String) (manifest : ManifestOptions) (compose : ComposeOptions)
    (base : Kustomization) (overlays : List Overlay) (c : Chart) (tree : FileTree)
    (d : Definition) (rs : List Record) :
    (FileTree.steps (Name.fileName s) = [Name.fileName s] ∧
      (Name.fileName s ∈ ["", ".", ".."] ↔ s ∈ ["", ".", ".."])) ∧
    (AllConfined (Manifest.files manifest rs) ↔
      match manifest.layout with
      | .perRecord => ∀ r ∈ rs, Tidy r.kind
      | .single name => Confined name) ∧
    (AllConfined (Kustomize.files base overlays rs) ↔
      (∀ r ∈ rs, Tidy r.kind) ∧ Kustomize.ConfinedTargets base ∧
        ∀ o ∈ overlays, o.name ≠ ".." ∧ Kustomize.ConfinedTargets o.kustomization) ∧
    (∀ fs, Compose.files compose tree d = .ok fs →
      (AllConfined fs ↔ ∀ w ∈ d.workloads, Compose.Confines tree w)) ∧
    ∀ fs, c.treeFiles d rs = .ok fs → (AllConfined fs ↔ Confined c.name ∧
      ∀ r ∈ c.copiedRecords (Chart.Primary.find? d rs) rs, ".." ∉ front r.kind) := by
  refine ⟨⟨Name.steps_fileName s, Name.fileName_mem_iff (by decide)⟩, ?_, ?_, ?_, ?_⟩
  · exact Manifest.allConfined_files_iff manifest rs
  · exact Kustomize.allConfined_files_iff base overlays rs
  · exact fun _ h => Compose.allConfined_files_iff h
  · exact fun _ h => Chart.allConfined_treeFiles_iff h

/-- An application with a mounted ConfigMap. Its name and its key have slashes, and so has the name
of an overlay. -/
theorem paths_confined_web :
    let settings := ((ConfigMap.named "../settings").add (.literal "../app.conf" "debug=false")
      |>.withMountPath "/etc/web")
    let web : Definition := .app ((App.named "web").mapWorkload (·.addConfigMap settings))
    let staging : Overlay := { name := "../staging" }
    ∃ rs compose chart, web.records .empty = .ok rs ∧
      Compose.files {} .empty web = .ok compose ∧
      (Chart.ofDefinition web).treeFiles web rs = .ok chart ∧
      AllConfined (Manifest.files {} rs) ∧ AllConfined (Kustomize.files {} [staging] rs) ∧
      AllConfined compose ∧ AllConfined chart := by
  intro settings web staging
  obtain ⟨rs, hrs, hcheck⟩ := exists_ok_of_any (by decide +kernel :
    (web.records .empty).toOption.any (fun rs => decide (∀ r ∈ rs, Tidy r.kind) &&
      ((Chart.ofDefinition web).treeFiles web rs).toOption.any fun _ => true) = true)
  obtain ⟨hdecided, htree⟩ := Bool.and_eq_true_iff.mp hcheck
  have hkinds : ∀ r ∈ rs, Tidy r.kind := of_decide_eq_true hdecided
  obtain ⟨chart, htree, -⟩ := exists_ok_of_any htree
  obtain ⟨compose, hfiles, -⟩ := exists_ok_of_any (by decide +kernel :
    (Compose.files {} .empty web).toOption.any (fun _ => true) = true)
  obtain ⟨-, hmanifest, hkustomize, hcompose, hchart⟩ :=
    paths_confined staging.name {} {} {} [staging] (Chart.ofDefinition web) .empty web rs
  refine ⟨rs, compose, chart, hrs, hfiles, htree, hmanifest.mpr hkinds,
    hkustomize.mpr ⟨hkinds, ?_, ?_⟩, (hcompose _ hfiles).mpr ?_, (hchart _ htree).mpr ⟨?_, ?_⟩⟩
  · exact List.forall_mem_nil _
  · exact List.forall_mem_singleton.mpr ⟨by decide, List.forall_mem_nil _⟩
  · have hworkloads : web.workloads = [(App.named "web").workload.addConfigMap settings] := rfl
    rw [hworkloads]
    refine List.forall_mem_singleton.mpr ⟨List.forall_mem_singleton.mpr fun data hdata => ?_,
      List.forall_mem_nil _⟩
    obtain rfl := Except.ok.inj hdata
    decide +kernel
  · rw [(Chart.name_ofDefinition web).1]
    decide
  · intro r hr
    obtain hr | hr := Chart.mem_of_mem_copiedRecords hr
    · exact (hkinds r hr).descends
    · rw [(Chart.name_ofDefinition web).2] at hr
      exact absurd hr List.not_mem_nil

/-- A custom kind whose name leads out of a directory, with one object. -/
def escaping : CustomResource :=
  (CustomResource.ofKind "desk.example" "v1" "../Ticket").addInstance "first" .empty

theorem prepare_escaping : Manifest.prepare {} escaping.records =
    Record.distinct (escaping.records.map (Manifest.completed {})) :=
  Record.sortForApply_of_pairwise (by decide +kernel)

/-- The file for an object of the kind leads out of the directory with it. Two dots are the file
name of two dots, so an overlay of this name leads out too. -/
theorem ticket_leads_out :
    (∃ f ∈ Manifest.files {} escaping.records,
      f.path = "../ticket-first.yaml" ∧ ¬ Confined f.path) ∧
    Name.fileName ".." = ".." ∧
    ∃ f ∈ Kustomize.files {} [{ name := ".." }] escaping.records,
      f.path = "overlays/../kustomization.yaml" ∧ ¬ Confined f.path := by
  refine ⟨?_, by decide, ?_⟩
  · rw [Manifest.files, Manifest.documentFiles, Manifest.documents, prepare_escaping]
    decide +kernel
  · refine ⟨.ofValue "overlays/../kustomization.yaml" (Kustomize.document {} ["../../base"]),
      List.mem_append_right _ ?_, rfl, by decide⟩
    decide +kernel

end Rendering

end Rollout
