import Rollout.Proofs.Rendering.Place

/-!
# Areas of formats

What a format writes is a list of files that follows from the records, for compose from the data
sources. Below the output directory each format has an area of its own, and where names are plain
all its files are in there.
-/

namespace Rollout

open Name (NoSlash IsPlain noSlash_fileName)
open OutputFile (Tidy AllTidy names)

/-- The names that are part of paths lead nowhere else: those of the definition itself and of the
configuration that compose mounts, and the kinds of custom objects. -/
structure Definition.HasPlainNames (d : Definition) : Prop where
  name : IsPlain d.name
  configMaps : ∀ w ∈ d.workloads, ∀ c ∈ w.configMaps, IsPlain c.info.name
  secrets : ∀ w ∈ d.workloads, ∀ s ∈ w.secrets, IsPlain s.info.name
  kinds : ∀ kind ∈ d.customKinds, IsPlain kind

instance (d : Definition) : Decidable d.HasPlainNames :=
  decidable_of_iff (IsPlain d.name ∧
      (∀ w ∈ d.workloads, ∀ c ∈ w.configMaps, IsPlain c.info.name) ∧
      (∀ w ∈ d.workloads, ∀ s ∈ w.secrets, IsPlain s.info.name) ∧
      ∀ kind ∈ d.customKinds, IsPlain kind)
    ⟨fun h => ⟨h.1, h.2.1, h.2.2.1, h.2.2.2⟩, fun h => ⟨h.name, h.configMaps, h.secrets, h.kinds⟩⟩

/-- Nor do the names that are part of paths in the settings lead elsewhere. -/
structure RenderSettings.HasPlainNames (s : RenderSettings) : Prop where
  layout : ∀ name, s.manifests.layout = .single name → NoSlash name
  chart : ∀ c, s.chart = some c →
    (NoSlash c.name ∧ c.name ≠ "..") ∧ ∀ r ∈ c.resources, NoSlash r.kind
  base : Kustomize.PlainTargets s.base
  overlays : ∀ o ∈ s.overlays, o.name ≠ ".." ∧ Kustomize.PlainTargets o.kustomization

theorem Definition.HasPlainNames.noSlash {d : Definition} (h : d.HasPlainNames) {files : FileTree}
    {rs : List Record} (hrs : d.records files = .ok rs) : ∀ r ∈ rs, NoSlash r.kind := by
  have hbuiltin : ∀ kind ∈ Kind.builtin, NoSlash kind := by decide +kernel
  intro r hr
  obtain hkind | hkind := List.mem_append.mp (d.allOf_records hrs r hr)
  · exact hbuiltin r.kind hkind
  · exact (h.kinds r.kind hkind).noSlash

theorem Chart.name_ofDefinition (d : Definition) :
    (ofDefinition d).name = d.name ∧ (ofDefinition d).resources = [] := by
  unfold ofDefinition
  split <;> exact ⟨rfl, rfl⟩

/-- A tidy path that leads through one of some names first. -/
structure OutputFile.StandsIn (area : List String) (path : String) : Prop where
  tidy : Tidy path
  first : ∃ n ∈ area, ∃ rest, names path = n :: rest

open OutputFile (StandsIn)

/-! ### The files of compose -/

namespace Compose

/-- The names that compose writes to directly in the output directory. -/
def area : List String :=
  [fileName, ".env", configParent, secretParent, ComposeOverride.development.fileName,
    ComposeOverride.production.fileName]

/-- A file with one of these names. -/
theorem standsIn_area_of_mem {path : String} (h : path ∈ area) : StandsIn area path := by
  have hdirect : ∀ n ∈ area, Tidy n ∧ names n = [n] := by decide +kernel
  obtain ⟨htidy, hnames⟩ := hdirect path h
  exact ⟨htidy, path, h, [], hnames⟩

/-- The directory of some data and a file in it are steps of their own. -/
theorem steps_mounted {parent : String} (h : NoSlash parent) (name key : String) :
    FileTree.steps (parent ++ "/" ++ Name.fileName name ++ "/" ++ Name.fileName key) =
      [parent, Name.fileName name, Name.fileName key] := by
  rw [FileTree.steps_append_slash, FileTree.steps_append_slash, FileTree.steps_of_notMem h,
    FileTree.steps_of_notMem (noSlash_fileName name),
    FileTree.steps_of_notMem (noSlash_fileName key)]
  rfl

/-- A file that is mounted into a service stands in the directory of its parent. -/
theorem standsIn_area_of_parent {parent name : String}
    (hparent : parent ∈ [configParent, secretParent]) (hname : name ≠ "..") (key : String) :
    StandsIn area (parent ++ "/" ++ Name.fileName name ++ "/" ++ Name.fileName key) := by
  have hparents : ∀ p ∈ [configParent, secretParent], IsPlain p ∧ p ≠ "" ∧ p ∈ area := by
    decide +kernel
  obtain ⟨hplain, hne, hmem⟩ := hparents parent hparent
  have hsteps : FileTree.steps (parent ++ "/" ++ Name.fileName name ++ "/" ++ Name.fileName key) =
      [parent, Name.fileName name] ++ [Name.fileName key] :=
    steps_mounted hplain.noSlash name key
  obtain ⟨hfront, hlast⟩ := OutputFile.front_of_steps hsteps
  refine ⟨⟨?_, ?_⟩, parent, hmem, FileTree.moves [Name.fileName name] ++ [Name.fileName key], ?_⟩
  · rw [String.append_assoc, String.append_assoc, String.append_assoc,
      OutputFile.startsWith_append hne]
    exact OutputFile.startsWith_slash_of_notMem hplain.noSlash
  · rw [hfront, List.mem_cons, List.mem_singleton, not_or]
    exact ⟨hplain.notOut.symm, (Name.fileName_ne_out hname).symm⟩
  · have hmove : (!(parent.isEmpty || parent == ".")) = true := by
      simp [hne, hplain.notHere]
    rw [names, hfront, hlast, FileTree.trail, FileTree.moves, List.filter_cons, if_pos hmove]
    rfl

theorem standsIn_area_of_attachment {a : Attachment} {parent : String}
    (hparent : parent ∈ [configParent, secretParent]) (hname : a.name ≠ "..") :
    ∀ f ∈ a.files parent, StandsIn area f.path := by
  intro f hf
  unfold Attachment.files at hf
  split at hf
  · exact absurd hf List.not_mem_nil
  · obtain hf | hf := List.mem_append.mp hf
    · obtain ⟨⟨key, text⟩, -, rfl⟩ := List.mem_map.mp hf
      exact standsIn_area_of_parent hparent hname key
    · obtain ⟨⟨key, content⟩, -, rfl⟩ := List.mem_map.mp hf
      exact standsIn_area_of_parent hparent hname key

/-- What is resolved of a workload bears the names of its configuration. -/
theorem names_of_deployed {tree : FileTree} {w : Workload} {x : Deployed}
    (h : deployed tree w = .ok x) :
    (∀ a ∈ x.configMaps, ∃ c ∈ w.configMaps, a.name = c.info.name) ∧
      ∀ a ∈ x.secrets, ∃ s ∈ w.secrets, a.name = s.info.name := by
  obtain ⟨secrets, hsecrets, h⟩ := bind_eq_ok_iff.mp h
  obtain ⟨configMaps, hmaps, h⟩ := bind_eq_ok_iff.mp h
  obtain rfl := Except.ok.inj h
  constructor
  · intro a ha
    obtain ⟨c, hc, hresolved⟩ := exists_of_mem_mapM hmaps ha
    obtain ⟨data, -, rfl⟩ := map_eq_ok_iff.mp hresolved
    exact ⟨c, hc, rfl⟩
  · intro a ha
    obtain ⟨s, hs, hresolved⟩ := exists_of_mem_mapM hsecrets ha
    obtain ⟨data, -, rfl⟩ := map_eq_ok_iff.mp hresolved
    exact ⟨s, hs, rfl⟩

/-- All files of a project stand in the area of compose. -/
theorem standsIn_area {o : ComposeOptions} {tree : FileTree} {d : Definition}
    {fs : List OutputFile} (hd : d.HasPlainNames) (h : files o tree d = .ok fs) :
    ∀ f ∈ fs, StandsIn area f.path := by
  obtain ⟨p, hp, rfl⟩ := map_eq_ok_iff.mp h
  unfold project at hp
  dsimp only at hp
  split at hp
  · exact absurd hp nofun
  obtain ⟨ds, hds, hp⟩ := bind_eq_ok_iff.mp hp
  rw [mapError_eq_ok_iff] at hds
  obtain rfl := Except.ok.inj hp
  intro f hf
  simp only [projectFiles, List.mem_append, List.mem_singleton] at hf
  obtain ((rfl | hf) | hf) | hf := hf
  · exact standsIn_area_of_mem (by decide : fileName ∈ area)
  · obtain ⟨x, hx, hf⟩ := List.mem_flatMap.mp hf
    obtain ⟨w, hw, hdeployed⟩ := exists_of_mem_mapM hds hx
    obtain ⟨hmaps, hsecrets⟩ := names_of_deployed hdeployed
    obtain hf | hf := List.mem_append.mp hf
    · obtain ⟨a, ha, hf⟩ := List.mem_flatMap.mp hf
      obtain ⟨c, hc, hname⟩ := hmaps a ha
      have hne : a.name ≠ ".." := hname ▸ (hd.configMaps w hw c hc).notOut
      exact standsIn_area_of_attachment (by simp) hne f hf
    · obtain ⟨a, ha, hf⟩ := List.mem_flatMap.mp hf
      obtain ⟨s, hs, hname⟩ := hsecrets a ha
      have hne : a.name ≠ ".." := hname ▸ (hd.secrets w hw s hs).notOut
      exact standsIn_area_of_attachment (by simp) hne f hf
  · split at hf
    · exact List.mem_singleton.mp hf ▸ standsIn_area_of_mem (by decide : ".env" ∈ area)
    · exact absurd hf List.not_mem_nil
  · obtain ⟨kind, -, rfl⟩ := List.mem_map.mp hf
    refine standsIn_area_of_mem ?_
    cases kind
    · exact (by decide : ComposeOverride.development.fileName ∈ area)
    · exact (by decide : ComposeOverride.production.fileName ∈ area)

end Compose

/-! ### The files of a format -/

namespace Rendering

/-- The directory of a format below the output directory, if it has one of its own. -/
def folder? : Format → Option String
  | .kubernetes => some "k8s"
  | .compose => none
  | .helm => some "charts"
  | .kustomize => some "kustomize"
  | .terraform => some "terraform"

/-- The names that a format writes to directly in the output directory. -/
def area (f : Format) : List String :=
  match folder? f with
  | some folder => [folder]
  | none => Compose.area

theorem eq_of_mem_area {f g : Format} {n : String} (hf : n ∈ area f) (hg : n ∈ area g) : f = g := by
  have hall : ∀ f ∈ Format.all, ∀ g ∈ Format.all, ∀ n ∈ area f, n ∈ area g → f = g := by decide
  have hmem : ∀ f, f ∈ Format.all := by
    intro f
    cases f <;> decide
  exact hall f (hmem f) g (hmem g) n hf hg

theorem isPlain_of_folder? {f : Format} {folder : String} (h : folder? f = some folder) :
    IsPlain folder ∧ folder ≠ "" := by
  cases f
  case compose => exact absurd h nofun
  all_goals
    obtain rfl := Option.some.inj h
    decide

/-- The files of a format by their paths below the output directory. -/
def placed (f : Format) (fs : List OutputFile) : List OutputFile :=
  match folder? f with
  | some folder => fs.map (.under folder)
  | none => fs

theorem directory_eq (dir : String) (f : Format) :
    directory dir f = match folder? f with
      | some folder => OutputFile.join dir folder
      | none => dir := by
  cases f <;> rfl

/-- Files below the directory of a format are files below the output directory. -/
theorem store_directory (dir : String) (f : Format) (tree : FileTree) {fs : List OutputFile}
    (h : AllTidy fs) :
    OutputFile.store (directory dir f) tree fs = OutputFile.store dir tree (placed f fs) := by
  rw [directory_eq, placed]
  cases hfolder : folder? f with
  | none => rfl
  | some folder =>
    obtain ⟨hplain, hne⟩ := isPlain_of_folder? hfolder
    have hrelative := OutputFile.startsWith_slash_of_notMem hplain.noSlash
    dsimp only
    induction fs generalizing tree with
    | nil => rfl
    | cons g fs ih =>
      obtain ⟨hg, hfs⟩ := List.forall_mem_cons.mp h
      rw [List.map_cons, OutputFile.store_cons, OutputFile.store_cons,
        OutputFile.join_join dir hne hrelative hg.relative]
      exact bind_congr fun tree => ih tree hfs

/-- Where a format has a directory of its own, every tidy path below it is in the area. -/
theorem standsIn_area_of_folder? {f : Format} {folder : String} (hf : folder? f = some folder)
    {fs : List OutputFile} (htidy : AllTidy fs) : ∀ g ∈ placed f fs, StandsIn (area f) g.path := by
  intro g hg
  obtain ⟨hplain, hne⟩ := isPlain_of_folder? hf
  have hunder := OutputFile.allTidy_under_of_noSlash hplain.noSlash hplain.notOut htidy
  rw [placed, hf] at hg
  obtain ⟨inner, hinner, rfl⟩ := List.mem_map.mp hg
  refine ⟨hunder _ hg, folder, by simp [area, hf], names inner.path, ?_⟩
  have hmoves : FileTree.moves (FileTree.steps folder) = [folder] := by
    rw [FileTree.steps_of_notMem hplain.noSlash, FileTree.moves]
    simp [hne, hplain.notHere]
  change names (OutputFile.join folder inner.path) = _
  rw [OutputFile.names_join (htidy inner hinner), hmoves]
  rfl

/-- The files that a format writes to its directory, given the records if they can be made. -/
def output (d : Definition) (s : RenderSettings) (dir : String)
    (rs : Except Failure (List Record)) (tree : FileTree) :
    Format → Except Failure (List OutputFile)
  | .kubernetes => rs.map (Manifest.files s.manifests)
  | .compose => Compose.files s.compose tree d
  | .helm => rs >>= (s.chart.getD (.ofDefinition d)).treeFiles d
  | .kustomize => rs.map (Kustomize.files s.base s.overlays)
  | .terraform => rs.map
      (Terraform.files (s.terraform.withDefaultNamespace d.ns) d.name
        (directoryName (directory dir .terraform)))

section Output

variable {d : Definition} {s : RenderSettings} {dir : String} {rs : Except Failure (List Record)}
  {tree : FileTree} {f : Format} {fs : List OutputFile} (hd : d.HasPlainNames)
  (hs : s.HasPlainNames) (hrs : ∀ records, rs = .ok records → ∀ r ∈ records, NoSlash r.kind)
  (h : output d s dir rs tree f = .ok fs)
include hd hs hrs h

theorem allTidy_output : AllTidy fs := by
  cases f with
  | kubernetes =>
    obtain ⟨records, hrecords, rfl⟩ := map_eq_ok_iff.mp h
    exact Manifest.allTidy_files (hrs records hrecords) hs.layout
  | compose => exact fun g hg => (Compose.standsIn_area hd h g hg).tidy
  | helm =>
    obtain ⟨records, hrecords, htree⟩ := bind_eq_ok_iff.mp h
    cases hc : s.chart with
    | some c =>
      obtain ⟨hname, hresources⟩ := hs.chart c hc
      rw [hc] at htree
      exact Chart.allTidy_treeFiles hname hresources (hrs records hrecords) htree
    | none =>
      obtain ⟨hname, hresources⟩ := Chart.name_ofDefinition d
      rw [hc] at htree
      refine Chart.allTidy_treeFiles ?_ ?_ (hrs records hrecords) htree
      · exact hname ▸ ⟨hd.name.noSlash, hd.name.notOut⟩
      · exact hresources ▸ List.forall_mem_nil _
  | kustomize =>
    obtain ⟨records, hrecords, rfl⟩ := map_eq_ok_iff.mp h
    exact Kustomize.allTidy_files hs.base hs.overlays (hrs records hrecords)
  | terraform =>
    obtain ⟨records, hrecords, rfl⟩ := map_eq_ok_iff.mp h
    exact Terraform.allTidy_files _ _ _ records

/-- All files of a format are in its area. -/
theorem standsIn_area_of_output : ∀ g ∈ placed f fs, StandsIn (area f) g.path := by
  have htidy := allTidy_output hd hs hrs h
  cases f with
  | compose => exact Compose.standsIn_area hd h
  | kubernetes | helm | kustomize | terraform => exact standsIn_area_of_folder? rfl htidy

end Output

end Rendering

end Rollout
