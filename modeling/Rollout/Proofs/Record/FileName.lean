import Mathlib.Data.List.Induction
import Mathlib.Data.List.Nodup
import Rollout.Chart.Files
import Rollout.Kustomize.Basic
import Rollout.Manifest

/-!
# Files of records

A record whose plain file name is taken gets a longer one, and nobody asks whether that one
is taken too. So the files of a list of records are apart just when this never happens: no
record that needs a long name finds it among the names given before. The same holds wherever
records are written one by one, as manifests, into a base or among the templates of a chart.
-/

namespace Rollout

namespace Record

/-- The name that a record gets when some names are taken. -/
def nameAmong (taken : List String) (r : Record) : String :=
  if r.fileName ∈ taken then r.longFileName else r.fileName

theorem nameAmong_congr {taken taken' : List String} (h : ∀ n, n ∈ taken ↔ n ∈ taken')
    (r : Record) : nameAmong taken r = nameAmong taken' r := by
  simp only [nameAmong, h]

theorem fileNamesFrom_cons (taken : List String) (r : Record) (rs : List Record) :
    fileNamesFrom taken (r :: rs) =
      nameAmong taken r :: fileNamesFrom (nameAmong taken r :: taken) rs := by
  simp only [fileNamesFrom, nameAmong, List.contains_iff_mem]

theorem fileNamesFrom_concat (taken : List String) (rs : List Record) (r : Record) :
    fileNamesFrom taken (rs ++ [r]) =
      fileNamesFrom taken rs ++ [nameAmong (fileNamesFrom taken rs ++ taken) r] := by
  induction rs generalizing taken with
  | nil =>
    rw [List.nil_append, fileNamesFrom_cons]
    rfl
  | cons s rs ih =>
    rw [List.cons_append, fileNamesFrom_cons, fileNamesFrom_cons, ih, List.cons_append]
    congr 3
    refine nameAmong_congr (fun n => ?_) r
    simp only [List.mem_append, List.mem_cons]
    exact or_left_comm.trans or_assoc.symm

/-- The names follow one another: each record is named among those before it. -/
theorem fileNames_concat (rs : List Record) (r : Record) :
    fileNames (rs ++ [r]) = fileNames rs ++ [nameAmong (fileNames rs) r] := by
  rw [fileNames, fileNamesFrom_concat, List.append_nil]
  rfl

theorem length_fileNames (rs : List Record) : (fileNames rs).length = rs.length := by
  induction rs using List.reverseRecOn with
  | nil => rfl
  | append_singleton rs r ih => simp [fileNames_concat, ih]

/-- A record finds its long name among those that are taken. -/
def FindsLongNameTaken (taken : List String) (r : Record) : Prop :=
  r.fileName ∈ taken ∧ r.longFileName ∈ taken

theorem nameAmong_mem_iff (taken : List String) (r : Record) :
    nameAmong taken r ∈ taken ↔ r.FindsLongNameTaken taken := by
  unfold nameAmong FindsLongNameTaken
  split <;> rename_i htaken <;> simp [htaken]

/-- Every record that needs its long name can have it. -/
def LongNamesFree (rs : List Record) : Prop :=
  ∀ before r after, rs = before ++ r :: after → ¬ r.FindsLongNameTaken (fileNames before)

theorem longNamesFree_concat (rs : List Record) (r : Record) :
    LongNamesFree (rs ++ [r]) ↔ LongNamesFree rs ∧ ¬ r.FindsLongNameTaken (fileNames rs) := by
  constructor
  · intro h
    refine ⟨fun before s after hrs => ?_, h rs r [] rfl⟩
    refine h before s (after ++ [r]) ?_
    rw [hrs, List.append_assoc, List.cons_append]
  · rintro ⟨hrs, hr⟩ before s after heq
    obtain rfl | ⟨after, last, rfl⟩ := List.eq_nil_or_concat' after
    · obtain ⟨rfl, hs⟩ := List.append_inj' heq rfl
      obtain rfl := List.singleton_inj.mp hs
      exact hr
    · rw [← List.cons_append, ← List.append_assoc] at heq
      exact hrs before s after (List.append_inj' heq rfl).1

theorem nodup_fileNames_iff (rs : List Record) : (fileNames rs).Nodup ↔ LongNamesFree rs := by
  induction rs using List.reverseRecOn with
  | nil =>
    refine iff_of_true List.nodup_nil fun before r after h => ?_
    exact absurd h.symm (List.append_ne_nil_of_right_ne_nil before (List.cons_ne_nil r after))
  | append_singleton rs r ih =>
    rw [longNamesFree_concat, ← ih, ← nameAmong_mem_iff, fileNames_concat]
    rw [← List.concat_eq_append, List.nodup_concat, and_comm]

end Record

namespace OutputFile

/-- Every record has a file of its own: one that holds its text, and the only one at its path. -/
structure OneForEach (text : Record → String) (rs : List Record) (fs : List OutputFile) :
    Prop where
  contents : List.Forall₂ (fun r f => f.content = Bytes.ofText (text r)) rs fs
  alone : ∀ f ∈ fs, fs.filter (·.path = f.path) = [f]

/-- The files of records that are named one by one, all at one place. -/
def ofRecords (place : String) (text : Record → String) (rs : List Record) : List OutputFile :=
  ((Record.fileNames rs).zip rs).map fun (name, r) => .ofText (place ++ name) (text r)

/-- Keys are distinct when each finds just the item that it is the key of. -/
theorem nodup_map_iff_filter {α β : Type} [DecidableEq β] (key : α → β) (xs : List α) :
    (xs.map key).Nodup ↔ ∀ x ∈ xs, xs.filter (key · = key x) = [x] := by
  induction xs with
  | nil => simp
  | cons a xs ih =>
    have hnone : xs.filter (key · = key a) = [] ↔ ∀ x ∈ xs, key a ≠ key x := by
      simp only [List.filter_eq_nil_iff, decide_eq_true_eq, ne_comm]
    have hnew : key a ∉ xs.map key ↔ ∀ x ∈ xs, key a ≠ key x := by
      simp only [List.mem_map, not_exists, not_and, ne_comm]
    rw [List.map_cons, List.nodup_cons, ih, hnew, List.forall_mem_cons,
      List.filter_cons_of_pos (by simp), List.cons_eq_cons, and_iff_right rfl, hnone]
    refine and_congr_right fun ha => forall₂_congr fun x hx => ?_
    rw [List.filter_cons_of_neg (by simpa using ha x hx)]

section OfRecords

variable (place : String) (text : Record → String) (rs : List Record)

theorem paths_ofRecords :
    (ofRecords place text rs).map (·.path) = (Record.fileNames rs).map (place ++ ·) := by
  have hlength : (Record.fileNames rs).length ≤ rs.length :=
    Nat.le_of_eq (Record.length_fileNames rs)
  rw [ofRecords, List.map_map]
  change ((Record.fileNames rs).zip rs).map ((place ++ ·) ∘ Prod.fst) = _
  rw [← List.map_map, List.map_fst_zip hlength]

theorem nodup_paths_ofRecords :
    ((ofRecords place text rs).map (·.path)).Nodup ↔ (Record.fileNames rs).Nodup := by
  rw [paths_ofRecords]
  refine List.nodup_map_iff fun a b h => ?_
  have hlist : place.toList ++ a.toList = place.toList ++ b.toList := by
    rw [← String.toList_append, ← String.toList_append, h]
  exact String.toList_injective (List.append_cancel_left hlist)

/-- The files hold the texts of the records, one after the other. -/
theorem forall₂_ofRecords :
    List.Forall₂ (fun r f => f.content = Bytes.ofText (text r)) rs (ofRecords place text rs) := by
  have hzip : ∀ names : List String, names.length = rs.length →
      List.Forall₂ (fun r f => f.content = Bytes.ofText (text r)) rs
        ((names.zip rs).map fun (name, r) => ofText (place ++ name) (text r)) := by
    induction rs with
    | nil => intro names _; cases names <;> exact .nil
    | cons r rs ih =>
      intro names hlength
      obtain ⟨name, names, rfl⟩ := List.exists_cons_of_length_eq_add_one hlength
      exact .cons rfl (ih names (Nat.succ.inj hlength))
  exact hzip _ (Record.length_fileNames rs)

/-- Each record has a file of its own just when no long name is found taken. -/
theorem oneForEach_ofRecords :
    OneForEach text rs (ofRecords place text rs) ↔ Record.LongNamesFree rs := by
  rw [← Record.nodup_fileNames_iff, ← nodup_paths_ofRecords place text, nodup_map_iff_filter]
  exact ⟨OneForEach.alone, OneForEach.mk (forall₂_ofRecords place text rs)⟩

end OfRecords

end OutputFile

/-! ### The outputs that hold one file for each record -/

namespace Manifest

/-- The text of a record as a document. -/
def documentText (r : Record) : String := Yaml.text r.toValue

theorem documents_eq (o : ManifestOptions) (rs : List Record) : documents o rs =
    ((Record.fileNames (prepare o rs)).zip (prepare o rs)).map
      fun (name, r) => (name, documentText r) := by
  change (Record.fileNames (prepare o rs)).zip ((prepare o rs).map documentText) = _
  rw [List.zip_map_right]
  rfl

theorem documentFiles_perRecord (o : ManifestOptions) (rs : List Record) :
    documentFiles { o with layout := .perRecord } rs =
      OutputFile.ofRecords "" documentText (prepare o rs) := by
  change (documents o rs).map (fun d => OutputFile.ofText d.1 d.2) = _
  rw [documents_eq, List.map_map, OutputFile.ofRecords]
  refine List.map_congr_left fun d _ => ?_
  exact congrArg (OutputFile.ofText · (documentText d.2)) (String.empty_append).symm

end Manifest

/-- The files of a base are those of its records and those of its kustomization. -/
theorem Kustomize.baseFiles_eq (base : Kustomization) (rs : List Record) :
    baseFiles base rs = Manifest.documentFiles {} rs ++
      kustomizationFiles base ((Manifest.documentFiles {} rs).map (·.path)) := by
  have hpaths : (Manifest.documentFiles {} rs).map (·.path) =
      (Manifest.documents {} rs).map (·.1) := by
    rw [Manifest.documentFiles, List.map_map]
    rfl
  rw [hpaths, Manifest.documentFiles, baseFiles]

/-- Names are distinct just when no long name is found taken, and then each record has a file
of its own: as a manifest, in a base, whose other files are those of its kustomization, and
among the templates of a chart. -/
theorem OutputFile.oneForEach_iff_longNamesFree (rs : List Record) :
    ((Record.fileNames rs).Nodup ↔ Record.LongNamesFree rs) ∧
    (∀ o : ManifestOptions,
      OneForEach Manifest.documentText (Manifest.prepare o rs)
          (Manifest.documentFiles { o with layout := .perRecord } rs) ↔
        Record.LongNamesFree (Manifest.prepare o rs)) ∧
    (∀ base : Kustomization, ∃ documents,
      Kustomize.baseFiles base rs =
        documents ++ Kustomize.kustomizationFiles base (documents.map (·.path)) ∧
      (OneForEach Manifest.documentText (Manifest.prepare {} rs) documents ↔
        Record.LongNamesFree (Manifest.prepare {} rs))) ∧
    (∀ (c : Chart) (p : Option Chart.Primary),
      OneForEach Chart.recordText (Chart.copiedRecords c p rs)
          (Chart.recordFiles (Chart.copiedRecords c p rs)) ↔
        Record.LongNamesFree (Chart.copiedRecords c p rs)) := by
  refine ⟨Record.nodup_fileNames_iff rs, fun o => ?_, fun base => ?_, fun c p => ?_⟩
  · rw [Manifest.documentFiles_perRecord]
    exact oneForEach_ofRecords _ _ _
  · refine ⟨Manifest.documentFiles {} rs, Kustomize.baseFiles_eq base rs, ?_⟩
    rw [Manifest.documentFiles_perRecord {} rs]
    exact oneForEach_ofRecords _ _ _
  · exact oneForEach_ofRecords "templates/" _ _

/-- Three ConfigMaps of two namespaces. The name of the first holds the namespace of the
others. -/
def Record.threeSettings : List Record :=
  [((Record.make "v1" "ConfigMap" "dev-settings").setNamespace "prod"),
    ((Record.make "v1" "ConfigMap" "settings").setNamespace "prod"),
    ((Record.make "v1" "ConfigMap" "settings").setNamespace "dev")]

/-- The first record and the last are written to one file. -/
theorem Record.fileNames_threeSettings :
    (threeSettings.map Record.identity).Nodup ∧
      fileNames threeSettings = ["configmap-dev-settings.yaml", "configmap-settings.yaml",
        "configmap-dev-settings.yaml"] ∧
      ¬ (fileNames threeSettings).Nodup := by
  have hnames : fileNames threeSettings = ["configmap-dev-settings.yaml",
      "configmap-settings.yaml", "configmap-dev-settings.yaml"] := by
    decide +kernel
  refine ⟨by decide +kernel, hnames, ?_⟩
  rw [hnames]
  decide

end Rollout
