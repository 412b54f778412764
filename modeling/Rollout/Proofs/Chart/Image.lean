import Rollout.Chart.Files
import Rollout.Proofs.App.Reference
import Rollout.Proofs.Chart.Section
import Rollout.Proofs.Value.Merge
import Rollout.Proofs.Workload.Image

/-!
# The image that a chart deploys

The records of an application run the image that the application names. In its chart the template
of the container puts the image together again, of the repository and the tag that the values
hold and, where these hold no tag, of the version of the chart's application. The values lose the
digest of the image, and the version of the application stands in for a missing tag, so the two
images are one where a tag is given and no digest.
-/

namespace Rollout

open Image

namespace Record

theorem kind?_of_kind {r : Record} {kind : String} (h : r.kind = kind) (hne : kind ≠ "") :
    r.kind? = some kind := by
  cases hkind : r.kind? with
  | none =>
    rw [Record.kind, hkind] at h
    exact absurd h.symm hne
  | some k =>
    rw [Record.kind, hkind] at h
    exact congrArg some h

theorem kind_of_kind? {r : Record} {kind : String} (h : r.kind? = some kind) : r.kind = kind := by
  rw [Record.kind, h, Option.getD_some]

/-- The image that the first container of the pods of a record runs. -/
def image? (r : Record) : Option String := (r.mainContainer.at "image").text?

end Record

theorem Workload.IsRunBy.image? {w : Workload} {mode : Workload.StorageMode} {r : Record}
    (h : w.IsRunBy mode r) : r.image? = some w.imageOrDefault := by
  rw [Record.image?, h.mainContainer]
  rfl

/-- The definition is an application, stateless or stateful, that runs a workload. -/
def Definition.Runs (d : Definition) (w : Workload) : Prop :=
  (∃ a : App, d = .app a ∧ a.workload = w) ∨ ∃ a : StatefulApp, d = .statefulApp a ∧ a.workload = w

theorem Definition.Runs.workloads {d : Definition} {w : Workload} (h : d.Runs w) :
    d.workloads = [w] := by
  obtain ⟨a, rfl, rfl⟩ | ⟨a, rfl, rfl⟩ := h <;> rfl

theorem Definition.Runs.generatedTo {files : FileTree} {d : Definition} {w : Workload}
    {rs : List Record} (hd : d.Runs w) (h : d.records files = .ok rs) : w.GeneratedTo files rs := by
  obtain ⟨a, rfl, rfl⟩ | ⟨a, rfl, rfl⟩ := hd
  · exact .inl ⟨a, rfl, h⟩
  · exact .inr ⟨a, rfl, h⟩

namespace Chart

variable {files : FileTree} {rs : List Record} {kind name : String} {d : Definition} {w : Workload}

/-! ### The record of the workload -/

/-- What is found stands at its place, and has the kind and the name. -/
theorem of_findNamed {q : Placed} (h : findNamed rs kind name = some q) :
    rs[q.place]? = some q.record ∧ q.record.kind? = some kind ∧ q.record.name? = some name := by
  obtain ⟨i, hi, rfl⟩ := List.mem_mapIdx.mp (List.mem_of_find?_eq_some h)
  have hfound := List.find?_some h
  rw [Bool.and_eq_true, beq_iff_eq, beq_iff_eq] at hfound
  exact ⟨List.getElem?_eq_getElem hi, hfound⟩

/-- There is a first record of a kind with a name if there is one at all. -/
theorem exists_findNamed {r : Record} (hr : r ∈ rs) (hkind : r.kind? = some kind)
    (hname : r.name? = some name) :
    ∃ p, findNamed rs kind name = some p ∧ p.record ∈ rs ∧ p.record.kind? = some kind := by
  obtain ⟨i, hi, rfl⟩ := List.mem_iff_getElem.mp hr
  have hfound : (findNamed rs kind name).isSome := by
    rw [findNamed, List.find?_isSome]
    exact ⟨⟨i, rs[i]⟩, List.mem_mapIdx.mpr ⟨i, hi, rfl⟩, by simp [hkind, hname]⟩
  obtain ⟨p, hp⟩ := Option.isSome_iff_exists.mp hfound
  obtain ⟨hplace, hkind', -⟩ := of_findNamed hp
  exact ⟨p, hp, List.mem_of_getElem? hplace, hkind'⟩

theorem findNamed_eq_none (h : ∀ r ∈ rs, r.kind? ≠ some kind) : findNamed rs kind name = none := by
  rw [findNamed, List.find?_eq_none]
  intro p hp
  obtain ⟨i, hi, rfl⟩ := List.mem_mapIdx.mp hp
  simp [h _ (List.getElem_mem hi)]

/-- The record of the workload is its Deployment or, if it has none, its StatefulSet. -/
theorem exists_find?_of_findNamed {q : Placed} (hd : d.workloads = [w])
    (hq : (findNamed rs "Deployment" w.name).or (findNamed rs "StatefulSet" w.name) = some q) :
    ∃ p, Primary.find? d rs = some p ∧ p.workload = w ∧ p.record = q := by
  rw [Primary.find?, hd]
  simp only [List.head?_cons, Option.bind_eq_bind, Option.bind_some, hq]
  exact ⟨_, rfl, rfl, rfl⟩

/-- A chart takes the record that runs the pods for that of the workload, if it has the name of
the workload and is the only one. -/
theorem exists_primary {x : Record} (hd : d.workloads = [w]) (hx : x ∈ rs)
    (hruns : x.RunsApplication) (hname : x.name? = some w.name)
    (hall : ∀ r ∈ rs, r.RunsApplication → r = x) :
    ∃ p, Primary.find? d rs = some p ∧ p.workload = w ∧ p.record.record = x := by
  obtain ⟨q, hq, hqx⟩ : ∃ q, (findNamed rs "Deployment" w.name).or
      (findNamed rs "StatefulSet" w.name) = some q ∧ q.record = x := by
    obtain hx' | hx' := hruns
    · obtain ⟨q, hq, hmem, hq'⟩ := exists_findNamed hx (Record.kind?_of_kind hx' (by decide)) hname
      exact ⟨q, by rw [hq, Option.some_or], hall _ hmem (.inl (Record.kind_of_kind? hq'))⟩
    · have hnone : findNamed rs "Deployment" w.name = none := by
        refine findNamed_eq_none fun r hr hr' => ?_
        rw [hall r hr (.inl (Record.kind_of_kind? hr')), Record.kind?_of_kind hx' (by decide)] at hr'
        exact absurd hr' (by decide)
      obtain ⟨q, hq, hmem, hq'⟩ := exists_findNamed hx (Record.kind?_of_kind hx' (by decide)) hname
      exact ⟨q, by rw [hnone, Option.none_or, hq], hall _ hmem (.inr (Record.kind_of_kind? hq'))⟩
  obtain ⟨p, hp, hworkload, hrecord⟩ := exists_find?_of_findNamed hd hq
  exact ⟨p, hp, hworkload, hrecord ▸ hqx⟩

/-! ### Its template -/

/-- The line by which the template of a workload names the image of its container. -/
def imageLine : String := marked
  "          image: \"‹‹ .Values.image.repository ››:‹‹ .Values.image.tag | default .Chart.AppVersion ››\"\n"

set_option maxRecDepth 20000 in
/-- The line is in the template of every workload. -/
theorem contains_workloadSections (chart : String) (r : Record) :
    Text.contains (Section.textAll (workloadSections chart r)) imageLine = true := by
  have hfill : Text.contains (fill workloadPod chart) imageLine = true :=
    contains_fill_marked (by decide) (by decide +kernel) chart
  apply contains_textAll hfill
  simp [workloadSections]

/-- The image that the template of the container names with some values: where they have no tag,
the tag is the version of the application. -/
def deployedImage? (c : Chart) (values : Value) : Option String := do
  let image ← values.field? "image"
  let repository ← (image.at "repository").text?
  let tag ← (image.at "tag").text?
  some (repository ++ ":" ++ if tag = "" then c.appVersion else tag)

theorem settings_ofDefinition (d : Definition) :
    (ofDefinition d).overrides = .empty ∧ (ofDefinition d).dependencies = [] := by
  unfold ofDefinition
  split <;> exact ⟨rfl, rfl⟩

theorem derivedValues_merge_empty (d : Definition) (rs : List Record) :
    (derivedValues d rs).merge .empty = derivedValues d rs := by
  unfold derivedValues
  split
  · exact Value.merge_empty _
  · exact Value.merge_empty _

/-- The values of the chart of a definition are those that are derived from its records. -/
theorem values_ofDefinition (d : Definition) (rs : List Record) :
    (ofDefinition d).values d rs = .ok (derivedValues d rs) := by
  obtain ⟨hoverrides, hdependencies⟩ := settings_ofDefinition d
  rw [values, hoverrides, hdependencies, derivedValues_merge_empty]
  rfl

theorem appVersion_ofDefinition (hd : d.Runs w) :
    (ofDefinition d).appVersion = (split w.imageOrDefault).2.getD "1.0.0" := by
  rw [ofDefinition, hd.workloads]
  cases h : (split w.imageOrDefault).2 <;> simp [h, named]

theorem deployedImage?_derivedValues {p : Primary} (c : Chart) (h : Primary.find? d rs = some p) :
    c.deployedImage? (derivedValues d rs) =
      let (repository, tag) := split p.workload.imageOrDefault
      some (repository ++ ":" ++ if tag.getD "" = "" then c.appVersion else tag.getD "") := by
  rw [derivedValues, h]
  rfl

end Chart

end Rollout
