import Rollout.Project.Basic
import Rollout.Proofs.Success

/-!
# What a project renders

The formats of a project are never none. Its chart is made in steps, of which only the version and
the overrides can fail. Whatever they give, the chart depends on what the file lists.
-/

namespace Rollout

namespace Project

variable {p : Project} {asked overrides : List String} {fs : List Format}

theorem mem_foldl_new {gs : List Format} {f : Format} (h : f ∈ fs ∨ f ∈ gs) :
    f ∈ gs.foldl (fun fs g => if fs.contains g then fs else fs ++ [g]) fs := by
  induction gs generalizing fs with
  | nil => exact h.resolve_right List.not_mem_nil
  | cons g gs ih =>
    rw [List.foldl_cons]
    apply ih
    obtain hf | hf := h
    · left
      split
      · exact hf
      · exact List.mem_append_left [g] hf
    · obtain rfl | hf := List.mem_cons.mp hf
      · left
        split
        · rename_i hmem
          exact List.contains_iff_mem.mp hmem
        · exact List.mem_append_right fs List.mem_cons_self
      · exact .inr hf

/-- Some format is rendered, whatever is asked for. -/
theorem ne_nil_of_formats (h : p.formats asked = .ok fs) : fs ≠ [] := by
  unfold formats at h
  cases asked with
  | nil =>
    obtain rfl := Except.ok.inj h
    split
    · exact List.cons_ne_nil _ _
    · rename_i hnone
      exact fun hnil => hnone (List.isEmpty_iff.mpr hnil)
  | cons s rest =>
    obtain ⟨all, hall, h⟩ := bind_eq_ok_iff.mp h
    obtain rfl := Except.ok.inj h
    obtain ⟨gs, hgs, hrequested⟩ := exists_mem_of_mapM hall List.mem_cons_self
    have hsome : ∃ g, g ∈ gs := by
      unfold requested at hrequested
      split at hrequested
      · obtain rfl := Except.ok.inj hrequested
        exact ⟨.kubernetes, List.mem_cons_self⟩
      · obtain ⟨g, -, rfl⟩ := map_eq_ok_iff.mp hrequested
        exact ⟨g, List.mem_singleton_self g⟩
    obtain ⟨g, hg⟩ := hsome
    exact List.ne_nil_of_mem (mem_foldl_new (.inr (List.mem_flatten.mpr ⟨gs, hgs, hg⟩)))

/-! ### The chart -/

/-- The chart that the definition implies, in the version that the file names. -/
def versioned (p : Project) : Except Failure Chart :=
  match p.file.chart.version with
  | some version => (Chart.ofDefinition p.definition).withVersion version
  | none => .ok (Chart.ofDefinition p.definition)

/-- A chart with the texts, the dependencies and the values of the file. -/
def furnished (p : Project) (c : Chart) : Chart :=
  let c := p.file.chart.dependencies.foldl Chart.addDependency
    { c with
      appVersion := p.file.chart.appVersion.getD c.appVersion
      description := p.file.chart.description.getD c.description }
  (p.file.chart.values.map c.withValues).getD c

/-- A chart with further overrides. -/
def overridden (overrides : List String) (c : Chart) : Except Failure Chart :=
  if overrides.isEmpty then .ok c
  else ((Override.values overrides).mapError Failure.override).map c.withValues

theorem chart_eq (p : Project) (overrides : List String) : p.chart overrides =
    (p.versioned >>= fun c => overridden overrides (p.furnished c) >>= fun c => .ok
      { c with
        notes := p.file.chart.notes
        tests := p.file.chart.tests.getD true
        separateRequirements := p.file.chart.legacyRequirements }) := by
  unfold chart versioned overridden
  dsimp only
  cases p.file.chart.version with
  | some version => cases overrides <;> rfl
  | none => cases overrides <;> rfl

theorem dependencies_foldl_addDependency (c : Chart) (ds : List ChartDependency) :
    (ds.foldl Chart.addDependency c).dependencies = c.dependencies ++ ds := by
  induction ds generalizing c with
  | nil => exact (List.append_nil _).symm
  | cons d ds ih =>
    rw [List.foldl_cons, ih, Chart.addDependency, List.append_assoc]
    rfl

theorem dependencies_versioned {c : Chart} (h : p.versioned = .ok c) : c.dependencies = [] := by
  have hnone : (Chart.ofDefinition p.definition).dependencies = [] := by
    unfold Chart.ofDefinition
    split <;> rfl
  unfold versioned at h
  split at h
  · unfold Chart.withVersion at h
    split at h
    · obtain rfl := Except.ok.inj h
      exact hnone
    · cases h
  · obtain rfl := Except.ok.inj h
    exact hnone

theorem dependencies_furnished (p : Project) (c : Chart) :
    (p.furnished c).dependencies = c.dependencies ++ p.file.chart.dependencies := by
  unfold furnished
  cases p.file.chart.values with
  | none => exact dependencies_foldl_addDependency _ _
  | some v => exact dependencies_foldl_addDependency _ _

theorem dependencies_overridden {c c' : Chart} (h : overridden overrides c = .ok c') :
    c'.dependencies = c.dependencies := by
  unfold overridden at h
  split at h
  · obtain rfl := Except.ok.inj h
    rfl
  · obtain ⟨v, -, rfl⟩ := map_eq_ok_iff.mp h
    rfl

/-- The chart of a project has the dependencies that its file lists, and no others. -/
theorem dependencies_of_chart {c : Chart} (h : p.chart overrides = .ok c) :
    c.dependencies = p.file.chart.dependencies := by
  rw [chart_eq] at h
  obtain ⟨first, hversioned, h⟩ := bind_eq_ok_iff.mp h
  obtain ⟨last, hoverridden, h⟩ := bind_eq_ok_iff.mp h
  obtain rfl := Except.ok.inj h
  calc
    last.dependencies = (p.furnished first).dependencies := dependencies_overridden hoverridden
    _ = first.dependencies ++ p.file.chart.dependencies := dependencies_furnished p first
    _ = p.file.chart.dependencies := by rw [dependencies_versioned hversioned, List.nil_append]

/-- The settings of a project have a chart, which is its own. -/
theorem chart_of_settings {rs : List Record} {single : Bool} {s : RenderSettings}
    (h : p.settings rs overrides single = .ok s) :
    ∃ c, s.chart = some c ∧ c.dependencies = p.file.chart.dependencies := by
  obtain ⟨c, hchart, h⟩ := bind_eq_ok_iff.mp h
  obtain rfl := Except.ok.inj h
  exact ⟨c, rfl, dependencies_of_chart hchart⟩

end Project

end Rollout
