import Rollout.Chart.Files
import Rollout.Proofs.Override
import Rollout.Proofs.Record.Reference
import Rollout.Proofs.Value.Merge

/-!
# The layers of the values

The values of a chart are made in three layers: what is derived from the records, the overrides
merged into it, and the conditions of the disabled dependencies, each written as false wherever its
path leads. On every path that the conditions leave alone the merge is read, where it has what the
overrides say, and what is derived where they say nothing.
-/

namespace Rollout

open Value

namespace ChartDependency

/-- The keys that lead to the value that turns the dependency on. -/
def conditionKeys (e : ChartDependency) : List String := pathKeys e.conditionPath

/-- Values that turn a dependency off. -/
def turnOff (v : Value) (e : ChartDependency) : Value := v.putAt e.conditionKeys (.bool false)

/-- Where a disabled dependency is listed, the path of its condition stands with its name. -/
theorem toValue_of_disabled {e : ChartDependency} (h : e.enabled = false) :
    e.toValue.at "name" = .text e.name ∧ e.toValue.at "condition" = .text e.conditionPath := by
  rw [toValue, h, Bool.not_false, Bool.or_true, if_pos rfl]
  exact ⟨rfl, rfl⟩

end ChartDependency

open ChartDependency

namespace Chart

variable {c : Chart} {d : Definition} {rs : List Record} {v w : Value} {ds : List ChartDependency}
  {q : List String} {e : ChartDependency}

/-- The dependencies that are not to be installed. -/
def disabled (c : Chart) : List ChartDependency := c.dependencies.filter fun e => !e.enabled

/-- The conditions of two disabled dependencies are one value, or neither stands inside of the
other. -/
def Separate (c : Chart) : Prop :=
  ∀ e ∈ c.disabled, ∀ e' ∈ c.disabled,
    e.conditionKeys = e'.conditionKeys ∨ Apart e.conditionKeys e'.conditionKeys

/-- A path that leads elsewhere than to the conditions of the disabled dependencies. -/
def Spares (c : Chart) (q : List String) : Prop := ∀ e ∈ c.disabled, Apart e.conditionKeys q

/-! ### Turning dependencies off -/

/-- A dependency is turned off if and only if no key of its condition is empty. -/
theorem set_conditionPath_eq_ok_iff :
    (Override.set v e.conditionPath (.bool false)).mapError Failure.override = .ok w ↔
      "" ∉ e.conditionKeys ∧ turnOff v e = w := by
  rw [mapError_eq_ok_iff, Override.set_eq_ok_iff, conditionKeys, turnOff, conditionKeys]

/-- The dependencies are turned off one after the other. -/
theorem foldlM_set_eq_ok_iff :
    ds.foldlM (fun v e => (Override.set v e.conditionPath (.bool false)).mapError Failure.override)
        v = .ok w ↔
      (∀ e ∈ ds, "" ∉ e.conditionKeys) ∧ ds.foldl turnOff v = w := by
  induction ds generalizing v with
  | nil =>
    show Except.ok v = .ok w ↔ _
    simp
  | cons e ds ih =>
    rw [List.foldlM_cons, bind_eq_ok_iff, List.forall_mem_cons, List.foldl_cons]
    constructor
    · rintro ⟨v', hstep, hrest⟩
      obtain ⟨hkeys, rfl⟩ := set_conditionPath_eq_ok_iff.mp hstep
      obtain ⟨hall, hfold⟩ := ih.mp hrest
      exact ⟨⟨hkeys, hall⟩, hfold⟩
    · rintro ⟨⟨hkeys, hall⟩, hfold⟩
      exact ⟨_, set_conditionPath_eq_ok_iff.mpr ⟨hkeys, rfl⟩, ih.mpr ⟨hall, hfold⟩⟩

theorem values_eq_ok_iff :
    c.values d rs = .ok v ↔ (∀ e ∈ c.disabled, "" ∉ e.conditionKeys) ∧
      c.disabled.foldl turnOff ((derivedValues d rs).merge c.overrides) = v := by
  rw [values, disableAll]
  exact foldlM_set_eq_ok_iff

/-- Turning a dependency off fails for nothing else than a key of its condition that is empty. -/
theorem set_conditionPath_eq_error {f : Failure}
    (h : (Override.set v e.conditionPath (.bool false)).mapError Failure.override = .error f) :
    "" ∈ e.conditionKeys ∧ f = .override (.emptySegment e.conditionPath) := by
  obtain ⟨fault, hfault, rfl⟩ := mapError_eq_error_iff.mp h
  obtain ⟨hkey, rfl⟩ := Override.set_eq_error_iff.mp hfault
  exact ⟨hkey, rfl⟩

theorem foldlM_set_eq_error {f : Failure}
    (h : ds.foldlM (fun v e =>
      (Override.set v e.conditionPath (.bool false)).mapError Failure.override) v = .error f) :
    ∃ e ∈ ds, "" ∈ e.conditionKeys ∧ f = .override (.emptySegment e.conditionPath) := by
  induction ds generalizing v with
  | nil => exact absurd h nofun
  | cons e ds ih =>
    rw [List.foldlM_cons] at h
    obtain hstep | ⟨w, -, hrest⟩ := bind_eq_error_iff.mp h
    · exact ⟨e, List.mem_cons_self, set_conditionPath_eq_error hstep⟩
    · obtain ⟨e', he', hfails⟩ := ih hrest
      exact ⟨e', List.mem_cons_of_mem e he', hfails⟩

/-- There are no values just because of a disabled dependency whose condition has an empty key. -/
theorem values_eq_error {f : Failure} (h : c.values d rs = .error f) :
    ∃ e ∈ c.disabled, "" ∈ e.conditionKeys ∧ f = .override (.emptySegment e.conditionPath) := by
  rw [values, disableAll] at h
  exact foldlM_set_eq_error h

/-- A path that leads elsewhere reads what it read before. -/
theorem at?_foldl_turnOff_of_apart (h : ∀ e ∈ ds, Apart e.conditionKeys q) (v : Value) :
    (ds.foldl turnOff v).at? q = v.at? q := by
  induction ds generalizing v with
  | nil => rfl
  | cons e ds ih =>
    obtain ⟨he, hrest⟩ := List.forall_mem_cons.mp h
    rw [List.foldl_cons, ih hrest]
    exact at?_putAt_of_apart he v _

/-- What is off stays off, since no other condition stands above it or inside of it. -/
theorem at?_foldl_turnOff_of_off (h : ∀ e ∈ ds, e.conditionKeys = q ∨ Apart e.conditionKeys q)
    (hoff : v.at? q = some (.bool false)) :
    (ds.foldl turnOff v).at? q = some (.bool false) := by
  induction ds generalizing v with
  | nil => exact hoff
  | cons e ds ih =>
    obtain ⟨he, hrest⟩ := List.forall_mem_cons.mp h
    refine ih hrest ?_
    obtain hsame | hapart := he
    · rw [turnOff, hsame]
      exact at?_putAt_self v q _
    · rw [turnOff, at?_putAt_of_apart hapart]
      exact hoff

/-- In the end every dependency is off. -/
theorem at?_foldl_turnOff_of_mem (h : ∀ e' ∈ ds, e'.conditionKeys = e.conditionKeys ∨
    Apart e'.conditionKeys e.conditionKeys) (he : e ∈ ds) (v : Value) :
    (ds.foldl turnOff v).at? e.conditionKeys = some (.bool false) := by
  induction ds generalizing v with
  | nil => exact absurd he List.not_mem_nil
  | cons e' ds ih =>
    obtain ⟨-, hrest⟩ := List.forall_mem_cons.mp h
    rw [List.foldl_cons]
    obtain rfl | he := List.mem_cons.mp he
    · exact at?_foldl_turnOff_of_off hrest (at?_putAt_self v _ _)
    · exact ih hrest he _

/-! ### The list of dependencies -/

/-- The path of the file that lists the dependencies of a chart, and what it says. -/
def dependencyDocument (c : Chart) : String × Value :=
  if c.separateRequirements then
    ("requirements.yaml", .mapping [("dependencies", c.dependencyList)])
  else ("Chart.yaml", c.manifest)

theorem at_dependencyDocument (h : c.dependencies ≠ []) :
    c.dependencyDocument.2.at "dependencies" = c.dependencyList := by
  have hnonempty : c.dependencies.isEmpty = false := by
    rw [List.isEmpty_eq_false_iff]
    exact h
  rw [dependencyDocument]
  cases hseparate : c.separateRequirements with
  | true => rfl
  | false => simp [manifest, hseparate, hnonempty, at_mapping, Assoc.get?_cons]

theorem dependencyDocument_mem_metadataFiles (h : c.dependencies ≠ []) (v : Value) :
    .ofValue c.dependencyDocument.1 c.dependencyDocument.2 ∈ c.metadataFiles v := by
  have hnonempty : c.dependencies.isEmpty = false := by
    rw [List.isEmpty_eq_false_iff]
    exact h
  rw [dependencyDocument]
  cases hseparate : c.separateRequirements with
  | true => simp [metadataFiles, hseparate, hnonempty]
  | false => simp [metadataFiles]

/-- The files of a chart can be made if its values can, and the metadata is among them. -/
theorem exists_files_of_values (h : c.values d rs = .ok v) :
    ∃ fs, c.files d rs = .ok fs ∧ c.metadataFiles v ⊆ fs := by
  refine ⟨_, bind_eq_ok_iff.mpr ⟨v, h, rfl⟩, fun f hf => ?_⟩
  simp [hf]

/-! ### All layers together -/

/-- What the values of a chart are over those that are derived. -/
structure LayeredOver (c : Chart) (derived v : Value) : Prop where
  /-- The conditions of the disabled dependencies are false. -/
  off : ∀ e ∈ c.disabled, v.get? e.conditionPath = some (.bool false)
  /-- All else is the merge of the overrides into what is derived. -/
  merged : ∀ q, c.Spares q → v.at? q = (derived.merge c.overrides).at? q
  /-- A scalar or a list of the overrides wins. -/
  overridden : ∀ q, c.Spares q → ∀ x, c.overrides.at? q = some x → x.isMapping = false →
    v.at? q = some x
  /-- Where the overrides say nothing, nothing is changed. -/
  kept : ∀ q, c.Spares q → c.overrides.SaysNothing q → v.at? q = derived.at? q

theorem layeredOver_of_values (hseparate : c.Separate) (h : c.values d rs = .ok v) :
    c.LayeredOver (derivedValues d rs) v := by
  obtain ⟨-, rfl⟩ := values_eq_ok_iff.mp h
  have hmerged : ∀ q, c.Spares q → (c.disabled.foldl turnOff
      ((derivedValues d rs).merge c.overrides)).at? q =
        ((derivedValues d rs).merge c.overrides).at? q := by
    intro q hq
    exact at?_foldl_turnOff_of_apart hq _
  constructor
  case off =>
    intro e he
    exact at?_foldl_turnOff_of_mem (fun e' he' => hseparate e' he' e he) he _
  case merged => exact hmerged
  case overridden =>
    intro q hq x hx hscalar
    rw [hmerged q hq]
    exact at?_merge_of_some hx hscalar
  case kept =>
    intro q hq hsilent
    rw [hmerged q hq]
    exact at?_merge_of_saysNothing hsilent

/-- The values of a chart are the overrides over what is derived, with the conditions of the
disabled dependencies false, and the chart lists each of these dependencies with its condition. -/
theorem values_layered (hseparate : c.Separate) (h : c.values d rs = .ok v) :
    c.LayeredOver (derivedValues d rs) v ∧
      ∀ (i : Nat) (e : ChartDependency), c.dependencies[i]? = some e → e.enabled = false →
        ∃ (fs : List OutputFile) (entry : Value), c.files d rs = .ok fs ∧
          .ofValue c.dependencyDocument.1 c.dependencyDocument.2 ∈ fs ∧
          (c.dependencyDocument.2.at "dependencies").items[i]? = some entry ∧
          entry.at "name" = .text e.name ∧ entry.at "condition" = .text e.conditionPath := by
  refine ⟨layeredOver_of_values hseparate h, fun i e he hdisabled => ?_⟩
  have hne : c.dependencies ≠ [] := List.ne_nil_of_mem (List.mem_of_getElem? he)
  obtain ⟨fs, hfs, hsub⟩ := exists_files_of_values h
  refine ⟨fs, e.toValue, hfs, hsub (dependencyDocument_mem_metadataFiles hne v), ?_,
    toValue_of_disabled hdisabled⟩
  rw [at_dependencyDocument hne, dependencyList]
  show (c.dependencies.map ChartDependency.toValue)[i]? = some e.toValue
  rw [List.getElem?_map, he, Option.map_some]

/-- A chart with a cache and a queue that are off, where the values of the cache are overridden,
also its condition. -/
theorem values_layered_shop :
    let cache : ChartDependency := ⟨"cache", "1.0.0", "https://charts.example.com", false, none⟩
    let queue : ChartDependency :=
      ⟨"queue", "2.0.0", "https://charts.example.com", false, some "jobs.queue, jobs.all"⟩
    let c := ((named "shop").addDependency cache |>.addDependency queue).withValues
      (.mapping [("cache", .text "large"), ("service", .mapping [("port", .nat 8080)])])
    let d := Definition.app { workload := Workload.named "shop" }
    ∃ rs v, d.records .empty = .ok rs ∧ c.Separate ∧ c.values d rs = .ok v ∧
      v.get? "cache.enabled" = some (.bool false) ∧ v.get? "jobs.queue" = some (.bool false) ∧
      v.get? "service.port" = some (.nat 8080) ∧
      v.get? "replicaCount" = (derivedValues d rs).get? "replicaCount" := by
  intro cache queue c d
  obtain ⟨rs, hrs⟩ : ∃ rs, d.records .empty = .ok rs := ⟨_, rfl⟩
  have hdisabled : c.disabled = [cache, queue] := rfl
  have hcache : cache.conditionKeys = ["cache", "enabled"] := by decide
  have hqueue : queue.conditionKeys = ["jobs", "queue"] := by decide
  have hseparate : c.Separate := by
    have happart : Apart ["cache", "enabled"] ["jobs", "queue"] := by decide
    simp [Separate, hdisabled, hcache, hqueue, happart, happart.symm]
  have hspares : ∀ q, Apart ["cache", "enabled"] q → Apart ["jobs", "queue"] q → c.Spares q := by
    intro q h h'
    simp [Spares, hdisabled, hcache, hqueue, h, h']
  obtain ⟨v, hv⟩ : ∃ v, c.values d rs = .ok v := by
    refine ⟨_, values_eq_ok_iff.mpr ⟨?_, rfl⟩⟩
    simp [hdisabled, hcache, hqueue]
  obtain ⟨hlayered, -⟩ := values_layered hseparate hv
  have hport : pathKeys "service.port" = ["service", "port"] := by decide
  have hcount : pathKeys "replicaCount" = ["replicaCount"] := by decide
  refine ⟨rs, v, hrs, hseparate, hv, hlayered.off cache (by simp [hdisabled]),
    hlayered.off queue (by simp [hdisabled]), ?_, ?_⟩
  · rw [get?, hport]
    exact hlayered.overridden _ (hspares _ (by decide) (by decide)) _ rfl rfl
  · rw [get?, get?, hcount]
    refine hlayered.kept _ (hspares _ (by decide) (by decide)) ⟨rfl, fun p hp x hx => ?_⟩
    obtain rfl | rfl : p = [] ∨ p = ["replicaCount"] := by
      simpa [List.prefix_cons_iff] using hp
    · obtain rfl := Option.some.inj hx
      rfl
    · exact absurd hx.symm (Option.some_ne_none x)

end Chart

end Rollout
