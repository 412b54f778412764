import Rollout.Command.Run
import Rollout.Proofs.Project.Settings
import Rollout.Proofs.Rendering.Failure

/-!
# Commands that fail

What a command writes before it fails stays. The command that renders checks what it is asked for,
the records and the settings before it writes the first file, so that afterwards hardly anything
but a file can make it fail. The chart is what is left: the conditions of its disabled dependencies
are looked at no earlier than when it is rendered.
-/

namespace Rollout

/-- An error for the reason that files cannot be read or written. -/
def CommandError.isOfFiles : CommandError → Bool
  | project .inaccessible => true
  | project (.failed failure) | rendering failure => failure.isOfFiles
  | _ => false

/-! ### Steps of commands -/

namespace Running

variable {α : Type} {st st' : Session} {e : CommandError} {a : α}

theorem ends_orFail_iff {x : Except ProjectError α} :
    Ends (orFail x) st a st' ↔ x = .ok a ∧ st = st' := by
  cases x with
  | ok b =>
    rw [orFail, ends_pure_iff]
    exact and_congr_left' ⟨congrArg Except.ok, Except.ok.inj⟩
  | error e => exact iff_of_false not_ends_throw fun h => absurd h.1 nofun

theorem eq_of_fails_orFail {x : Except ProjectError α} (h : Fails (orFail x) st e st') :
    (∃ error, e = .project error) ∧ st = st' := by
  cases x with
  | ok b => exact absurd h not_fails_pure
  | error error =>
    obtain ⟨rfl, rfl⟩ := fails_throw_iff.mp h
    exact ⟨⟨error, rfl⟩, rfl⟩

theorem ends_orFailure_iff {x : Except Failure α} :
    Ends (orFailure x) st a st' ↔ x = .ok a ∧ st = st' := by
  rw [orFailure, ends_orFail_iff, mapError_eq_ok_iff]

theorem eq_of_fails_load {file : String} (h : Fails (load file) st e st') : st = st' := by
  unfold load at h
  rw [fails_get_bind_iff] at h
  exact (eq_of_fails_orFail h).2

theorem ends_load_iff {file : String} {p : Project} :
    Ends (load file) st p st' ↔ Project.load st.tree file = .ok p ∧ st = st' := by
  unfold load
  rw [ends_get_bind_iff, ends_orFail_iff]

theorem not_fails_line {s : String} : ¬ Fails (line s) st e st' := fun h =>
  absurd (congrArg Prod.fst h) nofun

theorem tree_of_ends_line {s : String} {u : Unit} (h : Ends (line s) st u st') :
    st'.tree = st.tree := by
  obtain rfl := (Prod.mk.inj h).2
  rfl

theorem ends_rendering_iff {x : Rendering α} :
    Ends (rendering x) st a st' ↔
      ∃ after, Ends x { tree := st.tree } a after ∧ st' = { st with tree := after.tree } := by
  unfold rendering
  rw [ends_get_bind_iff]
  unfold Ends
  rcases hx : x.run.run { tree := st.tree } with ⟨result, after⟩
  cases result with
  | ok b =>
    constructor
    · intro h
      obtain ⟨hb, rfl⟩ := Prod.mk.inj h
      obtain rfl := Except.ok.inj hb
      exact ⟨after, rfl, rfl⟩
    · rintro ⟨after', h, rfl⟩
      obtain ⟨hb, rfl⟩ := Prod.mk.inj h
      obtain rfl := Except.ok.inj hb
      rfl
  | error e =>
    constructor
    · intro h
      exact absurd (congrArg Prod.fst h) nofun
    · rintro ⟨after', h, -⟩
      exact absurd (congrArg Prod.fst h) nofun

theorem fails_rendering_iff {x : Rendering α} :
    Fails (rendering x) st e st' ↔ ∃ failure after, Fails x { tree := st.tree } failure after ∧
      e = .rendering failure ∧ st' = { st with tree := after.tree } := by
  unfold rendering
  rw [fails_get_bind_iff]
  unfold Fails
  rcases hx : x.run.run { tree := st.tree } with ⟨result, after⟩
  cases result with
  | ok b =>
    constructor
    · intro h
      exact absurd (congrArg Prod.fst h) nofun
    · rintro ⟨failure, after', h, -⟩
      exact absurd (congrArg Prod.fst h) nofun
  | error failure =>
    constructor
    · intro h
      obtain ⟨he, rfl⟩ := Prod.mk.inj h
      exact ⟨failure, after, rfl, (Except.error.inj he).symm, rfl⟩
    · rintro ⟨failure', after', h, rfl, rfl⟩
      obtain ⟨he, rfl⟩ := Prod.mk.inj h
      obtain rfl := Except.error.inj he
      rfl

end Running

/-- Of the formats of a project the chart comes after another one, and it cannot be rendered: the
condition of a dependency that the file turns off has an empty key. -/
structure Project.FailsLate (p : Project) (fs : List Format) (x : ChartDependency) : Prop where
  listed : x ∈ p.file.chart.dependencies
  disabled : x.enabled = false
  empty : "" ∈ x.conditionKeys
  late : ∃ before after, fs = before ++ .helm :: after ∧ .helm ∉ before ∧
    ∃ f ∈ before, p.definition.supports f = true

namespace Command

open Running

variable {file output : String} {asked overrides : List String} {single : Bool} {st st' : Session}
  {e : CommandError}

/-- Telling what was rendered does not fail. -/
theorem not_fails_told {fs : List Format} {told : Format → List String} {rest : Running Unit}
    (hrest : ∀ {st : Session}, ¬ Fails rest st e st') : ¬ Fails (do
      for f in fs do
        for s in told f do
          line s
      rest) st e st' := by
  intro h
  obtain hloop | ⟨_, _, -, h⟩ := fails_bind_iff.mp h
  · obtain ⟨f, -, _, _, hturn⟩ := exists_of_fails_forIn hloop
    obtain hloop | ⟨_, _, -, hpure⟩ := fails_bind_iff.mp hturn
    · obtain ⟨s, -, _, _, hturn⟩ := exists_of_fails_forIn hloop
      obtain hline | ⟨_, _, -, hpure⟩ := fails_bind_iff.mp hturn
      · exact not_fails_line hline
      · exact not_fails_pure hpure
    · exact not_fails_pure hpure
  · exact hrest h

/-- What is rendered of a project fails for no file only because of its chart. -/
theorem failsLate_of_fails_all {p : Project} {fs : List Format} {s : RenderSettings}
    {rs : List Record} {tree : FileTree} {failure : Failure} {after : RenderState}
    (hfs : p.formats asked = .ok fs) (hsettings : p.settings rs overrides single = .ok s)
    (h : Fails (do
      let _ ← Rendering.records p.definition
      Rendering.all p.definition s output fs) { tree } failure after)
    (he : failure.isOfFiles = false) :
    after.tree = tree ∨ ∃ x, p.FailsLate fs x ∧
      failure = .override (.emptySegment x.conditionPath) := by
  obtain hrecords | ⟨rs', next, hrecords, hall⟩ := fails_bind_iff.mp h
  · obtain ⟨-, rfl⟩ := Rendering.fails_records_iff.mp hrecords
    exact .inl rfl
  · obtain ⟨-, rfl⟩ := Rendering.ends_records_iff.mp hrecords
    have hsome : fs.isEmpty = false := List.isEmpty_eq_false_iff.mpr (Project.ne_nil_of_formats hfs)
    rw [Rendering.all, hsome] at hall
    obtain ⟨⟨x, hx, hempty, rfl⟩, before, rest, hsplit, hbefore, hwritten⟩ :=
      Rendering.chart_of_fails_each hall he
    obtain ⟨c, hc, hdependencies⟩ := Project.chart_of_settings hsettings
    rw [hc, Option.getD_some, Chart.disabled, hdependencies] at hx
    obtain ⟨hlisted, hdisabled⟩ := List.mem_filter.mp hx
    obtain hother | htree := hwritten
    · refine .inr ⟨x, ⟨hlisted, Bool.not_eq_true' _ |>.mp hdisabled, hempty, ?_⟩, rfl⟩
      exact ⟨before, rest, hsplit, hbefore, hother⟩
    · exact .inl htree

/-- The command that renders leaves all files as they were when it fails for another reason than a
file, whatever is in the definition file and in the arguments. The one exception is a disabled
dependency of the chart whose condition has an empty key, if another format is rendered before. -/
theorem tree_of_fails_runRender (h : Fails (runRender file output asked overrides single) st e st')
    (he : e.isOfFiles = false) :
    st'.tree = st.tree ∨ ∃ p fs x, Project.load st.tree file = .ok p ∧ p.formats asked = .ok fs ∧
      p.FailsLate fs x ∧ e = .rendering (.override (.emptySegment x.conditionPath)) := by
  unfold runRender at h
  obtain h | ⟨p, _, hload, h⟩ := fails_bind_iff.mp h
  · obtain rfl := eq_of_fails_load h
    exact .inl rfl
  obtain ⟨hp, rfl⟩ := ends_load_iff.mp hload
  obtain h | ⟨fs, _, hformats, h⟩ := fails_bind_iff.mp h
  · obtain ⟨-, rfl⟩ := eq_of_fails_orFail h
    exact .inl rfl
  obtain ⟨hfs, rfl⟩ := ends_orFailure_iff.mp hformats
  obtain h | ⟨_, printed, hline, h⟩ := fails_bind_iff.mp h
  · exact absurd h not_fails_line
  rw [← tree_of_ends_line hline] at hp ⊢
  obtain h | ⟨rs, _, hrecords, h⟩ := fails_bind_iff.mp h
  · obtain ⟨failure, after, hfails, rfl, rfl⟩ := fails_rendering_iff.mp h
    obtain ⟨-, rfl⟩ := Rendering.fails_records_iff.mp hfails
    exact .inl rfl
  obtain ⟨after, hmade, rfl⟩ := ends_rendering_iff.mp hrecords
  obtain ⟨-, rfl⟩ := Rendering.ends_records_iff.mp hmade
  obtain h | ⟨s, _, hsettings, h⟩ := fails_bind_iff.mp h
  · obtain ⟨-, rfl⟩ := eq_of_fails_orFail h
    exact .inl rfl
  obtain ⟨hs, rfl⟩ := ends_orFailure_iff.mp hsettings
  obtain h | ⟨_, _, -, h⟩ := fails_bind_iff.mp h
  · obtain ⟨failure, after, hfails, rfl, rfl⟩ := fails_rendering_iff.mp h
    obtain htree | ⟨x, hlate, rfl⟩ := failsLate_of_fails_all hfs hs hfails he
    · exact .inl htree
    · exact .inr ⟨p, fs, x, hp, hfs, hlate, rfl⟩
  · refine absurd h (not_fails_told fun h => ?_)
    obtain hline | ⟨_, _, -, h⟩ := fails_bind_iff.mp h
    · exact not_fails_line hline
    · exact not_fails_line h

/-- In that case the command never succeeds. -/
theorem not_ends_runRender {p : Project} {fs : List Format} {x : ChartDependency} {u : Unit}
    (hp : Project.load st.tree file = .ok p) (hfs : p.formats asked = .ok fs)
    (hlate : p.FailsLate fs x) :
    ¬ Ends (runRender file output asked overrides single) st u st' := by
  intro h
  unfold runRender at h
  obtain ⟨p', _, hload, h⟩ := ends_bind_iff.mp h
  obtain ⟨hp', rfl⟩ := ends_load_iff.mp hload
  obtain rfl := Except.ok.inj (hp.symm.trans hp')
  obtain ⟨fs', _, hformats, h⟩ := ends_bind_iff.mp h
  obtain ⟨hfs', rfl⟩ := ends_orFailure_iff.mp hformats
  obtain rfl := Except.ok.inj (hfs.symm.trans hfs')
  obtain ⟨_, _, -, h⟩ := ends_bind_iff.mp h
  obtain ⟨rs, _, -, h⟩ := ends_bind_iff.mp h
  obtain ⟨s, _, hsettings, h⟩ := ends_bind_iff.mp h
  obtain ⟨hs, rfl⟩ := ends_orFailure_iff.mp hsettings
  obtain ⟨_, _, hrendering, -⟩ := ends_bind_iff.mp h
  obtain ⟨after, hrendered, -⟩ := ends_rendering_iff.mp hrendering
  obtain ⟨_, next, -, hall⟩ := ends_bind_iff.mp hrendered
  obtain ⟨before, rest, rfl, -, -⟩ := hlate.late
  have hhelm : .helm ∈ before ++ .helm :: rest := List.mem_append_right before List.mem_cons_self
  have hsome : (before ++ .helm :: rest).isEmpty = false :=
    List.isEmpty_eq_false_iff.mpr (List.ne_nil_of_mem hhelm)
  rw [Rendering.all, hsome] at hall
  obtain ⟨c, hc, hdependencies⟩ := Project.chart_of_settings hs
  have hx : x ∈ (s.chart.getD (.ofDefinition p.definition)).disabled := by
    rw [hc, Option.getD_some, Chart.disabled, hdependencies]
    exact List.mem_filter.mpr ⟨hlate.listed, by simp [hlate.disabled]⟩
  exact Rendering.settable_of_ends_each hall hhelm x hx hlate.empty

/-- Commands run in a directory that holds nothing but a definition file. -/
def sessionOf (text : String) : Session :=
  { tree := ⟨[(["deckhand.yaml"], .file (Bytes.ofText text))]⟩
    outcome := Session.plainOutcomes
    manifests := "manifests" }

/-- An override that leaves out a key is refused before any file is written. -/
theorem tree_of_fails_runRender_web :
    let st := sessionOf "name: web\nbuilders:\n- type: Namespace\n  name: web\n"
    ∃ e st', Fails (runRender "deckhand.yaml" "dist" ["k8s", "helm"] ["a..b=1"] false) st e st' ∧
      e.isOfFiles = false ∧ st'.tree = st.tree := by
  intro st
  obtain ⟨e, st', hfails, hcheck⟩ := exists_fails_of_check (s := st)
    (x := runRender "deckhand.yaml" "dist" ["k8s", "helm"] ["a..b=1"] false)
    (q := fun e _ => !e.isOfFiles && e.exitCode == 3) (by decide +kernel)
  obtain ⟨hfiles, hcode⟩ := Bool.and_eq_true_iff.mp hcheck
  have he : e.isOfFiles = false := Bool.not_eq_true' _ |>.mp hfiles
  have hcode : e.exitCode = 3 := beq_iff_eq.mp hcode
  refine ⟨e, st', hfails, he, ?_⟩
  obtain htree | ⟨p, fs, x, -, -, -, rfl⟩ := tree_of_fails_runRender hfails he
  · exact htree
  · have hcode : 4 = 3 := hcode
    exact absurd hcode (by decide)

/-- The chart of a project turns a dependency off whose condition is empty. The manifests have been
written when that fails. -/
theorem manifests_left_behind :
    let st := sessionOf <| "name: web\nchart:\n  dependencies:\n  - name: cache\n" ++
      "    version: 1.0.0\n    repository: local\n    enabled: false\n    condition: ''\n" ++
      "builders:\n- type: Namespace\n  name: web\n"
    ∃ e st', Fails (runRender "deckhand.yaml" "dist" ["k8s", "helm"] [] false) st e st' ∧
      e.isOfFiles = false ∧ st.tree.pathExists "dist" = false ∧
      st'.tree.pathExists "dist/k8s/namespace-web.yaml" = true := by
  intro st
  obtain ⟨e, st', hfails, hcheck⟩ := exists_fails_of_check (s := st)
    (x := runRender "deckhand.yaml" "dist" ["k8s", "helm"] [] false)
    (q := fun e st' => !e.isOfFiles && st'.tree.pathExists "dist/k8s/namespace-web.yaml")
    (by decide +kernel)
  obtain ⟨hfiles, hwritten⟩ := Bool.and_eq_true_iff.mp hcheck
  exact ⟨e, st', hfails, Bool.not_eq_true' _ |>.mp hfiles, by decide +kernel, hwritten⟩

end Command

end Rollout
