import Rollout.Proofs.Chart.Values
import Rollout.Proofs.Rendering.Run

/-!
# Where rendering fails

Files that cannot be read or written make rendering fail at any step. Beyond that, only a chart
cannot be rendered: a disabled dependency whose condition has an empty key cannot be turned off.
That shows when it is the chart's turn, after the formats before it have been written.
-/

namespace Rollout

/-- A failure to read or to write files. -/
def Failure.isOfFiles : Failure → Bool
  | source _ | unwritable .. => true
  | _ => false

/-- No dependency of the chart that a definition implies is disabled. -/
theorem Chart.disabled_ofDefinition (d : Definition) : (ofDefinition d).disabled = [] := by
  unfold ofDefinition
  split <;> rfl

/-! ### Writing -/

namespace Writing

variable {dir : String} {fs : List OutputFile} {tree other : FileTree} {e : Failure}

theorem isOfFiles_of_fails_file {f : OutputFile} (h : Fails (file dir f) tree e other) :
    e.isOfFiles = true := by
  unfold file at h
  rw [fails_get_bind_iff] at h
  split at h
  · exact absurd h not_fails_set
  · obtain ⟨rfl, -⟩ := fails_throw_iff.mp h
    rfl

theorem isOfFiles_of_fails (h : Fails (files dir fs) tree e other) : e.isOfFiles = true := by
  unfold files at h
  obtain hloop | ⟨_, _, -, hpure⟩ := fails_bind_iff.mp h
  · obtain ⟨f, -, _, _, hturn⟩ := exists_of_fails_forIn hloop
    obtain hfile | ⟨_, _, -, hpure⟩ := fails_bind_iff.mp hturn
    · exact isOfFiles_of_fails_file hfile
    · exact absurd hpure not_fails_pure
  · exact absurd hpure not_fails_pure

end Writing

namespace Rendering

variable {d : Definition} {s : RenderSettings} {dir : String} {st st' : RenderState} {f : Format}
  {fs : List OutputFile} {e : Failure}

theorem fails_liftExcept_iff {α : Type} {x : Except Failure α} :
    Fails (written.liftExcept x) st e st' ↔ x = .error e ∧ st = st' := by
  cases x with
  | ok a => exact iff_of_false not_fails_pure fun h => absurd h.1 nofun
  | error e' =>
    rw [written.liftExcept, fails_throw_iff]
    exact and_congr_left' ⟨congrArg Except.error, Except.error.inj⟩

theorem isOfFiles_of_fails_written (h : Fails (written dir fs) st e st') :
    e.isOfFiles = true := by
  unfold written at h
  rw [fails_get_bind_iff] at h
  rcases hrun : (Writing.files dir fs).run.run st.tree with ⟨result, tree⟩
  rw [hrun] at h
  obtain hset | ⟨_, middle, -, hlift⟩ := fails_bind_iff.mp h
  · exact absurd hset not_fails_set
  · obtain ⟨rfl, -⟩ := fails_liftExcept_iff.mp hlift
    exact Writing.isOfFiles_of_fails hrun

/-- Records that are not given cannot be read from files. -/
theorem isOfFiles_of_given (h : given d st = .error e) : e.isOfFiles = true := by
  unfold given at h
  split at h
  · exact absurd h nofun
  · obtain ⟨error, -, rfl⟩ := mapError_eq_error_iff.mp h
    rfl

theorem fails_records_iff :
    Fails (records d) st e st' ↔ given d st = .error e ∧ st = st' := by
  unfold records given
  rw [fails_get_bind_iff]
  cases hkept : st.records with
  | some kept => exact iff_of_false not_fails_pure fun h => absurd h.1 nofun
  | none =>
    cases hmade : d.records st.tree with
    | ok made =>
      refine iff_of_false (fun h => ?_) fun h => absurd h.1 nofun
      obtain hset | ⟨_, _, -, hpure⟩ := fails_bind_iff.mp h
      · exact absurd hset not_fails_set
      · exact absurd hpure not_fails_pure
    | error error =>
      exact fails_throw_iff.trans (and_congr_left' ⟨congrArg Except.error, Except.error.inj⟩)

/-! ### One format -/

/-- A format fails before it writes anything, as its files cannot be made, or else for the files. -/
theorem output_of_fails_format (h : Fails (format d s dir f) st e st')
    (he : e.isOfFiles = false) :
    output d s dir (given d st) st.tree f = .error e ∧ st'.tree = st.tree := by
  by_cases hf : f = .compose
  · subst hf
    rw [format_compose, fails_get_bind_iff] at h
    obtain hlift | ⟨fs, _, -, hwritten⟩ := fails_bind_iff.mp h
    · obtain ⟨hfiles, rfl⟩ := fails_liftExcept_iff.mp hlift
      exact ⟨hfiles, rfl⟩
    · exact absurd (isOfFiles_of_fails_written hwritten) (by simp [he])
  · rw [format_eq_render hf] at h
    rw [output_eq_render hf]
    obtain hrecords | ⟨rs, _, hrecords, h⟩ := fails_bind_iff.mp h
    · obtain ⟨hgiven, rfl⟩ := fails_records_iff.mp hrecords
      exact ⟨bind_eq_error_iff.mpr (.inl hgiven), rfl⟩
    · obtain ⟨hgiven, rfl⟩ := ends_records_iff.mp hrecords
      obtain hlift | ⟨fs, _, -, hwritten⟩ := fails_bind_iff.mp h
      · obtain ⟨hfiles, rfl⟩ := fails_liftExcept_iff.mp hlift
        exact ⟨bind_eq_error_iff.mpr (.inr ⟨rs, hgiven, hfiles⟩), rfl⟩
      · exact absurd (isOfFiles_of_fails_written hwritten) (by simp [he])

/-- Compose makes its files of a definition that runs something, unless a source cannot be read. -/
theorem isOfFiles_of_compose {o : ComposeOptions} {tree : FileTree}
    (hsupports : d.supports .compose = true) (h : Compose.files o tree d = .error e) :
    e.isOfFiles = true := by
  have hruns : d.workloads.isEmpty = false := Bool.not_eq_true' _ |>.mp hsupports
  rw [Compose.files, map_eq_error_iff, Compose.project] at h
  rw [hruns, if_neg Bool.false_ne_true] at h
  obtain hsource | ⟨ds, -, hok⟩ := bind_eq_error_iff.mp h
  · obtain ⟨error, -, rfl⟩ := mapError_eq_error_iff.mp hsource
    rfl
  · cases hok

/-- The failure to turn a dependency off whose condition has an empty key. -/
def Unsettable (x : ChartDependency) (e : Failure) : Prop :=
  "" ∈ x.conditionKeys ∧ e = .override (.emptySegment x.conditionPath)

/-- Only the files of a chart can fail to be made where all sources can be read. -/
theorem chart_of_output (hsupports : d.supports f = true) {rs : Except Failure (List Record)}
    (hrs : ∀ e', rs = .error e' → e'.isOfFiles = true) {tree : FileTree}
    (h : output d s dir rs tree f = .error e) (he : e.isOfFiles = false) :
    f = .helm ∧ ∃ x ∈ (s.chart.getD (.ofDefinition d)).disabled, Unsettable x e := by
  have hgiven : rs ≠ .error e := fun hrs' => absurd (hrs e hrs') (by simp [he])
  cases f with
  | compose => exact absurd (isOfFiles_of_compose hsupports h) (by simp [he])
  | helm =>
    obtain hfails | ⟨records, -, htree⟩ := bind_eq_error_iff.mp h
    · exact absurd hfails hgiven
    · rw [Chart.treeFiles, map_eq_error_iff, Chart.files] at htree
      obtain hvalues | ⟨v, -, hok⟩ := bind_eq_error_iff.mp htree
      · exact ⟨rfl, Chart.values_eq_error hvalues⟩
      · cases hok
  | kubernetes | kustomize | terraform => exact absurd (map_eq_error_iff.mp h) hgiven

/-! ### Several formats -/

/-- What is left of the settings for later formats has the same chart, unless that was rendered. -/
theorem chart_leftAfter (hf : f ≠ .helm) (s : RenderSettings) : (leftAfter s f).chart = s.chart := by
  cases f with
  | helm => exact absurd rfl hf
  | kubernetes | compose | kustomize | terraform => rfl

/-- A run of formats fails for no file only at its first chart. If nothing is rendered before that,
nothing is written. -/
theorem chart_of_fails_each {formats : List Format} (h : Fails (each d dir s formats) st e st')
    (he : e.isOfFiles = false) :
    (∃ x ∈ (s.chart.getD (.ofDefinition d)).disabled, Unsettable x e) ∧
      ∃ before after, formats = before ++ .helm :: after ∧ .helm ∉ before ∧
        ((∃ g ∈ before, d.supports g = true) ∨ st'.tree = st.tree) := by
  induction formats generalizing s st with
  | nil => exact absurd h not_fails_pure
  | cons f formats ih =>
    rw [each] at h
    split at h
    · rename_i hsupports
      obtain hformat | ⟨paths, next, -, hrest⟩ := fails_bind_iff.mp h
      · obtain ⟨houtput, htree⟩ := output_of_fails_format hformat he
        obtain ⟨rfl, hx⟩ := chart_of_output hsupports (fun _ => isOfFiles_of_given) houtput he
        exact ⟨hx, [], formats, rfl, List.not_mem_nil, .inr htree⟩
      · obtain ⟨⟨x, hx, hset⟩, before, after, rfl, hbefore, -⟩ := ih hrest
        by_cases hf : f = .helm
        · subst hf
          rw [leftAfter, Option.getD_none, Chart.disabled_ofDefinition] at hx
          exact absurd hx List.not_mem_nil
        · rw [chart_leftAfter hf] at hx
          refine ⟨⟨x, hx, hset⟩, f :: before, after, rfl, ?_, .inl ⟨f, List.mem_cons_self, hsupports⟩⟩
          exact List.not_mem_cons_of_ne_of_not_mem (Ne.symm hf) hbefore
    · rename_i hsupports
      have hf : f ≠ .helm := fun hf => hsupports (hf ▸ rfl)
      obtain ⟨hx, before, after, rfl, hbefore, hwritten⟩ := ih h
      refine ⟨hx, f :: before, after, rfl, ?_, hwritten.imp_left ?_⟩
      · exact List.not_mem_cons_of_ne_of_not_mem (Ne.symm hf) hbefore
      · exact fun ⟨g, hg, hsupported⟩ => ⟨g, List.mem_cons_of_mem f hg, hsupported⟩

/-- A run with a chart in it does not succeed unless all disabled dependencies can be turned off. -/
theorem settable_of_ends_each {formats : List Format} {u : Unit}
    (h : Ends (each d dir s formats) st u st') (hhelm : .helm ∈ formats) :
    ∀ x ∈ (s.chart.getD (.ofDefinition d)).disabled, "" ∉ x.conditionKeys := by
  induction formats generalizing s st with
  | nil => exact absurd hhelm List.not_mem_nil
  | cons f formats ih =>
    by_cases hf : f = .helm
    · subst hf
      have hsupports : d.supports .helm = true := rfl
      rw [each, if_pos hsupports] at h
      obtain ⟨paths, next, hformat, -⟩ := ends_bind_iff.mp h
      obtain ⟨fs, houtput, -⟩ := (renders_of_ends hformat).tree
      obtain ⟨rs, -, htree⟩ := bind_eq_ok_iff.mp houtput
      obtain ⟨fs, hfiles, -⟩ := map_eq_ok_iff.mp htree
      obtain ⟨v, hvalues, -⟩ := bind_eq_ok_iff.mp hfiles
      exact (Chart.values_eq_ok_iff.mp hvalues).1
    · have hrest : .helm ∈ formats := List.mem_of_ne_of_mem (Ne.symm hf) hhelm
      rw [each] at h
      split at h
      · obtain ⟨paths, next, -, h⟩ := ends_bind_iff.mp h
        rw [← chart_leftAfter hf s]
        exact ih h hrest
      · exact ih h hrest

end Rendering

end Rollout
