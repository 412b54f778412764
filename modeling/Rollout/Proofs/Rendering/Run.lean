import Rollout.Proofs.Definition.Source
import Rollout.Proofs.Rendering.Area

/-!
# Runs of formats

Rendering several formats writes the files of each below the output directory, one format after
the other. As long as no data source reads what the formats write, all of them render the same
records from the same data, so that a run is told by lists of files that are known beforehand.
-/

namespace Rollout

open FileTree (Edits Inside visited steps)
open OutputFile (AllTidy store base)

namespace OutputFile

variable {dir : String} {fs : List OutputFile} {tree other : FileTree}

theorem store_append (dir : String) (tree : FileTree) (fs gs : List OutputFile) :
    store dir tree (fs ++ gs) = (store dir tree fs >>= fun tree => store dir tree gs) :=
  List.foldlM_append

/-- Whether or not the directory was there, files are put only inside of it, and directories are
made only on the way to it. -/
theorem edits_of_store (hfs : AllTidy fs) (h : store dir tree fs = .ok other) :
    Edits (Inside (base dir)) (· ∈ visited [] (steps dir)) tree other := by
  cases fs with
  | nil =>
    obtain rfl := Except.ok.inj h
    exact .refl
  | cons f fs =>
    have hf : Tidy f.path := hfs f List.mem_cons_self
    have hfail : ∀ e, ¬ (Text.startsWith dir "/" = true ∨
        tree.makeSteps [] (steps dir) = .error e) := by
      intro e he
      obtain ⟨_, hfailure⟩ := store_cons_of_error hf fs he
      exact absurd (h.symm.trans hfailure) nofun
    have hdir : Text.startsWith dir "/" = false :=
      Bool.eq_false_iff.mpr fun habsolute => hfail .notFound (.inl habsolute)
    cases hmake : tree.makeSteps [] (steps dir) with
    | error e => exact absurd (.inr hmake) (hfail e)
    | ok made =>
      have hmakes := FileTree.makes_of_makeSteps (.nil tree) hmake
      obtain ⟨hmade, hsame⟩ := store_cons_of_makeSteps hf hdir hmake fs
      obtain ⟨-, hedits, -⟩ := of_store hdir hfs hmade (hsame ▸ h)
      refine (hmakes.edits.mono (fun _ => False.elim) fun q hq => .inr hq).trans ?_
      refine hedits.mono (fun _ => id) fun q hq => .inr ?_
      exact hq ▸ FileTree.reach_mem_visited [] (steps dir)

end OutputFile

/-- No data source reads below a directory, and none is led there or through what has to be made
on the way there. -/
def Definition.ReadsElsewhere (d : Definition) (dir : String) (tree : FileTree) : Prop :=
  ∀ s ∈ d.sources, ∀ path, s.path? = some path →
    tree.Avoids (Inside (base dir)) (· ∈ visited [] (steps dir)) path

namespace Rendering

/-! ### One format -/

/-- The records that are rendered from a state: those that are kept, or else those that the files
give. -/
def given (d : Definition) (st : RenderState) : Except Failure (List Record) :=
  match st.records with
  | some rs => .ok rs
  | none => (d.records st.tree).mapError .source

section Format

variable {d : Definition} {s : RenderSettings} {dir : String} {st st' : RenderState} {f : Format}
  {fs : List OutputFile} {paths : List String}

theorem ends_liftExcept_iff {α : Type} {x : Except Failure α} {a : α} :
    Ends (written.liftExcept x) st a st' ↔ x = .ok a ∧ st = st' := by
  cases x with
  | ok b =>
    rw [written.liftExcept, ends_pure_iff]
    exact and_congr_left' ⟨congrArg Except.ok, Except.ok.inj⟩
  | error e => exact iff_of_false not_ends_throw fun h => absurd h.1 nofun

theorem ends_records_iff {rs : List Record} :
    Ends (records d) st rs st' ↔ given d st = .ok rs ∧ st' = { st with records := some rs } := by
  unfold records given
  rw [ends_bind_iff]
  constructor
  · rintro ⟨_, _, hget, h⟩
    obtain ⟨rfl, rfl⟩ := ends_get_iff.mp hget
    cases hkept : st.records with
    | some kept =>
      rw [hkept] at h
      obtain ⟨rfl, rfl⟩ := ends_pure_iff.mp h
      exact ⟨rfl, by rw [← hkept]⟩
    | none =>
      rw [hkept] at h
      cases hmade : d.records st.tree with
      | error e =>
        rw [hmade] at h
        exact absurd h not_ends_throw
      | ok made =>
        rw [hmade] at h
        obtain ⟨_, _, hset, h⟩ := ends_bind_iff.mp h
        obtain rfl := ends_set_iff.mp hset
        obtain ⟨rfl, rfl⟩ := ends_pure_iff.mp h
        exact ⟨rfl, rfl⟩
  · rintro ⟨h, rfl⟩
    refine ⟨st, st, ends_get_iff.mpr ⟨rfl, rfl⟩, ?_⟩
    cases hkept : st.records with
    | some kept =>
      rw [hkept] at h
      obtain rfl := Except.ok.inj h
      exact ends_pure_iff.mpr ⟨rfl, by rw [← hkept]⟩
    | none =>
      rw [hkept, mapError_eq_ok_iff] at h
      rw [h]
      exact ends_bind_iff.mpr ⟨PUnit.unit, _, ends_set_iff.mpr rfl, ends_pure_iff.mpr ⟨rfl, rfl⟩⟩

theorem ends_written_iff :
    Ends (written dir fs) st paths st' ↔ paths = fs.map (·.path) ∧
      ∃ tree, store dir st.tree fs = .ok tree ∧ st' = { st with tree } := by
  unfold written
  rw [ends_bind_iff]
  rcases hrun : (Writing.files dir fs).run.run st.tree with ⟨result, tree⟩
  constructor
  · rintro ⟨_, _, hget, h⟩
    obtain ⟨rfl, rfl⟩ := ends_get_iff.mp hget
    rw [hrun] at h
    obtain ⟨_, _, hset, h⟩ := ends_bind_iff.mp h
    obtain rfl := ends_set_iff.mp hset
    obtain ⟨rfl, rfl⟩ := ends_liftExcept_iff.mp h
    obtain ⟨hpaths, hstore⟩ := Writing.ends_files_iff.mp hrun
    exact ⟨hpaths, tree, hstore, rfl⟩
  · rintro ⟨hpaths, written, hstore, rfl⟩
    have hends := Writing.ends_files_iff.mpr ⟨hpaths, hstore⟩
    obtain ⟨rfl, rfl⟩ := Prod.mk.inj (hrun.symm.trans hends)
    refine ⟨st, st, ends_get_iff.mpr ⟨rfl, rfl⟩, ?_⟩
    rw [hrun]
    refine ends_bind_iff.mpr ⟨PUnit.unit, _, ends_set_iff.mpr rfl, ?_⟩
    exact ends_liftExcept_iff.mpr ⟨rfl, rfl⟩

/-- What rendering one format does to a state: it writes the files of the format, and keeps the
records if it needs them. -/
structure Renders (d : Definition) (s : RenderSettings) (dir : String) (f : Format)
    (st st' : RenderState) : Prop where
  tree : ∃ fs, output d s dir (given d st) st.tree f = .ok fs ∧
    store (directory dir f) st.tree fs = .ok st'.tree
  records : st'.records = st.records ∨ ∃ rs, given d st = .ok rs ∧ st'.records = some rs

/-- Files that are made from the records. -/
theorem renders_of_records {g : List Record → Except Failure (List OutputFile)}
    (houtput : ∀ rs, output d s dir rs st.tree f = rs >>= g)
    (h : Ends (records d >>= fun rs => written.liftExcept (g rs) >>= written (directory dir f))
      st paths st') : Renders d s dir f st st' := by
  obtain ⟨rs, _, hrecords, h⟩ := ends_bind_iff.mp h
  obtain ⟨hgiven, rfl⟩ := ends_records_iff.mp hrecords
  obtain ⟨fs, _, hlift, h⟩ := ends_bind_iff.mp h
  obtain ⟨hfiles, rfl⟩ := ends_liftExcept_iff.mp hlift
  obtain ⟨-, tree, hstore, rfl⟩ := ends_written_iff.mp h
  refine ⟨⟨fs, ?_, hstore⟩, .inr ⟨rs, hgiven, rfl⟩⟩
  rw [houtput, hgiven]
  exact hfiles

theorem ends_of_records {g : List Record → Except Failure (List OutputFile)} {tree : FileTree}
    (houtput : ∀ rs, output d s dir rs st.tree f = rs >>= g)
    (h : output d s dir (given d st) st.tree f = .ok fs)
    (hstore : store (directory dir f) st.tree fs = .ok tree) :
    ∃ paths st', Ends
      (records d >>= fun rs => written.liftExcept (g rs) >>= written (directory dir f))
      st paths st' ∧ st'.tree = tree := by
  rw [houtput] at h
  obtain ⟨rs, hgiven, hfiles⟩ := bind_eq_ok_iff.mp h
  refine ⟨fs.map (·.path), ⟨tree, some rs⟩, ?_, rfl⟩
  refine ends_bind_iff.mpr ⟨rs, _, ends_records_iff.mpr ⟨hgiven, rfl⟩, ?_⟩
  refine ends_bind_iff.mpr ⟨fs, _, ends_liftExcept_iff.mpr ⟨hfiles, rfl⟩, ?_⟩
  exact ends_written_iff.mpr ⟨rfl, tree, hstore, rfl⟩

/-- What a format makes of the records. Compose makes nothing of them. -/
def render (d : Definition) (s : RenderSettings) (dir : String) :
    Format → List Record → Except Failure (List OutputFile)
  | .kubernetes, rs => .ok (Manifest.files s.manifests rs)
  | .compose, _ => .ok []
  | .helm, rs => (s.chart.getD (.ofDefinition d)).treeFiles d rs
  | .kustomize, rs => .ok (Kustomize.files s.base s.overlays rs)
  | .terraform, rs => .ok (Terraform.files (s.terraform.withDefaultNamespace d.ns) d.name
      (directoryName (directory dir .terraform)) rs)

theorem output_eq_render (hf : f ≠ .compose) (rs : Except Failure (List Record))
    (tree : FileTree) : output d s dir rs tree f = rs >>= render d s dir f := by
  cases f with
  | compose => exact absurd rfl hf
  | helm => rfl
  | kubernetes | kustomize | terraform => cases rs <;> rfl

theorem format_eq_render (hf : f ≠ .compose) : format d s dir f =
    (records d >>= fun rs => written.liftExcept (render d s dir f rs) >>=
      written (directory dir f)) := by
  cases f with
  | compose => exact absurd rfl hf
  | helm => rfl
  | kubernetes | kustomize | terraform => rfl

theorem format_compose : format d s dir .compose =
    (get >>= fun st => written.liftExcept (Compose.files s.compose st.tree d) >>= written dir) :=
  rfl

theorem renders_of_ends (h : Ends (format d s dir f) st paths st') : Renders d s dir f st st' := by
  by_cases hf : f = .compose
  · subst hf
    rw [format_compose] at h
    obtain ⟨_, _, hget, h⟩ := ends_bind_iff.mp h
    obtain ⟨rfl, rfl⟩ := ends_get_iff.mp hget
    obtain ⟨fs, _, hlift, h⟩ := ends_bind_iff.mp h
    obtain ⟨hfiles, rfl⟩ := ends_liftExcept_iff.mp hlift
    obtain ⟨-, tree, hstore, rfl⟩ := ends_written_iff.mp h
    exact ⟨⟨fs, hfiles, hstore⟩, .inl rfl⟩
  · rw [format_eq_render hf] at h
    exact renders_of_records (fun rs => output_eq_render hf rs st.tree) h

theorem ends_format {tree : FileTree} (h : output d s dir (given d st) st.tree f = .ok fs)
    (hstore : store (directory dir f) st.tree fs = .ok tree) :
    ∃ paths st', Ends (format d s dir f) st paths st' ∧ st'.tree = tree := by
  by_cases hf : f = .compose
  · subst hf
    refine ⟨fs.map (·.path), { st with tree }, ?_, rfl⟩
    rw [format_compose]
    refine ends_bind_iff.mpr ⟨st, st, ends_get_iff.mpr ⟨rfl, rfl⟩, ?_⟩
    refine ends_bind_iff.mpr ⟨fs, st, ends_liftExcept_iff.mpr ⟨h, rfl⟩, ?_⟩
    exact ends_written_iff.mpr ⟨rfl, tree, hstore, rfl⟩
  · rw [format_eq_render hf]
    exact ends_of_records (fun rs => output_eq_render hf rs st.tree) h hstore

end Format

/-! ### Several formats -/

/-- Render formats one after the other, all with the same settings. -/
def sequence (d : Definition) (s : RenderSettings) (dir : String) : List Format → Rendering Unit
  | [] => return
  | f :: fs => do
    let _ ← format d s dir f
    sequence d s dir fs

/-- The records that are kept were made from the definition, whatever the files were then. -/
def KeepsOwn (d : Definition) (st : RenderState) : Prop :=
  ∀ rs, st.records = some rs → ∃ earlier : FileTree, d.records earlier = .ok rs

/-- What rendering formats has done to a state as far as later formats are concerned. -/
structure Continues (d : Definition) (dir : String) (st st' : RenderState) : Prop where
  edits : Edits (Inside (base dir)) (· ∈ visited [] (steps dir)) st.tree st'.tree
  records : st'.records = st.records ∨ ∃ rs, given d st = .ok rs ∧ st'.records = some rs

section Sequence

variable {d : Definition} {s : RenderSettings} {dir : String} {st₀ st : RenderState}

theorem Continues.refl : Continues d dir st st := ⟨.refl, .inl rfl⟩

theorem Continues.sameIn (h : Continues d dir st₀ st) (hreads : d.ReadsElsewhere dir st₀.tree) :
    ∀ source ∈ d.sources, source.SameIn st₀.tree st.tree := fun source hsource =>
  DataSource.sameIn_of_edits h.edits (hreads source hsource)

/-- The same records are given before and after. -/
theorem Continues.given_eq (h : Continues d dir st₀ st) (hreads : d.ReadsElsewhere dir st₀.tree) :
    given d st = given d st₀ := by
  obtain hkept | ⟨rs, hgiven, hkept⟩ := h.records
  · unfold given
    rw [hkept, d.records_congr (h.sameIn hreads)]
  · rw [hgiven, given, hkept]

theorem Continues.output_eq (h : Continues d dir st₀ st) (hreads : d.ReadsElsewhere dir st₀.tree)
    (f : Format) : output d s dir (given d st) st.tree f =
      output d s dir (given d st₀) st₀.tree f := by
  rw [h.given_eq hreads]
  cases f with
  | compose => exact Definition.composeFiles_congr (h.sameIn hreads) s.compose
  | kubernetes | helm | kustomize | terraform => rfl

/-- The files of a format as they are known beforehand, below the output directory. -/
def filesOf (d : Definition) (s : RenderSettings) (dir : String) (st : RenderState) (f : Format) :
    List OutputFile :=
  placed f ((output d s dir (given d st) st.tree f).toOption.getD [])

theorem filesOf_eq {f : Format} {fs : List OutputFile}
    (h : output d s dir (given d st) st.tree f = .ok fs) : filesOf d s dir st f = placed f fs := by
  rw [filesOf, h]
  rfl

/-- The records that are given are of kinds without a slash, be they kept or made anew. -/
theorem noSlash_given (hd : d.HasPlainNames) (hkeeps : KeepsOwn d st) :
    ∀ rs, given d st = .ok rs → ∀ r ∈ rs, Name.NoSlash r.kind := by
  intro rs hrs
  unfold given at hrs
  cases hkept : st.records with
  | some kept =>
    rw [hkept] at hrs
    obtain rfl := Except.ok.inj hrs
    obtain ⟨earlier, hmade⟩ := hkeeps kept hkept
    exact hd.noSlash hmade
  | none =>
    rw [hkept, mapError_eq_ok_iff] at hrs
    exact hd.noSlash hrs

variable (hd : d.HasPlainNames) (hs : s.HasPlainNames) (hkeeps : KeepsOwn d st₀)
  (hreads : d.ReadsElsewhere dir st₀.tree)
include hd hs hkeeps hreads

/-- A format that is rendered writes the files that are known beforehand, and the run goes on. -/
theorem Continues.of_ends_format (hst : Continues d dir st₀ st) {f : Format} {paths : List String}
    {next : RenderState} (h : Ends (format d s dir f) st paths next) :
    Continues d dir st₀ next ∧ ∃ files, output d s dir (given d st₀) st₀.tree f = .ok files ∧
      store dir st.tree (placed f files) = .ok next.tree := by
  obtain ⟨⟨files, houtput, hstore⟩, hrecords⟩ := renders_of_ends h
  rw [hst.output_eq hreads] at houtput
  have hkinds := noSlash_given hd hkeeps
  have harea := standsIn_area_of_output hd hs hkinds houtput
  rw [store_directory dir f st.tree (allTidy_output hd hs hkinds houtput)] at hstore
  have hedits := OutputFile.edits_of_store (fun g hg => (harea g hg).tidy) hstore
  refine ⟨⟨hst.edits.trans hedits, ?_⟩, files, houtput, hstore⟩
  rw [hst.given_eq hreads] at hrecords
  obtain hrecords | hrecords := hrecords
  · exact hrecords ▸ hst.records
  · exact .inr hrecords

/-- A run of formats succeeds just when all files can be made and then written one after the
other. -/
theorem ends_sequence_iff {fs : List Format} (hst : Continues d dir st₀ st) {tree : FileTree} :
    (∃ st', Ends (sequence d s dir fs) st () st' ∧ st'.tree = tree) ↔
      (∀ f ∈ fs, ∃ files, output d s dir (given d st₀) st₀.tree f = .ok files) ∧
        store dir st.tree (fs.flatMap (filesOf d s dir st₀)) = .ok tree := by
  induction fs generalizing st with
  | nil =>
    constructor
    · rintro ⟨st', hends, rfl⟩
      obtain ⟨-, rfl⟩ := ends_pure_iff.mp hends
      exact ⟨List.forall_mem_nil _, rfl⟩
    · rintro ⟨-, hstore⟩
      exact ⟨st, ends_pure_iff.mpr ⟨rfl, rfl⟩, Except.ok.inj hstore⟩
  | cons f fs ih =>
    rw [List.forall_mem_cons, List.flatMap_cons, OutputFile.store_append, bind_eq_ok_iff]
    constructor
    · rintro ⟨st', hends, htree⟩
      obtain ⟨paths, next, hformat, hrest⟩ := ends_bind_iff.mp hends
      obtain ⟨hcontinues, files, houtput, hstore⟩ :=
        hst.of_ends_format hd hs hkeeps hreads hformat
      obtain ⟨hoks, hall⟩ := (ih hcontinues).mp ⟨st', hrest, htree⟩
      exact ⟨⟨⟨files, houtput⟩, hoks⟩, next.tree, filesOf_eq houtput ▸ hstore, hall⟩
    · rintro ⟨⟨⟨files, houtput⟩, hoks⟩, middle, hstore, hall⟩
      have htidy := allTidy_output hd hs (noSlash_given hd hkeeps) houtput
      rw [filesOf_eq houtput, ← store_directory dir f st.tree htidy] at hstore
      have hnow := (hst.output_eq hreads f).trans houtput
      obtain ⟨paths, next, hformat, rfl⟩ := ends_format hnow hstore
      obtain ⟨hcontinues, -⟩ := hst.of_ends_format hd hs hkeeps hreads hformat
      obtain ⟨st', hrest, htree⟩ := (ih hcontinues).mpr ⟨hoks, hall⟩
      exact ⟨st', ends_bind_iff.mpr ⟨paths, next, hformat, hrest⟩, htree⟩

end Sequence

end Rendering

end Rollout
