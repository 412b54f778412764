import Rollout.Proofs.Rendering.Run

/-!
# The order and the repetition of formats

Formats have areas of their own and read nothing of what others write. So the outcome of a run
depends only on which formats are rendered, not on their order. It does not depend on how often a
format comes either, as long as its settings are not used up the first time.
-/

namespace Rollout

namespace Rendering

open OutputFile (SameOutcome)

/-! ### Settings that are handed out once -/

section Settings

variable {d : Definition} {s t : RenderSettings} {dir : String} {f g : Format}

/-- Rendering a format leaves the settings of all others. -/
theorem format_leftAfter_of_ne (d : Definition) (s : RenderSettings) (dir : String)
    (h : g ≠ f) : format d (leftAfter s f) dir g = format d s dir g := by
  cases f <;> cases g <;> first | exact absurd rfl h | rfl

/-- A format is rendered alike once more if its settings are those that are left of them. -/
theorem format_leftAfter_self (hs : leftAfter s f = s)
    (h : format d t dir f = format d s dir f) :
    format d (leftAfter t f) dir f = format d s dir f := by
  cases f with
  | kubernetes | compose => exact h
  | helm =>
    have hchart : none = s.chart := congrArg RenderSettings.chart hs
    change helm d none _ = helm d s.chart _
    rw [← hchart]
  | kustomize =>
    have hbase : {} = s.base := congrArg RenderSettings.base hs
    have hoverlays : [] = s.overlays := congrArg RenderSettings.overlays hs
    change kustomize d {} [] _ = kustomize d s.base s.overlays _
    rw [← hbase, ← hoverlays]
  | terraform =>
    have hmodule : {} = s.terraform := congrArg RenderSettings.terraform hs
    change terraform d {} _ = terraform d s.terraform _
    rw [← hmodule]

/-- A format that comes again is rendered with the settings that are left of it. -/
def RepeatsAlike (s : RenderSettings) (fs : List Format) : Prop :=
  ∀ f, 1 < fs.count f → leftAfter s f = s

/-- Where formats repeat alike, a run renders all of them with the settings that it is given. -/
theorem each_eq_sequence {fs : List Format} (hrepeat : RepeatsAlike s fs)
    (hsame : ∀ f ∈ fs, format d t dir f = format d s dir f) :
    each d dir t fs = sequence d s dir (fs.filter d.supports) := by
  induction fs generalizing t with
  | nil => rfl
  | cons f fs ih =>
    obtain ⟨hf, hfs⟩ := List.forall_mem_cons.mp hsame
    have hrest : RepeatsAlike s fs := fun g hg =>
      hrepeat g (Nat.lt_of_lt_of_le hg List.count_le_count_cons)
    cases hsupports : d.supports f with
    | false =>
      rw [each, hsupports, List.filter_cons_of_neg (by simp [hsupports])]
      exact ih hrest hfs
    | true =>
      have hleft : ∀ g ∈ fs, format d (leftAfter t f) dir g = format d s dir g := by
        intro g hg
        by_cases hgf : g = f
        · subst hgf
          have hcount : 1 < (g :: fs).count g := by
            rw [List.count_cons_self]
            exact Nat.succ_lt_succ (List.count_pos_iff.mpr hg)
          exact format_leftAfter_self (hrepeat g hcount) hf
        · rw [format_leftAfter_of_ne d t dir hgf]
          exact hfs g hg
      rw [each, hsupports, List.filter_cons_of_pos hsupports, if_pos rfl, hf, ih hrest hleft]
      rfl

end Settings

/-! ### Runs with the same formats -/

/-- The files after rendering formats. -/
def treeAfter (d : Definition) (s : RenderSettings) (dir : String) (fs : List Format)
    (st : RenderState) : Except Failure FileTree :=
  (leaves (all d s dir fs) st).map (·.tree)

theorem treeAfter_eq_ok_iff {d : Definition} {s : RenderSettings} {dir : String}
    {fs : List Format} {st : RenderState} {tree : FileTree} :
    treeAfter d s dir fs st = .ok tree ↔
      ∃ st', Ends (all d s dir fs) st () st' ∧ st'.tree = tree := by
  rw [treeAfter, map_eq_ok_iff]
  simp only [leaves_eq_ok_iff]
  exact exists_congr fun st' => and_congr_left' ⟨fun ⟨_, h⟩ => h, fun h => ⟨(), h⟩⟩

/-- What a run has to meet for formats to stay out of the way of each other: names that lead
nowhere else, and data sources that read elsewhere. -/
structure Undisturbed (d : Definition) (s : RenderSettings) (dir : String) (st : RenderState) :
    Prop where
  definition : d.HasPlainNames
  settings : s.HasPlainNames
  keeps : KeepsOwn d st
  reads : d.ReadsElsewhere dir st.tree

/-- The formats that a run renders: of those that it is asked for, or of all if it is asked for
none, the ones that make something of the definition. -/
def rendered (d : Definition) (fs : List Format) : List Format :=
  (if fs.isEmpty then Format.all else fs).filter d.supports

theorem mem_rendered_congr (d : Definition) {fs gs : List Format} (hmem : ∀ f, f ∈ fs ↔ f ∈ gs)
    (f : Format) : f ∈ rendered d fs ↔ f ∈ rendered d gs := by
  have hempty : fs.isEmpty = gs.isEmpty := by
    rw [Bool.eq_iff_iff, List.isEmpty_iff, List.isEmpty_iff, List.eq_nil_iff_forall_not_mem,
      List.eq_nil_iff_forall_not_mem]
    simp only [hmem]
  rw [rendered, rendered, hempty, List.mem_filter, List.mem_filter]
  split
  · rfl
  · rw [hmem]

theorem all_eq_sequence {d : Definition} {s : RenderSettings} {dir : String} {fs : List Format}
    (hrepeat : RepeatsAlike s fs) : all d s dir fs = sequence d s dir (rendered d fs) := by
  refine each_eq_sequence ?_ fun f _ => rfl
  split
  · intro f hf
    have hone := List.nodup_iff_count_le_one.mp (by decide : Format.all.Nodup) f
    exact absurd hf (Nat.not_lt.mpr hone)
  · exact hrepeat

section Runs

variable {d : Definition} {s : RenderSettings} {dir : String} {st : RenderState}
  (h : Undisturbed d s dir st)
include h

theorem treeAfter_iff {fs : List Format} (hrepeat : RepeatsAlike s fs) {tree : FileTree} :
    treeAfter d s dir fs st = .ok tree ↔
      (∀ f ∈ rendered d fs, ∃ files, output d s dir (given d st) st.tree f = .ok files) ∧
      OutputFile.store dir st.tree ((rendered d fs).flatMap (filesOf d s dir st)) = .ok tree := by
  rw [treeAfter_eq_ok_iff, all_eq_sequence hrepeat]
  exact ends_sequence_iff h.definition h.settings h.keeps h.reads .refl

theorem standsIn_area_of_mem_filesOf {f : Format} :
    ∀ a ∈ filesOf d s dir st f, OutputFile.StandsIn (area f) a.path := by
  intro a ha
  cases houtput : output d s dir (given d st) st.tree f with
  | error e =>
    rw [filesOf, houtput, placed] at ha
    split at ha <;> exact absurd ha List.not_mem_nil
  | ok files =>
    rw [filesOf_eq houtput] at ha
    have hkinds := noSlash_given h.definition h.keeps
    exact standsIn_area_of_output h.definition h.settings hkinds houtput a ha

/-- Files of different formats have different names. -/
theorem eq_of_filesOf (f g : Format) : ∀ a ∈ filesOf d s dir st f, ∀ b ∈ filesOf d s dir st g,
    OutputFile.names a.path = OutputFile.names b.path → f = g := by
  intro a ha b hb hnames
  obtain ⟨n, hn, rest, ha⟩ := (standsIn_area_of_mem_filesOf h a ha).first
  obtain ⟨m, hm, rest', hb⟩ := (standsIn_area_of_mem_filesOf h b hb).first
  rw [ha, hb] at hnames
  obtain ⟨rfl, -⟩ := List.cons.inj hnames
  exact eq_of_mem_area hn hm

/-- Runs of the same formats have the same outcome. -/
theorem sameOutcome_of_mem_iff {fs gs : List Format} (hmem : ∀ f, f ∈ fs ↔ f ∈ gs)
    (hfs : RepeatsAlike s fs) (hgs : RepeatsAlike s gs) :
    SameOutcome (treeAfter d s dir fs st) (treeAfter d s dir gs st) := by
  have hrendered := mem_rendered_congr d hmem
  have hsame := OutputFile.sameFiles_flatMap (eq_of_filesOf h) hrendered
  have htidy : OutputFile.AllTidy ((rendered d fs).flatMap (filesOf d s dir st)) := by
    intro a ha
    obtain ⟨f, -, ha⟩ := List.mem_flatMap.mp ha
    exact (standsIn_area_of_mem_filesOf h a ha).tidy
  have hstore := hsame.store htidy dir st.tree
  refine OutputFile.sameOutcome_of_iff ?_ fun t u ht hu => ?_
  · simp only [treeAfter_iff h hfs, treeAfter_iff h hgs, exists_and_left, hrendered]
    exact and_congr_right' hstore.exists_ok_iff
  · rw [((treeAfter_iff h hfs).mp ht).2, ((treeAfter_iff h hgs).mp hu).2] at hstore
    exact hstore

end Runs

theorem repeatsAlike_of_nodup {fs : List Format} (h : fs.Nodup) (s : RenderSettings) :
    RepeatsAlike s fs := fun f hf =>
  absurd hf (Nat.not_lt.mpr (List.nodup_iff_count_le_one.mp h f))

/-! ### A site -/

/-- An application with a ConfigMap that is read from a file and mounted. -/
def site : Definition :=
  .app ((App.named "site").mapWorkload fun w => w.addConfigMap
    (((ConfigMap.named "pages").add (.file none "conf/pages.ini")).withMountPath "/etc/site"))

/-- The state before anything is rendered of a site. -/
def siteState : RenderState :=
  { tree := ⟨[(["conf"], .directory), (["conf", "pages.ini"], .file (Bytes.ofText "a=b"))]⟩ }

/-- A site is rendered undisturbed beside its configuration. -/
theorem undisturbed_site {s : RenderSettings} (hs : s.HasPlainNames) :
    Undisturbed site s "out" siteState where
  definition := by decide +kernel
  settings := hs
  keeps := nofun
  reads := by
    intro source hsource path hpath
    obtain rfl := List.mem_singleton.mp hsource
    obtain rfl := Option.some.inj hpath
    have hbase : OutputFile.base "out" = ["out"] := by decide +kernel
    -- all that is written stands below `out`, and the configuration does not
    have hinside : ∀ {q : Place}, FileTree.Inside (OutputFile.base "out") q →
        q.dropLast.head? = some "out" := by
      rintro q ⟨n, rest, -, rfl⟩
      rw [hbase]
      rfl
    have houtside : ∀ q ∈ FileTree.visited [] (FileTree.steps "conf/pages.ini"),
        q.dropLast.head? ≠ some "out" ∧
          (q ∈ FileTree.visited [] (FileTree.steps "out") → siteState.tree.at? q ≠ none) := by
      decide +kernel
    refine ⟨fun q hq => ⟨fun h => (houtside q hq).1 (hinside h), (houtside q hq).2⟩, ?_⟩
    intro q hq h
    have hhead := hinside h
    rw [hq] at hhead
    revert hhead
    decide +kernel

/-! ### Order -/

/-- Names lead nowhere else in the settings when at most the namespace of a base is set. -/
theorem hasPlainNames_namespace (ns : Option String) :
    RenderSettings.HasPlainNames { base := { ns } } where
  layout := nofun
  chart := nofun
  base := List.forall_mem_nil _
  overlays := List.forall_mem_nil _

/-- The order of the formats does not matter: both runs fail, or both succeed and leave the same
files. -/
theorem sameOutcome_of_perm {d : Definition} {s : RenderSettings} {dir : String}
    {st : RenderState} (h : Undisturbed d s dir st) {fs gs : List Format} (hperm : fs.Perm gs)
    (hnodup : fs.Nodup) : SameOutcome (treeAfter d s dir fs st) (treeAfter d s dir gs st) :=
  sameOutcome_of_mem_iff h (fun _ => hperm.mem_iff) (repeatsAlike_of_nodup hnodup s)
    (repeatsAlike_of_nodup (hperm.nodup_iff.mp hnodup) s)

theorem sameOutcome_site : Undisturbed site {} "out" siteState ∧
    SameOutcome (treeAfter site {} "out" [.kubernetes, .compose, .helm] siteState)
      (treeAfter site {} "out" [.helm, .compose, .kubernetes] siteState) := by
  have h := undisturbed_site (hasPlainNames_namespace none)
  have hperm : [Format.kubernetes, .compose, .helm].Perm [.helm, .compose, .kubernetes] := by
    decide
  exact ⟨h, sameOutcome_of_perm h hperm (by decide)⟩

/-- A ConfigMap alone. -/
def notice : Definition := .configMap ((ConfigMap.named "notice").add (.literal "text" "open"))

/-- Whatever the settings, a ConfigMap of literals is rendered undisturbed. -/
theorem undisturbed_notice {s : RenderSettings} (hs : s.HasPlainNames) :
    Undisturbed notice s "out" siteState where
  definition := by decide +kernel
  settings := hs
  keeps := nofun
  reads := by
    intro source hsource path hpath
    obtain rfl := List.mem_singleton.mp hsource
    exact absurd hpath nofun

/-- A file of all manifests that is named into the directory of the Terraform module. -/
def intruding : RenderSettings := { manifests := { layout := .single "../terraform/main.tf" } }

/-- An application beside a ConfigMap that is read from a directory. -/
def lodger : Definition :=
  .group { name := "lodger" } [.app (.named "web"),
    .configMap ((ConfigMap.named "rooms").add (.directory "a"))] false

/-- No path of a data source leads to a directory or below it. -/
def ReadsNoneBelow (d : Definition) (dir : String) : Prop :=
  ∀ source ∈ d.sources, ∀ path, source.path? = some path →
    ¬ OutputFile.base dir <+: FileTree.reach [] (FileTree.steps path)

/-- Without plain names in the settings the later format decides on a file that both write. And a
run that makes the directory of a data source on its way to the output directory succeeds where
one that reads it first fails. -/
theorem not_sameOutcome_reversed :
    (notice.HasPlainNames ∧ ReadsNoneBelow notice "out" ∧ ¬ SameOutcome
      (treeAfter notice intruding "out" [.kubernetes, .terraform] siteState)
      (treeAfter notice intruding "out" [.terraform, .kubernetes] siteState)) ∧
    lodger.HasPlainNames ∧ ReadsNoneBelow lodger "a/out" ∧ ¬ SameOutcome
      (treeAfter lodger {} "a/out" [.compose, .helm] siteState)
      (treeAfter lodger {} "a/out" [.helm, .compose] siteState) := by
  refine ⟨⟨(undisturbed_notice (hasPlainNames_namespace none)).definition, ?_, ?_⟩, ?_, ?_, ?_⟩
  · intro source hsource path hpath
    obtain rfl := List.mem_singleton.mp hsource
    exact absurd hpath nofun
  · have hmain : OutputFile.entryAfter?
          (treeAfter notice intruding "out" [.kubernetes, .terraform] siteState)
          ["out", "terraform", "main.tf"] ≠
        OutputFile.entryAfter?
          (treeAfter notice intruding "out" [.terraform, .kubernetes] siteState)
          ["out", "terraform", "main.tf"] := by
      decide +kernel
    exact OutputFile.not_sameOutcome_of_entryAfter?_ne hmain
  · decide +kernel
  · intro source hsource path hpath
    obtain rfl := List.mem_singleton.mp hsource
    obtain rfl := Option.some.inj hpath
    decide +kernel
  · have hok : (treeAfter lodger {} "a/out" [.compose, .helm] siteState).isOk ≠
        (treeAfter lodger {} "a/out" [.helm, .compose] siteState).isOk := by
      decide +kernel
    exact OutputFile.not_sameOutcome_of_isOk_ne hok

/-! ### Repetition -/

/-- A format may come any number of times if its settings are what is left of them after the first,
as those of manifests and of compose always are: the files are those of a run in which every
format comes once. -/
theorem sameOutcome_of_repeatsAlike {d : Definition} {s : RenderSettings} {dir : String}
    {st : RenderState} (h : Undisturbed d s dir st) {fs gs : List Format}
    (hrepeat : RepeatsAlike s fs) (hnodup : gs.Nodup) (hmem : ∀ f, f ∈ gs ↔ f ∈ fs) :
    SameOutcome (treeAfter d s dir fs st) (treeAfter d s dir gs st) :=
  sameOutcome_of_mem_iff h (fun f => (hmem f).symm) hrepeat (repeatsAlike_of_nodup hnodup s)

/-- Settings of a kustomization. -/
def inProduction : RenderSettings := { base := { ns := some "prod" } }

theorem sameOutcome_site_repeated : Undisturbed site inProduction "out" siteState ∧
    SameOutcome
      (treeAfter site inProduction "out" [.kubernetes, .kustomize, .kubernetes] siteState)
      (treeAfter site inProduction "out" [.kubernetes, .kustomize] siteState) := by
  have hrepeat : RepeatsAlike inProduction [.kubernetes, .kustomize, .kubernetes] := by
    intro f hf
    cases f
    case kubernetes => rfl
    all_goals exact absurd hf (by decide)
  have hmem : ∀ f, f ∈ [Format.kubernetes, .kustomize] ↔
      f ∈ [Format.kubernetes, .kustomize, .kubernetes] := by
    intro f
    cases f <;> decide
  have h := undisturbed_site (hasPlainNames_namespace (some "prod"))
  exact ⟨h, sameOutcome_of_repeatsAlike h hrepeat (by decide) hmem⟩

/-- The second time, a base is written without the namespace that is set for it. -/
theorem not_sameOutcome_repeated : Undisturbed notice inProduction "out" siteState ∧
    ¬ SameOutcome (treeAfter notice inProduction "out" [.kustomize, .kustomize] siteState)
      (treeAfter notice inProduction "out" [.kustomize] siteState) := by
  have hbase : OutputFile.entryAfter?
        (treeAfter notice inProduction "out" [.kustomize, .kustomize] siteState)
        ["out", "kustomize", "base", "kustomization.yaml"] ≠
      OutputFile.entryAfter? (treeAfter notice inProduction "out" [.kustomize] siteState)
        ["out", "kustomize", "base", "kustomization.yaml"] := by
    decide +kernel
  exact ⟨undisturbed_notice (hasPlainNames_namespace (some "prod")),
    OutputFile.not_sameOutcome_of_entryAfter?_ne hbase⟩

end Rendering

end Rollout
