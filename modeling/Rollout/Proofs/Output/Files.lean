import Mathlib.Data.List.Basic
import Rollout.Proofs.Output.Path
import Rollout.Proofs.Steps

/-!
# Writing lists of files

A list of files can be written when each file fits where it goes and none stands in the way of
another. What stands below the directory afterwards is told by the files alone: the content that
is last in the list for each path, directories on the way to them, and all else as it was. So two
lists with the same files, and the same last content for each path, have the same outcome.
-/

namespace Rollout

namespace OutputFile

open FileTree

/-- The directory at a path has been made. -/
def IsMade (dir : String) (tree : FileTree) : Prop :=
  ∀ q ∈ visited [] (steps dir), tree.at? q = some .directory

/-- The place that a directory stands at. -/
def base (dir : String) : Place := reach [] (steps dir)

section Write

variable {dir : String} {tree other : FileTree} {path : String} {content : Bytes}

theorem IsMade.makeSteps (h : IsMade dir tree) :
    tree.makeSteps [] (steps dir) = .ok (tree, base dir) :=
  makeSteps_of_directories (.nil tree) h

theorem IsMade.isOpen (h : IsMade dir tree) : tree.Open (base dir) :=
  (makes_of_makeSteps (.nil tree) h.makeSteps).isOpen

/-- A path below a directory is written from where the directory is, which is made first. -/
theorem write_join (hdir : Text.startsWith dir "/" = false) (hpath : Tidy path)
    (tree : FileTree) (content : Bytes) : tree.write (join dir path) content =
      (tree.makeSteps [] (steps dir) >>= fun (made, q) =>
        made.writeFrom q (front path) (last path) content) := by
  obtain ⟨before, hsteps, hmoves⟩ := steps_join dir hpath.relative
  rw [steps_eq path, ← List.append_assoc] at hsteps
  have hjoin := (startsWith_join dir hpath.relative).trans hdir
  rw [write_eq tree hjoin hsteps, FileTree.writeFrom, makeSteps_append, bind_assoc,
    ← makeSteps_moves tree [] before, hmoves, makeSteps_moves]
  rfl

theorem write_join_of_absolute (hdir : Text.startsWith dir "/" = true) (hpath : Tidy path)
    (tree : FileTree) (content : Bytes) :
    tree.write (join dir path) content = .error .notFound := by
  have hjoin := (startsWith_join dir hpath.relative).trans hdir
  rw [FileTree.write, hjoin]
  rfl

theorem IsMade.write_eq (h : IsMade dir tree) (hdir : Text.startsWith dir "/" = false)
    (hpath : Tidy path) (content : Bytes) : tree.write (join dir path) content =
      tree.writeFrom (base dir) (front path) (last path) content := by
  rw [write_join hdir hpath, h.makeSteps]
  rfl

/-- Writing below a directory that has been made leaves it made. -/
theorem IsMade.of_wrote (h : IsMade dir tree) {ns : List String}
    (hwrote : Wrote (base dir) ns content tree other) : IsMade dir other :=
  fun q hq => hwrote.keeps q (h q hq)

end Write

/-! ### Lists of files -/

/-- Write files below a directory, one after the other. -/
def store (dir : String) (tree : FileTree) (fs : List OutputFile) : Except Failure FileTree :=
  fs.foldlM (fun tree f =>
    (tree.write (join dir f.path) f.content).mapError (.unwritable (join dir f.path))) tree

/-- All files can be written: each ends in a name and fits, and where the names of one begin
those of another they are the same. -/
structure FitAll (view : Place → Option Entry) (fs : List OutputFile) : Prop where
  each : ∀ f ∈ fs, IsName (last f.path) ∧ Fits view (names f.path)
  apart : ∀ f ∈ fs, ∀ g ∈ fs, names f.path <+: names g.path → names f.path = names g.path

/-- The content that is last in a list for some names. -/
def lastContent? (fs : List OutputFile) (ns : List String) : Option Bytes :=
  (fs.reverse.find? (names ·.path = ns)).map (·.content)

/-- What stands below a place when files have been written. -/
def stored (view : Place → Option Entry) (fs : List OutputFile) : Place → Option Entry := fun q =>
  match lastContent? fs q with
  | some content => some (.file content)
  | none => if ∃ f ∈ fs, q <+: names f.path then some .directory else view q

theorem lastContent?_append (fs gs : List OutputFile) (ns : List String) :
    lastContent? (fs ++ gs) ns = (lastContent? gs ns).or (lastContent? fs ns) := by
  rw [lastContent?, List.reverse_append, List.find?_append, Option.map_or]
  rfl

theorem lastContent?_eq_none_iff {fs : List OutputFile} {ns : List String} :
    lastContent? fs ns = none ↔ ∀ f ∈ fs, names f.path ≠ ns := by
  simp [lastContent?]

/-- Neither of two files is in the way of the other. -/
def Apart (ns ms : List String) : Prop := (ns <+: ms → ns = ms) ∧ (ms <+: ns → ms = ns)

section Cons

variable {view : Place → Option Entry} {ns ms : List String} {f : OutputFile}
  {fs : List OutputFile}

/-- A file fits where another has been written if it fits anyway and the two are apart. -/
theorem fits_placed_iff (hfits : Fits view ns) (content : Bytes) :
    Fits (placed view ns content) ms ↔ Fits view ms ∧ Apart ns ms := by
  constructor
  · rintro ⟨hway, hplace⟩
    refine ⟨⟨fun a ha hne other hfile => ?_, fun hdirectory => ?_⟩, fun hpre => ?_, fun hpre => ?_⟩
    · by_cases hself : a = ns
      · exact hway a ha hne content (by rw [placed, if_pos hself])
      · by_cases hpre : a <+: ns
        · exact hfits.way a hpre hself other hfile
        · exact hway a ha hne other (by rw [placed, if_neg hself, if_neg hpre, hfile])
    · unfold placed at hplace
      by_cases hself : ms = ns
      · exact hfits.place (hself ▸ hdirectory)
      · by_cases hpre : ms <+: ns
        · exact hplace (by rw [if_neg hself, if_pos hpre])
        · exact hplace (by rw [if_neg hself, if_neg hpre, hdirectory])
    · by_contra hne
      exact hway ns hpre hne content (by rw [placed, if_pos rfl])
    · by_contra hne
      exact hplace (by rw [placed, if_neg hne, if_pos hpre])
  · rintro ⟨⟨hway, hplace⟩, hbefore, hafter⟩
    refine ⟨fun a ha hne other => ?_, ?_⟩
    · unfold placed
      split
      · rename_i hself
        exact absurd (hself.trans (hbefore (hself ▸ ha))) hne
      · split
        · simp
        · exact hway a ha hne other
    · unfold placed
      split
      · simp
      · rename_i hne
        split
        · rename_i hpre
          exact absurd (hafter hpre) hne
        · exact hplace

theorem fitAll_cons : FitAll view (f :: fs) ↔
    (IsName (last f.path) ∧ Fits view (names f.path)) ∧
      FitAll (placed view (names f.path) f.content) fs := by
  constructor
  · intro h
    obtain ⟨hname, hfits⟩ := h.each f List.mem_cons_self
    have hrest : ∀ g ∈ fs, g ∈ f :: fs := fun g => List.mem_cons_of_mem f
    refine ⟨⟨hname, hfits⟩, fun g hg => ⟨(h.each g (hrest g hg)).1, ?_⟩,
      fun g hg g' hg' => h.apart g (hrest g hg) g' (hrest g' hg')⟩
    refine (fits_placed_iff hfits f.content).mpr ⟨(h.each g (hrest g hg)).2, ?_⟩
    exact ⟨h.apart f List.mem_cons_self g (hrest g hg),
      h.apart g (hrest g hg) f List.mem_cons_self⟩
  · rintro ⟨⟨hname, hfits⟩, h⟩
    have hlater : ∀ g ∈ fs, Fits view (names g.path) ∧ Apart (names f.path) (names g.path) :=
      fun g hg => (fits_placed_iff hfits f.content).mp (h.each g hg).2
    refine ⟨List.forall_mem_cons.mpr ⟨⟨hname, hfits⟩, fun g hg =>
      ⟨(h.each g hg).1, (hlater g hg).1⟩⟩, List.forall_mem_cons.mpr ⟨?_, fun g hg => ?_⟩⟩
    · exact List.forall_mem_cons.mpr ⟨fun _ => rfl, fun g hg => (hlater g hg).2.1⟩
    · exact List.forall_mem_cons.mpr ⟨(hlater g hg).2.2, h.apart g hg⟩

theorem stored_cons (h : FitAll view (f :: fs)) :
    stored view (f :: fs) = stored (placed view (names f.path) f.content) fs := by
  funext q
  have happend : lastContent? (f :: fs) q = (lastContent? fs q).or (lastContent? [f] q) :=
    lastContent?_append [f] fs q
  have hway : (∃ g ∈ f :: fs, q <+: names g.path) ↔
      q <+: names f.path ∨ ∃ g ∈ fs, q <+: names g.path := by simp
  unfold stored
  rw [happend]
  simp only [hway]
  cases hlast : lastContent? fs q with
  | some content => rfl
  | none =>
    rw [Option.none_or]
    by_cases hself : q = names f.path
    · -- no later file is on the way to this one or behind it
      have hnone : ¬ ∃ g ∈ fs, q <+: names g.path := by
        rintro ⟨g, hg, hpre⟩
        have hsame := h.apart f List.mem_cons_self g (List.mem_cons_of_mem f hg) (hself ▸ hpre)
        exact lastContent?_eq_none_iff.mp hlast g hg (hself.trans hsame).symm
      have hfirst : lastContent? [f] q = some f.content := by simp [lastContent?, hself]
      rw [hfirst, if_neg hnone, placed, if_pos hself]
    · have hfirst : lastContent? [f] q = none := by
        simp [lastContent?, Ne.symm hself]
      rw [hfirst, placed, if_neg hself]
      by_cases hpre : q <+: names f.path
      · rw [if_pos (.inl hpre), if_pos hpre, ite_self]
      · simp only [hpre, false_or, if_false]

end Cons

section Store

variable {dir : String} {fs : List OutputFile} (hdir : Text.startsWith dir "/" = false)
  (hfs : ∀ f ∈ fs, Tidy f.path)

theorem store_cons (dir : String) (tree : FileTree) (f : OutputFile) (fs : List OutputFile) :
    store dir tree (f :: fs) =
      ((tree.write (join dir f.path) f.content).mapError (.unwritable (join dir f.path)) >>=
        fun tree => store dir tree fs) :=
  List.foldlM_cons

include hdir hfs

theorem store_ok_iff {tree : FileTree} (h : IsMade dir tree) :
    (∃ t, store dir tree fs = .ok t) ↔ FitAll (tree.below (base dir)) fs := by
  induction fs generalizing tree with
  | nil => exact iff_of_true ⟨tree, rfl⟩ ⟨List.forall_mem_nil _, List.forall_mem_nil _⟩
  | cons f fs ih =>
    obtain ⟨hf, hrest⟩ := List.forall_mem_cons.mp hfs
    rw [store_cons, h.write_eq hdir hf, fitAll_cons, names,
      ← writeFrom_ok_iff hf.isName h.isOpen f.content]
    cases hwrite : tree.writeFrom (base dir) (front f.path) (last f.path) f.content with
    | error e =>
      refine iff_of_false ?_ ?_
      · rintro ⟨t, ht⟩
        cases ht
      · rintro ⟨⟨t, ht⟩, -⟩
        cases ht
    | ok other =>
      have hwrote := wrote_of_writeFrom hf.isName h.isOpen hwrite
      rw [← hwrote.below_eq, ← ih hrest (h.of_wrote hwrote)]
      exact ⟨fun ht => ⟨⟨other, rfl⟩, ht⟩, And.right⟩

/-- What writing files has done. -/
theorem of_store {tree other : FileTree} (h : IsMade dir tree)
    (hstore : store dir tree fs = .ok other) :
    other.below (base dir) = stored (tree.below (base dir)) fs ∧
      Edits (Inside (base dir)) (· = base dir) tree other ∧ IsMade dir other := by
  have hfit := (store_ok_iff hdir hfs h).mp ⟨other, hstore⟩
  induction fs generalizing tree with
  | nil =>
    obtain rfl := Except.ok.inj hstore
    refine ⟨funext fun q => ?_, .refl, h⟩
    simp [stored, lastContent?]
  | cons f fs ih =>
    obtain ⟨hf, hrest⟩ := List.forall_mem_cons.mp hfs
    rw [store_cons, h.write_eq hdir hf] at hstore
    obtain ⟨middle, hwrite, hstore⟩ := bind_eq_ok_iff.mp hstore
    have hwrote := wrote_of_writeFrom hf.isName h.isOpen (mapError_eq_ok_iff.mp hwrite)
    have hmiddle := h.of_wrote hwrote
    have hrestfit := (store_ok_iff hdir hrest hmiddle).mp ⟨other, hstore⟩
    obtain ⟨hview, hedits, hmade⟩ := ih hrest hmiddle hstore hrestfit
    refine ⟨?_, hwrote.edits.trans hedits, hmade⟩
    rw [hview, hwrote.below_eq, stored_cons hfit]
    rfl

end Store

/-! ### Lists with the same outcome -/

/-- Two outcomes are the same: both fail, or both succeed and leave the same entries. -/
def SameOutcome {ε : Type} (a b : Except ε FileTree) : Prop :=
  match a, b with
  | .ok t, .ok u => ∀ q, t.at? q = u.at? q
  | .error _, .error _ => True
  | _, _ => False

theorem sameOutcome_of_iff {ε : Type} {a b : Except ε FileTree}
    (h : (∃ t, a = .ok t) ↔ ∃ u, b = .ok u)
    (hsame : ∀ t u, a = .ok t → b = .ok u → ∀ q, t.at? q = u.at? q) : SameOutcome a b := by
  cases a with
  | ok t =>
    obtain ⟨u, rfl⟩ := h.mp ⟨t, rfl⟩
    exact hsame t u rfl rfl
  | error e =>
    cases b with
    | ok u =>
      obtain ⟨t, ht⟩ := h.mpr ⟨u, rfl⟩
      exact absurd ht nofun
    | error e' => trivial

theorem SameOutcome.exists_ok_iff {ε : Type} {a b : Except ε FileTree} (h : SameOutcome a b) :
    (∃ t, a = .ok t) ↔ ∃ u, b = .ok u := by
  cases a <;> cases b
  · exact iff_of_false (fun ⟨_, h⟩ => absurd h nofun) fun ⟨_, h⟩ => absurd h nofun
  · exact h.elim
  · exact h.elim
  · exact iff_of_true ⟨_, rfl⟩ ⟨_, rfl⟩

/-- What stands at a place when a run has succeeded. -/
def entryAfter? {ε : Type} (a : Except ε FileTree) (q : Place) : Option Entry :=
  a.toOption.bind (·.at? q)

theorem not_sameOutcome_of_isOk_ne {ε : Type} {a b : Except ε FileTree} (hne : a.isOk ≠ b.isOk) :
    ¬ SameOutcome a b := by
  intro h
  cases a <;> cases b
  · exact hne rfl
  · exact h
  · exact h
  · exact hne rfl

theorem not_sameOutcome_of_entryAfter?_ne {ε : Type} {a b : Except ε FileTree} {q : Place}
    (hne : entryAfter? a q ≠ entryAfter? b q) : ¬ SameOutcome a b := by
  intro h
  cases a <;> cases b
  · exact hne rfl
  · exact h
  · exact h
  · exact hne (h q)

/-- Two lists hold the same files, and the same content is last in them for each path. -/
structure SameFiles (fs gs : List OutputFile) : Prop where
  mem_iff : ∀ f, f ∈ fs ↔ f ∈ gs
  last : ∀ ns, lastContent? fs ns = lastContent? gs ns

namespace SameFiles

variable {fs gs : List OutputFile} (h : SameFiles fs gs)
include h

theorem symm : SameFiles gs fs := ⟨fun f => (h.mem_iff f).symm, fun ns => (h.last ns).symm⟩

theorem eq_nil (hfs : fs = []) : gs = [] := by
  rw [List.eq_nil_iff_forall_not_mem] at hfs ⊢
  exact fun f hf => hfs f ((h.mem_iff f).mpr hf)

theorem fitAll {view : Place → Option Entry} (hfit : FitAll view fs) : FitAll view gs where
  each := fun f hf => hfit.each f ((h.mem_iff f).mpr hf)
  apart := fun f hf g hg => hfit.apart f ((h.mem_iff f).mpr hf) g ((h.mem_iff g).mpr hg)

theorem stored_eq (view : Place → Option Entry) : stored view fs = stored view gs := by
  funext q
  simp only [stored, h.last, h.mem_iff]

variable {dir : String} (htidy : ∀ f ∈ fs, Tidy f.path)
include htidy

/-- The outcomes are the same where the directory has been made. -/
theorem store_of_isMade (hdir : Text.startsWith dir "/" = false) {tree : FileTree}
    (hmade : IsMade dir tree) : SameOutcome (store dir tree fs) (store dir tree gs) := by
  have htidy' : ∀ g ∈ gs, Tidy g.path := fun g hg => htidy g ((h.mem_iff g).mpr hg)
  refine sameOutcome_of_iff ?_ fun t u ht hu q => ?_
  · rw [store_ok_iff hdir htidy hmade, store_ok_iff hdir htidy' hmade]
    exact ⟨h.fitAll, h.symm.fitAll⟩
  · obtain ⟨hview, hedits, -⟩ := of_store hdir htidy hmade ht
    obtain ⟨hview', hedits', -⟩ := of_store hdir htidy' hmade hu
    rw [h.stored_eq, ← hview'] at hview
    by_cases hq : base dir <+: q
    · obtain ⟨a, rfl⟩ := hq
      exact congrFun hview a
    · have hinside : ¬ Inside (base dir) q := by
        rintro ⟨n, rest, -, rfl⟩
        exact hq (List.prefix_append _ _)
      have hbase : q ≠ base dir := by
        rintro rfl
        exact hq List.prefix_rfl
      rw [hedits.at?_eq hinside fun heq => absurd heq hbase,
        hedits'.at?_eq hinside fun heq => absurd heq hbase]

end SameFiles

section First

variable {dir : String} {f : OutputFile} (hf : Tidy f.path)
include hf

/-- No file is written below a directory that cannot be made. -/
theorem store_cons_of_error {tree : FileTree} {e : FileFault} (fs : List OutputFile)
    (h : Text.startsWith dir "/" = true ∨ tree.makeSteps [] (steps dir) = .error e) :
    ∃ failure, store dir tree (f :: fs) = .error failure := by
  have hwrite : ∃ e, tree.write (join dir f.path) f.content = .error e := by
    cases hdir : Text.startsWith dir "/" with
    | true => exact ⟨_, write_join_of_absolute hdir hf tree f.content⟩
    | false =>
      rw [hdir] at h
      refine ⟨e, ?_⟩
      rw [write_join hdir hf, h.resolve_left Bool.false_ne_true]
      rfl
  obtain ⟨e', he'⟩ := hwrite
  rw [store_cons, he']
  exact ⟨_, rfl⟩

/-- The first file makes the directory. -/
theorem store_cons_of_makeSteps (hdir : Text.startsWith dir "/" = false) {tree made : FileTree}
    {q : Place} (h : tree.makeSteps [] (steps dir) = .ok (made, q)) (fs : List OutputFile) :
    IsMade dir made ∧ store dir tree (f :: fs) = store dir made (f :: fs) := by
  have hmakes := makes_of_makeSteps (.nil tree) h
  have hmade : IsMade dir made := hmakes.directories
  refine ⟨hmade, ?_⟩
  rw [store_cons, store_cons, write_join hdir hf, write_join hdir hf, h, hmade.makeSteps,
    hmakes.last_eq]
  rfl

end First

/-- Writing the same files has the same outcome, whatever their order. -/
theorem SameFiles.store {fs gs : List OutputFile} (h : SameFiles fs gs)
    (htidy : ∀ f ∈ fs, Tidy f.path) (dir : String) (tree : FileTree) :
    SameOutcome (store dir tree fs) (store dir tree gs) := by
  cases fs with
  | nil =>
    rw [h.eq_nil rfl]
    exact fun q => rfl
  | cons f fs =>
    have hne : gs ≠ [] := fun hnil => List.cons_ne_nil f fs (h.symm.eq_nil hnil)
    obtain ⟨g, gs, rfl⟩ := List.exists_cons_of_ne_nil hne
    have hf : Tidy f.path := htidy f List.mem_cons_self
    have hg : Tidy g.path := htidy g ((h.mem_iff g).mpr List.mem_cons_self)
    have hfail : ∀ e, (Text.startsWith dir "/" = true ∨
        tree.makeSteps [] (steps dir) = .error e) →
        SameOutcome (OutputFile.store dir tree (f :: fs))
          (OutputFile.store dir tree (g :: gs)) := by
      intro e he
      obtain ⟨_, hfs⟩ := store_cons_of_error hf fs he
      obtain ⟨_, hgs⟩ := store_cons_of_error hg gs he
      rw [hfs, hgs]
      trivial
    cases hdir : Text.startsWith dir "/" with
    | true => exact hfail .notFound (.inl hdir)
    | false =>
      cases hmake : tree.makeSteps [] (steps dir) with
      | error e => exact hfail e (.inr hmake)
      | ok made =>
        obtain ⟨hmade, hfs⟩ := store_cons_of_makeSteps hf hdir hmake fs
        obtain ⟨-, hgs⟩ := store_cons_of_makeSteps hg hdir hmake gs
        rw [hfs, hgs]
        exact h.store_of_isMade htidy hdir hmade

/-! ### Lists in parts -/

section Parts

variable {ι : Type} {out : ι → List OutputFile}
  (hapart : ∀ i j, ∀ f ∈ out i, ∀ g ∈ out j, names f.path = names g.path → i = j)
include hapart

/-- Where each path belongs to one part, that part alone tells the last content for it. -/
theorem lastContent?_flatMap {is : List ι} {i : ι} (hi : i ∈ is) {f : OutputFile}
    (hf : f ∈ out i) :
    lastContent? (is.flatMap out) (names f.path) = lastContent? (out i) (names f.path) := by
  induction is with
  | nil => exact absurd hi List.not_mem_nil
  | cons j is ih =>
    rw [List.flatMap_cons, lastContent?_append]
    by_cases hlater : i ∈ is
    · rw [ih hlater]
      cases hown : lastContent? (out i) (names f.path) with
      | some content => rfl
      | none => exact absurd rfl (lastContent?_eq_none_iff.mp hown f hf)
    · obtain rfl := (List.mem_cons.mp hi).resolve_right hlater
      have hnone : lastContent? (is.flatMap out) (names f.path) = none := by
        rw [lastContent?_eq_none_iff]
        intro g hg hsame
        obtain ⟨j, hj, hg⟩ := List.mem_flatMap.mp hg
        exact hlater (hapart j i g hg f hf hsame ▸ hj)
      rw [hnone, Option.none_or]

/-- The order of the parts does not matter, nor does it how often each of them comes. -/
theorem sameFiles_flatMap {is js : List ι} (h : ∀ i, i ∈ is ↔ i ∈ js) :
    SameFiles (is.flatMap out) (js.flatMap out) := by
  have hmem : ∀ f, f ∈ is.flatMap out ↔ f ∈ js.flatMap out := by
    intro f
    simp only [List.mem_flatMap, h]
  refine ⟨hmem, fun ns => ?_⟩
  by_cases hns : ∃ f ∈ is.flatMap out, names f.path = ns
  · obtain ⟨f, hf, rfl⟩ := hns
    obtain ⟨i, hi, hf⟩ := List.mem_flatMap.mp hf
    rw [lastContent?_flatMap hapart hi hf, lastContent?_flatMap hapart ((h i).mp hi) hf]
  · have hnone : lastContent? (is.flatMap out) ns = none :=
      lastContent?_eq_none_iff.mpr fun f hf hsame => hns ⟨f, hf, hsame⟩
    have hnone' : lastContent? (js.flatMap out) ns = none :=
      lastContent?_eq_none_iff.mpr fun f hf hsame => hns ⟨f, (hmem f).mpr hf, hsame⟩
    rw [hnone, hnone']

end Parts

end OutputFile

namespace Writing

theorem ends_file_iff {dir : String} {f : OutputFile} {tree other : FileTree} :
    Ends (file dir f) tree () other ↔
      tree.write (OutputFile.join dir f.path) f.content = .ok other := by
  unfold file
  constructor
  · intro h
    obtain ⟨_, _, hget, h⟩ := ends_bind_iff.mp h
    obtain ⟨rfl, rfl⟩ := ends_get_iff.mp hget
    cases hwrite : tree.write (OutputFile.join dir f.path) f.content with
    | error e =>
      rw [hwrite] at h
      exact absurd h not_ends_throw
    | ok written =>
      rw [hwrite] at h
      rw [ends_set_iff.mp h]
  · intro h
    refine ends_bind_iff.mpr ⟨tree, tree, ends_get_iff.mpr ⟨rfl, rfl⟩, ?_⟩
    rw [h]
    exact ends_set_iff.mpr rfl

/-- Writing a list of files succeeds as storing them does. -/
theorem ends_files_iff {dir : String} {fs : List OutputFile} {tree other : FileTree}
    {paths : List String} :
    Ends (files dir fs) tree paths other ↔
      paths = fs.map (·.path) ∧ OutputFile.store dir tree fs = .ok other := by
  have hloop : ∀ {gs : List OutputFile} {start : FileTree},
      Ends (forIn gs PUnit.unit fun f _ => do file dir f; pure (.yield PUnit.unit))
        start PUnit.unit other ↔ OutputFile.store dir start gs = .ok other := by
    intro gs
    induction gs with
    | nil =>
      intro start
      rw [List.forIn_nil, ends_pure_iff]
      exact ⟨fun h => congrArg Except.ok h.2, fun h => ⟨rfl, Except.ok.inj h⟩⟩
    | cons g gs ih =>
      intro start
      rw [List.forIn_cons, bind_assoc, ends_bind_iff, OutputFile.store_cons, bind_eq_ok_iff]
      constructor
      · rintro ⟨_, middle, hfile, hrest⟩
        rw [pure_bind] at hrest
        exact ⟨middle, mapError_eq_ok_iff.mpr (ends_file_iff.mp hfile), ih.mp hrest⟩
      · rintro ⟨middle, hfile, hrest⟩
        refine ⟨(), middle, ends_file_iff.mpr (mapError_eq_ok_iff.mp hfile), ?_⟩
        rw [pure_bind]
        exact ih.mpr hrest
  unfold files
  constructor
  · intro h
    obtain ⟨_, middle, hall, hpure⟩ := ends_bind_iff.mp h
    obtain ⟨rfl, rfl⟩ := ends_pure_iff.mp hpure
    exact ⟨rfl, hloop.mp hall⟩
  · rintro ⟨rfl, h⟩
    exact ends_bind_iff.mpr ⟨PUnit.unit, other, hloop.mpr h, ends_pure_iff.mpr ⟨rfl, rfl⟩⟩

end Writing

end Rollout
