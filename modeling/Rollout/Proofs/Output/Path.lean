import Rollout.Output
import Rollout.Proofs.FileTree.Write
import Rollout.Proofs.Text

/-!
# Paths below directories

The steps of a path below a directory are those of the directory and then its own, up to steps
that lead nowhere.
-/

namespace Rollout

namespace Text

theorem parts_append_sep (sep : Char) (a b : String) :
    parts sep (a ++ String.singleton sep ++ b) = parts sep a ++ parts sep b := by
  have hlist : (a ++ String.singleton sep ++ b).toList = a.toList ++ sep :: b.toList := by simp
  rw [parts, hlist, partsOf_append_sep, List.map_append]
  rfl

theorem parts_of_notMem {sep : Char} {s : String} (h : sep ∉ s.toList) : parts sep s = [s] := by
  rw [parts, partsOf_of_notMem h, List.map_singleton, String.ofList_toList]

theorem startsWith_singleton (s : String) (c : Char) :
    startsWith s (String.singleton c) = decide (s.toList.head? = some c) := by
  rw [startsWith, String.toList_singleton]
  cases s.toList with
  | nil => rfl
  | cons d cs => simp [List.isPrefixOf, eq_comm, beq_eq_decide]

theorem endsWith_singleton (s : String) (c : Char) :
    endsWith s (String.singleton c) = decide (s.toList.getLast? = some c) := by
  rw [Bool.eq_iff_iff, endsWith, List.isSuffixOf_iff_suffix, String.toList_singleton,
    decide_eq_true_eq]
  constructor
  · rintro ⟨a, ha⟩
    rw [← ha, List.getLast?_concat]
  · intro h
    obtain ⟨a, ha⟩ := List.getLast?_eq_some_iff.mp h
    exact ⟨a, ha.symm⟩

theorem mem_append_left {a : String} {c : Char} (h : c ∈ a.toList) (b : String) :
    c ∈ (a ++ b).toList := by
  rw [String.toList_append]
  exact List.mem_append_left _ h

theorem mem_append_right (a : String) {b : String} {c : Char} (h : c ∈ b.toList) :
    c ∈ (a ++ b).toList := by
  rw [String.toList_append]
  exact List.mem_append_right _ h

theorem toList_ne_nil {s : String} (h : s ≠ "") : s.toList ≠ [] := fun hnil =>
  h (String.toList_injective hnil)

end Text

namespace FileTree

theorem steps_append_slash (a b : String) : steps (a ++ "/" ++ b) = steps a ++ steps b :=
  Text.parts_append_sep '/' a b

theorem steps_of_notMem {name : String} (h : '/' ∉ name.toList) : steps name = [name] :=
  Text.parts_of_notMem h

end FileTree

namespace OutputFile

open FileTree (steps moves trail IsName)

theorem slash_eq : "/" = String.singleton '/' := by decide

theorem empty_join (path : String) : join "" path = path := rfl

/-- A relative path below a directory follows it, with a slash between them if there is none. -/
theorem join_eq {dir path : String} (hdir : dir ≠ "") (hpath : Text.startsWith path "/" = false) :
    join dir path = if Text.endsWith dir "/" then dir ++ path else dir ++ "/" ++ path := by
  have hempty : dir.isEmpty = false := by simpa using hdir
  rw [join, hempty, hpath, Bool.or_false, if_neg Bool.false_ne_true]

theorem startsWith_append {dir : String} (hdir : dir ≠ "") (rest : String) :
    Text.startsWith (dir ++ rest) "/" = Text.startsWith dir "/" := by
  rw [slash_eq, Text.startsWith_singleton, Text.startsWith_singleton, String.toList_append,
    List.head?_append_of_ne_nil _ (Text.toList_ne_nil hdir)]

theorem startsWith_join (dir : String) {path : String}
    (hpath : Text.startsWith path "/" = false) :
    Text.startsWith (join dir path) "/" = Text.startsWith dir "/" := by
  by_cases hdir : dir = ""
  · rw [hdir, empty_join, hpath]
    decide
  · rw [join_eq hdir hpath]
    split
    · exact startsWith_append hdir path
    · rw [String.append_assoc]
      exact startsWith_append hdir _

/-- The steps of a directory lead to the same place in any path below it. -/
theorem steps_join (dir : String) {path : String} (hpath : Text.startsWith path "/" = false) :
    ∃ front, steps (join dir path) = front ++ steps path ∧ moves front = moves (steps dir) := by
  by_cases hdir : dir = ""
  · subst hdir
    exact ⟨[], by rw [empty_join, List.nil_append], by decide⟩
  · rw [join_eq hdir hpath]
    split
    · rename_i hends
      obtain ⟨a, ha⟩ := List.isSuffixOf_iff_suffix.mp hends
      have heq : dir = String.ofList a ++ "/" ++ "" := by
        refine String.toList_injective ?_
        rw [← ha]
        simp
      have hfront : steps dir = steps (String.ofList a) ++ [""] := by
        rw [heq, FileTree.steps_append_slash]
        rfl
      refine ⟨steps (String.ofList a), ?_, ?_⟩
      · rw [heq, String.append_empty, FileTree.steps_append_slash]
      · rw [hfront, moves, moves, List.filter_append]
        simp
    · exact ⟨steps dir, FileTree.steps_append_slash dir path, rfl⟩

/-- A directory below a directory. -/
theorem join_join (dir : String) {sub path : String} (hne : sub ≠ "")
    (hsub : Text.startsWith sub "/" = false) (hpath : Text.startsWith path "/" = false) :
    join (join dir sub) path = join dir (join sub path) := by
  by_cases hdir : dir = ""
  · rw [hdir, empty_join, empty_join]
  · have hinner : Text.startsWith (join sub path) "/" = false :=
      (startsWith_join sub hpath).trans hsub
    have hlast : ∀ before : String, before ++ sub ≠ "" ∧
        Text.endsWith (before ++ sub) "/" = Text.endsWith sub "/" := by
      intro before
      have hlist := Text.toList_ne_nil hne
      constructor
      · intro hempty
        have hnil : before.toList ++ sub.toList = [] := by rw [← String.toList_append, hempty]; rfl
        exact hlist (List.append_eq_nil_iff.mp hnil).2
      · rw [slash_eq, Text.endsWith_singleton, Text.endsWith_singleton, String.toList_append,
          List.getLast?_append_of_ne_nil _ hlist]
    obtain ⟨hjoin, hends⟩ : join dir sub ≠ "" ∧
        Text.endsWith (join dir sub) "/" = Text.endsWith sub "/" := by
      rw [join_eq hdir hsub]
      split
      · exact hlast dir
      · exact hlast (dir ++ "/")
    rw [join_eq hjoin hpath, hends, join_eq hdir hinner, join_eq hdir hsub, join_eq hne hpath]
    split <;> split <;> simp only [String.append_assoc]

/-! ### Tidy paths -/

/-- The steps of a path up to the last. -/
def front (path : String) : List String := (steps path).dropLast

/-- The last step of a path. -/
def last (path : String) : String := (steps path).getLast?.getD ""

theorem steps_eq (path : String) : steps path = front path ++ [last path] := by
  have hne : steps path ≠ [] := by
    rw [steps, Text.parts, ne_eq, List.map_eq_nil_iff]
    exact Text.partsOf_ne_nil '/' path.toList
  rw [front, last, List.getLast?_eq_some_getLast hne]
  exact (List.dropLast_concat_getLast hne).symm

/-- A relative path that leads out of no directory on its way. -/
structure Tidy (path : String) : Prop where
  relative : Text.startsWith path "/" = false
  descends : ".." ∉ front path

/-- The names that a path leads through. -/
def names (path : String) : List String := trail (front path) (last path)

theorem Tidy.isName {path : String} (h : Tidy path) : ∀ n ∈ moves (front path), IsName n := by
  intro n hn
  obtain ⟨hfront, hmoves⟩ := List.mem_filter.mp hn
  rw [Bool.not_eq_true', Bool.or_eq_false_iff, beq_eq_false_iff_ne] at hmoves
  refine ⟨?_, hmoves.2, fun hout => h.descends (hout ▸ hfront)⟩
  rintro rfl
  exact absurd hmoves.1 nofun

instance (path : String) : Decidable (Tidy path) :=
  decidable_of_iff (Text.startsWith path "/" = false ∧ ".." ∉ front path)
    ⟨fun h => ⟨h.1, h.2⟩, fun h => ⟨h.relative, h.descends⟩⟩

theorem front_of_steps {path : String} {before : List String} {step : String}
    (h : steps path = before ++ [step]) : front path = before ∧ last path = step := by
  rw [steps_eq] at h
  obtain ⟨hfront, hlast⟩ := List.append_inj' h rfl
  exact ⟨hfront, List.singleton_inj.mp hlast⟩

theorem startsWith_slash_of_notMem {s : String} (h : '/' ∉ s.toList) :
    Text.startsWith s "/" = false := by
  rw [slash_eq, Text.startsWith_singleton, decide_eq_false_iff_not]
  exact fun hhead => h (List.mem_of_mem_head? hhead)

/-- A name is a tidy path. -/
theorem tidy_of_notMem {name : String} (h : '/' ∉ name.toList) : Tidy name := by
  refine ⟨startsWith_slash_of_notMem h, ?_⟩
  have hsteps : steps name = [] ++ [name] := FileTree.steps_of_notMem h
  rw [(front_of_steps hsteps).1]
  exact List.not_mem_nil

theorem mem_moves_out {steps : List String} : ".." ∈ moves steps ↔ ".." ∈ steps := by
  rw [moves, List.mem_filter]
  exact and_iff_left (by decide)

section Below

variable {dir path : String} (hpath : Tidy path)
include hpath

theorem names_join (dir : String) : names (join dir path) = moves (steps dir) ++ names path := by
  obtain ⟨before, hsteps, hmoves⟩ := steps_join dir hpath.relative
  rw [steps_eq path, ← List.append_assoc] at hsteps
  obtain ⟨hfront, hlast⟩ := front_of_steps hsteps
  rw [names, hfront, hlast, trail, moves, List.filter_append, ← moves, hmoves, List.append_assoc]
  rfl

/-- A tidy path below a directory whose own path leads out of nothing. -/
theorem Tidy.join (hdir : Text.startsWith dir "/" = false) (hout : ".." ∉ steps dir) :
    Tidy (join dir path) := by
  obtain ⟨before, hsteps, hmoves⟩ := steps_join dir hpath.relative
  rw [steps_eq path, ← List.append_assoc] at hsteps
  refine ⟨(startsWith_join dir hpath.relative).trans hdir, ?_⟩
  rw [(front_of_steps hsteps).1, List.mem_append, not_or, ← mem_moves_out, hmoves, mem_moves_out]
  exact ⟨hout, hpath.descends⟩

/-- A directory that is spelled without a slash at its end. -/
theorem append_slash_eq_join (hne : dir ≠ "") (hends : Text.endsWith dir "/" = false) :
    dir ++ "/" ++ path = OutputFile.join dir path := by
  rw [join_eq hne hpath.relative, hends, if_neg Bool.false_ne_true]

end Below

/-! ### Confined paths -/

/-- A relative path no step of which leads out of a directory. -/
structure Confined (path : String) : Prop where
  relative : Text.startsWith path "/" = false
  descends : ".." ∉ steps path

theorem confined_iff {path : String} : Confined path ↔ Tidy path ∧ last path ≠ ".." := by
  have hsteps : ".." ∉ steps path ↔ ".." ∉ front path ∧ last path ≠ ".." := by
    rw [steps_eq, List.mem_append, List.mem_singleton, not_or, ne_comm]
  constructor
  · intro h
    obtain ⟨hfront, hlast⟩ := hsteps.mp h.descends
    exact ⟨⟨h.relative, hfront⟩, hlast⟩
  · rintro ⟨htidy, hlast⟩
    exact ⟨htidy.relative, hsteps.mpr ⟨htidy.descends, hlast⟩⟩

instance (path : String) : Decidable (Confined path) := decidable_of_iff _ confined_iff.symm

theorem confined_iff_of_relative {path : String} (h : Text.startsWith path "/" = false) :
    Confined path ↔ ".." ∉ steps path :=
  ⟨Confined.descends, fun hdescends => ⟨h, hdescends⟩⟩

/-- A name is confined unless it is two dots. -/
theorem confined_of_notMem {name : String} (h : '/' ∉ name.toList) :
    Confined name ↔ name ≠ ".." := by
  have hsteps : steps name = [] ++ [name] := FileTree.steps_of_notMem h
  rw [confined_iff, (front_of_steps hsteps).2]
  exact and_iff_right (tidy_of_notMem h)

theorem startsWith_join_of_absolute (dir : String) {path : String}
    (hpath : Text.startsWith path "/" = true) : join dir path = path := by
  rw [join, hpath, Bool.or_true, if_pos rfl]

/-- Below a directory a relative path is confined just as both are. -/
theorem confined_join_iff {dir path : String} (hpath : Text.startsWith path "/" = false) :
    Confined (join dir path) ↔ Confined dir ∧ Confined path := by
  obtain ⟨before, hsteps, hmoves⟩ := steps_join dir hpath
  have hout : ".." ∉ steps (join dir path) ↔ ".." ∉ steps dir ∧ ".." ∉ steps path := by
    rw [hsteps, List.mem_append, not_or, ← mem_moves_out, hmoves, mem_moves_out]
  constructor
  · intro h
    obtain ⟨hdir, hrest⟩ := hout.mp h.descends
    exact ⟨⟨(startsWith_join dir hpath).symm.trans h.relative, hdir⟩, hpath, hrest⟩
  · rintro ⟨hdir, hrest⟩
    exact ⟨(startsWith_join dir hpath).trans hdir.relative, hout.mpr ⟨hdir.2, hrest.2⟩⟩

/-- Below a confined directory a path is confined if it is so itself. -/
theorem Confined.join_iff {dir path : String} (hdir : Confined dir) :
    Confined (join dir path) ↔ Confined path := by
  cases hpath : Text.startsWith path "/" with
  | true => rw [startsWith_join_of_absolute dir hpath]
  | false => exact (confined_join_iff hpath).trans (and_iff_right hdir)

theorem ne_out_of_mem {s : String} {c : Char} (hc : c ∈ s.toList) (hdot : c ≠ '.') :
    s ≠ ".." := by
  rintro rfl
  have hdots : "..".toList = ['.', '.'] := rfl
  rw [hdots, List.mem_cons, List.mem_singleton, or_self] at hc
  exact hdot hc

/-- What is put at the end of a path and has no slash belongs to its last step. -/
theorem front_append {b : String} (h : '/' ∉ b.toList) (a : String) :
    front (a ++ b) = front a ∧ last (a ++ b) = last a ++ b := by
  obtain ⟨before, w, ha, happend⟩ := Text.partsOf_append_of_notMem h a.toList
  have hsteps : steps a = before.map String.ofList ++ [String.ofList w] := by
    rw [steps, Text.parts, ha, List.map_append]
    rfl
  have hboth : steps (a ++ b) = before.map String.ofList ++ [String.ofList w ++ b] := by
    rw [steps, Text.parts, String.toList_append, happend, List.map_append, List.map_singleton,
      String.ofList_append, String.ofList_toList]
  obtain ⟨hfront, hlast⟩ := front_of_steps hsteps
  rw [(front_of_steps hboth).1, (front_of_steps hboth).2, hfront, hlast]
  exact ⟨rfl, rfl⟩

/-- What is put before a path and has no slash belongs to its first step. -/
theorem steps_append_left {p : String} (h : '/' ∉ p.toList) {s first : String}
    {rest : List String} (hs : steps s = first :: rest) : steps (p ++ s) = (p ++ first) :: rest := by
  obtain ⟨w, ws, hparts, rfl, rfl⟩ := List.map_eq_cons_iff.mp hs
  rw [steps, Text.parts, String.toList_append, Text.partsOf_append_left h hparts, List.map_cons,
    String.ofList_append, String.ofList_toList]

section Ending

variable {b : String} (h : '/' ∉ b.toList) {c : Char} (hc : c ∈ b.toList) (hdot : c ≠ '.')
include h hc hdot

/-- With an ending that is more than dots, a path is confined if it leads out nowhere on its
way. -/
theorem confined_append_iff (a : String) : Confined (a ++ b) ↔ Tidy a := by
  obtain ⟨hfront, hlast⟩ := front_append h a
  have hne : last (a ++ b) ≠ ".." := by
    rw [hlast]
    exact ne_out_of_mem (Text.mem_append_right _ hc) hdot
  have hstart : Text.startsWith (a ++ b) "/" = Text.startsWith a "/" := by
    by_cases ha : a = ""
    · rw [ha, String.empty_append, startsWith_slash_of_notMem h]
      rfl
    · exact startsWith_append ha b
  rw [confined_iff, and_iff_left hne]
  constructor
  · intro htidy
    exact ⟨hstart.symm.trans htidy.relative, hfront ▸ htidy.descends⟩
  · intro htidy
    exact ⟨hstart.trans htidy.relative, hfront.symm ▸ htidy.descends⟩

/-- With a beginning too, the first step cannot lead out either. -/
theorem confined_append_append_iff {p : String} (hp : '/' ∉ p.toList) {d : Char}
    (hd : d ∈ p.toList) (hddot : d ≠ '.') (a : String) :
    Confined (p ++ (a ++ b)) ↔ ".." ∉ (front a).tail := by
  have hne : p ≠ "" := by
    rintro rfl
    exact List.not_mem_nil hd
  obtain ⟨hfront, hlast⟩ := front_append h a
  have hsteps : steps (a ++ b) = front a ++ [last a ++ b] := by
    rw [steps_eq (a ++ b), hfront, hlast]
  have hrelative : Text.startsWith (p ++ (a ++ b)) "/" = false :=
    (startsWith_append hne _).trans (startsWith_slash_of_notMem hp)
  have hbegin (s : String) : p ++ s ≠ ".." := ne_out_of_mem (Text.mem_append_left hd s) hddot
  have hend (s : String) : s ++ b ≠ ".." := ne_out_of_mem (Text.mem_append_right s hc) hdot
  rw [confined_iff_of_relative hrelative]
  cases hway : front a with
  | nil =>
    rw [hway, List.nil_append] at hsteps
    rw [steps_append_left hp hsteps, List.mem_singleton]
    exact iff_of_true (hbegin _).symm List.not_mem_nil
  | cons first rest =>
    rw [hway, List.cons_append] at hsteps
    rw [steps_append_left hp hsteps, List.mem_cons, List.mem_append, List.mem_singleton,
      or_iff_right (hbegin _).symm, or_iff_left (hend _).symm, List.tail_cons]

end Ending

end OutputFile

end Rollout
