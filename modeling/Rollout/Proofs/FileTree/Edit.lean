import Rollout.Proofs.FileTree.Place

/-!
# What edits leave alone

Writing puts entries at some places and makes directories where nothing stood. Whoever looks
only at other places, or at directories that hold none of the places where files are put, sees
the same tree before and after.
-/

namespace Rollout.FileTree

variable {tree : FileTree}

theorem lookup_filter_of_ne {place q : Place} (h : q ≠ place) (entries : List (Place × Entry)) :
    (entries.filter (·.1 != place)).lookup q = entries.lookup q := by
  induction entries with
  | nil => rfl
  | cons e entries ih =>
    obtain ⟨p, entry⟩ := e
    by_cases hp : p = place
    · have hq : (q == p) = false := beq_eq_false_iff_ne.mpr (hp ▸ h)
      simp [List.lookup_cons, hp, hp ▸ hq, ih]
    · simp [List.lookup_cons, hp, ih]

theorem lookup_filter_self (place : Place) (entries : List (Place × Entry)) :
    (entries.filter (·.1 != place)).lookup place = none := by
  rw [List.lookup_eq_none_iff]
  intro e he
  have hne : e.1 ≠ place := by simpa using (List.mem_filter.mp he).2
  exact bne_iff_ne.mpr hne.symm

theorem at?_of_isOuter (tree : FileTree) {q : Place} (h : isOuter q = true) :
    tree.at? q = some .directory :=
  if_pos h

theorem at?_put (tree : FileTree) (place : Place) (entry : Entry) {q : Place} :
    (tree.put place entry).at? q =
      if isOuter q = true then some .directory
      else if q = place then some entry else tree.at? q := by
  unfold at?
  split
  · rfl
  · rw [put]
    by_cases hq : q = place
    · subst hq
      rw [if_pos rfl, List.lookup_append, lookup_filter_self, Option.none_or]
      simp
    · rw [if_neg hq, List.lookup_append, lookup_filter_of_ne hq]
      have hb : (q == place) = false := beq_eq_false_iff_ne.mpr hq
      simp [List.lookup_cons, hb]

theorem at?_put_of_ne {place q : Place} (h : q ≠ place) (entry : Entry) :
    (tree.put place entry).at? q = tree.at? q := by
  rw [at?_put, if_neg h]
  unfold at?
  split <;> rfl

theorem at?_put_self {place : Place} (h : isOuter place = false) (entry : Entry) :
    (tree.put place entry).at? place = some entry := by
  simp [at?_put, h]

theorem at?_put_directory (tree : FileTree) (place : Place) {q : Place} :
    (tree.put place .directory).at? q =
      if q = place then some .directory else tree.at? q := by
  rw [at?_put]
  unfold at?
  split
  · split <;> rfl
  · rfl

/-- A tree has become another by putting entries at the places of `touched` and by making
directories at those of `made` where there was nothing. -/
inductive Edits (touched made : Place → Prop) (tree : FileTree) : FileTree → Prop
  | refl : Edits touched made tree tree
  | put {other : FileTree} (h : Edits touched made tree other) {place : Place}
    (hplace : touched place) (entry : Entry) : Edits touched made tree (other.put place entry)
  | make {other : FileTree} (h : Edits touched made tree other) {place : Place}
    (hplace : made place) (hnone : other.at? place = none) :
    Edits touched made tree (other.put place .directory)

namespace Edits

variable {touched made touched' made' : Place → Prop} {other last : FileTree}

theorem trans (h : Edits touched made tree other) (h' : Edits touched made other last) :
    Edits touched made tree last := by
  induction h' with
  | refl => exact h
  | put _ hplace entry ih => exact ih.put hplace entry
  | make _ hplace hnone ih => exact ih.make hplace hnone

/-- What is made may as well count as put. -/
theorem mono (h : Edits touched made tree other) (htouched : ∀ q, touched q → touched' q)
    (hmade : ∀ q, made q → touched' q ∨ made' q) : Edits touched' made' tree other := by
  induction h with
  | refl => exact .refl
  | put _ hplace entry ih => exact ih.put (htouched _ hplace) entry
  | make _ hplace hnone ih =>
    obtain hplace | hplace := hmade _ hplace
    · exact ih.put hplace .directory
    · exact ih.make hplace hnone

/-- A place keeps its entry unless entries are put there, or nothing stands there and a
directory is made. -/
theorem at?_eq (h : Edits touched made tree other) {q : Place} (htouched : ¬ touched q)
    (hmade : made q → tree.at? q ≠ none) : other.at? q = tree.at? q := by
  induction h with
  | refl => rfl
  | @put other _ place hplace entry ih =>
    have hne : q ≠ place := fun he => htouched (he ▸ hplace)
    rw [at?_put_of_ne hne, ih]
  | @make other _ place hplace hnone ih =>
    have hne : q ≠ place := by
      rintro rfl
      exact hmade hplace (ih ▸ hnone)
    rw [at?_put_of_ne hne, ih]

end Edits

/-! ### Reading -/

/-- The file that an entry of a tree is directly inside a place, with its name. -/
def fileAt? (place : Place) (e : Place × Entry) : Option (String × Bytes) :=
  match e.2, e.1.getLast? with
  | .file content, some name => if e.1.dropLast = place then some (name, content) else none
  | _, _ => none

/-- The files directly inside a place, as the entries of the tree list them. -/
def filesAt (tree : FileTree) (place : Place) : List (String × Bytes) :=
  tree.entries.filterMap (fileAt? place)

theorem filesIn_of_locate {path : String} {place : Place} (h : tree.locate path = .ok place) :
    tree.filesIn path = (tree.filesAt place).mergeSort fun a b => a.1 ≤ b.1 := by
  rw [filesIn, h]
  rfl

theorem filesIn_of_locate_error {path : String} {e : FileFault} (h : tree.locate path = .error e) :
    tree.filesIn path = [] := by
  rw [filesIn, h]

theorem fileAt?_of_ne {place : Place} {e : Place × Entry} (h : e.1.dropLast ≠ place) :
    fileAt? place e = none := by
  unfold fileAt?
  split
  · rw [if_neg h]
  · rfl

theorem filesAt_put (tree : FileTree) {place q : Place} (h : q.dropLast ≠ place) (entry : Entry) :
    (tree.put q entry).filesAt place = tree.filesAt place := by
  have hnew : fileAt? place (q, entry) = none := fileAt?_of_ne h
  have hkept : (tree.entries.filter (·.1 != q)).filterMap (fileAt? place) =
      tree.entries.filterMap (fileAt? place) := by
    induction tree.entries with
    | nil => rfl
    | cons e entries ih =>
      by_cases hq : e.1 = q
      · have hnone : fileAt? place e = none := fileAt?_of_ne (hq ▸ h)
        rw [List.filterMap_cons_none hnone, ← ih, List.filter_cons_of_neg (by simp [hq])]
      · rw [List.filter_cons_of_pos (by simp [hq]), List.filterMap_cons, List.filterMap_cons, ih]
  rw [filesAt, put, List.filterMap_append, hkept, List.filterMap_cons_none hnew]
  exact List.append_nil _

/-- A directory that is made where nothing stood is no file. -/
theorem filesAt_put_directory {q : Place} (hnone : tree.at? q = none) (place : Place) :
    (tree.put q .directory).filesAt place = tree.filesAt place := by
  have hlookup : tree.entries.lookup q = none := by
    unfold at? at hnone
    split at hnone
    · exact absurd hnone nofun
    · exact hnone
  have hkept : tree.entries.filter (·.1 != q) = tree.entries := by
    rw [List.filter_eq_self]
    intro e he
    have hne := List.lookup_eq_none_iff.mp hlookup e he
    exact bne_iff_ne.mpr (bne_iff_ne.mp hne).symm
  have hnew : fileAt? place (q, .directory) = none := rfl
  rw [filesAt, put, hkept, List.filterMap_append, List.filterMap_cons_none hnew]
  exact List.append_nil _

namespace Edits

variable {touched made : Place → Prop} {other : FileTree}

theorem filesAt_eq (h : Edits touched made tree other) {place : Place}
    (hplace : ∀ q, q.dropLast = place → ¬ touched q) :
    other.filesAt place = tree.filesAt place := by
  induction h with
  | refl => rfl
  | @put other _ q hq entry ih =>
    have hne : q.dropLast ≠ place := fun he => hplace q he hq
    rw [filesAt_put other hne, ih]
  | make _ _ hnone ih => rw [filesAt_put_directory hnone, ih]

end Edits

/-- A path does not lead through places where entries are put, nor through places where
directories are made, nor to a directory in which entries are put. -/
structure Avoids (tree : FileTree) (touched made : Place → Prop) (path : String) : Prop where
  through : ∀ q ∈ visited [] (steps path), ¬ touched q ∧ (made q → tree.at? q ≠ none)
  inside : ∀ q, q.dropLast = reach [] (steps path) → ¬ touched q

section Avoids

variable {touched made : Place → Prop} {other : FileTree} {path : String}
  (h : Edits touched made tree other) (hpath : tree.Avoids touched made path)
include h hpath

theorem Avoids.at?_eq {q : Place} (hq : q ∈ visited [] (steps path)) :
    other.at? q = tree.at? q :=
  h.at?_eq (hpath.through q hq).1 (hpath.through q hq).2

theorem Avoids.locate_eq : other.locate path = tree.locate path := by
  unfold locate
  split
  · rfl
  · exact follow_congr fun q hq => hpath.at?_eq h hq

/-- What a path located is seen there as before. -/
theorem Avoids.at?_locate_eq {q : Place} (hq : tree.locate path = .ok q) :
    other.at? q = tree.at? q := by
  unfold locate at hq
  split at hq
  · exact absurd hq nofun
  · rw [eq_reach_of_follow hq]
    exact hpath.at?_eq h (reach_mem_visited [] _)

theorem Avoids.read_eq : other.read path = tree.read path := by
  unfold read
  rw [hpath.locate_eq h]
  cases hlocate : tree.locate path with
  | error e => rfl
  | ok q =>
    change (match other.at? q with | _ => _) = _
    simp only [bind, Except.bind, hpath.at?_locate_eq h hlocate]

theorem Avoids.isDirectory_eq : other.isDirectory path = tree.isDirectory path := by
  unfold isDirectory
  rw [hpath.locate_eq h]
  cases hlocate : tree.locate path with
  | error e => rfl
  | ok q => simp only [isDirectoryAt, hpath.at?_locate_eq h hlocate]

theorem Avoids.filesIn_eq : other.filesIn path = tree.filesIn path := by
  have hsame := hpath.locate_eq h
  cases hlocate : tree.locate path with
  | error e => rw [filesIn_of_locate_error hlocate, filesIn_of_locate_error (hsame ▸ hlocate)]
  | ok q =>
    have hq : q = reach [] (steps path) := by
      unfold locate at hlocate
      split at hlocate
      · exact absurd hlocate nofun
      · exact eq_reach_of_follow hlocate
    have hinside : other.filesAt q = tree.filesAt q :=
      h.filesAt_eq fun p hp => hpath.inside p (hp.trans hq)
    rw [filesIn_of_locate hlocate, filesIn_of_locate (hsame ▸ hlocate), hinside]

end Avoids

end Rollout.FileTree
