import Rollout.Proofs.FileTree.Make

/-!
# Writing a file below a directory

A file is written where its steps lead from an open directory, if no other file is in the way
and no directory stands in its place. Seen from that directory the file is there afterwards, what
leads to it are directories, and everything else is as before.
-/

namespace Rollout.FileTree

/-- Put a file where a last step leads, unless a directory is there. -/
def placeFile (tree : FileTree) (place : Place) (last : String) (content : Bytes) :
    Except FileFault FileTree :=
  match tree.at? (next place last) with
  | some .directory => .error .isDirectory
  | _ => .ok (tree.put (next place last) (.file content))

/-- Write a file where steps and a last one lead from a place. -/
def writeFrom (tree : FileTree) (place : Place) (front : List String) (last : String)
    (content : Bytes) : Except FileFault FileTree :=
  tree.makeSteps place front >>= fun (other, q) => other.placeFile q last content

variable {tree other : FileTree} {base : Place} {front : List String} {last : String}
  {content : Bytes}

/-- Writing makes the steps up to the last and puts the file where that one leads. -/
theorem write_eq (tree : FileTree) {path : String} (hpath : Text.startsWith path "/" = false)
    (hsteps : steps path = front ++ [last]) (content : Bytes) :
    tree.write path content = tree.writeFrom [] front last content := by
  have hdrop : (front ++ [last]).dropLast = front := List.dropLast_concat
  have hlast : (front ++ [last]).getLast?.toList = [last] := by
    rw [List.getLast?_concat]
    rfl
  rw [write, hpath, hsteps, if_neg Bool.false_ne_true]
  dsimp only
  rw [hdrop, hlast, writeFrom]
  cases hmake : tree.makeSteps [] front with
  | error e => rfl
  | ok made =>
    obtain ⟨other, q⟩ := made
    have hdirectory := (makes_of_makeSteps (.nil tree) hmake).isOpen.at?_self
    have hfollow : other.follow q [last] = .ok (next q last) :=
      follow_cons_of_directory hdirectory last []
    simp only [bind, Except.bind, hfollow]
    rfl

/-- What stands below a place. -/
def below (tree : FileTree) (base : Place) : Place → Option Entry := fun q => tree.at? (base ++ q)

/-- A file can be written: no file is in the way of its names, and no directory in its place. -/
structure Fits (view : Place → Option Entry) (names : List String) : Prop where
  way : ∀ a, a <+: names → a ≠ names → ∀ content, view a ≠ some (.file content)
  place : view names ≠ some .directory

/-- What stands below a place when a file has been written. -/
def placed (view : Place → Option Entry) (names : List String) (content : Bytes) :
    Place → Option Entry := fun q =>
  if q = names then some (.file content)
  else if q <+: names then some .directory
  else view q

/-- A place that names lead to from another. -/
def Inside (base q : Place) : Prop := ∃ n rest, IsName n ∧ q = base ++ n :: rest

/-- What writing a file has done to a tree. -/
structure Wrote (base : Place) (names : List String) (content : Bytes) (tree other : FileTree) :
    Prop where
  edits : Edits (Inside base) (· = base) tree other
  below_eq : other.below base = placed (tree.below base) names content
  keeps : ∀ q, tree.at? q = some .directory → other.at? q = some .directory

/-- A last step that is no name leads to a directory, and no file is put there. -/
theorem isName_of_writeFrom (hopen : tree.Open base)
    (h : tree.writeFrom base front last content = .ok other) : IsName last := by
  obtain ⟨⟨made, q⟩, hmake, hplace⟩ := bind_eq_ok_iff.mp h
  have hisOpen := (makes_of_makeSteps hopen hmake).isOpen
  by_contra hname
  have hdirectory : made.at? (next q last) = some .directory := by
    unfold next
    split
    · exact hisOpen.at?_self
    · split
      · exact hisOpen.outOf.at?_self
      · rename_i hhere hout
        rw [Bool.or_eq_true, String.isEmpty_iff, beq_iff_eq, not_or] at hhere
        rw [beq_iff_eq] at hout
        exact absurd ⟨hhere.1, hhere.2, hout⟩ hname
  change placeFile made q last content = .ok other at hplace
  rw [placeFile, hdirectory] at hplace
  exact absurd hplace nofun

/-- The names that steps and a last one lead through. -/
def trail (front : List String) (last : String) : List String := moves front ++ [last]

section Trail

variable (hfront : ∀ n ∈ moves front, IsName n)
include hfront

theorem inside_of_begins_trail (hlast : IsName last) {a : Place} (ha : a <+: trail front last)
    (hne : a ≠ []) : Inside base (base ++ a) := by
  obtain ⟨n, rest, rfl⟩ := List.exists_cons_of_ne_nil hne
  refine ⟨n, rest, ?_, rfl⟩
  obtain hn | hn := List.mem_append.mp (ha.subset List.mem_cons_self)
  · exact hfront n hn
  · exact List.mem_singleton.mp hn ▸ hlast

omit hfront in
theorem prefix_trail_iff {a : Place} :
    a <+: trail front last ↔ a = trail front last ∨ a <+: moves front :=
  List.prefix_concat_iff

omit hfront in
theorem trail_not_prefix : ¬ trail front last <+: moves front := by
  intro h
  have hlength := h.length_le
  rw [trail, List.length_append, List.length_singleton] at hlength
  omega

/-- Making the front of a trail makes directories of the places along it, and no others. -/
theorem at?_makeSteps_front (hopen : tree.Open base) {q : Place}
    (h : tree.makeSteps base front = .ok (other, q)) :
    q = base ++ moves front ∧ other.Open q ∧
      Edits (fun _ => False) (fun p => ∃ a, a <+: moves front ∧ p = base ++ a) tree other ∧
      ∀ a, other.at? (base ++ a) =
        if a <+: moves front then some .directory else tree.at? (base ++ a) := by
  rw [← makeSteps_moves] at h
  have hmakes := makes_of_makeSteps hopen h
  refine ⟨hmakes.last_eq.trans (reach_of_names base hfront), hmakes.isOpen, ?_, fun a => ?_⟩
  · refine hmakes.edits.mono (fun _ => id) fun p hp => .inr ?_
    exact (mem_visited_names hfront).mp hp
  · split
    · rename_i ha
      exact hmakes.directories _ ((mem_visited_names hfront).mpr ⟨a, ha, rfl⟩)
    · rename_i ha
      refine hmakes.edits.at?_eq id fun hmade => absurd ?_ ha
      obtain ⟨b, hb, heq⟩ := (mem_visited_names hfront).mp hmade
      exact List.append_cancel_left heq ▸ hb

theorem writeFrom_of_isName (hopen : tree.Open base) (hlast : IsName last) {made : FileTree}
    {q : Place} (h : tree.makeSteps base front = .ok (made, q)) (content : Bytes) :
    tree.writeFrom base front last content =
      match tree.at? (base ++ trail front last) with
      | some .directory => .error .isDirectory
      | _ => .ok (made.put (base ++ trail front last) (.file content)) := by
  obtain ⟨rfl, -, -, hview⟩ := at?_makeSteps_front hfront hopen h
  have hnext : next (base ++ moves front) last = base ++ trail front last := by
    rw [next_of_isName _ hlast, trail, List.append_assoc]
  have htarget : made.at? (base ++ trail front last) = tree.at? (base ++ trail front last) := by
    rw [hview, if_neg trail_not_prefix]
  rw [writeFrom, h]
  change placeFile made (base ++ moves front) last content = _
  rw [placeFile, hnext, htarget]

/-- A file is written just when its last step is a name and it fits. -/
theorem writeFrom_ok_iff (hopen : tree.Open base) (content : Bytes) :
    (∃ t, tree.writeFrom base front last content = .ok t) ↔
      IsName last ∧ Fits (tree.below base) (trail front last) := by
  have hway : (∃ made, tree.makeSteps base front = .ok made) ↔
      ∀ a, a <+: trail front last → a ≠ trail front last →
        ∀ content, tree.below base a ≠ some (.file content) := by
    rw [← makeSteps_moves, makeSteps_names_iff hfront hopen]
    refine forall_congr' fun a => ?_
    rw [prefix_trail_iff]
    constructor
    · rintro h (rfl | ha) hne
      · exact absurd rfl hne
      · exact h ha
    · intro h ha
      refine h (.inr ha) ?_
      rintro rfl
      exact trail_not_prefix ha
  constructor
  · rintro ⟨t, ht⟩
    have hlast := isName_of_writeFrom hopen ht
    obtain ⟨⟨made, q⟩, hmake, -⟩ := bind_eq_ok_iff.mp ht
    refine ⟨hlast, hway.mp ⟨_, hmake⟩, fun hdirectory => ?_⟩
    change tree.at? (base ++ trail front last) = some .directory at hdirectory
    rw [writeFrom_of_isName hfront hopen hlast hmake, hdirectory] at ht
    exact absurd ht nofun
  · rintro ⟨hlast, hfits⟩
    obtain ⟨⟨made, q⟩, hmake⟩ := hway.mpr hfits.way
    rw [writeFrom_of_isName hfront hopen hlast hmake]
    have hplace := hfits.place
    unfold below at hplace
    split
    · contradiction
    · exact ⟨_, rfl⟩

theorem wrote_of_writeFrom (hopen : tree.Open base)
    (h : tree.writeFrom base front last content = .ok other) :
    Wrote base (trail front last) content tree other := by
  have hlast := isName_of_writeFrom hopen h
  obtain ⟨⟨made, q⟩, hmake, -⟩ := bind_eq_ok_iff.mp h
  obtain ⟨-, -, hedits, hview⟩ := at?_makeSteps_front hfront hopen hmake
  rw [writeFrom_of_isName hfront hopen hlast hmake] at h
  have hplace : tree.at? (base ++ trail front last) ≠ some .directory := by
    intro hdirectory
    rw [hdirectory] at h
    exact absurd h nofun
  have hother : other = made.put (base ++ trail front last) (.file content) := by
    split at h
    · contradiction
    · exact (Except.ok.inj h).symm
  have hinner : isOuter (base ++ trail front last) = false := by
    rw [isOuter, List.all_eq_false]
    refine ⟨last, by simp [trail], ?_⟩
    simpa using hlast.notOut
  have htarget : Inside base (base ++ trail front last) :=
    inside_of_begins_trail hfront hlast List.prefix_rfl (List.append_ne_nil_of_right_ne_nil _ nofun)
  refine ⟨?_, funext fun a => ?_, fun p hp => ?_⟩
  · rw [hother]
    refine .put (hedits.mono (fun _ => False.elim) fun p hp => ?_) htarget _
    obtain ⟨a, ha, rfl⟩ := hp
    by_cases hne : a = []
    · exact .inr (hne ▸ List.append_nil base)
    · exact .inl (inside_of_begins_trail hfront hlast (prefix_trail_iff.mpr (.inr ha)) hne)
  · rw [below, hother, placed]
    by_cases htrail : a = trail front last
    · rw [if_pos htrail, htrail, at?_put_self hinner]
    · have hne : base ++ a ≠ base ++ trail front last := fun heq =>
        htrail (List.append_cancel_left heq)
      have hway : a <+: trail front last ↔ a <+: moves front := by
        rw [prefix_trail_iff, or_iff_right htrail]
      rw [if_neg htrail, at?_put_of_ne hne, hview]
      simp only [hway]
      rfl
  · have hmade : made.at? p = some .directory := hedits.keeps_directory hp
    have hne : p ≠ base ++ trail front last := fun heq => hplace (heq ▸ hp)
    rw [hother, at?_put_of_ne hne, hmade]

end Trail

end Rollout.FileTree
