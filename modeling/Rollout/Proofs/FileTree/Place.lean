import Mathlib.Data.List.Basic
import Rollout.FileTree
import Rollout.Proofs.Success

/-!
# Where paths lead

A step leads from a place to the next one whatever the tree holds. What the tree holds
decides only whether the steps can be followed: every place that they lead through has to be a
directory. Making steps makes directories of those that are missing.
-/

namespace Rollout.FileTree

/-- The place that one step leads to. -/
def next (place : Place) (step : String) : Place :=
  if step.isEmpty || step == "." then place
  else if step == ".." then outOf place
  else place ++ [step]

/-- The place that steps lead to. -/
def reach (place : Place) (steps : List String) : Place := steps.foldl next place

/-- The places that steps lead through, from the first to the last. -/
def visited (place : Place) : List String → List Place
  | [] => [place]
  | step :: steps => place :: visited (next place step) steps

/-- A step that leads into what lies below a place. -/
structure IsName (step : String) : Prop where
  nonempty : step ≠ ""
  notHere : step ≠ "."
  notOut : step ≠ ".."

theorem next_of_isName (place : Place) {step : String} (h : IsName step) :
    next place step = place ++ [step] := by
  simp [next, String.isEmpty_iff, h.nonempty, h.notHere, h.notOut]

section Reach

variable (place : Place)

theorem reach_of_names {names : List String} (h : ∀ n ∈ names, IsName n) :
    reach place names = place ++ names := by
  induction names generalizing place with
  | nil => exact (List.append_nil place).symm
  | cons n names ih =>
    obtain ⟨hn, hnames⟩ := List.forall_mem_cons.mp h
    rw [reach, List.foldl_cons, next_of_isName place hn, ← reach, ih _ hnames]
    simp

theorem mem_visited_self (steps : List String) : place ∈ visited place steps := by
  cases steps <;> exact List.mem_cons_self

theorem reach_mem_visited (steps : List String) : reach place steps ∈ visited place steps := by
  induction steps generalizing place with
  | nil => exact List.mem_singleton_self _
  | cons step steps ih => exact List.mem_cons_of_mem _ (ih (next place step))

end Reach

section Follow

variable {tree : FileTree}

theorem follow_cons_of_directory {place : Place} (h : tree.at? place = some .directory)
    (step : String) (steps : List String) :
    tree.follow place (step :: steps) = tree.follow (next place step) steps := by
  rw [follow, h, next]
  dsimp only
  split
  · rfl
  · split <;> rfl

/-- Two trees that agree on the places along a path take it alike. -/
theorem follow_congr {other : FileTree} {place : Place} {steps : List String}
    (h : ∀ q ∈ visited place steps, tree.at? q = other.at? q) :
    tree.follow place steps = other.follow place steps := by
  induction steps generalizing place with
  | nil => rfl
  | cons step steps ih =>
    have hhere := h place List.mem_cons_self
    have hrest := ih fun q hq => h q (List.mem_cons_of_mem _ hq)
    cases hentry : tree.at? place with
    | none =>
      rw [follow, hentry, follow, ← hhere, hentry]
    | some entry =>
      cases entry with
      | file content => rw [follow, hentry, follow, ← hhere, hentry]
      | directory =>
        rw [follow_cons_of_directory hentry, follow_cons_of_directory (hhere ▸ hentry), hrest]

theorem eq_reach_of_follow {place q : Place} {steps : List String}
    (h : tree.follow place steps = .ok q) : q = reach place steps := by
  induction steps generalizing place with
  | nil => exact (Except.ok.inj h).symm
  | cons step steps ih =>
    cases hentry : tree.at? place with
    | none => rw [follow, hentry] at h; exact absurd h nofun
    | some entry =>
      cases entry with
      | file content => rw [follow, hentry] at h; exact absurd h nofun
      | directory =>
        rw [follow_cons_of_directory hentry] at h
        exact ih h

/-- Nothing stands where a path leads, and no file stands in its way. -/
structure Lacks (tree : FileTree) (path : String) : Prop where
  absent : tree.pathExists path = false
  unobstructed : tree.locate path ≠ .error .notDirectory

/-- Following steps fails for what stands on the way, not for what they lead to. -/
theorem follow_ne_isDirectory {place : Place} {steps : List String} :
    tree.follow place steps ≠ .error .isDirectory := by
  induction steps generalizing place with
  | nil => exact nofun
  | cons step steps ih =>
    cases h : tree.at? place with
    | none =>
      rw [follow, h]
      exact nofun
    | some entry =>
      cases entry with
      | file content =>
        rw [follow, h]
        exact nofun
      | directory =>
        rw [follow_cons_of_directory h]
        exact ih

theorem read_eq_notFound_iff {path : String} :
    tree.read path = .error .notFound ↔ tree.Lacks path := by
  have hlacks : tree.Lacks path ↔
      tree.pathExists path = false ∧ tree.locate path ≠ .error .notDirectory :=
    ⟨fun h => ⟨h.absent, h.unobstructed⟩, fun h => ⟨h.1, h.2⟩⟩
  rw [hlacks, read, pathExists]
  cases h : tree.locate path with
  | error fault =>
    have hfault : fault ≠ .isDirectory := by
      rintro rfl
      unfold locate at h
      split at h
      · exact absurd h nofun
      · exact follow_ne_isDirectory h
    cases fault <;> simp_all [bind, Except.bind]
  | ok place =>
    cases hentry : tree.at? place with
    | none => simp [bind, Except.bind, hentry]
    | some entry => cases entry <;> simp [bind, Except.bind, hentry]

end Follow

end Rollout.FileTree
