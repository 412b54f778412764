import Rollout.Proofs.FileTree.Edit

/-!
# Making directories

Steps that are made lead where they would lead anyway. They can be made as long as no file is
in their way, and what they change is that the places along the way are directories afterwards.
-/

namespace Rollout.FileTree

variable {tree other : FileTree} {place : Place}

/-- A place and all that it lies in are directories. -/
def Open (tree : FileTree) (place : Place) : Prop :=
  ∀ q, q <+: place → tree.at? q = some .directory

namespace Open

theorem nil (tree : FileTree) : tree.Open [] := by
  intro q hq
  obtain rfl := List.prefix_nil.mp hq
  exact at?_of_isOuter tree rfl

theorem at?_self (h : tree.Open place) : tree.at? place = some .directory :=
  h place List.prefix_rfl

theorem outOf (h : tree.Open place) : tree.Open (outOf place) := by
  intro q hq
  unfold FileTree.outOf at hq
  split at hq
  · rename_i houter
    refine at?_of_isOuter tree (List.all_eq_true.mpr fun name hname => ?_)
    obtain hname | hname := List.mem_append.mp (hq.subset hname)
    · exact List.all_eq_true.mp houter name hname
    · exact beq_iff_eq.mpr (List.mem_singleton.mp hname)
  · exact h q (hq.trans (List.dropLast_prefix place))

/-- A step leads to an open place if it leads to a directory. -/
theorem next (h : tree.Open place) {step : String}
    (hnext : tree.at? (next place step) = some .directory) :
    tree.Open (FileTree.next place step) := by
  unfold FileTree.next at hnext ⊢
  split
  · exact h
  · split
    · exact h.outOf
    · rename_i hhere hout
      rw [if_neg hhere, if_neg hout] at hnext
      intro q hq
      obtain rfl | hq := List.prefix_concat_iff.mp hq
      · exact hnext
      · exact h q hq

end Open

/-- A directory stays one when directories are made elsewhere. -/
theorem at?_put_directory_of_directory {q : Place} (h : tree.at? q = some .directory)
    (place : Place) : (tree.put place .directory).at? q = some .directory := by
  rw [at?_put_directory]
  split
  · rfl
  · exact h

/-- One step of making: what matters is what stands where it leads. -/
theorem makeSteps_cons (h : tree.Open place) (step : String) (steps : List String) :
    tree.makeSteps place (step :: steps) =
      match tree.at? (next place step) with
      | some .directory => tree.makeSteps (next place step) steps
      | some (.file _) => .error .notDirectory
      | none => (tree.put (next place step) .directory).makeSteps (next place step) steps := by
  rw [makeSteps]
  unfold next
  split
  · rw [h.at?_self]
  · split
    · rw [h.outOf.at?_self]
    · rfl

/-- What making steps has done to a tree. -/
structure Makes (tree : FileTree) (place : Place) (steps : List String) (other : FileTree)
    (last : Place) : Prop where
  edits : Edits (fun _ => False) (· ∈ visited place steps) tree other
  last_eq : last = reach place steps
  directories : ∀ q ∈ visited place steps, other.at? q = some .directory
  isOpen : other.Open last

/-- Directories stay directories. -/
theorem Edits.keeps_directory {made : Place → Prop} (h : Edits (fun _ => False) made tree other)
    {q : Place} (hq : tree.at? q = some .directory) : other.at? q = some .directory := by
  rw [h.at?_eq id fun _ => by rw [hq]; exact nofun]
  exact hq

theorem makes_of_makeSteps {steps : List String} {last : Place} (hopen : tree.Open place)
    (h : tree.makeSteps place steps = .ok (other, last)) : Makes tree place steps other last := by
  induction steps generalizing tree place with
  | nil =>
    obtain ⟨rfl, rfl⟩ := Prod.mk.inj (Except.ok.inj h)
    refine ⟨.refl, rfl, fun q hq => ?_, hopen⟩
    obtain rfl := List.mem_singleton.mp hq
    exact hopen.at?_self
  | cons step steps ih =>
    rw [makeSteps_cons hopen] at h
    have hnext : next place step ∈ visited place (step :: steps) :=
      List.mem_cons_of_mem place (mem_visited_self _ steps)
    -- whether or not the next place was there, from there on it is a directory of an open tree
    have hrest : ∀ {start : FileTree},
        Edits (fun _ => False) (· ∈ visited place (step :: steps)) tree start →
        start.Open place → start.at? (next place step) = some .directory →
        start.makeSteps (next place step) steps = .ok (other, last) →
        Makes tree place (step :: steps) other last := by
      intro start hstart hplace hdirectory hmade
      have hmakes := ih (hplace.next hdirectory) hmade
      refine ⟨hstart.trans ?_, hmakes.last_eq, fun q hq => ?_, hmakes.isOpen⟩
      · exact hmakes.edits.mono (fun _ => id) fun q hq => .inr (List.mem_cons_of_mem place hq)
      · obtain rfl | hq := List.mem_cons.mp hq
        · exact hmakes.edits.keeps_directory hplace.at?_self
        · exact hmakes.directories q hq
    cases hentry : tree.at? (next place step) with
    | none =>
      rw [hentry] at h
      have hinner : isOuter (next place step) = false := by
        by_contra houter
        rw [Bool.not_eq_false] at houter
        exact absurd ((at?_of_isOuter tree houter).symm.trans hentry) nofun
      refine hrest (.make .refl hnext hentry) (fun q hq => ?_) (at?_put_self hinner _) h
      exact at?_put_directory_of_directory (hopen q hq) _
    | some entry =>
      cases entry with
      | file content => rw [hentry] at h; exact absurd h nofun
      | directory =>
        rw [hentry] at h
        exact hrest .refl hopen hentry h

/-- Steps through directories change nothing. -/
theorem makeSteps_of_directories {steps : List String} (hopen : tree.Open place)
    (h : ∀ q ∈ visited place steps, tree.at? q = some .directory) :
    tree.makeSteps place steps = .ok (tree, reach place steps) := by
  induction steps generalizing place with
  | nil => rfl
  | cons step steps ih =>
    have hnext := h _ (List.mem_cons_of_mem place (mem_visited_self _ steps))
    rw [makeSteps_cons hopen, hnext]
    exact ih (hopen.next hnext) fun q hq => h q (List.mem_cons_of_mem place hq)

theorem makeSteps_append (tree : FileTree) (place : Place) (a b : List String) :
    tree.makeSteps place (a ++ b) =
      (tree.makeSteps place a >>= fun (other, q) => other.makeSteps q b) := by
  induction a generalizing tree place with
  | nil => rfl
  | cons step a ih =>
    rw [List.cons_append, makeSteps, makeSteps]
    split
    · exact ih tree place
    · split
      · exact ih tree (outOf place)
      · dsimp only
        split
        · exact ih tree _
        · rfl
        · exact ih _ _

/-- The steps that lead somewhere else. -/
def moves (steps : List String) : List String := steps.filter fun s => !(s.isEmpty || s == ".")

theorem makeSteps_moves (tree : FileTree) (place : Place) (steps : List String) :
    tree.makeSteps place (moves steps) = tree.makeSteps place steps := by
  induction steps generalizing tree place with
  | nil => rfl
  | cons step steps ih =>
    by_cases hstep : (step.isEmpty || step == ".") = true
    · rw [moves, List.filter_cons_of_neg (by simp [hstep]), ← moves, ih, makeSteps, if_pos hstep]
    · rw [moves, List.filter_cons_of_pos (by simp [hstep]), ← moves, makeSteps, makeSteps,
        if_neg hstep, if_neg hstep]
      split
      · exact ih tree (outOf place)
      · dsimp only
        split
        · exact ih tree _
        · rfl
        · exact ih _ _

/-! ### Making names -/

/-- What begins a list is empty or begins with its first item. -/
theorem forall_prefix_cons {α : Type} {p : List α → Prop} {x : α} {xs : List α} :
    (∀ a, a <+: x :: xs → p a) ↔ p [] ∧ ∀ a, a <+: xs → p (x :: a) := by
  constructor
  · intro h
    exact ⟨h [] List.nil_prefix, fun a ha => h (x :: a) (List.cons_prefix_cons.mpr ⟨rfl, ha⟩)⟩
  · rintro ⟨hnil, hcons⟩ a ha
    cases a with
    | nil => exact hnil
    | cons y a =>
      obtain ⟨rfl, hinner⟩ := List.cons_prefix_cons.mp ha
      exact hcons a hinner

section Names

variable {names : List String} (hnames : ∀ n ∈ names, IsName n)
include hnames

theorem mem_visited_names {q : Place} :
    q ∈ visited place names ↔ ∃ a, a <+: names ∧ q = place ++ a := by
  -- the negation speaks of all that begins the names
  rw [← not_iff_not, not_exists]
  simp only [not_and]
  induction names generalizing place with
  | nil => simp [visited]
  | cons n names ih =>
    obtain ⟨hn, hrest⟩ := List.forall_mem_cons.mp hnames
    rw [visited, List.mem_cons, not_or, next_of_isName place hn, ih hrest, forall_prefix_cons,
      List.append_nil]
    simp only [List.append_assoc, List.singleton_append]

/-- Names can be made unless a file is in their way. -/
theorem makeSteps_names_iff (hopen : tree.Open place) :
    (∃ made, tree.makeSteps place names = .ok made) ↔
      ∀ a, a <+: names → ∀ content, tree.at? (place ++ a) ≠ some (.file content) := by
  induction names generalizing tree place with
  | nil =>
    refine iff_of_true ⟨_, rfl⟩ fun a ha content => ?_
    rw [List.prefix_nil.mp ha, List.append_nil, hopen.at?_self]
    exact nofun
  | cons n names ih =>
    obtain ⟨hn, hrest⟩ := List.forall_mem_cons.mp hnames
    have hhead : next place n = place ++ [n] := next_of_isName place hn
    have hhere : ∀ content, tree.at? (place ++ []) ≠ some (.file content) := by
      intro content
      rw [List.append_nil, hopen.at?_self]
      exact nofun
    have hbehind : ∀ {t : FileTree}, t.Open (place ++ [n]) →
        ((∃ made, t.makeSteps (place ++ [n]) names = .ok made) ↔ ∀ a, a <+: names →
          ∀ content, t.at? (place ++ n :: a) ≠ some (.file content)) := by
      intro t ht
      simpa only [List.append_assoc, List.singleton_append] using ih hrest ht
    rw [makeSteps_cons hopen, hhead, forall_prefix_cons, and_iff_right hhere]
    cases hentry : tree.at? (place ++ [n]) with
    | some entry =>
      cases entry with
      | file content => exact iff_of_false (by simp) fun h => h [] List.nil_prefix content hentry
      | directory => exact hbehind (hhead ▸ hopen.next (hhead ▸ hentry))
    | none =>
      have hput : (tree.put (place ++ [n]) .directory).at? (place ++ [n]) = some .directory := by
        rw [at?_put_directory, if_pos rfl]
      have hold : (tree.put (place ++ [n]) .directory).Open place := fun q hq =>
        at?_put_directory_of_directory (hopen q hq) _
      have hplace : (tree.put (place ++ [n]) .directory).Open (place ++ [n]) :=
        hhead ▸ hold.next (hhead.symm ▸ hput)
      -- where the directory was made there was no file, and it is in nobody's way
      refine (hbehind hplace).trans (forall_congr' fun a => imp_congr_right fun _ => ?_)
      cases a with
      | nil => rw [hput, hentry]; exact iff_of_true nofun nofun
      | cons m a =>
        have hne : place ++ n :: m :: a ≠ place ++ [n] := by simp
        rw [at?_put_of_ne hne]

end Names

end Rollout.FileTree
