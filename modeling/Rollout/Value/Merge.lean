import Rollout.Value.Path

/-!
# Layering values

One value is laid over another: two mappings are merged key by key, and anywhere else
the upper value takes the place of the lower one.

What is still to be laid over something is kept in a list, with the place where it belongs.
Where two mappings meet, the lower one is first given the keys that it lacks, and then all
that the upper one has joins the list, each value with the place of its key.
-/

namespace Rollout.Value

mutual

/-- How many values a value is made of, those inside of its mappings included. -/
def size : Value → Nat
  | .mapping entries => 1 + sizeAll entries
  | _ => 1

/-- How many values the entries of a mapping are made of. -/
def sizeAll : List (String × Value) → Nat
  | [] => 0
  | (_, v) :: rest => size v + sizeAll rest

end

/-- What the upper one of two mappings has for the keys of the lower one, in the order in
which the lower one has them. -/
def shared : Assoc Value → Assoc Value → Assoc Value
  | [], _ => []
  | (key, _) :: base, top =>
    match top.get? key with
    | some v => (key, v) :: shared base (top.erase key)
    | none => shared base top

theorem size_pos (v : Value) : 0 < v.size := by
  cases v with
  | mapping entries => exact Nat.lt_add_right _ Nat.one_pos
  | _ => exact Nat.one_pos

theorem sizeAll_erase_le (top : Assoc Value) (key : String) :
    sizeAll (top.erase key) ≤ sizeAll top := by
  induction top with
  | nil => exact Nat.le_refl _
  | cons e top ih =>
    rw [Assoc.erase] at ih ⊢
    rw [List.filter_cons]
    split
    · exact Nat.add_le_add_left ih _
    · exact Nat.le_trans ih (Nat.le_add_left _ _)

theorem size_add_sizeAll_erase_le {top : Assoc Value} {key : String} {v : Value}
    (h : top.get? key = some v) : v.size + sizeAll (top.erase key) ≤ sizeAll top := by
  induction top with
  | nil => exact absurd h nofun
  | cons e top ih =>
    obtain ⟨k, w⟩ := e
    rw [Assoc.get?_cons] at h
    by_cases hkey : key = k
    · rw [if_pos hkey] at h
      obtain rfl := Option.some.inj h
      have hrest := sizeAll_erase_le top key
      simpa [Assoc.erase, hkey, sizeAll] using hrest
    · rw [if_neg hkey] at h
      have hrest := ih h
      simp only [Assoc.erase] at hrest
      simp only [Assoc.erase, List.filter_cons, bne_iff_ne, ne_eq, Ne.symm hkey, not_false_eq_true,
        if_true, sizeAll]
      omega

theorem sizeAll_shared_le (base top : Assoc Value) : sizeAll (shared base top) ≤ sizeAll top := by
  induction base generalizing top with
  | nil => exact Nat.zero_le _
  | cons e base ih =>
    obtain ⟨key, w⟩ := e
    rw [shared]
    split
    next v h =>
      exact Nat.le_trans (Nat.add_le_add_left (ih _) _) (size_add_sizeAll_erase_le h)
    next => exact ih top

/-- What is still to be laid over a value: each time a place inside of it, and what comes
there. -/
abbrev Layers := List (List String × Value)

/-- The layers that the entries of a mapping at a place make. -/
def layersAt (place : List String) (entries : Assoc Value) : Layers :=
  entries.map fun (key, v) => (place ++ [key], v)

/-- How many values the layers are made of. -/
def Layers.size : Layers → Nat
  | [] => 0
  | (_, top) :: layers => top.size + Layers.size layers

theorem size_append (layers others : Layers) :
    Layers.size (layers ++ others) = layers.size + others.size := by
  induction layers with
  | nil => exact (Nat.zero_add _).symm
  | cons layer layers ih => rw [List.cons_append, Layers.size, Layers.size, ih, Nat.add_assoc]

theorem size_layersAt (place : List String) (entries : Assoc Value) :
    (layersAt place entries).size = sizeAll entries := by
  induction entries with
  | nil => rfl
  | cons e entries ih =>
    rw [layersAt, List.map_cons, ← layersAt, Layers.size, sizeAll, ih]

/-- Lay over a value all that is still to be laid over it. The place of each layer exists in
the value, and each step takes one value away from the layers. -/
@[semireducible]
def mergeAll (v : Value) : Layers → Value
  | [] => v
  | (place, top) :: layers =>
    match v.at? place, top with
    | some (.mapping base), .mapping entries =>
      let filled := Assoc.insertAllNew base entries
      mergeAll (v.putAt place (.mapping filled)) (layersAt place (shared filled entries) ++ layers)
    | _, top => mergeAll (v.putAt place top) layers
termination_by layers => layers.size
decreasing_by
  · have hshared := sizeAll_shared_le (Assoc.insertAllNew base entries) entries
    simp only [size_append, size_layersAt, Layers.size, size]
    omega
  · have htop := top.size_pos
    simp only [Layers.size]
    omega

/-- Lay `top` over a value. -/
def merge (base top : Value) : Value := mergeAll base [([], top)]

end Rollout.Value
