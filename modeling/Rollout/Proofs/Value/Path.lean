import Rollout.Proofs.Assoc
import Rollout.Value.Path

/-!
# Writing at a path

What is written at a path is read there, and on all paths that lead elsewhere everything is read
that was there before, whatever had to give way to the new value.
-/

namespace Rollout.Value

variable {p q : List String} {v w : Value}

/-- Neither of two paths leads on from where the other one ends, and they do not end at one
place. -/
def Apart (p q : List String) : Prop := ¬ p <+: q ∧ ¬ q <+: p

instance (p q : List String) : Decidable (Apart p q) := inferInstanceAs (Decidable (_ ∧ _))

theorem Apart.symm (h : Apart p q) : Apart q p := ⟨h.2, h.1⟩

theorem apart_cons_iff {key : String} : Apart (key :: p) (key :: q) ↔ Apart p q := by
  rw [Apart, Apart, List.prefix_cons_inj, List.prefix_cons_inj]

theorem Apart.ne_nil (h : Apart p q) : q ≠ [] := by
  rintro rfl
  exact h.2 List.nil_prefix

theorem field?_mapping (entries : Assoc Value) (key : String) :
    (mapping entries).field? key = entries.get? key :=
  rfl

/-- Nothing is inside of an empty mapping. -/
theorem at?_empty (h : q ≠ []) : empty.at? q = none := by
  cases q with
  | nil => exact absurd rfl h
  | cons key q => rfl

theorem at?_singleton (v : Value) (key : String) : v.at? [key] = v.field? key := by
  rw [at?]
  cases v.field? key <;> rfl

/-- Null has no fields, so that a path can be read key by key with null for what is missing. -/
theorem at?_cons_cons (v : Value) (key next : String) (keys : List String) :
    v.at? (key :: next :: keys) = ((v.field? key).getD .null).at? (next :: keys) := by
  rw [at?]
  cases v.field? key <;> rfl

theorem getD_map_items (v : Option Value) : (v.map items).getD [] = (v.getD .null).items := by
  cases v <;> rfl

theorem getD_map_entries (v : Option Value) :
    (v.map entries).getD [] = (v.getD .null).entries := by
  cases v <;> rfl

theorem field?_eq_get?_entries (v : Value) (key : String) : v.field? key = v.entries.get? key := by
  cases v <;> rfl

theorem field?_putAt (v : Value) (key other : String) (keys : List String) (new : Value) :
    (v.putAt (key :: keys) new).field? other =
      if other = key then some (((v.field? key).getD .empty).putAt keys new)
      else v.field? other := by
  rw [putAt, field?_mapping, Assoc.get?_insert, field?_eq_get?_entries v other]

/-- What is written at a path is read there. -/
theorem at?_putAt_self (v : Value) (p : List String) (new : Value) :
    (v.putAt p new).at? p = some new := by
  induction p generalizing v with
  | nil => rfl
  | cons key p ih =>
    rw [at?, field?_putAt, if_pos rfl]
    exact ih _

/-- What is read on a path that leads elsewhere stays. -/
theorem at?_putAt_of_apart (h : Apart p q) (v new : Value) :
    (v.putAt p new).at? q = v.at? q := by
  induction p generalizing v q with
  | nil => exact absurd List.nil_prefix h.1
  | cons key p ih =>
    cases q with
    | nil => exact absurd rfl h.ne_nil
    | cons other q =>
      rw [at?, at?, field?_putAt]
      by_cases hkey : other = key
      · subst hkey
        have hpq : Apart p q := apart_cons_iff.mp h
        rw [if_pos rfl, Option.bind_some, ih hpq]
        cases hfield : v.field? other with
        | none =>
          show empty.at? q = none
          exact at?_empty hpq.ne_nil
        | some inner => rfl
      · rw [if_neg hkey]

theorem at?_append (v : Value) (p q : List String) : v.at? (p ++ q) = (v.at? p).bind (·.at? q) := by
  induction p generalizing v with
  | nil => rfl
  | cons key p ih =>
    rw [List.cons_append, at?, at?, Option.bind_assoc]
    exact Option.bind_congr fun inner _ => ih inner

/-- Writing at a place what stands there changes nothing. -/
theorem putAt_of_at? (h : v.at? p = some w) : v.putAt p w = v := by
  induction p generalizing v with
  | nil => exact (Option.some.inj h).symm
  | cons key p ih =>
    obtain ⟨inner, hinner, hp⟩ := Option.bind_eq_some_iff.mp h
    cases v with
    | mapping entries =>
      rw [field?_mapping] at hinner
      rw [putAt, field?_mapping, hinner, Option.getD_some, ih hp]
      exact congrArg mapping (Assoc.insert_of_get? hinner)
    | _ => exact absurd hinner nofun

/-- Of two values that are written at one place, the second one stays. -/
theorem putAt_putAt (v : Value) (p : List String) (new newer : Value) :
    (v.putAt p new).putAt p newer = v.putAt p newer := by
  induction p generalizing v with
  | nil => rfl
  | cons key p ih =>
    rw [putAt, field?_putAt, if_pos rfl, Option.getD_some, ih, putAt, putAt]
    exact congrArg mapping (Assoc.insert_insert _ _ _ _)

/-- What is written below a place changes the value that stands there. -/
theorem putAt_append (h : v.at? p = some w) (q : List String) (new : Value) :
    v.putAt (p ++ q) new = v.putAt p (w.putAt q new) := by
  induction p generalizing v with
  | nil =>
    obtain rfl := Option.some.inj h
    rfl
  | cons key p ih =>
    obtain ⟨inner, hinner, hp⟩ := Option.bind_eq_some_iff.mp h
    rw [List.cons_append, putAt, putAt, hinner, Option.getD_some, ih hp]

/-- A value can be written at a path if and only if no key of the path is empty. -/
theorem set?_eq_some_iff {new : Value} {path : String} :
    v.set? path new = some w ↔ "" ∉ pathKeys path ∧ v.putAt (pathKeys path) new = w := by
  have hempty : (pathKeys path).any (·.isEmpty) = true ↔ "" ∈ pathKeys path := by
    simp [List.any_eq_true]
  simp only [set?, hempty]
  by_cases h : "" ∈ pathKeys path
  · simp [h]
  · simp [h]

end Rollout.Value
