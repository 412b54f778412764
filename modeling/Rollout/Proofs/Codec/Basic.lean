import Rollout.Codec.Basic
import Rollout.Proofs.Assoc
import Rollout.Proofs.Success

/-!
# Values that are read back

A codec reads a value as another one if it reads that from what it writes for the value, and
returns the values that it reads as themselves. Numbers are returned within the bounds of
their type, and mappings that are sorted on reading if they are sorted. A null that is given
is read as none, since none may be written as null.
-/

namespace Rollout

namespace Assoc

/-- Texts among the entries of a mapping. -/
def texts (entries : Assoc Value) : Assoc String :=
  entries.filterMap fun (key, v) => v.text?.map (key, ·)

theorem texts_mapValues (m : Assoc String) : texts (m.mapValues .text) = m := by
  rw [texts, mapValues, List.filterMap_map]
  exact List.filterMap_some

end Assoc

namespace Codec

variable {α β : Type}

/-- What is written for a value is read as another one. -/
def ReadsAs (c : Codec α) (a b : α) : Prop := ∀ src, c.decode src (c.encode a) = .ok b

/-- What is written for a value is read back as that value. -/
def Returns (c : Codec α) (a : α) : Prop := c.ReadsAs a a

theorem returns_text (s : String) : text.Returns s := fun _ => rfl

theorem returns_bool (b : Bool) : bool.Returns b := fun _ => rfl

theorem returns_double (x : Double) : double.Returns x := fun _ => rfl

theorem returns_any (v : Value) : any.Returns v := fun _ => rfl

theorem returns_natTo {high n : Nat} (name : String) (h : n ≤ high) :
    (natTo high name).Returns n := by
  intro src
  have hbounds : (0 : Int) ≤ n ∧ (n : Int) ≤ high := ⟨Int.natCast_nonneg n, Int.ofNat_le.mpr h⟩
  exact if_pos hbounds

theorem returns_nat8 {n : Nat} (h : n < UInt8.size) : nat8.Returns n :=
  returns_natTo "u8" (Nat.le_sub_one_of_lt h)

theorem returns_nat16 {n : Nat} (h : n < UInt16.size) : nat16.Returns n :=
  returns_natTo "u16" (Nat.le_sub_one_of_lt h)

theorem returns_nat32 {n : Nat} (h : n < UInt32.size) : nat32.Returns n :=
  returns_natTo "u32" (Nat.le_sub_one_of_lt h)

/-- An alternative that no other shares its name with before it. -/
theorem returns_choice {all : List α} {name : α → String} {a : α}
    (h : all.find? (fun b => name b == name a) = some a) : (choice all name).Returns a := by
  intro src
  simp only [choice]
  rw [h]

/-- The items of a list are read one by one. -/
theorem readsAs_list {c : Codec α} {as : List α} {k : α → α} (h : ∀ a ∈ as, c.ReadsAs a (k a)) :
    (list c).ReadsAs as (as.map k) :=
  fun src => mapM_map_eq_ok (f := c.decode src) (g := c.encode) (k := k) fun a ha => h a ha src

theorem returns_list {c : Codec α} {as : List α} (h : ∀ a ∈ as, c.Returns a) :
    (list c).Returns as := by
  have hall : (list c).ReadsAs as (as.map id) := readsAs_list h
  rwa [List.map_id] at hall

theorem decodeEntries_mapValues {c : Codec α} {m : Assoc α} {k : α → α}
    (h : ∀ e ∈ m, c.ReadsAs e.2 (k e.2)) (src : Source) :
    decodeEntries c src (m.mapValues c.encode) = .ok (m.mapValues k) :=
  mapM_map_eq_ok (f := fun e : String × Value => (c.decode src e.2).map (e.1, ·))
    (g := fun e : String × α => (e.1, c.encode e.2)) (k := fun e => (e.1, k e.2)) fun e he => by
      rw [h e he src]
      rfl

theorem readsAs_ordered {c : Codec α} {m : Assoc α} {k : α → α}
    (h : ∀ e ∈ m, c.ReadsAs e.2 (k e.2)) : (ordered c).ReadsAs m (m.mapValues k) :=
  fun src => decodeEntries_mapValues h src

theorem returns_ordered {c : Codec α} {m : Assoc α} (h : ∀ e ∈ m, c.Returns e.2) :
    (ordered c).Returns m := by
  have hall : (ordered c).ReadsAs m (m.mapValues id) := readsAs_ordered h
  rwa [Assoc.mapValues_id] at hall

theorem returns_sorted {c : Codec α} {m : Assoc α} (hsorted : m.IsSorted)
    (h : ∀ e ∈ m, c.Returns e.2) : (sorted c).Returns m := by
  intro src
  have hall : decodeEntries c src (m.mapValues c.encode) = .ok (m.mapValues id) :=
    decodeEntries_mapValues h src
  change (decodeEntries c src (m.mapValues c.encode)).map Assoc.sorted = .ok m
  rw [hall, Assoc.mapValues_id]
  exact congrArg Except.ok (Assoc.sorted_of_isSorted hsorted)

theorem returns_pair {c : Codec α} {d : Codec β} {p : α × β} (hc : c.Returns p.1)
    (hd : d.Returns p.2) : (pair c d).Returns p := by
  intro src
  simp only [pair, hc src, hd src, bind, Except.bind, List.isEmpty_nil, if_true]

/-- What is written through another type is returned if it is restored from there. -/
theorem returns_map {c : Codec α} {f : α → β} {g : β → α} {b : β} (h : c.Returns (g b))
    (hfg : f (g b) = b) : (c.map f g).Returns b := by
  intro src
  change (c.decode src (c.encode (g b))).map f = .ok b
  rw [h src]
  exact congrArg Except.ok hfg

/-- A value that is written as anything but null is returned as one that is given. -/
theorem returns_option {c : Codec α} {o : Option α} (hnull : ∀ a, c.encode a ≠ .null)
    (h : ∀ a ∈ o, c.Returns a) : (option c).Returns o := by
  intro src
  cases o with
  | none => rfl
  | some a =>
    have hread := h a rfl src
    change (option c).decode src (c.encode a) = .ok (some a)
    cases hv : c.encode a with
    | null => exact absurd hv (hnull a)
    | _ =>
      rw [hv] at hread
      change (c.decode src _).map some = _
      rw [hread]
      rfl

/-- A null is read as none, anything else as it is. -/
theorem readsAs_option_any (o : Option Value) :
    (option any).ReadsAs o (o.filter fun v => !v.isNull) := by
  intro src
  cases o with
  | none => rfl
  | some v => cases v <;> rfl

/-- Only a null is left out. -/
theorem filter_notNull_eq_self_iff {o : Option Value} :
    o.filter (fun v => !v.isNull) = o ↔ o ≠ some .null := by
  cases o with
  | none => exact iff_of_true rfl nofun
  | some v =>
    cases v with
    | null => exact iff_of_false nofun (not_not_intro rfl)
    | _ => exact iff_of_true rfl nofun

end Codec

end Rollout
