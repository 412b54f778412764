import Rollout.Meta
import Rollout.Proofs.Codec.Fields

/-!
# Objects that are set up step by step

Whatever is defined is begun by a constructor and then changed by settings. What holds of
all that a constructor makes and survives every setting holds of each object that is set up
in this way.

The first objects of this kind are metadata. However they are set up, their labels and
annotations are sorted, and metadata of which this holds are read back from their fields.
-/

namespace Rollout

/-- What is begun as one of some objects and changed by any number of settings. -/
inductive Reached {α : Type} (IsNew : α → Prop) (IsSetting : (α → α) → Prop) : α → Prop where
  | new {a : α} (h : IsNew a) : Reached IsNew IsSetting a
  | set {f : α → α} {a : α} (hf : IsSetting f) (h : Reached IsNew IsSetting a) :
    Reached IsNew IsSetting (f a)

/-- What all new objects have and no setting takes away is never lost. -/
theorem Reached.holds {α : Type} {IsNew : α → Prop} {IsSetting : (α → α) → Prop} {P : α → Prop}
    {a : α} (h : Reached IsNew IsSetting a) (hnew : ∀ a, IsNew a → P a)
    (hset : ∀ f a, IsSetting f → P a → P (f a)) : P a := by
  induction h with
  | new h => exact hnew _ h
  | set hf _ ih => exact hset _ _ hf ih

theorem forall_mem_concat {α : Type} {P : α → Prop} {as : List α} {a : α}
    (h : ∀ b ∈ as, P b) (ha : P a) : ∀ b ∈ as ++ [a], P b :=
  List.forall_mem_append.mpr ⟨h, List.forall_mem_singleton.mpr ha⟩

theorem forall_mem_some {α : Type} {P : α → Prop} {a : α} (ha : P a) : ∀ b ∈ some a, P b := by
  rintro b ⟨⟩
  exact ha

theorem forall_mem_map {α β : Type} {P : α → Prop} {Q : β → Prop} {f : α → β} {o : Option α}
    (h : ∀ a ∈ o, P a) (hf : ∀ a, P a → Q (f a)) : ∀ b ∈ o.map f, Q b := by
  intro b hb
  obtain ⟨a, ha, rfl⟩ := Option.map_eq_some_iff.mp hb
  exact hf a (h a ha)

namespace Meta

open Fields

/-- The settings of metadata. -/
inductive IsSetting : (Meta → Meta) → Prop where
  | ns (ns : String) : IsSetting (·.withNamespace ns)
  | label (key value : String) : IsSetting (·.withLabel key value)
  | note (key value : String) : IsSetting (·.withNote key value)

/-- The labels and the annotations are sorted. -/
structure Fits (m : Meta) : Prop where
  labels : m.labels.IsSorted
  annotations : m.annotations.IsSorted

theorem fits_of_empty (name ns : String) : Fits { name, ns } :=
  ⟨List.Pairwise.nil, List.Pairwise.nil⟩

theorem IsSetting.fits {f : Meta → Meta} {m : Meta} (hf : IsSetting f) (h : m.Fits) :
    (f m).Fits := by
  cases hf with
  | ns ns => exact { h with }
  | label key value => exact { h with labels := h.labels.insertSorted key value }
  | note key value => exact { h with annotations := h.annotations.insertSorted key value }

/-- The keys of the fields of metadata. -/
def keys : List String := ["name", "namespace", "labels", "annotations"]

theorem readsBack_fields {m : Meta} (h : m.Fits) : fields.ReadsBack keys m m :=
  .congr
    (.seq (readsBack_sortedText h.annotations) <|
      .seq (readsBack_sortedText h.labels) <|
      .seq (readsBack_defaulted (Codec.returns_text _)) <|
      .map _ readsBack_requiredText)
    rfl rfl

end Meta

end Rollout
