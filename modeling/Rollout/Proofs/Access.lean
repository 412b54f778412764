import Rollout.Access.Namespace
import Rollout.Access.Role
import Rollout.Proofs.Workload.Parts

/-!
# Accounts, roles, bindings and namespaces are read back

Nothing of these has numbers or sorted mappings of its own, so that each of them is read
back from what is written for it once its metadata are.
-/

namespace Rollout

open Codec Fields

theorem PolicyRule.returns (r : PolicyRule) : PolicyRule.codec.Returns r :=
  returns_struct (by decide)
    (.seq readsBack_itemsText <|
      .seq (readsBack_required (returns_list fun verb _ => returns_text verb)) <|
      .seq (readsBack_required (returns_list fun resource _ => returns_text resource)) <|
      .map _ (readsBack_defaulted (returns_list fun group _ => returns_text group)))
    rfl

namespace Role

/-- The settings of a role. -/
inductive IsSetting : (Role → Role) → Prop where
  | info {f : Meta → Meta} (hf : Meta.IsSetting f) : IsSetting (·.mapInfo f)
  | rule (rule : PolicyRule) : IsSetting (·.addRule rule)
  | allow (group : String) (resources verbs : List String) :
    IsSetting (·.allow group resources verbs)

/-- A role that has been set up. -/
def Built : Role → Prop := Reached (fun r => ∃ name, r = named name) IsSetting

/-- The labels and the annotations are sorted. -/
def Fits (r : Role) : Prop := r.info.Fits

theorem Built.fits {r : Role} (h : r.Built) : r.Fits := by
  refine h.holds ?_ fun f r hf hr => ?_
  · rintro _ ⟨name, rfl⟩
    exact Meta.fits_of_empty name defaultNamespace
  · cases hf with
    | info hf => exact hf.fits hr
    | _ => exact hr

theorem returnsBehind {r : Role} (h : r.Fits) (scope : RoleScope) :
    (codec scope).ReturnsBehind "type" r :=
  returnsBehind_mapping (by decide)
    (.seq (readsBack_defaulted (returns_list fun rule _ => rule.returns)) <|
      .map _ (readsBack_part (Meta.readsBack_fields h)))
    rfl

end Role

theorem SubjectKind.returns (k : SubjectKind) : SubjectKind.codec.Returns k := by
  cases k <;> exact returns_choice rfl

theorem Subject.returns (s : Subject) : Subject.codec.Returns s :=
  returns_struct (by decide)
    (.seq readsBack_optionalText <|
      .seq readsBack_requiredText <|
      .map _ (readsBack_required s.kind.returns))
    rfl

theorem RoleRef.returns (r : RoleRef) : RoleRef.codec.Returns r :=
  returns_struct (by decide) (.seq readsBack_requiredText <| .map _ readsBack_requiredText) rfl

namespace Binding

/-- The settings of a binding. -/
inductive IsSetting : (Binding → Binding) → Prop where
  | info {f : Meta → Meta} (hf : Meta.IsSetting f) : IsSetting (·.mapInfo f)
  | subject (s : Subject) : IsSetting (·.addSubject s)
  | onePerSubject : IsSetting fun b => { b with onePerSubject := true }

/-- A binding that has been set up. -/
def Built : Binding → Prop := Reached (fun b => ∃ name roleRef, b = named name roleRef) IsSetting

/-- The labels and the annotations are sorted. -/
def Fits (b : Binding) : Prop := b.info.Fits

theorem Built.fits {b : Binding} (h : b.Built) : b.Fits := by
  refine h.holds ?_ fun f b hf hb => ?_
  · rintro _ ⟨name, roleRef, rfl⟩
    exact Meta.fits_of_empty name defaultNamespace
  · cases hf with
    | info hf => exact hf.fits hb
    | _ => exact hb

theorem returnsBehind {b : Binding} (h : b.Fits) (scope : RoleScope) :
    (codec scope).ReturnsBehind "type" b :=
  returnsBehind_mapping (by decide)
    (.seq (readsBack_defaulted (returns_bool _)) <|
      .seq (readsBack_defaulted (returns_list fun s _ => s.returns)) <|
      .seq (readsBack_required b.roleRef.returns) <|
      .map _ (readsBack_part (Meta.readsBack_fields h)))
    rfl

end Binding

namespace ServiceAccount

/-- The settings of a service account. -/
inductive IsSetting : (ServiceAccount → ServiceAccount) → Prop where
  | info {f : Meta → Meta} (hf : Meta.IsSetting f) : IsSetting (·.mapInfo f)
  | automountToken (automount : Bool) : IsSetting (·.withAutomountToken automount)
  | imagePullSecret (secret : String) : IsSetting (·.addImagePullSecret secret)

/-- A service account that has been set up. -/
def Built : ServiceAccount → Prop := Reached (fun a => ∃ name, a = named name) IsSetting

/-- The labels and the annotations are sorted. -/
def Fits (a : ServiceAccount) : Prop := a.info.Fits

theorem Built.fits {a : ServiceAccount} (h : a.Built) : a.Fits := by
  refine h.holds ?_ fun f a hf ha => ?_
  · rintro _ ⟨name, rfl⟩
    exact Meta.fits_of_empty name defaultNamespace
  · cases hf with
    | info hf => exact hf.fits ha
    | _ => exact ha

theorem returnsBehind {a : ServiceAccount} (h : a.Fits) : codec.ReturnsBehind "type" a :=
  returnsBehind_mapping (by decide)
    (.seq readsBack_itemsText <|
      .seq (readsBack_optional nofun fun automount _ => returns_bool automount) <|
      .map _ (readsBack_part (Meta.readsBack_fields h)))
    rfl

end ServiceAccount

namespace NamespaceDefinition

/-- The settings of a namespace. -/
inductive IsSetting : (NamespaceDefinition → NamespaceDefinition) → Prop where
  | info {f : Meta → Meta} (hf : Meta.IsSetting f) : IsSetting (·.mapInfo f)
  | quota (r : Requirements) : IsSetting fun n => { n with quota := some r }
  | defaultLimits (r : Requirements) : IsSetting fun n => { n with defaultLimits := some r }

/-- A namespace that has been set up. -/
def Built : NamespaceDefinition → Prop := Reached (fun n => ∃ name, n = named name) IsSetting

/-- The labels and the annotations are sorted. -/
def Fits (n : NamespaceDefinition) : Prop := n.info.Fits

theorem Built.fits {n : NamespaceDefinition} (h : n.Built) : n.Fits := by
  refine h.holds ?_ fun f n hf hn => ?_
  · rintro _ ⟨name, rfl⟩
    exact Meta.fits_of_empty name name
  · cases hf with
    | info hf => exact hf.fits hn
    | _ => exact hn

theorem returnsBehind {n : NamespaceDefinition} (h : n.Fits) : codec.ReturnsBehind "type" n :=
  returnsBehind_mapping (by decide)
    (.seq (readsBack_optional nofun fun r _ => r.returns) <|
      .seq (readsBack_optional nofun fun r _ => r.returns) <|
      .map _ (readsBack_part (Meta.readsBack_fields h)))
    rfl

end NamespaceDefinition

end Rollout
