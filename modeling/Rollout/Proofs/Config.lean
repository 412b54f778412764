import Rollout.Config.ConfigMap
import Rollout.Config.Secret
import Rollout.Proofs.Codec.Fields
import Rollout.Proofs.Meta

/-!
# Configuration is read back

Every source of data is read back from what is written for it, whatever its form, and so is
every ConfigMap and every Secret that has been set up.
-/

namespace Rollout

open Codec Fields Variant

theorem MissingSources.returns (p : MissingSources) : MissingSources.codec.Returns p := by
  cases p <;> exact returns_choice rfl

theorem SecretType.returns (t : SecretType) : SecretType.codec.Returns t := by
  cases t <;> exact returns_choice rfl

namespace DataSource

theorem returns_path (path : String) : pathCodec.Returns path := fun _ => rfl

theorem returns_bytes (bytes : Bytes) : bytesCodec.Returns bytes := by
  refine returns_map (returns_list fun n hn => ?_) ?_
  · obtain ⟨byte, -, rfl⟩ := List.mem_map.mp hn
    exact returns_nat8 byte.toNat_lt
  · rw [List.map_map]
    exact List.map_id'' (fun byte => UInt8.ofNat_toNat) bytes

/-- Pairs of texts are written in their order. -/
theorem returns_pairs (pairs : Assoc String) : (ordered text).Returns pairs :=
  returns_ordered fun e _ => returns_text e.2

theorem returns (s : DataSource) : codec.Returns s := by
  cases s with
  | literal key value =>
    exact returns_tagged (by decide) ⟨rfl, rfl⟩ <| returns_ofFields rfl <|
      .seq readsBack_requiredText <| .map _ readsBack_requiredText
  | json key value =>
    exact returns_tagged (by decide) ⟨rfl, rfl⟩ <| returns_ofFields rfl <|
      .seq (readsBack_required (returns_any value)) <| .map _ readsBack_requiredText
  | yaml key value =>
    exact returns_tagged (by decide) ⟨rfl, rfl⟩ <| returns_ofFields rfl <|
      .seq (readsBack_required (returns_any value)) <| .map _ readsBack_requiredText
  | properties key pairs =>
    exact returns_tagged (by decide) ⟨rfl, rfl⟩ <| returns_ofFields rfl <|
      .seq (readsBack_required (returns_pairs pairs)) <| .map _ readsBack_requiredText
  | ini key sections =>
    have hsections : (ordered (ordered text)).Returns sections :=
      returns_ordered fun e _ => returns_pairs e.2
    exact returns_tagged (by decide) ⟨rfl, rfl⟩ <| returns_ofFields rfl <|
      .seq (readsBack_required hsections) <| .map _ readsBack_requiredText
  | file key path =>
    exact returns_tagged (by decide) ⟨rfl, rfl⟩ <| returns_ofFields rfl <|
      .seq (readsBack_required (returns_path path)) <| .map _ readsBack_optionalText
  | directory path =>
    exact returns_tagged (by decide) ⟨rfl, rfl⟩ <| returns_ofFields rfl <|
      .map _ (readsBack_required (returns_path path))
  | envFile path =>
    exact returns_tagged (by decide) ⟨rfl, rfl⟩ <| returns_ofFields rfl <|
      .map _ (readsBack_required (returns_path path))
  | template key text vars =>
    exact returns_tagged (by decide) ⟨rfl, rfl⟩ <| returns_ofFields rfl <|
      .seq (readsBack_defaulted (returns_pairs vars)) <|
      .seq readsBack_requiredText <| .map _ readsBack_requiredText
  | binary key data =>
    exact returns_tagged (by decide) ⟨rfl, rfl⟩ <| returns_ofFields rfl <|
      .seq (readsBack_required (returns_bytes data)) <| .map _ readsBack_requiredText
  | binaryFile key path =>
    exact returns_tagged (by decide) ⟨rfl, rfl⟩ <| returns_ofFields rfl <|
      .seq (readsBack_required (returns_path path)) <| .map _ readsBack_optionalText

end DataSource

namespace ConfigMap

/-- The settings of a ConfigMap. -/
inductive IsSetting : (ConfigMap → ConfigMap) → Prop where
  | info {f : Meta → Meta} (hf : Meta.IsSetting f) : IsSetting (·.mapInfo f)
  | add (source : DataSource) : IsSetting (·.add source)
  | mountPath (path : String) : IsSetting (·.withMountPath path)
  | missingSources (policy : MissingSources) : IsSetting (·.withMissingSources policy)
  | immutable : IsSetting (·.asImmutable)

/-- A ConfigMap that has been set up. -/
def Built : ConfigMap → Prop := Reached (fun c => ∃ name, c = named name) IsSetting

/-- The labels and the annotations are sorted. -/
def Fits (c : ConfigMap) : Prop := c.info.Fits

theorem Built.fits {c : ConfigMap} (h : c.Built) : c.Fits := by
  refine h.holds ?_ fun f c hf hc => ?_
  · rintro _ ⟨name, rfl⟩
    exact Meta.fits_of_empty name defaultNamespace
  · cases hf with
    | info hf => exact hf.fits hc
    | _ => exact hc

theorem returnsBehind {c : ConfigMap} (h : c.Fits) : codec.ReturnsBehind "type" c :=
  returnsBehind_mapping (by decide)
    (.seq (readsBack_defaulted (returns_bool _)) <|
      .seq (readsBack_defaulted c.missingSources.returns) <|
      .seq readsBack_optionalText <|
      .seq (readsBack_items fun s _ => s.returns) <|
      .map _ (readsBack_part (Meta.readsBack_fields h)))
    rfl

end ConfigMap

namespace Secret

/-- What Secrets begin as. -/
inductive IsNew : Secret → Prop where
  | named (name : String) : IsNew (.named name)
  | tls (name cert key : String) : IsNew (.tls name cert key)
  | dockerConfig (name registry user password : String) :
    IsNew (.dockerConfig name registry user password)
  | basicAuth (name user password : String) : IsNew (.basicAuth name user password)

/-- The settings of a Secret. -/
inductive IsSetting : (Secret → Secret) → Prop where
  | info {f : Meta → Meta} (hf : Meta.IsSetting f) : IsSetting (·.mapInfo f)
  | secretType (secretType : SecretType) : IsSetting (·.withType secretType)
  | add (source : DataSource) : IsSetting (·.add source)
  | mountPath (path : String) : IsSetting (·.withMountPath path)
  | missingSources (policy : MissingSources) : IsSetting (·.withMissingSources policy)
  | immutable : IsSetting (·.asImmutable)

/-- A Secret that has been set up. -/
def Built : Secret → Prop := Reached IsNew IsSetting

/-- The labels and the annotations are sorted. -/
def Fits (s : Secret) : Prop := s.info.Fits

theorem Built.fits {s : Secret} (h : s.Built) : s.Fits := by
  refine h.holds ?_ fun f s hf hs => ?_
  · rintro _ (⟨name⟩ | ⟨name⟩ | ⟨name⟩ | ⟨name⟩) <;>
      exact Meta.fits_of_empty name defaultNamespace
  · cases hf with
    | info hf => exact hf.fits hs
    | _ => exact hs

theorem returnsBehind {s : Secret} (h : s.Fits) : codec.ReturnsBehind "type" s :=
  returnsBehind_mapping (by decide)
    (.seq (readsBack_defaulted (returns_bool _)) <|
      .seq (readsBack_defaulted s.missingSources.returns) <|
      .seq readsBack_optionalText <|
      .seq (readsBack_items fun s _ => s.returns) <|
      .seq (readsBack_defaulted s.secretType.returns) <|
      .map _ (readsBack_part (Meta.readsBack_fields h)))
    rfl

end Secret

end Rollout
