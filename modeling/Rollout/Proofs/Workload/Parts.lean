import Rollout.Proofs.Codec.Fields
import Rollout.Proofs.Meta
import Rollout.Workload.Pod

/-!
# Parts of pods are read back

Ports, probes, companions and the other parts of a pod are read back from what is written
for them. Where a part has numbers, they must be those of their types: 16 bits for ports and
32 bits for times and counts. Mappings that have no order of their own must be sorted.
-/

namespace Rollout

open Codec Fields Variant

theorem Protocol.returns (p : Protocol) : Protocol.codec.Returns p := by
  cases p <;> exact returns_choice rfl

namespace Port

/-- Its numbers are those of ports. -/
structure Fits (p : Port) : Prop where
  container : p.container < UInt16.size
  host : ∀ n ∈ p.host, n < UInt16.size

theorem returns {p : Port} (h : p.Fits) : codec.Returns p :=
  returns_struct (by decide)
    (.seq (readsBack_defaulted p.protocol.returns) <|
      .seq readsBack_optionalText <|
      .seq (readsBack_optional nofun fun n hn => returns_nat16 (h.host n hn)) <|
      .map _ (readsBack_required (returns_nat16 h.container)))
    rfl

end Port

theorem Requirements.returns (r : Requirements) : Requirements.codec.Returns r :=
  returns_struct (by decide)
    (.seq readsBack_optionalText <|
      .seq readsBack_optionalText <|
      .seq readsBack_optionalText <|
      .map _ readsBack_optionalText)
    rfl

namespace ProbeAction

/-- A port that is tried is one. -/
def Fits : ProbeAction → Prop
  | http _ port | tcp port => port < UInt16.size
  | exec _ => True

end ProbeAction

namespace Probe

/-- Its numbers are those of their types. -/
structure Fits (p : Probe) : Prop where
  action : p.action.Fits
  initialDelay : p.initialDelay < UInt32.size
  period : p.period < UInt32.size
  timeout : p.timeout < UInt32.size
  failureThreshold : p.failureThreshold < UInt32.size

theorem fits_http {port : Nat} (h : port < UInt16.size) (path : String) :
    (http path port).Fits where
  action := h
  initialDelay := (by decide : 10 < UInt32.size)
  period := (by decide : 10 < UInt32.size)
  timeout := (by decide : 5 < UInt32.size)
  failureThreshold := (by decide : 3 < UInt32.size)

/-- The fields beside the action do not depend on its form. -/
theorem returns_of_action {p : Probe} (h : p.Fits) {keys : List String}
    (hnodup : (keys ++ ["initialDelay", "period", "timeout", "failureThreshold"]).Nodup)
    (haction : (taggedPart action "type" ProbeAction.variants).ReadsBack keys p p.action) :
    codec.Returns p :=
  returns_mapping (by simpa using hnodup)
    (.seq (readsBack_defaulted (returns_nat32 h.failureThreshold)) <|
      .seq (readsBack_defaulted (returns_nat32 h.timeout)) <|
      .seq (readsBack_defaulted (returns_nat32 h.period)) <|
      .seq (readsBack_defaulted (returns_nat32 h.initialDelay)) <|
      .map _ haction)
    rfl

theorem returns {p : Probe} (h : p.Fits) : codec.Returns p := by
  have haction := h.action
  obtain ⟨action⟩ := p
  cases action with
  | http path port =>
    exact returns_of_action h (by decide) <| readsBack_taggedPart ⟨rfl, rfl⟩ <|
      returns_ofFields rfl <|
        .seq (readsBack_required (returns_nat16 haction)) <| .map _ readsBack_requiredText
  | exec command =>
    exact returns_of_action h (by decide) <| readsBack_taggedPart ⟨rfl, rfl⟩ <|
      returns_ofFields rfl <|
        .map _ (readsBack_required (returns_list fun s _ => returns_text s))
  | tcp port =>
    exact returns_of_action h (by decide) <| readsBack_taggedPart ⟨rfl, rfl⟩ <|
      returns_ofFields rfl <| .map _ (readsBack_required (returns_nat16 haction))

end Probe

theorem Volume.returns (v : Volume) : Volume.codec.Returns v := by
  have hsource {keys : List String} (hnodup : ("name" :: "mountPath" :: keys ++ ["readOnly"]).Nodup)
      (h : (taggedPart Volume.source "type" VolumeSource.variants).ReadsBack keys v v.source) :
      Volume.codec.Returns v :=
    returns_mapping hnodup
      (.seq (readsBack_defaulted (returns_bool _)) <|
        .seq h <|
        .seq readsBack_requiredText <|
        .map _ readsBack_requiredText)
      rfl
  obtain ⟨name, mountPath, source, readOnly⟩ := v
  cases source with
  | emptyDir => exact hsource (by decide) <| readsBack_taggedPart ⟨rfl, rfl⟩ (returns_alone rfl)
  | hostPath path =>
    exact hsource (by decide) <| readsBack_taggedPart ⟨rfl, rfl⟩ <|
      returns_ofFields rfl <| .map _ readsBack_requiredText
  | claim claim =>
    exact hsource (by decide) <| readsBack_taggedPart ⟨rfl, rfl⟩ <|
      returns_ofFields rfl <| .map _ readsBack_requiredText

theorem Storage.returns (s : Storage) : Storage.codec.Returns s :=
  returns_struct (by decide)
    (.seq (readsBack_defaulted (returns_list fun mode _ => returns_text mode)) <|
      .seq readsBack_optionalText <|
      .seq readsBack_requiredText <|
      .seq readsBack_requiredText <|
      .map _ readsBack_requiredText)
    rfl

theorem Metrics.returns {m : Metrics} (h : m.port < UInt16.size) : Metrics.codec.Returns m :=
  returns_struct (by decide)
    (.seq (readsBack_defaulted (returns_bool _)) <|
      .seq (readsBack_defaulted (returns_text _)) <|
      .map _ (readsBack_required (returns_nat16 h)))
    rfl

namespace Companion

/-- Its ports are ports, and its mounts are sorted by the names of the volumes. -/
structure Fits (c : Companion) : Prop where
  ports : ∀ n ∈ c.ports, n < UInt16.size
  mounts : c.mounts.IsSorted

theorem returns {c : Companion} (h : c.Fits) : codec.Returns c :=
  returns_struct (by decide)
    (.seq (readsBack_defaulted (returns_bool _)) <|
      .seq (readsBack_optional nofun fun r _ => r.returns) <|
      .seq (readsBack_sortedText h.mounts) <|
      .seq (readsBack_items fun n hn => returns_nat16 (h.ports n hn)) <|
      .seq readsBack_orderedText <|
      .seq readsBack_itemsText <|
      .seq readsBack_itemsText <|
      .seq readsBack_requiredText <|
      .map _ readsBack_requiredText)
    rfl

end Companion

end Rollout
