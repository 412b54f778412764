import Mathlib.Data.List.Nodup
import Rollout.Proofs.Definition.Reading
import Rollout.Proofs.Definition.RoundTrip
import Rollout.Proofs.Record.Reference

/-!
# The traffic that a policy allows

The record of a policy lists the rules for a direction of traffic if the policy names that direction
among those it restricts. The directions are kept beside the rules, so that no rule is lost if and
only if they name every direction that has rules. Each setting that adds a rule names its direction
as well, and so no policy that is set up loses one. A policy that is read has the directions that
its definition gives: it has none, and loses all of its rules, if the definition leaves them out.
-/

namespace Rollout

/-- The key under which a record lists the rules of a direction. -/
def PolicyType.rulesKey : PolicyType → String
  | ingress => "ingress"
  | egress => "egress"

theorem PolicyType.name_injective {d e : PolicyType} (h : d.name = e.name) : d = e := by
  cases d <;> cases e
  · rfl
  · exact absurd h (by decide)
  · exact absurd h (by decide)
  · rfl

namespace Record

/-- The rules that a policy lists for a direction. -/
def trafficRules (r : Record) (direction : PolicyType) : List Value :=
  (r.spec.at direction.rulesKey).items

/-- The directions that a policy restricts. -/
def policyTypes (r : Record) : List Value := (r.spec.at "policyTypes").items

end Record

namespace NetworkPolicy

variable {p : NetworkPolicy} {r : Record}

/-- A record lists all rules of a policy in their order and names each direction that has rules, and
none twice. -/
structure ListsAll (p : NetworkPolicy) (r : Record) : Prop where
  rules : ∀ d, r.trafficRules d = (p.rules d).map (TrafficRule.toValue d)
  named : ∀ d, p.rules d ≠ [] → .text d.name ∈ r.policyTypes
  nodup : r.policyTypes.Nodup

/-- A policy restricts each direction that it has rules for, and names none twice. -/
structure Coupled (p : NetworkPolicy) : Prop where
  restricts : ∀ d, p.rules d ≠ [] → d ∈ p.policyTypes
  nodup : p.policyTypes.Nodup

/-! ### The record -/

theorem policyTypes_of_records (h : p.records = [r]) :
    r.policyTypes = p.policyTypes.map fun d => .text d.name := by
  obtain rfl := (List.cons.inj h).1
  exact List.map_map

/-- The rules of a direction are listed if it is restricted. -/
theorem trafficRules_of_records (h : p.records = [r]) (d : PolicyType) : r.trafficRules d =
    if d ∈ p.policyTypes then (p.rules d).map (TrafficRule.toValue d) else [] := by
  obtain rfl := (List.cons.inj h).1
  by_cases hingress : .ingress ∈ p.policyTypes <;> by_cases hegress : .egress ∈ p.policyTypes <;>
    cases d <;> simp [Record.trafficRules, Record.spec, Record.toValue, Value.at_mapping,
      Assoc.get?_cons, PolicyType.rulesKey, rulesEntry, hingress, hegress, Value.items,
      Value.items?, Assoc.get?_nil]

theorem listsAll_iff_coupled (h : p.records = [r]) : p.ListsAll r ↔ p.Coupled := by
  have htypes := policyTypes_of_records h
  have hinjective : Function.Injective fun d : PolicyType => Value.text d.name :=
    fun d e he => PolicyType.name_injective (Value.text.inj he)
  have hnamed (d : PolicyType) : .text d.name ∈ r.policyTypes ↔ d ∈ p.policyTypes := by
    rw [htypes]
    exact List.mem_map_of_injective hinjective
  have hnodup : r.policyTypes.Nodup ↔ p.policyTypes.Nodup := by
    rw [htypes, List.nodup_map_iff hinjective]
  constructor
  · exact fun hall => ⟨fun d hd => (hnamed d).mp (hall.named d hd), hnodup.mp hall.nodup⟩
  · intro hcoupled
    refine ⟨fun d => ?_, fun d hd => (hnamed d).mpr (hcoupled.restricts d hd),
      hnodup.mpr hcoupled.nodup⟩
    rw [trafficRules_of_records h]
    split
    · rfl
    · rename_i hnot
      have hnone : p.rules d = [] := not_not.mp fun hrules => hnot (hcoupled.restricts d hrules)
      rw [hnone, List.map_nil]

/-! ### Policies that are set up -/

/-- A direction that is restricted is named once, and may have rules. -/
theorem coupled_restrict {d : PolicyType} (hnodup : p.policyTypes.Nodup)
    (hothers : ∀ e ≠ d, p.rules e ≠ [] → e ∈ p.policyTypes) : (p.restrict d).Coupled := by
  unfold restrict
  split
  · rename_i hmem
    refine ⟨fun e he => ?_, hnodup⟩
    by_cases hed : e = d
    · exact hed ▸ List.contains_iff_mem.mp hmem
    · exact hothers e hed he
  · rename_i hnot
    have hd : d ∉ p.policyTypes := fun hmem => hnot (List.contains_iff_mem.mpr hmem)
    refine ⟨fun e he => ?_, List.nodup_append_comm.mp (List.nodup_cons.mpr ⟨hd, hnodup⟩)⟩
    by_cases hed : e = d
    · exact List.mem_append_right _ (hed ▸ List.mem_singleton_self d)
    · exact List.mem_append_left _ (hothers e hed he)

theorem Coupled.restrict (h : p.Coupled) (d : PolicyType) : (p.restrict d).Coupled :=
  coupled_restrict h.nodup fun e _ he => h.restricts e he

theorem Coupled.allow (h : p.Coupled) (d : PolicyType) (rule : TrafficRule) :
    (p.allow d rule).Coupled := by
  refine coupled_restrict ?_ fun e hne he => ?_
  · cases d <;> exact h.nodup
  · cases d <;> cases e
    · exact absurd rfl hne
    · exact h.restricts .egress he
    · exact h.restricts .ingress he
    · exact absurd rfl hne

/-- Every setting keeps the directions with the rules. -/
theorem IsSetting.coupled {f : NetworkPolicy → NetworkPolicy} (hf : IsSetting f) (h : p.Coupled) :
    (f p).Coupled := by
  cases hf with
  | info => exact ⟨h.restricts, h.nodup⟩
  | forApp => exact ⟨h.restricts, h.nodup⟩
  | podLabel => exact ⟨h.restricts, h.nodup⟩
  | allowFrom => exact h.allow .ingress _
  | allowTo => exact h.allow .egress _
  | allow direction => exact h.allow direction _
  | allowDns => exact h.allow .egress _
  | restrict direction => exact h.restrict direction

theorem Built.coupled (h : p.Built) : p.Coupled := by
  refine h.holds ?_ fun f p hf hp => hf.coupled hp
  rintro _ ⟨name, rfl⟩
  refine ⟨fun d hd => ?_, List.nodup_nil⟩
  cases d <;> exact absurd rfl hd

/-! ### Policies that are read -/

/-- A policy is read without directions if none are given. -/
theorem policyTypes_of_decode {entries : Assoc Value}
    (h : Definition.decode Definition.types (.mapping entries) = .ok (.networkPolicy p))
    (hnone : entries.get? "policyTypes" = none) : p.policyTypes = [] := by
  obtain ⟨_, _, hcodec | ⟨_, _, _, hgroup, -⟩⟩ := Definition.of_decode h
  · obtain ⟨_, ⟨⟩, hread⟩ := Codec.decode_mapping_eq_ok_iff.mp hcodec
    refine Fields.Yields.seq (F := fun _ g => ∀ types, (g types).policyTypes = types)
      (P := fun entries p => entries.get? "policyTypes" = none → p.policyTypes = [])
      ?_ Fields.yields_fieldWith (fun entries g types hg htypes hnone => ?_) _ _ _ hread hnone
    · exact .init <| .init <| .init <| .map fun _ _ _ _ _ _ _ _ => rfl
    · rw [hnone] at htypes
      rw [hg]
      exact (Option.some.inj htypes).symm
  · exact absurd hgroup nofun

/-- A policy that is read without directions loses all of its rules. -/
theorem coupled_iff_of_decode {entries : Assoc Value}
    (h : Definition.decode Definition.types (.mapping entries) = .ok (.networkPolicy p))
    (hnone : entries.get? "policyTypes" = none) : p.Coupled ↔ ∀ d, p.rules d = [] := by
  have htypes := policyTypes_of_decode h hnone
  constructor
  · intro hcoupled d
    by_contra hrules
    exact List.not_mem_nil (htypes ▸ hcoupled.restricts d hrules)
  · intro hrules
    exact ⟨fun d hd => absurd (hrules d) hd, htypes ▸ List.nodup_nil⟩

/-- The record of a policy lists the rules of the directions that it restricts. It carries all rules
if and only if the policy restricts each direction that has some and names none twice, which holds
of every policy that is set up. One that is read from a definition without directions carries all
rules only if it has none. -/
theorem carries_traffic (p : NetworkPolicy) (files : FileTree) : ∃ r,
    (Definition.networkPolicy p).records files = .ok [r] ∧
      (∀ d, r.trafficRules d =
        if d ∈ p.policyTypes then (p.rules d).map (TrafficRule.toValue d) else []) ∧
      (p.ListsAll r ↔ p.Coupled) ∧ (p.Built → p.ListsAll r) ∧
      ∀ entries : Assoc Value,
        Definition.decode Definition.types (.mapping entries) = .ok (.networkPolicy p) →
          entries.get? "policyTypes" = none → (p.ListsAll r ↔ ∀ d, p.rules d = []) := by
  obtain ⟨r, hr⟩ : ∃ r, p.records = [r] := ⟨_, rfl⟩
  have hiff := listsAll_iff_coupled hr
  refine ⟨r, congrArg Except.ok hr, trafficRules_of_records hr, hiff,
    fun hbuilt => hiff.mpr hbuilt.coupled, fun entries hread hnone => ?_⟩
  exact hiff.trans (coupled_iff_of_decode hread hnone)

/-- A policy that is set up step by step, and one that is read and has no rules. -/
theorem carries_traffic_web :
    let web := ((named "web").allowFrom (.app "proxy") 8080).allowDns
    let entries : Assoc Value := [("type", .text "NetworkPolicy"), ("name", .text "open")]
    (∃ r, (Definition.networkPolicy web).records .empty = .ok [r] ∧ web.ListsAll r) ∧
      ∃ p r, Definition.decode Definition.types (.mapping entries) = .ok (.networkPolicy p) ∧
        (Definition.networkPolicy p).records .empty = .ok [r] ∧ p.ListsAll r := by
  intro web entries
  have hbuilt : web.Built := by
    have hproxy : (Peer.app "proxy").Fits := List.pairwise_singleton _ _
    have hfrom := IsSetting.allowFrom hproxy (by decide : 8080 < UInt16.size)
    exact Reached.set IsSetting.allowDns (.set hfrom (.new ⟨"web", rfl⟩))
  obtain ⟨r, hr, -, -, hall, -⟩ := carries_traffic web .empty
  obtain ⟨s, hs, -, -, -, hread⟩ := carries_traffic (named "open") .empty
  have hnone : ∀ d, (named "open").rules d = [] := fun d => by cases d <;> rfl
  exact ⟨⟨r, hr, hall hbuilt⟩, named "open", s, rfl, hs, (hread entries rfl rfl).mpr hnone⟩

/-- A policy that is read with a rule but without directions. Its record restricts nothing. -/
theorem not_carries_traffic_db :
    let peer : Value := .mapping [("type", .text "pods"),
      ("labels", .mapping [("app", .text "api")])]
    let rule : Value := .mapping [("peers", .list [peer]),
      ("ports", .list [.list [.int 5432, .text "TCP"]])]
    let entries : Assoc Value := [("type", .text "NetworkPolicy"), ("name", .text "db-access"),
      ("podSelector", .mapping [("app", .text "db")]), ("ingress", .list [rule])]
    ∃ p r, Definition.decode Definition.types (.mapping entries) = .ok (.networkPolicy p) ∧
      p.ingress = [{ peers := [.app "api"], ports := [(5432, .tcp)] }] ∧
      (Definition.networkPolicy p).records .empty = .ok [r] ∧
      r.policyTypes = [] ∧ r.trafficRules .ingress = [] ∧ ¬ p.ListsAll r := by
  intro peer rule entries
  obtain ⟨p, hp, hingress, htypes⟩ : ∃ p,
      Definition.decode Definition.types (.mapping entries) = .ok (.networkPolicy p) ∧
      p.ingress = [{ peers := [.app "api"], ports := [(5432, .tcp)] }] ∧ p.policyTypes = [] :=
    ⟨_, rfl, rfl, rfl⟩
  obtain ⟨r, hr⟩ : ∃ r, p.records = [r] := ⟨_, rfl⟩
  have hlist : r.trafficRules .ingress = [] := by
    rw [trafficRules_of_records hr, htypes, if_neg List.not_mem_nil]
  refine ⟨p, r, hp, hingress, congrArg Except.ok hr, ?_, hlist, fun hall => ?_⟩
  · rw [policyTypes_of_records hr, htypes, List.map_nil]
  · have hrules := hall.rules .ingress
    rw [hlist, rules, hingress] at hrules
    exact absurd hrules nofun

end NetworkPolicy

end Rollout
