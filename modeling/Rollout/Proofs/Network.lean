import Rollout.Network.Ingress
import Rollout.Network.Policy
import Rollout.Network.Service
import Rollout.Proofs.Workload.Parts

/-!
# Services, Ingresses and network policies are read back

What connects pods with each other and with the outside is read back from what is written
for it once it has been set up.
-/

namespace Rollout

open Codec Fields Variant

theorem ServiceType.returns (t : ServiceType) : ServiceType.codec.Returns t := by
  cases t <;> exact returns_choice rfl

namespace ServicePort

/-- Its numbers are those of ports. -/
structure Fits (p : ServicePort) : Prop where
  port : p.port < UInt16.size
  targetPort : p.targetPort < UInt16.size
  nodePort : ∀ n ∈ p.nodePort, n < UInt16.size

theorem returns {p : ServicePort} (h : p.Fits) : codec.Returns p :=
  returns_struct (by decide)
    (.seq (readsBack_defaulted p.protocol.returns) <|
      .seq (readsBack_optional nofun fun n hn => returns_nat16 (h.nodePort n hn)) <|
      .seq readsBack_optionalText <|
      .seq (readsBack_required (returns_nat16 h.targetPort)) <|
      .map _ (readsBack_required (returns_nat16 h.port)))
    rfl

end ServicePort

namespace Service

/-- The settings of a Service. -/
inductive IsSetting : (Service → Service) → Prop where
  | info {f : Meta → Meta} (hf : Meta.IsSetting f) : IsSetting (·.mapInfo f)
  | serviceType (serviceType : ServiceType) : IsSetting (·.withType serviceType)
  | port {port : Nat} (h : port < UInt16.size) : IsSetting (·.withPort port)
  | portMapping {port targetPort : Nat} (h : port < UInt16.size) (ht : targetPort < UInt16.size) :
    IsSetting (·.withPortMapping port targetPort)
  | addPort {p : ServicePort} (h : p.Fits) : IsSetting (·.addPort p)
  | selector (labels : List (String × String)) : IsSetting (·.withSelector labels)
  | sessionAffinity (affinity : String) : IsSetting (·.withSessionAffinity affinity)

/-- A Service that has been set up. -/
def Built : Service → Prop := Reached (fun s => ∃ name, s = named name) IsSetting

/-- Its metadata and its selector are sorted, and its ports are those of their type. -/
structure Fits (s : Service) : Prop where
  info : s.info.Fits
  ports : ∀ p ∈ s.ports, p.Fits
  selector : s.selector.IsSorted

theorem Built.fits {s : Service} (h : s.Built) : s.Fits := by
  refine h.holds ?_ fun f s hf hs => ?_
  · rintro _ ⟨name, rfl⟩
    exact ⟨Meta.fits_of_empty name defaultNamespace, nofun, List.pairwise_singleton _ _⟩
  · cases hf with
    | info hf => exact { hs with info := hf.fits hs.info }
    | port h => exact { hs with ports := forall_mem_concat hs.ports ⟨h, h, nofun⟩ }
    | portMapping h ht => exact { hs with ports := forall_mem_concat hs.ports ⟨h, ht, nofun⟩ }
    | addPort hp => exact { hs with ports := forall_mem_concat hs.ports hp }
    | selector labels => exact { hs with selector := Assoc.isSorted_sorted labels }
    | _ => exact { hs with }

theorem returnsBehind {s : Service} (h : s.Fits) : codec.ReturnsBehind "type" s :=
  returnsBehind_mapping (by decide)
    (.seq readsBack_optionalText <|
      .seq (readsBack_sortedText h.selector) <|
      .seq (readsBack_items fun p hp => ServicePort.returns (h.ports p hp)) <|
      .seq (readsBack_defaulted s.serviceType.returns) <|
      .map _ (readsBack_part (Meta.readsBack_fields h.info)))
    rfl

end Service

theorem PathType.returns (t : PathType) : PathType.codec.Returns t := by
  cases t <;> exact returns_choice rfl

theorem IngressPath.returns {p : IngressPath} (h : p.port < UInt16.size) :
    IngressPath.codec.Returns p :=
  returns_struct (by decide)
    (.seq (readsBack_defaulted (returns_nat16 h)) <|
      .seq (readsBack_defaulted (returns_text _)) <|
      .seq (readsBack_defaulted p.pathType.returns) <|
      .map _ readsBack_requiredText)
    rfl

theorem IngressTls.returns (t : IngressTls) : IngressTls.codec.Returns t :=
  returns_struct (by decide)
    (.seq readsBack_requiredText <|
      .map _ (readsBack_required (returns_list fun host _ => returns_text host)))
    rfl

namespace IngressRule

/-- The ports of its backends are ports. -/
def Fits (r : IngressRule) : Prop := ∀ p ∈ r.paths, p.port < UInt16.size

theorem returns {r : IngressRule} (h : r.Fits) : codec.Returns r :=
  returns_struct (by decide)
    (.seq (readsBack_required (returns_list fun p hp => IngressPath.returns (h p hp))) <|
      .map _ readsBack_optionalText)
    rfl

/-- A path is added to a rule of its host or makes a rule of its own. -/
theorem fits_insertPath {host : String} {path : IngressPath} {rules : List IngressRule}
    (hpath : path.port < UInt16.size) (h : ∀ r ∈ rules, r.Fits) :
    ∀ r ∈ insertPath host path rules, r.Fits := by
  induction rules with
  | nil =>
    refine List.forall_mem_singleton.mpr ?_
    exact List.forall_mem_singleton.mpr hpath
  | cons rule rules ih =>
    obtain ⟨hrule, hrules⟩ := List.forall_mem_cons.mp h
    unfold insertPath
    split
    · exact List.forall_mem_cons.mpr ⟨forall_mem_concat hrule hpath, hrules⟩
    · exact List.forall_mem_cons.mpr ⟨hrule, ih hrules⟩

end IngressRule

namespace Ingress

/-- The settings of an Ingress. -/
inductive IsSetting : (Ingress → Ingress) → Prop where
  | info {f : Meta → Meta} (hf : Meta.IsSetting f) : IsSetting (·.mapInfo f)
  | className (name : String) : IsSetting (·.withClassName name)
  | host (host : String) : IsSetting (·.withHost host)
  | route {port : Nat} (host path service : String) (h : port < UInt16.size) :
    IsSetting (·.route host path service port)
  | rule {r : IngressRule} (h : r.Fits) : IsSetting (·.addRule r)
  | tls (hosts : List String) (secretName : String) : IsSetting (·.withTls hosts secretName)

/-- An Ingress that has been set up. -/
def Built : Ingress → Prop := Reached (fun i => ∃ name, i = named name) IsSetting

/-- Its metadata are sorted, and the ports of its backends are ports. -/
structure Fits (i : Ingress) : Prop where
  info : i.info.Fits
  rules : ∀ r ∈ i.rules, r.Fits

theorem Fits.route {i : Ingress} {port : Nat} (h : i.Fits) (host path service : String)
    (hport : port < UInt16.size) : (i.route host path service port).Fits :=
  { h with rules := IngressRule.fits_insertPath hport h.rules }

theorem Built.fits {i : Ingress} (h : i.Built) : i.Fits := by
  refine h.holds ?_ fun f i hf hi => ?_
  · rintro _ ⟨name, rfl⟩
    exact ⟨Meta.fits_of_empty name defaultNamespace, nofun⟩
  · cases hf with
    | info hf => exact { hi with info := hf.fits hi.info }
    | host host => exact hi.route host "/" "" (by decide)
    | route host path service hport => exact hi.route host path service hport
    | rule hr => exact { hi with rules := forall_mem_concat hi.rules hr }
    | _ => exact { hi with }

theorem returnsBehind {i : Ingress} (h : i.Fits) : codec.ReturnsBehind "type" i :=
  returnsBehind_mapping (by decide)
    (.seq (readsBack_items fun t _ => t.returns) <|
      .seq (readsBack_items fun r hr => IngressRule.returns (h.rules r hr)) <|
      .seq readsBack_optionalText <|
      .map _ (readsBack_part (Meta.readsBack_fields h.info)))
    rfl

end Ingress

theorem PolicyType.returns (t : PolicyType) : PolicyType.codec.Returns t := by
  cases t <;> exact returns_choice rfl

namespace Peer

/-- The labels by which it is found are sorted. -/
def Fits : Peer → Prop
  | pods labels | namespaces labels => labels.IsSorted
  | cidr _ _ => True

theorem returns {p : Peer} (h : p.Fits) : codec.Returns p := by
  cases p with
  | pods labels =>
    exact returns_tagged (by decide) ⟨rfl, rfl⟩ <| returns_ofFields rfl <|
      .map _ (readsBack_required (returns_sorted h fun e _ => returns_text e.2))
  | namespaces labels =>
    exact returns_tagged (by decide) ⟨rfl, rfl⟩ <| returns_ofFields rfl <|
      .map _ (readsBack_required (returns_sorted h fun e _ => returns_text e.2))
  | cidr block except =>
    exact returns_tagged (by decide) ⟨rfl, rfl⟩ <| returns_ofFields rfl <|
      .seq readsBack_itemsText <| .map _ readsBack_requiredText

end Peer

namespace TrafficRule

/-- The labels of its peers are sorted, and its ports are ports. -/
structure Fits (r : TrafficRule) : Prop where
  peers : ∀ p ∈ r.peers, p.Fits
  ports : ∀ p ∈ r.ports, p.1 < UInt16.size

theorem returns {r : TrafficRule} (h : r.Fits) : codec.Returns r :=
  returns_struct (by decide)
    (.seq (readsBack_items fun p hp =>
        returns_pair (returns_nat16 (h.ports p hp)) p.2.returns) <|
      .map _ (readsBack_items fun p hp => Peer.returns (h.peers p hp)))
    rfl

theorem fits_single {peer : Peer} {port : Nat} (hpeer : peer.Fits) (hport : port < UInt16.size)
    (protocol : Protocol) : Fits { peers := [peer], ports := [(port, protocol)] } :=
  ⟨List.forall_mem_singleton.mpr hpeer, List.forall_mem_singleton.mpr hport⟩

end TrafficRule

namespace NetworkPolicy

/-- The settings of a network policy. -/
inductive IsSetting : (NetworkPolicy → NetworkPolicy) → Prop where
  | info {f : Meta → Meta} (hf : Meta.IsSetting f) : IsSetting (·.mapInfo f)
  | forApp (name : String) : IsSetting (·.forApp name)
  | podLabel (key value : String) : IsSetting (·.withPodLabel key value)
  | allowFrom {peer : Peer} {port : Nat} (hp : peer.Fits) (h : port < UInt16.size) :
    IsSetting (·.allowFrom peer port)
  | allowTo {peer : Peer} {port : Nat} (hp : peer.Fits) (h : port < UInt16.size) :
    IsSetting (·.allowTo peer port)
  | allow {rule : TrafficRule} (direction : PolicyType) (h : rule.Fits) :
    IsSetting (·.allow direction rule)
  | allowDns : IsSetting (·.allowDns)
  | restrict (direction : PolicyType) : IsSetting (·.restrict direction)

/-- A network policy that has been set up. -/
def Built : NetworkPolicy → Prop := Reached (fun p => ∃ name, p = named name) IsSetting

/-- Its metadata and its selector are sorted, and so is what its rules list. -/
structure Fits (p : NetworkPolicy) : Prop where
  info : p.info.Fits
  podSelector : p.podSelector.IsSorted
  ingress : ∀ r ∈ p.ingress, r.Fits
  egress : ∀ r ∈ p.egress, r.Fits

theorem Fits.withPodLabel {p : NetworkPolicy} (h : p.Fits) (key value : String) :
    (p.withPodLabel key value).Fits :=
  { h with podSelector := h.podSelector.insertSorted key value }

theorem Fits.restrict {p : NetworkPolicy} (h : p.Fits) (direction : PolicyType) :
    (p.restrict direction).Fits := by
  unfold NetworkPolicy.restrict
  split
  · exact h
  · exact { h with }

theorem Fits.allow {p : NetworkPolicy} {rule : TrafficRule} (h : p.Fits) (direction : PolicyType)
    (hrule : rule.Fits) : (p.allow direction rule).Fits := by
  refine Fits.restrict ?_ direction
  cases direction with
  | ingress => exact { h with ingress := forall_mem_concat h.ingress hrule }
  | egress => exact { h with egress := forall_mem_concat h.egress hrule }

theorem Built.fits {p : NetworkPolicy} (h : p.Built) : p.Fits := by
  refine h.holds ?_ fun f p hf hp => ?_
  · rintro _ ⟨name, rfl⟩
    exact ⟨Meta.fits_of_empty name defaultNamespace, List.Pairwise.nil, nofun, nofun⟩
  · cases hf with
    | info hf => exact { hp with info := hf.fits hp.info }
    | forApp name => exact hp.withPodLabel Label.app name
    | podLabel key value => exact hp.withPodLabel key value
    | allowFrom hpeer hport => exact hp.allow .ingress (TrafficRule.fits_single hpeer hport .tcp)
    | allowTo hpeer hport => exact hp.allow .egress (TrafficRule.fits_single hpeer hport .tcp)
    | allow direction hrule => exact hp.allow direction hrule
    | allowDns =>
      refine hp.allow .egress ⟨List.forall_mem_singleton.mpr ?_, by decide⟩
      exact List.pairwise_singleton _ _
    | restrict direction => exact hp.restrict direction

theorem returnsBehind {p : NetworkPolicy} (h : p.Fits) : codec.ReturnsBehind "type" p := by
  have hinfo := Meta.readsBack_fields h.info
  have hingress : ∀ r ∈ p.ingress, TrafficRule.codec.Returns r := fun r hr =>
    TrafficRule.returns (h.ingress r hr)
  have hegress : ∀ r ∈ p.egress, TrafficRule.codec.Returns r := fun r hr =>
    TrafficRule.returns (h.egress r hr)
  exact returnsBehind_mapping (by decide)
    (.seq (readsBack_items fun t _ => t.returns) <|
      .seq (readsBack_items hegress) <|
      .seq (readsBack_items hingress) <|
      .seq (readsBack_sortedText h.podSelector) <|
      .map _ (readsBack_part hinfo))
    rfl

end NetworkPolicy

end Rollout
