import Mathlib.Data.List.Forall2
import Mathlib.Data.List.Induction
import Mathlib.Data.List.Nodup
import Rollout.Proofs.App.Route

/-!
# The rules of hosts

Hosts and paths may be routed in any order. An Ingress holds one rule for each host, in the order in
which the hosts first occur, and each rule holds the paths of its host in the order in which they
were given. Where backends are filled in, rules, hosts and paths stay as they are, and so does each
path that has a backend. Nothing is left to be filled in a second time.
-/

namespace Rollout

/-! ### Calls -/

/-- A call that routes a path of a host: the path `/` to the application, or a path to a Service. -/
inductive RouteCall where
  | host (host : String)
  | route (host path service : String) (port : Nat)

namespace RouteCall

/-- The Ingress after the call. -/
def apply : RouteCall → Ingress → Ingress
  | host h, i => i.withHost h
  | route h path service port, i => i.route h path service port

/-- The host that is routed. -/
def hostName : RouteCall → String
  | host h => h
  | route h _ _ _ => h

/-- The path that is routed. -/
def entry : RouteCall → IngressPath
  | host _ => { path := "/" }
  | route _ path service port => { path, service, port }

variable {calls : List RouteCall} {h : String}

/-- The hosts of calls, in the order in which they first occur. -/
def hostsOf (calls : List RouteCall) : List String := (calls.map hostName).eraseDups

/-- The paths that calls give for a host, in the order of the calls. -/
def pathsFor (calls : List RouteCall) (h : String) : List IngressPath :=
  (calls.filter (·.hostName = h)).map entry

/-- The rules that calls make up. -/
def rulesOf (calls : List RouteCall) : List IngressRule :=
  (hostsOf calls).map fun h => { host := some h, paths := pathsFor calls h }

theorem rules_apply (call : RouteCall) (i : Ingress) :
    (call.apply i).rules = IngressRule.insertPath call.hostName call.entry i.rules := by
  cases call <;> rfl

theorem mem_hostsOf_iff : h ∈ hostsOf calls ↔ ∃ call ∈ calls, call.hostName = h := by
  rw [hostsOf, List.mem_eraseDups, List.mem_map]

theorem hostsOf_concat_of_mem {call : RouteCall} (hmem : call.hostName ∈ hostsOf calls) :
    hostsOf (calls ++ [call]) = hostsOf calls := by
  rw [hostsOf, List.mem_eraseDups] at hmem
  rw [hostsOf, List.map_append, List.eraseDups_append, List.map_singleton, List.cons_removeAll,
    if_neg (by simpa using hmem), List.nil_removeAll, List.eraseDups_nil, List.append_nil, hostsOf]

/-- One more call adds its host behind the others if it is a new one. -/
theorem hostsOf_concat_of_notMem {call : RouteCall} (hnew : call.hostName ∉ hostsOf calls) :
    hostsOf (calls ++ [call]) = hostsOf calls ++ [call.hostName] := by
  rw [hostsOf, List.mem_eraseDups] at hnew
  rw [hostsOf, List.map_append, List.eraseDups_append, List.map_singleton, List.cons_removeAll,
    if_pos (by simpa using hnew), List.nil_removeAll, hostsOf]
  rfl

theorem nodup_hostsOf (calls : List RouteCall) : (hostsOf calls).Nodup := by
  induction calls using List.reverseRecOn with
  | nil => exact List.nodup_nil
  | append_singleton calls call ih =>
    by_cases hmem : call.hostName ∈ hostsOf calls
    · rwa [hostsOf_concat_of_mem hmem]
    · rw [hostsOf_concat_of_notMem hmem, ← List.concat_eq_append]
      exact ih.concat hmem

/-- One more call adds its path behind the others of its host. -/
theorem pathsFor_concat (calls : List RouteCall) (call : RouteCall) (h : String) :
    pathsFor (calls ++ [call]) h =
      if h = call.hostName then pathsFor calls h ++ [call.entry] else pathsFor calls h := by
  rw [pathsFor, List.filter_append, List.map_append, ← pathsFor]
  split
  · rename_i hhost
    rw [List.filter_cons_of_pos (by simpa using hhost.symm)]
    rfl
  · rename_i hhost
    rw [List.filter_cons_of_neg (by simpa using Ne.symm hhost)]
    exact List.append_nil _

theorem pathsFor_of_notMem (hnone : h ∉ hostsOf calls) : pathsFor calls h = [] := by
  rw [pathsFor, List.map_eq_nil_iff, List.filter_eq_nil_iff]
  intro call hcall hhost
  exact hnone (mem_hostsOf_iff.mpr ⟨call, hcall, of_decide_eq_true hhost⟩)

end RouteCall

/-! ### One rule for each host -/

namespace IngressRule

variable {host : String} {path : IngressPath}

/-- A path of a new host makes a rule of its own behind the others. -/
theorem insertPath_of_notMem {rules : List IngressRule} (h : ∀ r ∈ rules, r.host ≠ some host) :
    insertPath host path rules = rules ++ [{ host := some host, paths := [path] }] := by
  induction rules with
  | nil => rfl
  | cons r rules ih =>
    obtain ⟨hr, hrules⟩ := List.forall_mem_cons.mp h
    rw [insertPath, if_neg hr, ih hrules, List.cons_append]

/-- A path of a known host goes behind the paths of that host, and the other rules stay. -/
theorem insertPath_of_mem {hosts : List String} {paths : String → List IngressPath}
    (hnodup : hosts.Nodup) (hmem : host ∈ hosts) :
    insertPath host path (hosts.map fun h => { host := some h, paths := paths h }) =
      hosts.map fun h =>
        { host := some h, paths := if h = host then paths h ++ [path] else paths h } := by
  induction hosts with
  | nil => exact absurd hmem List.not_mem_nil
  | cons h hosts ih =>
    obtain ⟨hnew, hnodup⟩ := List.nodup_cons.mp hnodup
    rw [List.map_cons, List.map_cons, insertPath]
    by_cases hhost : h = host
    · -- the rule of the host is found first, and as hosts are distinct no other rule is its own
      subst hhost
      rw [if_pos rfl, if_pos rfl]
      refine congrArg _ (List.map_congr_left fun h' hh' => ?_)
      rw [if_neg fun heq : h' = h => hnew (heq ▸ hh')]
    · have hrest := (List.mem_cons.mp hmem).resolve_left (Ne.symm hhost)
      rw [if_neg fun heq => hhost (Option.some.inj heq), if_neg hhost, ih hnodup hrest]

/-- The rules after one more call are those with its path inserted. -/
theorem insertPath_rulesOf (calls : List RouteCall) (call : RouteCall) :
    insertPath call.hostName call.entry (RouteCall.rulesOf calls) =
      RouteCall.rulesOf (calls ++ [call]) := by
  have hpaths := RouteCall.pathsFor_concat calls call
  unfold RouteCall.rulesOf
  by_cases hmem : call.hostName ∈ RouteCall.hostsOf calls
  · rw [RouteCall.hostsOf_concat_of_mem hmem,
      insertPath_of_mem (RouteCall.nodup_hostsOf calls) hmem]
    simp only [hpaths]
  · have hkept : ∀ h ∈ RouteCall.hostsOf calls,
        RouteCall.pathsFor (calls ++ [call]) h = RouteCall.pathsFor calls h := by
      intro h hh
      rw [hpaths, if_neg fun heq : h = call.hostName => hmem (heq ▸ hh)]
    have hlast : RouteCall.pathsFor (calls ++ [call]) call.hostName = [call.entry] := by
      rw [hpaths, if_pos rfl, RouteCall.pathsFor_of_notMem hmem, List.nil_append]
    rw [RouteCall.hostsOf_concat_of_notMem hmem, insertPath_of_notMem, List.map_append,
      List.map_singleton, hlast]
    · refine congrArg (· ++ _) (List.map_congr_left fun h hh => ?_)
      rw [hkept h hh]
    · rintro r hr heq
      obtain ⟨h, hh, rfl⟩ := List.mem_map.mp hr
      exact hmem (Option.some.inj heq ▸ hh)

end IngressRule

namespace Ingress

variable {i : Ingress}

/-- The Ingress after calls, one after the other. -/
def afterCalls (i : Ingress) (calls : List RouteCall) : Ingress :=
  calls.foldl (fun i call => call.apply i) i

/-- Whatever the calls are and however they are mixed, they make up their rules. -/
theorem rules_afterCalls (hnone : i.rules = []) (calls : List RouteCall) :
    (i.afterCalls calls).rules = RouteCall.rulesOf calls := by
  -- rules are searched for the host of the last call, which is thus the one to be taken off
  induction calls using List.reverseRecOn with
  | nil => exact hnone
  | append_singleton calls call ih =>
    rw [afterCalls, List.foldl_concat, ← afterCalls, RouteCall.rules_apply, ih,
      IngressRule.insertPath_rulesOf]

end Ingress

/-- The hosts of the rules of a record in order, each with its routes. -/
def Record.hostRules (r : Record) : List (Option Value × List Route) :=
  (r.spec.at "rules").items.map fun rule => (rule.field? "host", Route.ofRule rule)

/-! ### Backends that are filled in -/

namespace IngressPath

/-- A path has a backend. -/
def HasBackend (p : IngressPath) : Prop := p.service ≠ "" ∧ p.port ≠ 0

/-- The second path is the first one with a backend: what the first one has stays, and it is the
second one if it has a backend. -/
structure Completes (p q : IngressPath) : Prop where
  path_eq : q.path = p.path
  pathType_eq : q.pathType = p.pathType
  service_eq : p.service ≠ "" → q.service = p.service
  port_eq : p.port ≠ 0 → q.port = p.port
  hasBackend : q.HasBackend
  eq_of_hasBackend : p.HasBackend → q = p

variable {p : IngressPath} {service : String} {port : Nat}

theorem withDefaultBackend_of_hasBackend (h : p.HasBackend) :
    p.withDefaultBackend service port = p := by
  simp [withDefaultBackend, h.1, h.2]

theorem completes_withDefaultBackend (hservice : service ≠ "") (hport : port ≠ 0) :
    p.Completes (p.withDefaultBackend service port) where
  path_eq := rfl
  pathType_eq := rfl
  service_eq h := if_neg (by simpa using h)
  port_eq h := if_neg h
  hasBackend := by
    constructor
    · by_cases h : p.service = "" <;> simp [withDefaultBackend, h, hservice]
    · by_cases h : p.port = 0 <;> simp [withDefaultBackend, h, hport]
  eq_of_hasBackend := withDefaultBackend_of_hasBackend

end IngressPath

namespace Ingress

/-- The second Ingress is the first one with a backend for every path: there are the same rules for
the same hosts, and the paths of each rule are completed one by one. -/
structure Completes (i j : Ingress) : Prop where
  hasBackend : ∀ rule ∈ j.rules, ∀ p ∈ rule.paths, p.HasBackend
  rules : List.Forall₂ (fun r r' : IngressRule =>
    r'.host = r.host ∧ List.Forall₂ IngressPath.Completes r.paths r'.paths) i.rules j.rules
  rest : j.info = i.info ∧ j.className = i.className ∧ j.tls = i.tls

variable {i : Ingress} {service : String} {port : Nat}

theorem completes_withDefaultBackend (hservice : service ≠ "") (hport : port ≠ 0) :
    i.Completes (i.withDefaultBackend service port) := by
  have hpath (p : IngressPath) : p.Completes (p.withDefaultBackend service port) :=
    IngressPath.completes_withDefaultBackend hservice hport
  refine ⟨?_, ?_, rfl, rfl, rfl⟩
  · intro rule hrule p hp
    obtain ⟨r, -, rfl⟩ := List.mem_map.mp hrule
    obtain ⟨q, -, rfl⟩ := List.mem_map.mp hp
    exact (hpath q).hasBackend
  · rw [withDefaultBackend, List.forall₂_map_right_iff, List.forall₂_same]
    intro r _
    refine ⟨rfl, ?_⟩
    rw [List.forall₂_map_right_iff, List.forall₂_same]
    exact fun p _ => hpath p

/-- Where every path has a backend there is nothing to fill in. -/
theorem withDefaultBackend_of_hasBackend (h : ∀ rule ∈ i.rules, ∀ p ∈ rule.paths, p.HasBackend) :
    i.withDefaultBackend service port = i := by
  have hrule : ∀ r ∈ i.rules,
      { r with paths := r.paths.map fun p => p.withDefaultBackend service port } = id r := by
    intro r hr
    have hpaths : ∀ p ∈ r.paths, p.withDefaultBackend service port = id p :=
      fun p hp => IngressPath.withDefaultBackend_of_hasBackend (h r hr p hp)
    rw [List.map_congr_left hpaths, List.map_id]
    rfl
  rw [withDefaultBackend, List.map_congr_left hrule, List.map_id]

/-- The record of an Ingress has its rules, in order. -/
theorem hostRules_of_records {x : Record} (h : i.records = [x]) :
    x.hostRules = i.rules.map fun rule =>
      (rule.host.map .text, rule.paths.map (IngressPath.route rule.host)) := by
  rw [Record.hostRules, items_rules_of_records h, List.map_map]
  refine List.map_congr_left fun rule _ => ?_
  exact Prod.ext rule.field?_host (Route.ofRule_toValue rule)

/-- The record of an Ingress whose routes were given by calls has one rule for each host, in the
order in which the hosts first occur, with the paths of that host in the order of the calls. A
default backend is given to the paths without one. It leaves rules, hosts, paths and their order
as they are, and all that has a backend, and a second one changes nothing any more. -/
theorem hostRules_grouped (hnone : i.rules = []) (calls : List RouteCall) (hservice : service ≠ "")
    (hport : port ≠ 0) :
    (∃ x, (i.afterCalls calls).records = [x] ∧
      x.hostRules = (RouteCall.hostsOf calls).map fun h =>
        (some (.text h), (RouteCall.pathsFor calls h).map (IngressPath.route (some h)))) ∧
    ∀ j : Ingress, j.Completes (j.withDefaultBackend service port) ∧
      ∀ service' port', (j.withDefaultBackend service port).withDefaultBackend service' port' =
        j.withDefaultBackend service port := by
  constructor
  · refine ⟨_, rfl, ?_⟩
    rw [hostRules_of_records rfl, rules_afterCalls hnone, RouteCall.rulesOf, List.map_map]
    rfl
  · intro j
    have hcompletes : j.Completes (j.withDefaultBackend service port) :=
      completes_withDefaultBackend hservice hport
    exact ⟨hcompletes, fun _ _ => withDefaultBackend_of_hasBackend hcompletes.hasBackend⟩

/-- Two hosts whose calls are mixed, with a path that lacks its Service and one that lacks both. -/
theorem hostRules_grouped_shop :
    let calls : List RouteCall := [.route "shop.example" "/" "front" 80, .host "docs.example",
      .route "shop.example" "/api" "" 9090]
    let i := (named "shop").afterCalls calls
    (∃ x, i.records = [x] ∧ x.hostRules =
      [(some (.text "shop.example"),
          [⟨.text "shop.example", .text "/", .text "Prefix", .text "front", .nat 80⟩,
            ⟨.text "shop.example", .text "/api", .text "Prefix", .text "", .nat 9090⟩]),
        (some (.text "docs.example"),
          [⟨.text "docs.example", .text "/", .text "Prefix", .text "", .nat 0⟩])]) ∧
      i.Completes (i.withDefaultBackend "shop" 8080) ∧
      (i.withDefaultBackend "shop" 8080).withDefaultBackend "other" 1 =
        i.withDefaultBackend "shop" 8080 := by
  intro calls i
  have hnone : (named "shop").rules = [] := rfl
  have hservice : "shop" ≠ "" := by decide
  have hport : 8080 ≠ 0 := by decide
  obtain ⟨hrecord, hbackend⟩ := hostRules_grouped hnone calls hservice hport
  exact ⟨hrecord, (hbackend i).1, (hbackend i).2 "other" 1⟩

end Ingress

end Rollout
