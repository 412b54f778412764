import Rollout.Proofs.App.Service
import Rollout.Proofs.Workload.Template

/-!
# The routes to an application

An Ingress that is attached to an application is filled in where it names no backend: requests go to
the Service of the application, at its first port. That Service is generated if the application is
exposed, has ports or is monitored, whether something is routed to it or not. So a path without a
backend of its own leads to no Service if the application has none of these.
-/

namespace Rollout

/-- Where requests for a host and a path go. -/
structure Route where
  host : Value
  path : Value
  pathType : Value
  service : Value
  port : Value

/-- The routes of a rule of a record. A rule without a host is for all hosts, as one for the empty
host is. -/
def Route.ofRule (rule : Value) : List Route :=
  ((rule.at "http").at "paths").items.map fun path =>
    let service := (path.at "backend").at "service"
    { host := (rule.field? "host").getD (.text ""), path := path.at "path"
      pathType := path.at "pathType", service := service.at "name"
      port := (service.at "port").at "number" }

/-- The routes of an Ingress. -/
def Record.routes (r : Record) : List Route := (r.spec.at "rules").items.flatMap Route.ofRule

/-- The route of a path for a host, or for all hosts. -/
def IngressPath.route (host : Option String) (p : IngressPath) : Route :=
  ⟨.text (host.getD ""), .text p.path, .text p.pathType.name, .text p.service, .nat p.port⟩

/-- The routes that an Ingress is defined with. -/
def Ingress.routes (i : Ingress) : List Route :=
  i.rules.flatMap fun rule => rule.paths.map (IngressPath.route rule.host)

theorem IngressRule.field?_host (rule : IngressRule) :
    rule.toValue.field? "host" = rule.host.map .text := by
  unfold toValue
  cases rule.host <;> rfl

theorem Route.ofRule_toValue (rule : IngressRule) :
    ofRule rule.toValue = rule.paths.map (IngressPath.route rule.host) := by
  have hhost : (rule.toValue.field? "host").getD (.text "") = .text (rule.host.getD "") := by
    rw [IngressRule.field?_host, Option.getD_map]
  have hpaths : ((rule.toValue.at "http").at "paths").items =
      rule.paths.map IngressPath.toValue := by
    unfold IngressRule.toValue
    cases rule.host <;> rfl
  rw [ofRule, hhost, hpaths, List.map_map]
  rfl

/-- The record of an Ingress has its rules. -/
theorem Ingress.items_rules_of_records {i : Ingress} {x : Record} (h : i.records = [x]) :
    (x.spec.at "rules").items = i.rules.map IngressRule.toValue := by
  obtain rfl := (List.cons.inj h).1
  simp [Record.spec, Record.toValue, Value.at_mapping, Assoc.get?_cons, Assoc.get?_append,
    get?_optionEntry_of_ne, get?_listEntry_of_ne, Value.items, Value.items?]

/-- The record of an Ingress has its routes. -/
theorem Ingress.routes_of_records {i : Ingress} {x : Record} (h : i.records = [x]) :
    x.routes = i.routes := by
  rw [Record.routes, items_rules_of_records h, List.flatMap_map, routes]
  congr 1
  funext rule
  exact Route.ofRule_toValue rule

namespace App

variable {files : FileTree} {rs : List Record} {a : App} {i : Ingress} {r : Record}

/-- Each Ingress among the records of an application is that of an attached one, with its backends
filled in and moved to the application. -/
theorem ingress_mem_iff (h : a.records files = .ok rs) : r ∈ rs ∧ r.kind = "Ingress" ↔
    ∃ i ∈ a.ingresses, ∃ x, (a.routed i).records = [x] ∧ r = Workload.adoptRecord a.info.ns x := by
  obtain ⟨notes, hcomposed⟩ := composed h
  constructor
  · rintro ⟨hr, hkind⟩
    obtain hown | ⟨d, hd, x, hx, rfl⟩ := (hcomposed.mem_iff r).mp hr
    · have hcases := cases_of_mem_ownRecords hown
      simp [hkind] at hcases
    · have htype : d.typeName = "Ingress" := by
        rw [← hkind, Workload.kind_adoptRecord, (hcomposed.describes hd hx).kind_eq]
      simp only [nested, routes, attached, Workload.configuration, List.mem_append,
        List.mem_map] at hd
      obtain (⟨i, hi, rfl⟩ | ⟨c, -, rfl⟩ | ⟨s, -, rfl⟩) | (⟨j, -, rfl⟩ | ⟨j, -, rfl⟩) |
        ⟨s, -, rfl⟩ := hd
      · exact ⟨i, hi, x, Except.ok.inj hx, rfl⟩
      · exact absurd htype (by decide : "ConfigMap" ≠ "Ingress")
      · exact absurd htype (by decide : "Secret" ≠ "Ingress")
      · exact absurd htype (by decide : "Job" ≠ "Ingress")
      · exact absurd htype (by decide : "CronJob" ≠ "Ingress")
      · exact absurd htype (by decide : "ServiceAccount" ≠ "Ingress")
  · rintro ⟨i, hi, x, hx, rfl⟩
    have hnested : .ingress (a.routed i) ∈ a.nested := by
      simp only [nested, routes, List.mem_append]
      exact .inl (.inl (List.mem_map_of_mem hi))
    have hx' : (Definition.ingress (a.routed i)).records files = .ok [x] :=
      congrArg Except.ok hx
    refine ⟨(hcomposed.mem_iff _).mpr (.inr ⟨_, hnested, x, hx', rfl⟩), ?_⟩
    rw [Workload.kind_adoptRecord, (hcomposed.describes hnested hx').kind_eq]
    rfl

/-- The record of an attached Ingress lives with the application, unless the Ingress was given a
namespace of its own, and routes to it what has no backend. -/
theorem describes_adopted_ingress {x : Record} (hx : (a.routed i).records = [x]) :
    (Workload.adoptRecord a.info.ns x).Describes ⟨"Ingress", i.info.name,
        some (if i.info.ns = defaultNamespace then a.info.ns else i.info.ns)⟩ ∧
      (Workload.adoptRecord a.info.ns x).routes = (a.routed i).routes := by
  have hscope : Kind.isClusterScoped "Ingress" = false := by decide
  obtain ⟨y, hy, hdescribes⟩ : ∃ y, (a.routed i).records = [y] ∧
      y.Describes (.placed "Ingress" i.info.name i.info.ns) :=
    ⟨_, rfl, Record.describes_of_meta (by decide) (by decide) _ i.info _⟩
  obtain rfl := (List.cons.inj (hx.symm.trans hy)).1
  rw [Identity.placed_of_namespaced hscope] at hdescribes
  refine ⟨Workload.describes_adoptRecord hscope hdescribes a.info.ns, ?_⟩
  rw [Record.routes, (Workload.extends_adoptRecord a.info.ns x).spec, ← Record.routes]
  exact Ingress.routes_of_records hx

/-- Every Ingress among the records of an application is one that is attached to it, with its
backends filled in. -/
theorem ingress_of_mem (h : a.records files = .ok rs) (hr : r ∈ rs) (hkind : r.kind = "Ingress") :
    ∃ i ∈ a.ingresses, r.name? = some i.info.name ∧ r.routes = (a.routed i).routes := by
  obtain ⟨i, hi, x, hx, rfl⟩ := (ingress_mem_iff h).mp ⟨hr, hkind⟩
  obtain ⟨hdescribes, hroutes⟩ := describes_adopted_ingress hx
  exact ⟨i, hi, hdescribes.name, hroutes⟩

/-- Every attached Ingress has a record. -/
theorem exists_ingress (h : a.records files = .ok rs) (hi : i ∈ a.ingresses) :
    ∃ r ∈ rs, r.Describes ⟨"Ingress", i.info.name,
        some (if i.info.ns = defaultNamespace then a.info.ns else i.info.ns)⟩ ∧
      r.routes = (a.routed i).routes := by
  obtain ⟨x, hx⟩ : ∃ x, (a.routed i).records = [x] := ⟨_, rfl⟩
  exact ⟨_, ((ingress_mem_iff h).mpr ⟨i, hi, x, hx, rfl⟩).1, describes_adopted_ingress hx⟩

/-- A path without a backend is routed to the application at its first port. -/
theorem route_mem_routes_routed {rule : IngressRule} (hrule : rule ∈ i.rules) {path : IngressPath}
    (hpath : path ∈ rule.paths) (hservice : path.service = "") (hport : path.port = 0) :
    IngressPath.route rule.host { path with service := a.info.name, port := a.backendPort } ∈
      (a.routed i).routes := by
  have hfilled : path.withDefaultBackend a.info.name a.backendPort =
      { path with service := a.info.name, port := a.backendPort } := by
    simp [IngressPath.withDefaultBackend, hservice, hport]
  refine List.mem_flatMap.mpr ⟨_, List.mem_map_of_mem hrule, ?_⟩
  exact hfilled ▸ List.mem_map_of_mem (List.mem_map_of_mem hpath)

end App

/-- Requests along a route arrive: in a namespace, there is the Service that the route leads to, and
it lists the port. -/
def Route.Arrives (rs : List Record) (ns : Option String) (route : Route) : Prop :=
  ∃ s ∈ rs, s.kind = "Service" ∧ s.namespace? = ns ∧ route.service = .text s.name ∧
    ∃ port ∈ s.servicePorts, port.at "port" = route.port

namespace App

variable {files : FileTree} {rs : List Record} {a : App} {i : Ingress}

/-- What is routed to an application at its first port arrives if it has a Service. -/
theorem arrives_iff (h : a.records files = .ok rs) {route : Route}
    (hservice : route.service = .text a.info.name) (hport : route.port = .nat a.backendPort) :
    route.Arrives rs (some a.info.ns) ↔ a.hasService = true := by
  constructor
  · rintro ⟨s, hs, hkind, -⟩
    exact ((service_mem_iff h).mp ⟨hs, hkind⟩).1
  · intro hhas
    obtain ⟨hmem, hkind⟩ := (service_mem_iff h).mpr ⟨hhas, rfl⟩
    obtain ⟨p, hp, hfirst⟩ := a.exists_port_eq_backendPort
    refine ⟨a.serviceRecord, hmem, hkind, a.describes_serviceRecord.namespace?_eq, hservice, ?_⟩
    rw [servicePorts_serviceRecord]
    refine ⟨_, List.mem_map_of_mem hp, ?_⟩
    rw [hport, ← hfirst]
    rfl

/-- A path without a backend of an Ingress that is attached to an application and lives with it is
routed to the application, at its first port. Requests along this route arrive if and only if the
application is exposed, has ports or is monitored. -/
theorem route_arrives_iff (h : a.records files = .ok rs) (hi : i ∈ a.ingresses)
    (hns : i.info.ns = a.info.ns ∨ i.info.ns = defaultNamespace) {rule : IngressRule}
    (hrule : rule ∈ i.rules) {path : IngressPath} (hpath : path ∈ rule.paths)
    (hservice : path.service = "") (hport : path.port = 0) :
    ∃ r ∈ rs, r.Describes ⟨"Ingress", i.info.name, some a.info.ns⟩ ∧
      ∃ route ∈ r.routes,
        route = IngressPath.route rule.host
          { path with service := a.info.name, port := a.backendPort } ∧
        (route.Arrives rs r.namespace? ↔
          a.expose = true ∨ a.workload.ports ≠ [] ∨ a.monitoredPort?.isSome = true) := by
  obtain ⟨r, hr, hdescribes, hroutes⟩ := exists_ingress h hi
  have hplace : (if i.info.ns = defaultNamespace then a.info.ns else i.info.ns) = a.info.ns := by
    obtain hns | hns := hns
    · rw [hns, ite_self]
    · rw [if_pos hns]
  rw [hplace] at hdescribes
  have hroute := route_mem_routes_routed (a := a) hrule hpath hservice hport
  refine ⟨r, hr, hdescribes, _, hroutes ▸ hroute, rfl, ?_⟩
  rw [hdescribes.namespace?_eq, ← hasService_iff]
  exact arrives_iff h rfl rfl

/-- What is routed to an application with a port arrives. -/
theorem route_arrives_shop :
    let a := ((named "shop").mapWorkload (·.withPort 8080)).withIngressHost "shop.example"
    ∃ rs, a.records .empty = .ok rs ∧ ∃ r ∈ rs, r.kind = "Ingress" ∧
      ∃ route ∈ r.routes, route.host = .text "shop.example" ∧ route.Arrives rs r.namespace? := by
  intro a
  obtain ⟨rs, hrs⟩ : ∃ rs, a.records .empty = .ok rs := ⟨_, rfl⟩
  obtain ⟨r, hr, hdescribes, route, hroute, rfl, hiff⟩ := route_arrives_iff hrs
    List.mem_cons_self (.inl rfl) List.mem_cons_self List.mem_cons_self rfl rfl
  refine ⟨rs, hrs, r, hr, hdescribes.kind_eq, _, hroute, rfl, hiff.mpr (.inr (.inl ?_))⟩
  exact List.cons_ne_nil _ _

/-- What is routed to an application without ports arrives nowhere. -/
theorem not_arrives_worker :
    let i := (Ingress.named "worker").withHost "worker.example"
    let a := (named "worker").addIngress i
    ∃ rs, a.records .empty = .ok rs ∧ ∃ r ∈ rs, r.kind = "Ingress" ∧ r.namespace? = some a.info.ns ∧
      ∃ route ∈ r.routes, route.service = .text "worker" ∧ route.port = .nat 80 ∧
        ¬ route.Arrives rs r.namespace? := by
  intro i a
  obtain ⟨rs, hrs⟩ : ∃ rs, a.records .empty = .ok rs := ⟨_, rfl⟩
  obtain ⟨r, hr, hdescribes, hroutes⟩ := exists_ingress hrs (List.mem_singleton_self i)
  have hpath : (a.routed i).routes =
      [⟨.text "worker.example", .text "/", .text "Prefix", .text "worker", .nat 80⟩] := rfl
  refine ⟨rs, hrs, r, hr, hdescribes.kind_eq, hdescribes.namespace?_eq, _,
    hroutes.trans hpath ▸ List.mem_singleton_self _, rfl, rfl, ?_⟩
  rintro ⟨s, hs, hkind, -⟩
  exact absurd ((service_mem_iff hrs).mp ⟨hs, hkind⟩).1 (by decide)

end App

end Rollout
