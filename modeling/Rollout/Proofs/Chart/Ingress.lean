import Rollout.Proofs.App.Route
import Rollout.Proofs.Chart.Service

/-!
# The routes of the Ingress of a chart

An Ingress that goes by the name of its application is replaced by the template of the chart, which
sends every host and path to the Service of the release, at the port that the values hold. The
values keep the hosts and paths of the record and drop its backends. So the routes are those of
the record if and only if all of them lead to the application and its first port.
-/

namespace Rollout

namespace Route

/-- The route of the same requests to another backend. -/
def sentTo (r : Route) (service port : Value) : Route := { r with service, port }

theorem sentTo_eq_self_iff {r : Route} {service port : Value} :
    r.sentTo service port = r ↔ r.service = service ∧ r.port = port := by
  obtain ⟨host, path, pathType, service', port'⟩ := r
  rw [sentTo, mk.injEq]
  constructor
  · rintro ⟨-, -, -, rfl, rfl⟩
    exact ⟨rfl, rfl⟩
  · rintro ⟨rfl, rfl⟩
    exact ⟨rfl, rfl, rfl, rfl, rfl⟩

end Route

namespace Chart

variable {files : FileTree} {rs : List Record} {p : Primary} {fs : List OutputFile}
  {r : Record} {a : App} {place : Nat}

/-! ### The routes of the template -/

/-- The lines by which the template of an Ingress routes a path. -/
def routeText : String := marked r#"          - path: ‹‹ .path ››
            pathType: ‹‹ .pathType ››
            backend:
              service:
                name: ‹‹ $fullName ››
                port:
                  number: ‹‹ $svcPort ››
"#

/-- The line by which the Service of a chart takes the name of the release. -/
def serviceNameText : String := marked "  name: ‹‹ include \"<chart>.fullname\" . ››\n"

/-- The line by which the template sets the Service of all routes, the one with the name of the
release. -/
def fullNameText : String := marked "‹‹- $fullName := include \"<chart>.fullname\" . -››\n"

/-- The line by which the template sets the port of all routes. -/
def routedPortText : String := marked "‹‹- $svcPort := .Values.service.port -››\n"

/-- The routes of the template with some values, to a Service of some name. -/
def templateRoutes (service : String) (v : Value) : List Route :=
  ((v.at "ingress").at "hosts").items.flatMap fun host =>
    (host.at "paths").items.map fun path =>
      { host := host.at "host", path := path.at "path", pathType := path.at "pathType"
        service := .text service, port := (v.at "service").at "port" }

/-- The routes of the template are those of the record that it stands for, all to one backend. -/
theorem templateRoutes_values {q : Placed} (h : p.ingress = some q) (service : String) :
    templateRoutes service p.values = q.record.routes.map
      (·.sentTo (.text service) ((p.values.at "service").at "port")) := by
  have hkeys : Value.pathKeys "spec.rules" = ["spec", "rules"] := by decide
  have hrules : ((q.record.get? "spec.rules").map Value.items).getD [] =
      (q.record.spec.at "rules").items := by
    rw [Value.getD_map_items, get?_spec hkeys, Value.at?_singleton]
    rfl
  have hhosts : ((p.values.at "ingress").at "hosts").items =
      (q.record.spec.at "rules").items.map Primary.ruleValue := by
    show (p.ingressValues.at "hosts").items = _
    rw [Primary.ingressValues, h, ← hrules]
    rfl
  rw [templateRoutes, hhosts, Record.routes, List.flatMap_map, List.map_flatMap]
  congr 1
  funext rule
  show (((Primary.ruleValue rule).at "paths").items.map _) = _
  rw [Route.ofRule, List.map_map]
  show ((((rule.at "http").at "paths").items.map Primary.pathValue).map _) = _
  rw [List.map_map]
  rfl

/-- An Ingress is replaced by the template of a chart if and only if it is the first one that has
the name of the application. -/
theorem covers_ingress_iff {d : Definition} {w : Workload} (hchart : BuiltAround d rs w p fs)
    (hr : rs[place]? = some r) (hkind : r.kind = "Ingress") :
    p.covers place = true ↔ p.ingress = some ⟨place, r⟩ := by
  rw [Primary.covers, List.any_eq_true]
  constructor
  · rintro ⟨q, hq, hplace⟩
    obtain ⟨hrecord, hingress⟩ := hchart.of_mem_covered hq
    obtain rfl : q.place = place := by simpa using hplace
    obtain rfl : r = q.record := Option.some.inj (hr.symm.trans hrecord)
    exact hingress hkind
  · intro hingress
    refine ⟨⟨place, r⟩, ?_, by simp⟩
    simp [Primary.covered, hingress]

end Chart

/-- All paths of the Ingress lead to the application that it is attached to, at its first port. -/
def Ingress.RoutesTo (i : Ingress) (a : App) : Prop :=
  ∀ rule ∈ i.rules, ∀ path ∈ rule.paths,
    (path.service = "" ∨ path.service = a.info.name) ∧ (path.port = 0 ∨ path.port = a.backendPort)

namespace App

variable {files : FileTree} {rs : List Record} {r : Record} {a : App}

/-- The port that the values of a chart hold is the one that attached Ingresses are routed to. -/
theorem servicePort_values {p : Chart.Primary} {fs : List OutputFile}
    (h : a.records files = .ok rs) (hchart : Chart.BuiltAround (.app a) rs a.workload p fs) :
    (p.values.at "service").at "port" = .nat a.backendPort := by
  cases hhas : a.hasService with
  | true =>
    obtain ⟨hmem, hkind⟩ := (service_mem_iff h).mpr ⟨hhas, rfl⟩
    obtain ⟨q, hq, hrecord⟩ := Chart.exists_findNamed_only hmem
      (Record.kind?_of_kind hkind (by decide)) rfl fun s hs hs' =>
        ((service_mem_iff h).mp ⟨hs, hs'⟩).2
    obtain ⟨first, rest, hports⟩ := List.exists_cons_of_ne_nil a.servicePorts_ne_nil
    have hvalues : q.record.servicePorts = (first :: rest).map fun p =>
        portValue (p.name.getD "") p.port p.targetPort p.protocol := by
      rw [hrecord, servicePorts_serviceRecord, hports]
    rw [backendPort, hports]
    exact Chart.at_firstPort_values (hchart.service.trans hq) hvalues
      (isSome_field?_portValue _ _ _ _) List.mem_cons_self
  | false =>
    have hnone : p.service = none := by
      rw [hchart.service, Chart.findNamed_eq_none]
      intro r hr hkind
      have hservice := ((service_mem_iff h).mp ⟨hr, Record.kind_of_kind? hkind⟩).1
      exact absurd hservice (by simp [hhas])
    have hport : (p.values.at "service").at "port" = .nat 80 := by
      show p.serviceValues.at "port" = _
      rw [Chart.Primary.serviceValues, hnone]
      rfl
    have hports : a.workload.ports = [] ∧ a.monitoredPort? = none := by
      have hnone := (not_congr a.hasService_iff).mp (Bool.eq_false_iff.mp hhas)
      simp only [not_or, not_not, Option.not_isSome_iff_eq_none] at hnone
      exact hnone.2
    rw [hport, backendPort, servicePorts, containerPorts, metricsPorts, hports.1, hports.2]
    rfl

theorem get?_servicePort_values {p : Chart.Primary} {fs : List OutputFile}
    (h : a.records files = .ok rs) (hchart : Chart.BuiltAround (.app a) rs a.workload p fs) :
    p.values.get? "service.port" = some (.nat a.backendPort) := by
  have hkeys : Value.pathKeys "service.port" = ["service", "port"] := by decide
  rw [Value.get?, hkeys, ← servicePort_values h hchart]
  rfl

/-- The backends that are filled in are the application and its first port, so a routed Ingress
leads there as soon as all backends that it is given do. -/
theorem forall_routes_routed_iff (a : App) (i : Ingress) :
    (∀ route ∈ (a.routed i).routes,
      route.service = .text a.info.name ∧ route.port = .nat a.backendPort) ↔ i.RoutesTo a := by
  have hpath : ∀ (host : Option String) (p : IngressPath),
      let route := (p.withDefaultBackend a.info.name a.backendPort).route host
      (route.service = .text a.info.name ∧ route.port = .nat a.backendPort) ↔
        (p.service = "" ∨ p.service = a.info.name) ∧ (p.port = 0 ∨ p.port = a.backendPort) := by
    intro host p
    have hservice : (if p.service.isEmpty then a.info.name else p.service) = a.info.name ↔
        p.service = "" ∨ p.service = a.info.name := by
      by_cases hempty : p.service = "" <;> simp [hempty]
    have hport : (if p.port = 0 then a.backendPort else p.port) = a.backendPort ↔
        p.port = 0 ∨ p.port = a.backendPort := by
      by_cases hzero : p.port = 0 <;> simp [hzero]
    rw [← hservice, ← hport]
    simp only [IngressPath.withDefaultBackend, IngressPath.route, Value.text.injEq, Value.nat,
      Value.int.injEq, Int.natCast_inj]
  constructor
  · intro h rule hrule path hmem
    refine (hpath rule.host path).mp (h _ ?_)
    refine List.mem_flatMap.mpr ⟨_, List.mem_map_of_mem hrule, ?_⟩
    exact List.mem_map_of_mem (List.mem_map_of_mem hmem)
  · intro h route hroute
    obtain ⟨rule', hrule', hroute⟩ := List.mem_flatMap.mp hroute
    obtain ⟨rule, hrule, rfl⟩ := List.mem_map.mp hrule'
    obtain ⟨path', hpath', rfl⟩ := List.mem_map.mp hroute
    obtain ⟨path, hmem, rfl⟩ := List.mem_map.mp hpath'
    exact (hpath rule.host path).mpr (h rule hrule path hmem)

end App

namespace Chart

variable {files : FileTree} {rs : List Record} {r : Record} {a : App} {place : Nat}

set_option maxRecDepth 20000 in
/-- The lines of the template of an Ingress by which it routes all paths to one Service and one
port are in the template of every chart. -/
theorem contains_fill_ingressText (chart : String) :
    Text.contains (fill ingressText chart) (fill fullNameText chart) = true ∧
      Text.contains (fill ingressText chart) routedPortText = true ∧
      Text.contains (fill ingressText chart) routeText = true :=
  ⟨contains_fill_fill_marked (by decide) (by decide +kernel) chart,
    contains_fill_marked (by decide) (by decide +kernel) chart,
    contains_fill_marked (by decide) (by decide +kernel) chart⟩

set_option maxRecDepth 20000 in
/-- The name of the release is that of the Service of a chart. -/
theorem contains_serviceSections (chart : String) (r : Option Record) :
    Text.contains (Section.textAll (serviceSections chart r)) (fill serviceNameText chart) =
      true := by
  have hfill : Text.contains (fill serviceHead chart) (fill serviceNameText chart) = true :=
    contains_fill_fill_marked (by decide) (by decide +kernel) chart
  apply contains_textAll hfill
  simp [serviceSections]

/-- The templates of a chart route every path to the Service of the chart, at the port that the
values hold. -/
def RoutesAll (chart : String) (fs : List OutputFile) : Prop :=
  ∃ ingress service, .ofText "templates/ingress.yaml" ingress ∈ fs ∧
    .ofText "templates/service.yaml" service ∈ fs ∧
    Text.contains service (fill serviceNameText chart) = true ∧
    Text.contains ingress (fill fullNameText chart) = true ∧
    Text.contains ingress routedPortText = true ∧ Text.contains ingress routeText = true

theorem BuiltAround.routesAll {d : Definition} {w : Workload} {p : Primary} {fs : List OutputFile}
    (h : BuiltAround d rs w p fs) : RoutesAll (ofDefinition d).name fs := by
  refine ⟨_, _, h.templates ?_, h.templates ?_,
    contains_serviceSections _ (p.service.map Placed.record), contains_fill_ingressText _⟩
  · simp [primaryFiles]
  · simp [primaryFiles]

/-- The template that replaces an Ingress routes as the record does if and only if all backends
that the Ingress was given are the Service of the application and its first port. -/
theorem routes_of_covered {p : Primary} {fs : List OutputFile} (h : a.records files = .ok rs)
    (hchart : BuiltAround (.app a) rs a.workload p fs) (hr : rs[place]? = some r)
    (hkind : r.kind = "Ingress") (hcovered : p.covers place = true) :
    ∃ i ∈ a.ingresses, i.info.name = a.info.name ∧ r.routes = (a.routed i).routes ∧
      ((∀ route ∈ r.routes, route.service = .text a.info.name ∧
        p.values.get? "service.port" = some route.port) ↔ i.RoutesTo a) ∧
      (templateRoutes a.info.name p.values = r.routes ↔ i.RoutesTo a) := by
  have hfound := (covers_ingress_iff hchart hr hkind).mp hcovered
  have hport := App.get?_servicePort_values h hchart
  obtain ⟨i, hi, hname, hroutes⟩ := App.ingress_of_mem h (List.mem_of_getElem? hr) hkind
  obtain ⟨-, -, hname'⟩ := of_findNamed (hchart.ingress.symm.trans hfound)
  have hiff := App.forall_routes_routed_iff a i
  rw [← hroutes] at hiff
  refine ⟨i, hi, Option.some.inj (hname.symm.trans hname'), hroutes, ?_, ?_⟩
  · rw [← hiff, hport]
    simp only [Option.some.injEq, @eq_comm _ (Value.nat a.backendPort)]
  · rw [← hiff, templateRoutes_values hfound, App.servicePort_values h hchart]
    have hself : r.routes.map (·.sentTo (.text a.info.name) (.nat a.backendPort)) =
        r.routes.map id ↔
        ∀ route ∈ r.routes, route.sentTo (.text a.info.name) (.nat a.backendPort) = route :=
      List.map_inj_left
    rw [List.map_id] at hself
    rw [hself]
    simp only [Route.sentTo_eq_self_iff]

/-- The template of an Ingress stands for the first Ingress of an application that has the name of
the application. It routes as the record does, to the Service of the release at the port that the
values hold, if and only if all backends that the Ingress was given are the Service of the
application and its first port. -/
theorem templateRoutes_eq_iff (h : a.records files = .ok rs) (hr : rs[place]? = some r)
    (hkind : r.kind = "Ingress") :
    ∃ (p : Primary) (v : Value) (fs : List OutputFile),
      Primary.find? (.app a) rs = some p ∧ (ofDefinition (.app a)).values (.app a) rs = .ok v ∧
      (ofDefinition (.app a)).files (.app a) rs = .ok fs ∧
      RoutesAll (ofDefinition (.app a)).name fs ∧
      v.get? "service.port" = some (.nat a.backendPort) ∧
      (p.covers place = true ↔ findNamed rs "Ingress" a.info.name = some ⟨place, r⟩) ∧
      (p.covers place = true → ∃ i ∈ a.ingresses, i.info.name = a.info.name ∧
        r.routes = (a.routed i).routes ∧
        ((∀ route ∈ r.routes, route.service = .text a.info.name ∧
          v.get? "service.port" = some route.port) ↔ i.RoutesTo a) ∧
        (templateRoutes a.info.name v = r.routes ↔ i.RoutesTo a)) := by
  obtain ⟨p, fs, hchart⟩ := exists_builtAround (.inl ⟨a, rfl, rfl⟩) h
  have hcovers := covers_ingress_iff hchart hr hkind
  rw [hchart.ingress] at hcovers
  exact ⟨p, p.values, fs, hchart.found, hchart.values, hchart.files, hchart.routesAll,
    App.get?_servicePort_values h hchart, hcovers, routes_of_covered h hchart hr hkind⟩

/-- An Ingress with the name of the application is replaced. -/
theorem exists_covered_ingress {i : Ingress} (h : a.records files = .ok rs)
    (hi : i ∈ a.ingresses) (hname : i.info.name = a.info.name) :
    ∃ (q : Placed) (p : Primary) (fs : List OutputFile), BuiltAround (.app a) rs a.workload p fs ∧
      rs[q.place]? = some q.record ∧ q.record.kind = "Ingress" ∧ p.covers q.place = true := by
  obtain ⟨p, fs, hchart⟩ := exists_builtAround (.inl ⟨a, rfl, rfl⟩) h
  obtain ⟨r, hmem, hdescribes, -⟩ := App.exists_ingress h hi
  have hkind : r.kind = "Ingress" := hdescribes.kind_eq
  have hname' : r.name? = some a.info.name := hdescribes.name.trans (congrArg some hname)
  obtain ⟨q, hq, -, -⟩ := exists_findNamed hmem (Record.kind?_of_kind hkind (by decide)) hname'
  obtain ⟨hplace, hkind', -⟩ := of_findNamed hq
  have hingress : q.record.kind = "Ingress" := Record.kind_of_kind? hkind'
  exact ⟨q, p, fs, hchart, hplace, hingress,
    (covers_ingress_iff hchart hplace hingress).mpr (hchart.ingress.trans hq)⟩

/-- An application with an Ingress of its name, of which one path has no backend and one names the
application and its port. -/
theorem templateRoutes_shop :
    let i := ((Ingress.named "shop").withHost "shop.example").route "shop.example" "/static"
      "shop" 8080
    let a : App := { workload := (Workload.named "shop").withPort 8080, ingresses := [i] }
    ∃ (rs : List Record) (place : Nat) (r : Record) (p : Primary) (v : Value),
      a.records .empty = .ok rs ∧ rs[place]? = some r ∧ r.kind = "Ingress" ∧
      Primary.find? (.app a) rs = some p ∧ p.covers place = true ∧
      (ofDefinition (.app a)).values (.app a) rs = .ok v ∧
      templateRoutes "shop" v = r.routes := by
  intro i a
  obtain ⟨rs, hrs⟩ : ∃ rs, a.records .empty = .ok rs := ⟨_, rfl⟩
  obtain ⟨q, p, fs, hchart, hplace, hkind, hcovered⟩ :=
    exists_covered_ingress hrs List.mem_cons_self rfl
  obtain ⟨p', v, fs', hp', hv, -, -, -, -, hroutes⟩ := templateRoutes_eq_iff hrs hplace hkind
  obtain rfl : p = p' := Option.some.inj (hchart.found.symm.trans hp')
  obtain ⟨j, hj, -, -, -, hiff⟩ := hroutes hcovered
  obtain rfl := List.mem_singleton.mp hj
  refine ⟨rs, q.place, q.record, p, v, hrs, hplace, hkind, hp', hcovered, hv, hiff.mpr ?_⟩
  intro rule hrule path hpath
  obtain rfl := List.mem_singleton.mp hrule
  obtain rfl | hpath := List.mem_cons.mp hpath
  · exact ⟨.inl rfl, .inl rfl⟩
  · obtain rfl := List.mem_singleton.mp hpath
    exact ⟨.inr rfl, .inr rfl⟩

/-- An application with an Ingress of its name that routes to another Service. The template that
replaces it routes to the application. -/
theorem templateRoutes_api :
    let i := (Ingress.named "shop").route "shop.example" "/api" "api" 9090
    let a : App := { workload := (Workload.named "shop").withPort 8080, ingresses := [i] }
    ∃ (rs : List Record) (place : Nat) (r : Record) (p : Primary) (v : Value),
      a.records .empty = .ok rs ∧ rs[place]? = some r ∧ r.kind = "Ingress" ∧
      Primary.find? (.app a) rs = some p ∧ p.covers place = true ∧
      (ofDefinition (.app a)).values (.app a) rs = .ok v ∧
      v.get? "service.port" = some (.nat 8080) ∧
      (∃ route ∈ r.routes, route.service = .text "api" ∧ route.port = .nat 9090) ∧
      templateRoutes "shop" v ≠ r.routes := by
  intro i a
  obtain ⟨rs, hrs⟩ : ∃ rs, a.records .empty = .ok rs := ⟨_, rfl⟩
  obtain ⟨q, p, fs, hchart, hplace, hkind, hcovered⟩ :=
    exists_covered_ingress hrs List.mem_cons_self rfl
  obtain ⟨j, hj, -, hroutes, -, hiff⟩ := routes_of_covered hrs hchart hplace hkind hcovered
  obtain rfl := List.mem_singleton.mp hj
  have hport := App.get?_servicePort_values hrs hchart
  refine ⟨rs, q.place, q.record, p, p.values, hrs, hplace, hkind, hchart.found, hcovered,
    hchart.values, hport, ?_, fun hsame => ?_⟩
  · rw [hroutes]
    exact ⟨_, List.mem_cons_self, rfl, rfl⟩
  · have hleads := hiff.mp hsame _ List.mem_cons_self _ List.mem_cons_self
    exact absurd hleads.1 (by decide)

end Chart

end Rollout
