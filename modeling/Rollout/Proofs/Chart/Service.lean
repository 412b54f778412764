import Rollout.Proofs.App.Service
import Rollout.Proofs.Chart.Primary

/-!
# The ports of the Service of a chart

The template of the Service describes its first port by values of the chart and copies the others
from the record. The values hold what the record says of the first port but for its protocol, for
which the template has TCP in all charts; and the template describes a first port even where the
record has none. So the ports that are described are those of the record if there is a first one
that speaks TCP.
-/

namespace Rollout

namespace Chart

variable {files : FileTree} {rs : List Record} {d : Definition} {w : Workload} {p : Primary}
  {fs : List OutputFile} {r : Record}

/-! ### What the template describes -/

/-- The lines that describe the first port. -/
def firstPortText : String := marked r#"  ports:
    - port: ‹‹ .Values.service.port ››
      targetPort: ‹‹ .Values.service.targetPort ››
      protocol: TCP
      name: ‹‹ .Values.service.portName ››
"#

/-- The port that these lines describe with some values. -/
def firstPort (v : Value) : Value :=
  let service := v.at "service"
  .mapping [("port", service.at "port"), ("targetPort", service.at "targetPort"),
    ("protocol", .text "TCP"), ("name", service.at "portName")]

/-- The ports that a template describes with some values: the first one, and those that stand
behind as many blanks. -/
def describedPorts (v : Value) (sections : List Section) : List Value :=
  firstPort v :: Section.itemsAt 4 sections

set_option maxRecDepth 20000 in
/-- The shared lines of the template down to its ports end with those of the first one. -/
theorem firstPortText_suffix (chart : String) :
    firstPortText.toList <:+ (fill serviceHead chart).toList :=
  suffix_fill_marked (by decide) (by decide +kernel) chart

/-- The fields of a port that the values decide. -/
def valuedKeys : List String := ["port", "targetPort", "name"]

/-- What tells the ports of a Service from each other. -/
def portKeys : List String := "protocol" :: valuedKeys

/-- Two ports that nothing tells from each other. -/
def SamePort (a b : Value) : Prop := ∀ key ∈ portKeys, a.at key = b.at key

theorem SamePort.refl (a : Value) : SamePort a a := fun _ _ => rfl

/-! ### What the values hold -/

theorem getD_get?_ports (r : Record) : (r.get? "spec.ports").getD .null = r.spec.at "ports" := by
  have hkeys : Value.pathKeys "spec.ports" = ["spec", "ports"] := by decide
  rw [get?_spec hkeys, Value.at?_singleton]
  rfl

/-- The values hold what the record says of its first port. -/
theorem firstPort_values {q : Placed} (h : p.service = some q) :
    let first := q.record.servicePorts.head?
    let port := (Primary.field first "port").getD (.nat 80)
    firstPort p.values = .mapping [("port", port),
      ("targetPort", (Primary.field first "targetPort").getD port), ("protocol", .text "TCP"),
      ("name", (Primary.field first "name").getD (.text "http"))] := by
  have hfirst : Primary.itemsOf (Primary.read p.service "spec.ports") = q.record.servicePorts := by
    rw [Primary.itemsOf, Value.getD_map_items, h, Record.servicePorts, ← getD_get?_ports]
    rfl
  rw [← hfirst]
  rfl

/-- The template copies all ports but the first one. -/
theorem itemsAt_serviceSections (chart : String) (r : Record) :
    Section.itemsAt 4 (serviceSections chart (some r)) = r.servicePorts.tail := by
  rw [serviceSections, Record.servicePorts, ← getD_get?_ports, ← Value.getD_map_items]
  simp

/-- The values of a chart whose Service is that of a record with some ports hold the first one. -/
theorem at_firstPort_values {q : Placed} (h : p.service = some q) {port : Value}
    {rest : List Value} (hports : q.record.servicePorts = port :: rest)
    (hkeys : ∀ key ∈ valuedKeys, (port.field? key).isSome) {key : String} (hkey : key ∈ valuedKeys) :
    (firstPort p.values).at key = port.at key := by
  obtain ⟨n, hn⟩ := Option.isSome_iff_exists.mp (hkeys "port" (by decide))
  obtain ⟨t, ht⟩ := Option.isSome_iff_exists.mp (hkeys "targetPort" (by decide))
  obtain ⟨name, hname⟩ := Option.isSome_iff_exists.mp (hkeys "name" (by decide))
  have hfirst : firstPort p.values = .mapping
      [("port", n), ("targetPort", t), ("protocol", .text "TCP"), ("name", name)] := by
    rw [firstPort_values h, hports]
    simp [Primary.field, hn, ht, hname]
  have hcases : key = "port" ∨ key = "targetPort" ∨ key = "name" := by simpa [valuedKeys] using hkey
  rw [hfirst]
  obtain rfl | rfl | rfl := hcases
  · rw [Value.at, Value.at, hn]
    rfl
  · rw [Value.at, Value.at, ht]
    rfl
  · rw [Value.at, Value.at, hname]
    rfl

/-- The ports that are described are those of the record if and only if there is a first one, for
TCP. -/
theorem forall₂_describedPorts_iff {q : Placed} (h : p.service = some q)
    (hkeys : ∀ port ∈ q.record.servicePorts, ∀ key ∈ valuedKeys, (port.field? key).isSome)
    (chart : String) :
    List.Forall₂ SamePort (describedPorts p.values (serviceSections chart (some q.record)))
        q.record.servicePorts ↔
      (q.record.servicePorts.head?.map (·.at "protocol")) = some (.text "TCP") := by
  have hprotocol : (firstPort p.values).at "protocol" = .text "TCP" := rfl
  rw [describedPorts, itemsAt_serviceSections]
  cases hports : q.record.servicePorts with
  | nil => simp
  | cons port rest =>
    have hvalued := hkeys port (hports ▸ List.mem_cons_self)
    have hrest : List.Forall₂ SamePort rest rest := List.forall₂_same.mpr fun a _ => .refl a
    rw [List.tail_cons, List.forall₂_cons, and_iff_left hrest, List.head?_cons, Option.map_some,
      Option.some.injEq]
    constructor
    · intro hsame
      rw [← hsame "protocol" List.mem_cons_self, hprotocol]
    · intro htcp key hkey
      obtain rfl | hkey := List.mem_cons.mp hkey
      · rw [hprotocol, htcp]
      · exact at_firstPort_values h hports hvalued hkey

end Chart

/-! ### The ports of the records -/

theorem Protocol.name_eq_iff {p : Protocol} : p.name = "TCP" ↔ p = .tcp := by
  cases p <;> decide

/-- The first port of the Service of an application is that of the first port of its container, or
it is made for TCP. -/
theorem App.protocol_servicePorts_head? (a : App) :
    a.servicePorts.head?.map (·.protocol) =
      some ((a.workload.ports.head?.map (·.protocol)).getD .tcp) := by
  cases hports : a.workload.ports with
  | cons port rest => simp [servicePorts, containerPorts, hports]
  | nil =>
    unfold servicePorts metricsPorts
    cases a.monitoredPort? <;> simp [containerPorts, hports]

theorem StatefulApp.servicePorts_serviceRecord (a : StatefulApp) : a.serviceRecord.servicePorts =
    a.workload.ports.mapIdx fun i p =>
      portValue (p.nameAt i) p.container p.container p.protocol :=
  rfl

/-- What the chart of an application must know of the Service among the records. -/
structure Record.IsServiceOf (r : Record) (d : Definition) (w : Workload) (rs : List Record) :
    Prop where
  name : r.name? = some w.name
  only : ∀ s ∈ rs, s.kind = "Service" → s = r
  valued : ∀ port ∈ r.servicePorts, ∀ key ∈ Chart.valuedKeys, (port.field? key).isSome
  protocol : r.servicePorts.head?.map (·.at "protocol") = some (.text "TCP") ↔
    (∀ port ∈ w.ports.head?, port.protocol = .tcp) ∧ (w.ports = [] → ∃ a, d = .app a)

theorem isSome_field?_portValue (name : String) (port target : Nat) (protocol : Protocol) :
    ∀ key ∈ Chart.valuedKeys, ((portValue name port target protocol).field? key).isSome := by
  simp [Chart.valuedKeys, portValue, Value.field?_mapping, Assoc.get?_cons]

theorem Definition.Runs.isServiceOf {files : FileTree} {d : Definition} {w : Workload}
    {rs : List Record} {r : Record} (hd : d.Runs w) (h : d.records files = .ok rs) (hr : r ∈ rs)
    (hkind : r.kind = "Service") : r.IsServiceOf d w rs := by
  obtain ⟨a, rfl, rfl⟩ | ⟨a, rfl, rfl⟩ := hd
  · obtain ⟨-, rfl⟩ := (App.service_mem_iff h).mp ⟨hr, hkind⟩
    constructor
    case name => rfl
    case only => exact fun s hs hs' => ((App.service_mem_iff h).mp ⟨hs, hs'⟩).2
    case valued =>
      rw [App.servicePorts_serviceRecord]
      exact List.forall_mem_map.mpr fun p _ => isSome_field?_portValue _ _ _ _
    case protocol =>
      have hfirst : a.serviceRecord.servicePorts.head?.map (·.at "protocol") =
          (a.servicePorts.head?.map (·.protocol)).map fun p => .text p.name := by
        rw [App.servicePorts_serviceRecord, List.head?_map, Option.map_map, Option.map_map]
        rfl
      have happ : a.workload.ports = [] → ∃ b, Definition.app a = .app b := fun _ => ⟨a, rfl⟩
      rw [hfirst, App.protocol_servicePorts_head?, and_iff_left happ, Option.map_some,
        Option.some.injEq, Value.text.injEq, Protocol.name_eq_iff]
      cases a.workload.ports.head? <;> simp
  · obtain rfl := (StatefulApp.service_mem_iff h).mp ⟨hr, hkind⟩
    constructor
    case name => rfl
    case only => exact fun s hs hs' => (StatefulApp.service_mem_iff h).mp ⟨hs, hs'⟩
    case valued =>
      intro port hport
      obtain ⟨i, hi, rfl⟩ := List.mem_mapIdx.mp hport
      exact isSome_field?_portValue _ _ _ _
    case protocol =>
      rw [StatefulApp.servicePorts_serviceRecord]
      cases hports : a.workload.ports with
      | nil => simp
      | cons port rest =>
        rw [List.mapIdx_cons]
        show some (Value.text port.protocol.name) = some (.text "TCP") ↔ _
        simp [Protocol.name_eq_iff]

namespace Chart

variable {files : FileTree} {rs : List Record} {d : Definition} {w : Workload} {r : Record}

/-- The lines after the ports of a Service. -/
def selectorText (chart : String) : String := fill
  (marked ("  selector:\n    ‹‹- include \"<chart>.selectorLabels\" . | nindent 4 ››\n" ++
    "‹‹- end ››\n")) chart

/-- The ports in the text of the template: the first one, then the copied ones. -/
theorem textAll_serviceSections (chart : String) (r : Record) :
    ∃ head, Section.textAll (serviceSections chart (some r)) = head ++ firstPortText ++
      Section.textAll (Section.ofItems 4 r.servicePorts.tail) ++ selectorText chart := by
  have hports : serviceSections chart (some r) = [.shared (fill serviceHead chart)] ++
      Section.ofItems 4 r.servicePorts.tail ++ [.shared (selectorText chart)] := by
    rw [serviceSections, Record.servicePorts, ← getD_get?_ports, ← Value.getD_map_items,
      List.drop_one]
    rfl
  obtain ⟨head, hhead⟩ := firstPortText_suffix chart
  refine ⟨String.ofList head, ?_⟩
  have hfill : fill serviceHead chart = String.ofList head ++ firstPortText := by
    rw [← String.toList_inj, String.toList_append, String.toList_ofList, hhead]
  rw [hports, Section.textAll_append, Section.textAll_append, Section.textAll_shared,
    Section.textAll_shared, hfill]

/-- The template of a chart for a Service stands for the Service among the records, and describes
its ports under an exact condition. -/
theorem exists_builtAround_service (hd : d.Runs w) (h : d.records files = .ok rs) (hr : r ∈ rs)
    (hkind : r.kind = "Service") :
    ∃ p fs q, BuiltAround d rs w p fs ∧ p.service = some q ∧ q.record = r ∧
      (List.Forall₂ SamePort (describedPorts p.values
          (serviceSections (ofDefinition d).name (some r))) r.servicePorts ↔
        (∀ port ∈ w.ports.head?, port.protocol = .tcp) ∧ (w.ports = [] → ∃ a, d = .app a)) := by
  obtain ⟨p, fs, hchart⟩ := exists_builtAround hd h
  have hservice := hd.isServiceOf h hr hkind
  obtain ⟨q, hq, rfl⟩ := exists_findNamed_only hr (Record.kind?_of_kind hkind (by decide))
    hservice.name hservice.only
  have hfound : p.service = some q := hchart.service.trans hq
  refine ⟨p, fs, q, hchart, hfound, rfl, ?_⟩
  rw [forall₂_describedPorts_iff hfound hservice.valued, hservice.protocol]

/-- The template of the Service of an application describes the ports of the record that it stands
for but for two things: the first port is one for TCP, and there is a first port in any case. So
the ports are those of the record if and only if the first port of the container, if it has one,
is for TCP, and there is one if the application is stateful. -/
theorem describedPorts_iff (hd : d.Runs w) (h : d.records files = .ok rs) (hr : r ∈ rs)
    (hkind : r.kind = "Service") :
    ∃ (v : Value) (fs : List OutputFile) (sections : List Section) (head : String),
      sections = serviceSections (ofDefinition d).name (some r) ∧
      (ofDefinition d).values d rs = .ok v ∧ (ofDefinition d).files d rs = .ok fs ∧
      .ofText "templates/service.yaml" (Section.textAll sections) ∈ fs ∧
      Section.textAll sections = head ++ firstPortText ++
        Section.textAll (Section.ofItems 4 r.servicePorts.tail) ++
          selectorText (ofDefinition d).name ∧
      v.get? "service.enabled" = some (.bool true) ∧
      (describedPorts v sections).tail = r.servicePorts.tail ∧
      (∀ port ∈ r.servicePorts.head?, ∀ key ∈ valuedKeys, (firstPort v).at key = port.at key) ∧
      (List.Forall₂ SamePort (describedPorts v sections) r.servicePorts ↔
        (∀ port ∈ w.ports.head?, port.protocol = .tcp) ∧ (w.ports = [] → ∃ a, d = .app a)) := by
  have hservice := hd.isServiceOf h hr hkind
  obtain ⟨p, fs, q, hchart, hfound, rfl, hports⟩ := exists_builtAround_service hd h hr hkind
  obtain ⟨head, htext⟩ := textAll_serviceSections (ofDefinition d).name q.record
  refine ⟨p.values, fs, _, head, rfl, hchart.values, hchart.files, hchart.templates ?_, htext, ?_,
    ?_, ?_, hports⟩
  · simp [primaryFiles, hfound]
  · have hkeys : Value.pathKeys "service.enabled" = ["service", "enabled"] := by decide
    rw [Value.get?, hkeys]
    show some (Value.bool p.service.isSome) = _
    rw [hfound, Option.isSome_some]
  · rw [describedPorts, List.tail_cons, itemsAt_serviceSections]
  · intro port hport key hkey
    obtain ⟨rest, hports⟩ := List.head?_eq_some_iff.mp hport
    have hvalued := hservice.valued port (hports ▸ List.mem_cons_self)
    exact at_firstPort_values hfound hports hvalued hkey

/-- An application with a first port for TCP and one for UDP. -/
theorem describedPorts_shop :
    let w := (Workload.named "shop").withPort 8080 |>.addPort { container := 5353, protocol := .udp }
    let d := Definition.app { workload := w }
    ∃ (rs : List Record) (r : Record) (v : Value),
      d.Runs w ∧ d.records .empty = .ok rs ∧ r ∈ rs ∧ r.kind = "Service" ∧
      (ofDefinition d).values d rs = .ok v ∧
      List.Forall₂ SamePort (describedPorts v (serviceSections (ofDefinition d).name (some r)))
        r.servicePorts := by
  intro w d
  have hd : d.Runs w := .inl ⟨_, rfl, rfl⟩
  obtain ⟨rs, hrs⟩ : ∃ rs, d.records .empty = .ok rs := ⟨_, rfl⟩
  obtain ⟨hr, hkind⟩ := (App.service_mem_iff hrs).mpr ⟨rfl, rfl⟩
  obtain ⟨v, fs, _, head, rfl, hv, -, -, -, -, -, -, hports⟩ := describedPorts_iff hd hrs hr hkind
  refine ⟨rs, _, v, hd, hrs, hr, hkind, hv, hports.mpr ⟨fun port hport => ?_, nofun⟩⟩
  obtain rfl := Option.some.inj hport
  rfl

/-- The Service of a name server is described with a port for TCP, and that of a stateful
application without ports with a port. -/
theorem describedPorts_differ :
    (let d := Definition.app
      { workload := (Workload.named "dns").addPort { container := 53, protocol := .udp } }
    ∃ rs r v, d.records .empty = .ok rs ∧ r ∈ rs ∧ r.kind = "Service" ∧
      (ofDefinition d).values d rs = .ok v ∧
      ¬ List.Forall₂ SamePort (describedPorts v (serviceSections (ofDefinition d).name (some r)))
        r.servicePorts) ∧
    (let d := Definition.statefulApp { workload := Workload.named "db" }
    ∃ rs r v, d.records .empty = .ok rs ∧ r ∈ rs ∧ r.kind = "Service" ∧
      (ofDefinition d).values d rs = .ok v ∧
      ¬ List.Forall₂ SamePort (describedPorts v (serviceSections (ofDefinition d).name (some r)))
        r.servicePorts) := by
  constructor
  case left =>
    intro d
    obtain ⟨rs, hrs⟩ : ∃ rs, d.records .empty = .ok rs := ⟨_, rfl⟩
    obtain ⟨hr, hkind⟩ := (App.service_mem_iff hrs).mpr ⟨rfl, rfl⟩
    have hd : d.Runs ((Workload.named "dns").addPort { container := 53, protocol := .udp }) :=
      .inl ⟨_, rfl, rfl⟩
    obtain ⟨p, fs, q, hchart, -, -, hports⟩ := exists_builtAround_service hd hrs hr hkind
    refine ⟨rs, _, p.values, hrs, hr, hkind, hchart.values, fun hsame => ?_⟩
    have hprotocol := (hports.mp hsame).1 _ rfl
    exact absurd hprotocol (by decide)
  case right =>
    intro d
    obtain ⟨rs, hrs⟩ : ∃ rs, d.records .empty = .ok rs := ⟨_, rfl⟩
    obtain ⟨hr, hkind⟩ := (StatefulApp.service_mem_iff hrs).mpr rfl
    have hd : d.Runs (Workload.named "db") := .inr ⟨_, rfl, rfl⟩
    obtain ⟨p, fs, q, hchart, -, -, hports⟩ := exists_builtAround_service hd hrs hr hkind
    refine ⟨rs, _, p.values, hrs, hr, hkind, hchart.values, fun hsame => ?_⟩
    obtain ⟨a, ha⟩ := (hports.mp hsame).2 rfl
    exact nomatch ha

end Chart

end Rollout
