import Rollout.Proofs.Chart.Image
import Rollout.Proofs.Chart.Values
import Rollout.Proofs.Definition.Selection

/-!
# The records that a chart is made around

The chart of an application has templates of its own for the record that runs the pods and for the
Service, the Ingress and the autoscaler of the same name. Its values begin as what these records
say, and its files can always be made.
-/

namespace Rollout

variable {files : FileTree} {rs : List Record} {kind name : String} {d : Definition} {w : Workload}

namespace StatefulApp

variable {a : StatefulApp} {r : Record}

theorem kind_ne_autoscaler (h : a.records files = .ok rs) (hr : r ∈ rs) :
    r.kind ≠ "HorizontalPodAutoscaler" := by
  obtain ⟨notes, -, -, -, -, -, horigin⟩ := parts_of_records h
  obtain rfl | hnot := horigin r hr
  · exact (by decide : "StatefulSet" ≠ "HorizontalPodAutoscaler")
  · intro hkind
    exact hnot (hkind ▸ by decide)

end StatefulApp

namespace Chart

/-- Reading a path below the specification of a record. -/
theorem get?_spec {r : Record} {path next : String} {keys : List String}
    (hkeys : Value.pathKeys path = "spec" :: next :: keys) : r.get? path = r.spec.at? (next :: keys) := by
  rw [Record.get?, Value.get?, hkeys, Value.at?_cons_cons]
  rfl

/-- The only record of a kind is found by its name. -/
theorem exists_findNamed_only {x : Record} (hx : x ∈ rs) (hkind : x.kind? = some kind)
    (hname : x.name? = some name) (hall : ∀ r ∈ rs, r.kind = kind → r = x) :
    ∃ q, findNamed rs kind name = some q ∧ q.record = x := by
  obtain ⟨q, hq, hmem, hq'⟩ := exists_findNamed hx hkind hname
  exact ⟨q, hq, hall _ hmem (Record.kind_of_kind? hq')⟩

/-- The templates of the workload are among the files of a chart. -/
theorem primaryFiles_subset {c : Chart} {p : Primary} {fs : List OutputFile}
    (hp : Primary.find? d rs = some p) (h : c.files d rs = .ok fs) :
    primaryFiles c.name p ⊆ fs := by
  obtain ⟨v, -, hfs⟩ := bind_eq_ok_iff.mp h
  obtain rfl := Except.ok.inj hfs
  intro f hf
  simp [hp, hf]

/-- The chart of a definition is made around a workload: of the records, it has templates for those
in `p`, and its files are `fs`. -/
structure BuiltAround (d : Definition) (rs : List Record) (w : Workload) (p : Primary)
    (fs : List OutputFile) : Prop where
  found : Primary.find? d rs = some p
  workload : p.workload = w
  mem : p.record.record ∈ rs
  runs : p.record.record.RunsApplication
  only : ∀ r ∈ rs, r.RunsApplication → r = p.record.record
  isRunBy : ∃ mode, w.IsRunBy mode p.record.record
  record : (findNamed rs "Deployment" w.name).or (findNamed rs "StatefulSet" w.name) =
    some p.record
  service : p.service = findNamed rs "Service" w.name
  ingress : p.ingress = findNamed rs "Ingress" w.name
  autoscaler : p.autoscaler = findNamed rs "HorizontalPodAutoscaler" w.name
  account : p.account = w.serviceAccount.bind (findNamed rs "ServiceAccount")
  values : (ofDefinition d).values d rs = .ok p.values
  files : (ofDefinition d).files d rs = .ok fs
  templates : primaryFiles (ofDefinition d).name p ⊆ fs

/-- What a template stands for is a record at its place, and only one of them is an Ingress. -/
theorem BuiltAround.of_mem_covered {p : Primary} {fs : List OutputFile} {q : Placed}
    (h : BuiltAround d rs w p fs) (hq : q ∈ p.covered) :
    rs[q.place]? = some q.record ∧ (q.record.kind = "Ingress" → p.ingress = some q) := by
  have hfound : ∀ {kind name : String}, kind ≠ "Ingress" → findNamed rs kind name = some q →
      rs[q.place]? = some q.record ∧ (q.record.kind = "Ingress" → p.ingress = some q) := by
    intro kind name hne hfind
    obtain ⟨hplace, hkind, -⟩ := of_findNamed hfind
    exact ⟨hplace, fun hingress => absurd ((Record.kind_of_kind? hkind).symm.trans hingress) hne⟩
  simp only [Primary.covered, List.mem_cons, List.mem_filterMap, id, List.not_mem_nil, or_false,
    exists_eq_right] at hq
  obtain hq | hq | hq | hq | hq := hq
  · subst hq
    obtain hq | ⟨-, hq⟩ := Option.or_eq_some_iff.mp h.record
    · exact hfound (by decide) hq
    · exact hfound (by decide) hq
  · exact hfound (by decide) (h.service.symm.trans hq.symm)
  · exact ⟨(of_findNamed (h.ingress.symm.trans hq.symm)).1, fun _ => hq.symm⟩
  · exact hfound (by decide) (h.autoscaler.symm.trans hq.symm)
  · obtain ⟨name, -, hq⟩ := Option.bind_eq_some_iff.mp (h.account.symm.trans hq.symm)
    exact hfound (by decide) hq

/-- There is a chart of every application that generates records. -/
theorem exists_builtAround (hd : d.Runs w) (h : d.records files = .ok rs) :
    ∃ p fs, BuiltAround d rs w p fs := by
  obtain ⟨x, hx, hruns, hname, hrun, hall⟩ := w.exists_running (hd.generatedTo h)
  obtain ⟨p, hp, hworkload, rfl⟩ := exists_primary hd.workloads hx hruns hname hall
  have hfind := hp
  rw [Primary.find?, hd.workloads] at hfind
  obtain ⟨w', hw', hfind⟩ := Option.bind_eq_some_iff.mp hfind
  obtain rfl : w = w' := Option.some.inj hw'
  obtain ⟨q, hq, hfind⟩ := Option.bind_eq_some_iff.mp hfind
  obtain rfl := Option.some.inj hfind
  have hvalues := values_ofDefinition d rs
  rw [derivedValues, hp] at hvalues
  obtain ⟨fs, hfs, -⟩ := exists_files_of_values hvalues
  exact ⟨_, fs, hp, hworkload, hx, hruns, hall, hrun, hq, rfl, rfl, rfl, rfl, hvalues, hfs,
    primaryFiles_subset hp hfs⟩

end Chart

end Rollout
