import Rollout.Chart.Files
import Rollout.Proofs.App.Namespace
import Rollout.Proofs.Chart.Evaluation
import Rollout.Proofs.Record.Distinct
import Rollout.Proofs.Record.Object
import Rollout.Proofs.Record.Reference

/-!
# The objects that copied records become

The records that a chart copies are taken once for each identity, and an identity has a namespace.
Then all that live in a namespace are bound to that of the release, where an object is told by its
kind and name alone. So what stood apart in two namespaces meets again, and a chart installs each
object once only if the records of one kind and name were in one namespace.
-/

namespace Rollout

variable {files : FileTree} {rs : List Record}

namespace Record

/-- What tells a record from the others in its namespace. -/
def target (r : Record) : Target := ⟨r.kind, r.name⟩

theorem identity_eq_iff {r s : Record} :
    r.identity = s.identity ↔ r.target = s.target ∧ r.namespace? = s.namespace? := by
  rw [identity, identity, Identity.mk.injEq, target, target, Target.mk.injEq, and_assoc]

theorem target_setNamespace (r : Record) (ns : String) : (r.setNamespace ns).target = r.target := by
  have hmoved := Extends.setNamespace r ns
  rw [target, target, hmoved.kind, name, name, hmoved.name?]

end Record

namespace Chart

variable {c : Chart} {d : Definition} {p : Option Primary} {fs : List OutputFile} {r : Record}
  {ns : String}

/-- A record as a release in a namespace installs it. -/
def releasedIn (ns : String) (r : Record) : Record :=
  if Kind.isClusterScoped r.kind then r else r.setNamespace ns

/-- A template holds the record as a release in the namespace of the mark would install it. -/
theorem boundRecord_eq (r : Record) : boundRecord r = releasedIn namespaceMark r := rfl

theorem target_releasedIn (ns : String) (r : Record) : (releasedIn ns r).target = r.target := by
  unfold releasedIn
  split
  · rfl
  · exact r.target_setNamespace ns

theorem field?_releasedIn {key : String} (hkey : key ≠ "metadata") (ns : String) (r : Record) :
    (releasedIn ns r).field? key = r.field? key := by
  unfold releasedIn
  split
  · rfl
  · exact (Record.Extends.setNamespace r ns).field? hkey

/-- A release moves the object of a record, if objects of its kind live in a namespace. -/
theorem describes_releasedIn {id : Identity} (h : r.Describes id) (ns : String) :
    (releasedIn ns r).Describes
      ⟨id.kind, id.name, if Kind.isClusterScoped id.kind then id.namespaceName else some ns⟩ := by
  rw [releasedIn, h.kind_eq]
  cases Kind.isClusterScoped id.kind with
  | true => exact h
  | false => exact h.setNamespace ns

theorem describes_releasedIn_placed {kind name own : String}
    (h : r.Describes (.placed kind name own)) (ns : String) :
    (releasedIn ns r).Describes (.placed kind name ns) := by
  have hreleased := describes_releasedIn h ns
  unfold Identity.placed at hreleased ⊢
  cases hscope : Kind.isClusterScoped kind with
  | true => simpa [hscope] using hreleased
  | false => simpa [hscope] using hreleased

/-- The records that are to be copied into a chart, before those that repeat an identity are taken
out: those that no template of the workload stands for, and those of the chart itself. -/
def copySources (c : Chart) (p : Option Primary) (rs : List Record) : List Record :=
  ((rs.mapIdx Placed.mk).filter fun r => !p.any (·.covers r.place)).map Placed.record ++ c.resources

theorem copiedRecords_eq (c : Chart) (p : Option Primary) (rs : List Record) :
    copiedRecords c p rs = Record.distinct (copySources c p rs) :=
  rfl

/-- A chart without a workload copies all records. -/
theorem copiedRecords_none (c : Chart) (rs : List Record) :
    copiedRecords c none rs = Record.distinct (rs ++ c.resources) := by
  have hrecords : (rs.mapIdx Placed.mk).map Placed.record = rs := by
    apply List.ext_getElem <;> simp
  simp [copiedRecords, hrecords]

/-- In a chart without a workload, the first record of a kind is copied. -/
theorem mem_copiedRecords_none (before : List Record) {after : List Record}
    (h : ∀ s ∈ before, s.kind ≠ r.kind) (c : Chart) :
    r ∈ copiedRecords c none (before ++ r :: after) := by
  rw [copiedRecords_none]
  refine Record.mem_distinct_iff.mpr ⟨before, after ++ c.resources, by simp, fun s hs he => ?_⟩
  exact h s hs (congrArg Identity.kind he)

theorem mem_of_mem_copySources {r : Record} (h : r ∈ copySources c p rs) :
    r ∈ rs ∨ r ∈ c.resources := by
  obtain h | h := List.mem_append.mp h
  · obtain ⟨q, hq, rfl⟩ := List.mem_map.mp h
    obtain ⟨i, hi, rfl⟩ := List.mem_mapIdx.mp (List.mem_filter.mp hq).1
    exact .inl (List.getElem_mem hi)
  · exact .inr h

/-- What a release in a namespace installs of the copied records. -/
def installed (ns : String) (c : Chart) (p : Option Primary) (rs : List Record) : List Record :=
  (copiedRecords c p rs).map (releasedIn ns)

theorem map_target_installed (ns : String) (c : Chart) (p : Option Primary) (rs : List Record) :
    (installed ns c p rs).map Record.target =
      (Record.distinct (copySources c p rs)).map Record.target := by
  rw [installed, copiedRecords_eq, List.map_map]
  exact List.map_congr_left fun r _ => target_releasedIn ns r

/-- No two of what is installed have one kind and name just when those of the records to copy that
have one kind and name had one namespace, too. -/
theorem nodup_map_target_installed_iff (ns : String) (c : Chart) (p : Option Primary)
    (rs : List Record) : ((installed ns c p rs).map Record.target).Nodup ↔
      ∀ r ∈ copySources c p rs, ∀ s ∈ copySources c p rs,
        r.target = s.target → r.namespace? = s.namespace? := by
  have hcoarser : ∀ r s : Record, r.identity = s.identity → r.target = s.target :=
    fun r s he => (Record.identity_eq_iff.mp he).1
  rw [map_target_installed, Record.nodup_map_distinct_iff hcoarser]
  refine forall₂_congr fun r _ => forall₂_congr fun s _ => ?_
  exact ⟨fun himp he => (Record.identity_eq_iff.mp (himp he)).2,
    fun himp he => Record.identity_eq_iff.mpr ⟨he, himp he⟩⟩

/-- All that an application needs is installed once if nothing nested in it has a namespace of its
own. -/
theorem nodup_installed_of_livesIn {own : String} {nested : List Definition}
    (h : LivesIn files own nested rs) (hnested : ∀ d ∈ nested, d.info.ns = defaultNamespace)
    (hresources : c.resources = []) (ns : String) (p : Option Primary) :
    ((installed ns c p rs).map Record.target).Nodup := by
  have hplace : ∀ r ∈ copySources c p rs, r.namespace? = some own := by
    intro r hr
    obtain hr | hr := mem_of_mem_copySources hr
    · obtain hplace | ⟨d, hd, hne, -⟩ := h.records r hr
      · exact hplace
      · exact absurd (hnested d hd) hne
    · rw [hresources] at hr
      exact absurd hr List.not_mem_nil
  refine (nodup_map_target_installed_iff ns c p rs).mpr fun r hr s hs _ => ?_
  rw [hplace r hr, hplace s hs]

/-- The templates for copied records are among the files of a chart. -/
theorem infix_recordFiles (h : c.files d rs = .ok fs) :
    recordFiles (copiedRecords c (Primary.find? d rs) rs) <:+: fs := by
  obtain ⟨v, -, hfs⟩ := bind_eq_ok_iff.mp h
  obtain rfl := Except.ok.inj hfs
  exact ⟨_, _, (List.append_assoc _ _ _).symm⟩

/-- The files of a chart hold a template for each copied record, and it prints the record bound to
the namespace of the release. Whatever this namespace is, the templates install every object once
just when none of the records to copy has the kind and the name of another one in another
namespace. -/
theorem nodup_installed_iff (h : c.files d rs = .ok fs) (ns : String) :
    recordFiles (copiedRecords c (Primary.find? d rs) rs) <:+: fs ∧
    (∀ r ∈ copiedRecords c (Primary.find? d rs) rs, ∀ text,
      evaluate (some ns) (recordText r) = some text →
        text = Text.replace (Yaml.text (boundRecord r).toValue) namespaceMark ns) ∧
    (((installed ns c (Primary.find? d rs) rs).map Record.target).Nodup ↔
      ∀ r ∈ copySources c (Primary.find? d rs) rs, ∀ s ∈ copySources c (Primary.find? d rs) rs,
        r.target = s.target → r.namespace? = s.namespace?) :=
  ⟨infix_recordFiles h, fun _ _ _ => eq_replace_of_evaluate_recordText,
    nodup_map_target_installed_iff ns c (Primary.find? d rs) rs⟩

/-- Two applications with one ConfigMap, each in a namespace. -/
def sharing (web api : String) : Definition :=
  let member (name ns : String) := Definition.app
    { workload := (Workload.named name).addConfigMap (.named "settings") |>.mapInfo
        (·.withNamespace ns) }
  .group { name := "shop" } [member "web" web, member "api" api] false

/-- Out of one namespace, the ConfigMap that two applications share is installed once. -/
theorem nodup_installed_sharing :
    let d := sharing "prod" "prod"
    ∃ rs fs, d.records .empty = .ok rs ∧ (ofDefinition d).files d rs = .ok fs ∧
      ((installed "live" (ofDefinition d) (Primary.find? d rs) rs).map Record.target).Nodup := by
  intro d
  obtain ⟨rs, hrs⟩ : ∃ rs, d.records .empty = .ok rs := ⟨_, rfl⟩
  obtain ⟨fs, hfs⟩ : ∃ fs, (ofDefinition d).files d rs = .ok fs := ⟨_, rfl⟩
  refine ⟨rs, fs, hrs, hfs, (nodup_installed_iff hfs "live").2.2.mpr ?_⟩
  obtain rfl := Except.ok.inj hrs
  decide +kernel

/-- Out of two namespaces, it is installed twice. -/
theorem sharing_installed_twice :
    let d := sharing "prod" "dev"
    ∃ rs fs, d.records .empty = .ok rs ∧ (ofDefinition d).files d rs = .ok fs ∧
      (installed "live" (ofDefinition d) (Primary.find? d rs) rs).map Record.target =
        [⟨"ConfigMap", "settings"⟩, ⟨"Deployment", "api"⟩, ⟨"ConfigMap", "settings"⟩] ∧
      ¬ ((installed "live" (ofDefinition d) (Primary.find? d rs) rs).map Record.target).Nodup :=
  ⟨_, _, rfl, rfl, by decide +kernel, by decide +kernel⟩

end Chart

end Rollout
