import Rollout.Proofs.Record.Metadata
import Rollout.Proofs.Success
import Rollout.Workload.Template

/-!
# Records that move into a namespace

Records of what is nested in a workload keep their kind and name. They end up in the
namespace of the workload if they were in it or in none of their own.
-/

namespace Rollout

/-- The identity of a record whose metadata are those of something that is defined. -/
theorem Record.identity_of_meta (apiVersion : Value) (kind name : String) (info : Meta)
    (rest : Assoc Value) :
    (Record.mk (("apiVersion", apiVersion) :: ("kind", .text kind) ::
      ("metadata", info.toValueNamed name true) :: rest)).identity =
        ⟨kind, name, some info.ns⟩ :=
  rfl

theorem ConfigMap.identity_recordOf (c : ConfigMap) (d : ResolvedData) :
    (c.recordOf d).identity = ⟨"ConfigMap", c.info.name, some c.info.ns⟩ :=
  Record.identity_of_meta _ _ _ _ _

theorem Secret.identity_recordOf (s : Secret) (d : ResolvedData) :
    (s.recordOf d).identity = ⟨"Secret", s.info.name, some s.info.ns⟩ :=
  Record.identity_of_meta _ _ _ _ _

namespace Workload

theorem extends_adoptRecord (ns : String) (r : Record) :
    Record.Extends r (adoptRecord ns r) := by
  unfold adoptRecord
  split
  · exact .refl r
  · split
    · exact .setNamespace r ns
    · split
      · exact .setNamespace r ns
      · exact .refl r

theorem kind_adoptRecord (ns : String) (r : Record) : (adoptRecord ns r).kind = r.kind :=
  (extends_adoptRecord ns r).kind

/-- A record from the default namespace or from that of the workload ends up there. -/
theorem namespace?_adoptRecord {ns own : String} {r : Record}
    (hscope : Kind.isClusterScoped r.kind = false) (hr : r.namespace? = some own)
    (hown : own = defaultNamespace ∨ own = ns) : (adoptRecord ns r).namespace? = some ns := by
  simp only [adoptRecord, hscope, hr, Bool.false_eq_true, if_false]
  split
  · exact Record.namespace?_setNamespace r ns
  · rename_i hne
    rw [hr, hown.resolve_left hne]

theorem kind_of_mem_adopt {w : Workload} {rs : List Record} {r : Record} (hr : r ∈ w.adopt rs) :
    ∃ s ∈ rs, r.kind = s.kind := by
  unfold adopt at hr
  split at hr
  · exact ⟨r, hr, rfl⟩
  · obtain ⟨s, hs, rfl⟩ := List.mem_map.mp hr
    exact ⟨s, hs, kind_adoptRecord w.info.ns s⟩

theorem kind_notMem_of_mem_adopt {w : Workload} {rs : List Record} {kinds : List String}
    (h : ∀ s ∈ rs, s.kind ∉ kinds) {r : Record} (hr : r ∈ w.adopt rs) : r.kind ∉ kinds := by
  obtain ⟨s, hs, hkind⟩ := kind_of_mem_adopt hr
  exact hkind ▸ h s hs

theorem identity_mem_adopt {w : Workload} {rs : List Record} {kind name ns : String}
    (hscope : Kind.isClusterScoped kind = false) (hns : ns = defaultNamespace ∨ ns = w.info.ns)
    {r : Record} (hr : r ∈ rs) (hid : r.identity = ⟨kind, name, some ns⟩) :
    ⟨kind, name, some w.info.ns⟩ ∈ (w.adopt rs).map Record.identity := by
  obtain ⟨hkind, hname, hrns⟩ := Identity.mk.inj hid
  unfold adopt
  split
  · rename_i hdefault
    have hsame : ns = w.info.ns := hns.elim (fun h => h.trans hdefault.symm) id
    rw [← hsame, ← hid]
    exact List.mem_map_of_mem hr
  · have hscope' : Kind.isClusterScoped r.kind = false := by rw [hkind, hscope]
    have hadopted : (adoptRecord w.info.ns r).identity = ⟨kind, name, some w.info.ns⟩ := by
      have hextends := extends_adoptRecord w.info.ns r
      have hplace := namespace?_adoptRecord hscope' hrns hns
      rw [Record.identity, hextends.kind, Record.name, hextends.name?, hplace, hkind, ← hname,
        Record.name]
    rw [← hadopted]
    exact List.mem_map_of_mem (List.mem_map_of_mem hr)

/-- The attached configuration lives in the namespace of the workload, or was given none. -/
structure AttachedNearby (w : Workload) : Prop where
  configMaps : ∀ c ∈ w.configMaps, c.info.ns = defaultNamespace ∨ c.info.ns = w.info.ns
  secrets : ∀ s ∈ w.secrets, s.info.ns = defaultNamespace ∨ s.info.ns = w.info.ns

section ConfigRecords

variable {files : FileTree} {w : Workload} {config : List Record}
  (h : w.configRecords files = .ok config)
include h

theorem configRecords_eq : ∃ maps secrets,
    w.configMaps.mapM (ConfigMap.records files) = .ok maps ∧
    w.secrets.mapM (Secret.records files) = .ok secrets ∧
    config = w.adopt (maps.flatten ++ secrets.flatten) := by
  obtain ⟨maps, hmaps, h⟩ := bind_eq_ok_iff.mp h
  obtain ⟨secrets, hsecrets, h⟩ := bind_eq_ok_iff.mp h
  exact ⟨maps, secrets, hmaps, hsecrets, (Except.ok.inj h).symm⟩

theorem configMap_mem_configRecords (hnear : w.AttachedNearby) {c : ConfigMap}
    (hc : c ∈ w.configMaps) :
    ⟨"ConfigMap", c.info.name, some w.info.ns⟩ ∈ config.map Record.identity := by
  obtain ⟨maps, secrets, hmaps, -, rfl⟩ := configRecords_eq h
  obtain ⟨rs, hrs, hrecords⟩ := exists_mem_of_mapM hmaps hc
  obtain ⟨d, -, rfl⟩ := map_eq_ok_iff.mp hrecords
  refine identity_mem_adopt (by decide) (hnear.configMaps c hc) ?_ (c.identity_recordOf d)
  exact List.mem_append_left _ (List.mem_flatten.mpr ⟨_, hrs, List.mem_singleton_self _⟩)

theorem secret_mem_configRecords (hnear : w.AttachedNearby) {s : Secret} (hs : s ∈ w.secrets) :
    ⟨"Secret", s.info.name, some w.info.ns⟩ ∈ config.map Record.identity := by
  obtain ⟨maps, secrets, -, hsecrets, rfl⟩ := configRecords_eq h
  obtain ⟨rs, hrs, hrecords⟩ := exists_mem_of_mapM hsecrets hs
  obtain ⟨d, -, rfl⟩ := map_eq_ok_iff.mp hrecords
  refine identity_mem_adopt (by decide) (hnear.secrets s hs) ?_ (s.identity_recordOf d)
  exact List.mem_append_right _ (List.mem_flatten.mpr ⟨_, hrs, List.mem_singleton_self _⟩)

theorem kind_of_mem_configRecords {r : Record} (hr : r ∈ config) :
    r.kind = "ConfigMap" ∨ r.kind = "Secret" := by
  obtain ⟨maps, secrets, hmaps, hsecrets, rfl⟩ := configRecords_eq h
  obtain ⟨s, hs, hkind⟩ := kind_of_mem_adopt hr
  rw [hkind]
  obtain hs | hs := List.mem_append.mp hs
  · obtain ⟨rs, hrs, hs⟩ := List.mem_flatten.mp hs
    obtain ⟨c, -, hrecords⟩ := exists_of_mem_mapM hmaps hrs
    obtain ⟨d, -, rfl⟩ := map_eq_ok_iff.mp hrecords
    obtain rfl := List.mem_singleton.mp hs
    exact .inl rfl
  · obtain ⟨rs, hrs, hs⟩ := List.mem_flatten.mp hs
    obtain ⟨c, -, hrecords⟩ := exists_of_mem_mapM hsecrets hrs
    obtain ⟨d, -, rfl⟩ := map_eq_ok_iff.mp hrecords
    obtain rfl := List.mem_singleton.mp hs
    exact .inr rfl

end ConfigRecords

end Workload

end Rollout
