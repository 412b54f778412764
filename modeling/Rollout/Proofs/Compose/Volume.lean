import Mathlib.Data.List.Dedup
import Mathlib.Data.List.Nodup
import Rollout.Compose.Project
import Rollout.Definition.Basic
import Rollout.Proofs.Record.Reference
import Rollout.Proofs.Success
import Rollout.Workload.Basic

/-!
# Claims and volumes

### The names of claims

The claim for a storage is called by its workload and the storage, joined by a dash. Either name may
have dashes itself, so two workloads may give two claims one name. They do just where the name of
one workload goes on behind that of the other and a dash, and the storage of the other is called by
what is added there, a dash, and the storage of the one.
-/

namespace Rollout

/-- Joined names can be told apart by their first parts, unless one of these goes on behind the
other one and a dash. -/
theorem dashed_eq_iff {a b s t : String} (h : a ≠ b) : a ++ "-" ++ s = b ++ "-" ++ t ↔
    ∃ x, (b = a ++ "-" ++ x ∧ s = x ++ "-" ++ t) ∨ (a = b ++ "-" ++ x ∧ t = x ++ "-" ++ s) := by
  have hright : ∀ {a b s t : List Char}, a ≠ b →
      (∃ y, b = a ++ y ∧ '-' :: s = y ++ '-' :: t) →
        ∃ x, b = a ++ '-' :: x ∧ s = x ++ '-' :: t := by
    rintro a b s t hne ⟨y, rfl, hy⟩
    cases y with
    | nil => exact absurd (List.append_nil a).symm hne
    | cons c x =>
      obtain ⟨rfl, rfl⟩ := List.cons.inj hy
      exact ⟨x, rfl, rfl⟩
  constructor
  · intro heq
    have hne : a.toList ≠ b.toList := fun he => h (String.toList_inj.mp he)
    have hlist : a.toList ++ '-' :: s.toList = b.toList ++ '-' :: t.toList := by
      simpa using congrArg String.toList heq
    obtain hleft | hleft := List.append_eq_append_iff.mp hlist
    · obtain ⟨x, hb, hs⟩ := hright hne hleft
      refine ⟨String.ofList x, .inl ⟨?_, ?_⟩⟩ <;> apply String.toList_inj.mp <;> simpa
    · obtain ⟨x, ha, ht⟩ := hright hne.symm hleft
      refine ⟨String.ofList x, .inr ⟨?_, ?_⟩⟩ <;> apply String.toList_inj.mp <;> simpa
  · rintro ⟨x, ⟨rfl, rfl⟩ | ⟨rfl, rfl⟩⟩ <;> simp [String.append_assoc]

/-- Where each of some items is found, there are as many finds as items if and only if no item is
there twice. -/
theorem length_filter_mem_eq_iff {α : Type} [DecidableEq α] {all items : List α} (hall : all.Nodup)
    (h : items ⊆ all) : (all.filter (· ∈ items)).length = items.length ↔ items.Nodup := by
  have hperm : (all.filter (· ∈ items)).Perm items.dedup := by
    refine (List.perm_ext_iff_of_nodup (hall.filter _) (List.nodup_dedup items)).mpr fun a => ?_
    rw [List.mem_filter, List.mem_dedup, decide_eq_true_eq]
    exact and_iff_right_of_imp fun ha => h ha
  rw [hperm.length_eq, ← List.dedup_eq_self]
  exact ⟨(List.dedup_sublist items).eq_of_length, congrArg List.length⟩

namespace Workload

/-- Two workloads call a claim the same: the name of one goes on from that of the other. -/
def SharesClaim (w v : Workload) : Prop :=
  ∃ s ∈ w.storage, ∃ t ∈ v.storage, ∃ x,
    (v.name = w.name ++ "-" ++ x ∧ s.name = x ++ "-" ++ t.name) ∨
      (w.name = v.name ++ "-" ++ x ∧ t.name = x ++ "-" ++ s.name)

theorem sharesClaim_iff {w v : Workload} (h : w.name ≠ v.name) :
    w.SharesClaim v ↔ ∃ s ∈ w.storage, ∃ t ∈ v.storage, w.claimName s = v.claimName t := by
  unfold SharesClaim claimName
  simp only [dashed_eq_iff h]

section ForStorage

variable {β : Type} {make : Workload → Storage → β} {Near : Workload → Workload → Prop}
  {ws : List Workload}

/-- What is made for the storage of workloads by the names of the claims is the same for two of them
just if they are near each other and call a claim the same. -/
theorem pairwise_disjoint_forStorage_iff
    (hmake : ∀ w v s t, make w s = make v t ↔ Near w v ∧ w.claimName s = v.claimName t)
    (hnames : (ws.map name).Nodup) :
    ws.Pairwise (fun w v => List.Disjoint (w.storage.map (make w)) (v.storage.map (make v))) ↔
      ws.Pairwise fun w v => Near w v → ¬ w.SharesClaim v := by
  have hpair {w v : Workload} (hne : w.name ≠ v.name) :
      List.Disjoint (w.storage.map (make w)) (v.storage.map (make v)) ↔
        (Near w v → ¬ w.SharesClaim v) := by
    constructor
    · intro hdisjoint hnear hshares
      obtain ⟨s, hs, t, ht, he⟩ := (sharesClaim_iff hne).mp hshares
      have hsame := (hmake w v s t).mpr ⟨hnear, he⟩
      exact hdisjoint (List.mem_map_of_mem hs) (hsame ▸ List.mem_map_of_mem ht)
    · intro hapart b hw hv
      obtain ⟨s, hs, rfl⟩ := List.mem_map.mp hw
      obtain ⟨t, ht, he⟩ := List.mem_map.mp hv
      obtain ⟨hnear, hclaim⟩ := (hmake w v s t).mp he.symm
      exact hapart hnear ((sharesClaim_iff hne).mpr ⟨s, hs, t, ht, hclaim⟩)
  have hdistinct := List.pairwise_map.mp hnames
  constructor
  · exact fun h => hdistinct.imp₂ (fun w v hne => (hpair hne).mp) h
  · exact fun h => hdistinct.imp₂ (fun w v hne => (hpair hne).mpr) h

/-- One workload has a claim of its own for each storage, so that what is made for storage is there
twice just where two workloads share it. -/
theorem nodup_forStorage_iff
    (hmake : ∀ w v s t, make w s = make v t ↔ Near w v ∧ w.claimName s = v.claimName t)
    (hnames : (ws.map name).Nodup) (hstorage : ∀ w ∈ ws, (w.storage.map (·.name)).Nodup) :
    (ws.flatMap fun w => w.storage.map (make w)).Nodup ↔
      ws.Pairwise fun w v => Near w v → ¬ w.SharesClaim v := by
  have hone : ∀ w ∈ ws, (w.storage.map (make w)).Nodup := by
    intro w hw
    refine List.pairwise_map.mpr ((List.pairwise_map.mp (hstorage w hw)).imp fun {s t} hne he => ?_)
    exact hne (String.append_right_inj _ |>.mp ((hmake w w s t).mp he).2)
  rw [List.nodup_flatMap, and_iff_right hone]
  exact pairwise_disjoint_forStorage_iff hmake hnames

end ForStorage

end Workload

end Rollout

/-!
### The volumes of a compose project

A compose project declares each volume once, by its name: those for the storage of its workloads and
those of the claims that they name themselves.
-/

namespace Rollout.Compose

variable {files : FileTree}

/-- The volumes that a document declares. -/
def volumeNames (document : Value) : List String := Assoc.keys (document.at "volumes").entries

theorem at_mapEntry (key : String) (entries : Assoc Value) :
    ((Assoc.get? (mapEntry key entries) key).getD .null).entries = entries := by
  cases entries with
  | nil => rfl
  | cons e entries =>
    change ((Assoc.get? [(key, Value.mapping (e :: entries))] key).getD .null).entries = _
    rw [Assoc.get?_cons, if_pos rfl]
    rfl

theorem volumeNames_document (version network : String) (ds : List Deployed) :
    volumeNames (document version network ds) = Assoc.keys (Assoc.ofPairs
      (ds.flatMap fun d => (namedVolumes d.workload).map fun v => (v, Value.empty))) := by
  rw [← at_mapEntry "volumes" (Assoc.ofPairs _)]
  simp [volumeNames, document, Value.at_mapping, Assoc.get?_append, Assoc.get?_cons,
    Assoc.get?_nil]

theorem workload_of_deployed {w : Workload} {x : Deployed} (h : deployed files w = .ok x) :
    x.workload = w := by
  obtain ⟨secrets, -, h⟩ := bind_eq_ok_iff.mp h
  obtain ⟨configMaps, -, h⟩ := bind_eq_ok_iff.mp h
  obtain rfl := Except.ok.inj h
  rfl

theorem workloads_of_deployed {ws : List Workload} {ds : List Deployed}
    (h : ws.mapM (deployed files) = .ok ds) : ds.map (·.workload) = ws := by
  induction ws generalizing ds with
  | nil =>
    obtain rfl := Except.ok.inj h
    rfl
  | cons w ws ih =>
    obtain ⟨x, rest, hx, hrest, rfl⟩ := mapM_cons_eq_ok_iff.mp h
    rw [List.map_cons, workload_of_deployed hx, ih hrest]

/-- A project is made of the workloads of its definition, each with the data attached to it. -/
theorem exists_deployed_of_project {o : ComposeOptions} {d : Definition} {p : ComposeProject}
    (h : project o files d = .ok p) : ∃ ds, d.workloads.mapM (deployed files) = .ok ds ∧
      p = { name := d.name
            document := document o.version (networkName d.name) ds
            env := sharedEnvironment ds
            files := ds.flatMap Deployed.files
            built := d.workloads.map fun w => (w.name, w.build.map (·.context)) } := by
  unfold project at h
  dsimp only at h
  split at h
  · exact absurd h nofun
  obtain ⟨ds, hds, h⟩ := bind_eq_ok_iff.mp h
  rw [mapError_eq_ok_iff] at hds
  exact ⟨ds, hds, (Except.ok.inj h).symm⟩

/-- A project declares no volume twice, and just those that its workloads name. -/
theorem volumeNames_project {o : ComposeOptions} {d : Definition} {p : ComposeProject}
    (h : project o files d = .ok p) : (volumeNames p.document).Nodup ∧
      ∀ v, v ∈ volumeNames p.document ↔ ∃ w ∈ d.workloads, v ∈ namedVolumes w := by
  obtain ⟨ds, hds, rfl⟩ := exists_deployed_of_project h
  rw [volumeNames_document]
  refine ⟨Assoc.nodup_keys_ofPairs _, fun v => ?_⟩
  rw [Assoc.mem_keys_ofPairs_iff, List.map_flatMap, List.mem_flatMap]
  simp only [List.map_map, Function.comp_def, List.map_id']
  constructor
  · rintro ⟨x, hx, hv⟩
    obtain ⟨w, hw, hdeployed⟩ := exists_of_mem_mapM hds hx
    exact ⟨w, hw, workload_of_deployed hdeployed ▸ hv⟩
  · rintro ⟨w, hw, hv⟩
    obtain ⟨x, hx, hdeployed⟩ := exists_mem_of_mapM hds hw
    exact ⟨x, hx, workload_of_deployed hdeployed ▸ hv⟩

end Rollout.Compose
