import Rollout.Project.Basic
import Rollout.Proofs.Codec.Reading
import Rollout.Proofs.Kustomize.Patch

/-!
# Overlays of a project

The numbers of replicas that an overlay of a definition file names become patches behind those that
it declares, one for each name in the order of the names. A patch is for the workload of that name
among the records: the kind of the first one counts.
-/

namespace Rollout

/-! ### The kind of a workload -/

/-- The kinds of workloads whose replicas can be set. -/
def workloadKinds : List String := ["Deployment", "StatefulSet", "DaemonSet"]

/-- A record is a workload of a kind and a name. -/
def Record.IsWorkload (r : Record) (kind name : String) : Prop :=
  r.kind? = some kind ∧ kind ∈ workloadKinds ∧ r.name? = some name

/-- The kind of the first workload with a name among records. It is that of a Deployment if there is
none. -/
inductive WorkloadKind (name : String) : List Record → String → Prop where
  | first {before after : List Record} {r : Record} {kind : String}
    (hbefore : ∀ q ∈ before, ∀ kind, ¬ q.IsWorkload kind name) (hr : r.IsWorkload kind name) :
    WorkloadKind name (before ++ r :: after) kind
  | absent {rs : List Record} (h : ∀ q ∈ rs, ∀ kind, ¬ q.IsWorkload kind name) :
    WorkloadKind name rs "Deployment"

section Kind

variable {name kind : String} {r : Record} {rs : List Record}

theorem WorkloadKind.cons (hr : ∀ kind, ¬ r.IsWorkload kind name)
    (h : WorkloadKind name rs kind) : WorkloadKind name (r :: rs) kind := by
  cases h with
  | first hbefore hfirst => exact .first (List.forall_mem_cons.mpr ⟨hr, hbefore⟩) hfirst
  | absent h => exact .absent (List.forall_mem_cons.mpr ⟨hr, h⟩)

theorem WorkloadKind.mem (h : WorkloadKind name rs kind) : kind ∈ workloadKinds := by
  cases h with
  | first _ hfirst => exact hfirst.2.1
  | absent => decide

namespace Project

theorem workloadKind_cons_of_isWorkload (hr : r.IsWorkload kind name) (rs : List Record) :
    workloadKind (r :: rs) name = kind := by
  obtain ⟨hkind, hmem, hname⟩ := hr
  have hcontains : ["Deployment", "StatefulSet", "DaemonSet"].contains kind = true :=
    List.contains_iff_mem.mpr hmem
  simp only [workloadKind, List.filter_cons, hname, decide_true, if_true, List.filterMap_cons,
    hkind, List.find?_cons, hcontains, Option.getD_some]

theorem workloadKind_cons_of_not (hr : ∀ kind, ¬ r.IsWorkload kind name) (rs : List Record) :
    workloadKind (r :: rs) name = workloadKind rs name := by
  by_cases hname : r.name? = some name
  · cases hkind : r.kind? with
    | none => simp [workloadKind, hname, hkind]
    | some kind =>
      have hcontains : ["Deployment", "StatefulSet", "DaemonSet"].contains kind = false := by
        rw [← Bool.not_eq_true, List.contains_iff_mem]
        exact fun hmem => hr kind ⟨hkind, hmem, hname⟩
      simp only [workloadKind, List.filter_cons, hname, decide_true, if_true, List.filterMap_cons,
        hkind, List.find?_cons, hcontains]
  · simp [workloadKind, hname]

/-- The kind that is looked up is that of the first workload. -/
theorem workloadKind_spec (rs : List Record) (name : String) :
    WorkloadKind name rs (workloadKind rs name) := by
  induction rs with
  | nil => exact .absent fun _ h => absurd h List.not_mem_nil
  | cons r rs ih =>
    by_cases hr : ∃ kind, r.IsWorkload kind name
    · obtain ⟨kind, hr⟩ := hr
      rw [workloadKind_cons_of_isWorkload hr]
      have hnone : ∀ q ∈ [], ∀ kind, ¬ Record.IsWorkload q kind name :=
        fun _ h => absurd h List.not_mem_nil
      exact .first hnone hr
    · rw [not_exists] at hr
      rw [workloadKind_cons_of_not hr]
      exact ih.cons hr

end Project

end Kind

/-! ### Patches for numbers of replicas -/

/-- The keys of a sorted mapping that is read ascend, however they were given. -/
theorem Codec.isSorted_of_decode {α : Type} {c : Codec α} {src : Source} {v : Value} {m : Assoc α}
    (h : (Codec.sorted c).decode src v = .ok m) : m.IsSorted := by
  cases v with
  | mapping entries =>
    obtain ⟨pairs, -, rfl⟩ := map_eq_ok_iff.mp h
    exact Assoc.isSorted_sorted pairs
  | _ => exact nomatch h

/-- The patch that sets the number of replicas of a workload. -/
def replicasPatch (kind name : String) (count : Nat) : Patch :=
  .operations ⟨"apps", "v1", kind, name⟩ [⟨"replace", "/spec/replicas", some (.nat count)⟩]

theorem Kustomization.withReplicas_eq {kind : String} (h : kind ∈ workloadKinds)
    (k : Kustomization) (name : String) (count : Nat) :
    k.withReplicas kind name count =
      { k with patches := k.patches ++ [replicasPatch kind name count] } := by
  have htarget : PatchTarget.ofKind kind name = ⟨"apps", "v1", kind, name⟩ := by
    simp only [workloadKinds, List.mem_cons, List.not_mem_nil, or_false] at h
    obtain rfl | rfl | rfl := h <;> rfl
  rw [withReplicas, htarget]
  rfl

namespace Project

/-- The patches that stand for numbers of replicas. -/
def shorthand (rs : List Record) (replicas : Assoc Nat) : List Patch :=
  replicas.map fun (name, count) => replicasPatch (workloadKind rs name) name count

theorem expanded_eq (rs : List Record) (s : OverlaySettings) :
    expanded rs s = s.overlay.mapKustomization fun k =>
      { k with patches := k.patches ++ shorthand rs s.replicas } := by
  have hfold (replicas : Assoc Nat) (k : Kustomization) :
      replicas.foldl (fun k e => k.withReplicas (workloadKind rs e.1) e.1 e.2) k =
        { k with patches := k.patches ++ shorthand rs replicas } := by
    induction replicas generalizing k with
    | nil => simp [shorthand]
    | cons e replicas ih =>
      rw [List.foldl_cons, ih, Kustomization.withReplicas_eq (workloadKind_spec rs e.1).mem]
      simp [shorthand]
  exact congrArg s.overlay.mapKustomization (funext (hfold s.replicas))

/-- The patches for numbers of replicas, one for each name in their order. -/
theorem forall₂_shorthand (rs : List Record) (replicas : Assoc Nat) :
    List.Forall₂ (fun e p => ∃ kind, WorkloadKind e.1 rs kind ∧ p = replicasPatch kind e.1 e.2)
      replicas (shorthand rs replicas) := by
  rw [shorthand, List.forall₂_map_right_iff, List.forall₂_same]
  exact fun e _ => ⟨_, workloadKind_spec rs e.1, rfl⟩

/-- The names are read in ascending order, each once. -/
theorem isSorted_replicas {src : Source} {v : Value} {s : OverlaySettings}
    (h : OverlaySettings.codec.decode src v = .ok s) : s.replicas.IsSorted := by
  obtain ⟨entries, -, hread⟩ := Codec.decode_mapping_eq_ok_iff.mp h
  refine Fields.Yields.seq (F := fun _ g => ∀ replicas, (g replicas).replicas = replicas)
    (P := fun _ s => s.replicas.IsSorted) (.map fun _ _ _ _ _ => rfl) Fields.yields_fieldWith
    (fun entries g replicas hg hreplicas => ?_) _ _ _ hread
  rw [hg]
  split at hreplicas
  · obtain ⟨src, hdecode⟩ := hreplicas
    exact Codec.isSorted_of_decode hdecode
  · obtain rfl := Option.some.inj hreplicas
    exact List.Pairwise.nil

end Project

end Rollout
