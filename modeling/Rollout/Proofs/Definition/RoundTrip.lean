import Rollout.Definition.Codec
import Rollout.Proofs.App.Settings

/-!
# Definitions are read back

A definition that has been set up is read back from what is written for it: the same type
with the same fields, so that its records and its workloads are the same as well. Whatever
is written is a text, a number or made of these; the paths of files are texts.

A group is written and read without a codec. Its metadata are looked up field by field, and
its members are read one after the other.
-/

namespace Rollout

namespace Meta

theorem get?_write_labels (m : Meta) : Assoc.get? (fields.write m) "labels" =
    if m.labels.isEmpty then none else some (.textMap m.labels) := by
  obtain ⟨name, ns, labels, annotations⟩ := m
  cases labels <;> cases annotations <;> rfl

theorem get?_write_annotations (m : Meta) : Assoc.get? (fields.write m) "annotations" =
    if m.annotations.isEmpty then none else some (.textMap m.annotations) := by
  obtain ⟨name, ns, labels, annotations⟩ := m
  cases labels <;> cases annotations <;> rfl

theorem mem_keys_of_mem_write {m : Meta} (h : m.Fits) : ∀ e ∈ fields.write m, e.1 ∈ keys :=
  (readsBack_fields h (by decide)).1

end Meta

namespace Definition

/-- A definition that has been set up. The members of a group are set up themselves. -/
inductive Built : Definition → Prop where
  | app {a : App} (h : a.Built) : Built (app a)
  | statefulApp {a : StatefulApp} (h : a.Built) : Built (statefulApp a)
  | configMap {c : ConfigMap} (h : c.Built) : Built (configMap c)
  | secret {s : Secret} (h : s.Built) : Built (secret s)
  | job {j : Job} (h : j.Built) : Built (job j)
  | cronJob {j : CronJob} (h : j.Built) : Built (cronJob j)
  | service {s : Service} (h : s.Built) : Built (service s)
  | ingress {i : Ingress} (h : i.Built) : Built (ingress i)
  | networkPolicy {p : NetworkPolicy} (h : p.Built) : Built (networkPolicy p)
  | serviceAccount {a : ServiceAccount} (h : a.Built) : Built (serviceAccount a)
  | role {r : Role} (scope : RoleScope) (h : r.Built) : Built (role scope r)
  | binding {b : Binding} (scope : RoleScope) (h : b.Built) : Built (binding scope b)
  | ofNamespace {n : NamespaceDefinition} (h : n.Built) : Built (ofNamespace n)
  | groupNamed (name : String) : Built (groupNamed name)
  | groupInfo {info : Meta} {members : List Definition} {create : Bool} {f : Meta → Meta}
    (hf : Meta.IsSetting f) (h : Built (group info members create)) :
    Built (group (f info) members create)
  | createNamespace {info : Meta} {members : List Definition} {create : Bool}
    (h : Built (group info members create)) : Built (group info members true)
  | add {info : Meta} {members : List Definition} {create : Bool} {d : Definition}
    (h : Built (group info members create)) (hd : Built d) :
    Built (group info (members ++ [d]) create)

/-- All that a definition carries has numbers of their types and sorted mappings. -/
inductive Fits : Definition → Prop where
  | app {a : App} (h : a.Fits) : Fits (app a)
  | statefulApp {a : StatefulApp} (h : a.Fits) : Fits (statefulApp a)
  | configMap {c : ConfigMap} (h : c.Fits) : Fits (configMap c)
  | secret {s : Secret} (h : s.Fits) : Fits (secret s)
  | job {j : Job} (h : j.Fits) : Fits (job j)
  | cronJob {j : CronJob} (h : j.Fits) : Fits (cronJob j)
  | service {s : Service} (h : s.Fits) : Fits (service s)
  | ingress {i : Ingress} (h : i.Fits) : Fits (ingress i)
  | networkPolicy {p : NetworkPolicy} (h : p.Fits) : Fits (networkPolicy p)
  | serviceAccount {a : ServiceAccount} (h : a.Fits) : Fits (serviceAccount a)
  | role {r : Role} (scope : RoleScope) (h : r.Fits) : Fits (role scope r)
  | binding {b : Binding} (scope : RoleScope) (h : b.Fits) : Fits (binding scope b)
  | ofNamespace {n : NamespaceDefinition} (h : n.Fits) : Fits (ofNamespace n)
  | group {info : Meta} {members : List Definition} (create : Bool) (hinfo : info.Fits)
    (hmembers : ∀ d ∈ members, Fits d) : Fits (group info members create)

theorem Fits.of_group {info : Meta} {members : List Definition} {create : Bool}
    (h : Fits (.group info members create)) : info.Fits ∧ ∀ d ∈ members, d.Fits := by
  cases h with
  | group _ hinfo hmembers => exact ⟨hinfo, hmembers⟩

theorem Built.fits {d : Definition} (h : d.Built) : d.Fits := by
  induction h with
  | app h => exact .app h.fits
  | statefulApp h => exact .statefulApp h.fits
  | configMap h => exact .configMap h.fits
  | secret h => exact .secret h.fits
  | job h => exact .job h.fits
  | cronJob h => exact .cronJob h.fits
  | service h => exact .service h.fits
  | ingress h => exact .ingress h.fits
  | networkPolicy h => exact .networkPolicy h.fits
  | serviceAccount h => exact .serviceAccount h.fits
  | role scope h => exact .role scope h.fits
  | binding scope h => exact .binding scope h.fits
  | ofNamespace h => exact .ofNamespace h.fits
  | groupNamed name => exact .group false (Meta.fits_of_empty name defaultNamespace) nofun
  | groupInfo hf _ ih => exact .group _ (hf.fits ih.of_group.1) ih.of_group.2
  | createNamespace _ ih => exact .group true ih.of_group.1 ih.of_group.2
  | add _ _ ih ihd => exact .group _ ih.of_group.1 (forall_mem_concat ih.of_group.2 ihd)

/-- A definition of any type but a group is read by the codec of its type. -/
theorem decode_tag {α : Type} {c : Codec α} {a b : α} {typeName : String} {f : α → Definition}
    (hknown : types.contains typeName = true)
    (hfields : ∀ v, decodeFields typeName v = some ((c.decode .direct v).map f))
    (h : c.ReadsBehind "type" a b) : decode types (tag typeName (c.encode a)) = .ok (f b) := by
  obtain ⟨entries, hencode, hdecode⟩ := h
  have hread : c.decode .direct (.mapping (("type", .text typeName) :: entries)) = .ok b := by
    refine hdecode .direct [("type", .text typeName)] ?_
    exact List.forall_mem_singleton.mpr rfl
  have htype : typeOf types (.mapping (("type", .text typeName) :: entries)) = .ok typeName := by
    have hget : Assoc.get? (("type", .text typeName) :: entries) "type" =
        some (Value.text typeName) := by
      rw [Assoc.get?_cons, if_pos rfl]
    simp only [typeOf, Value.field?, Value.entries?, Option.bind_some, hget, Value.text?, hknown,
      if_true]
  rw [hencode]
  change decode types (.mapping (("type", .text typeName) :: entries)) = _
  simp only [decode, htype, bind, Except.bind, hfields, hread, Except.map]

section Group

variable {info : Meta} {members : List Definition}

/-- The fields that are written for a group, given what is written for its members. -/
def groupFields (info : Meta) (create : Bool) (items : List Value) : Assoc Value :=
  (("type", .text "AppGroup") ::
    (Meta.fields.write info ++ if create then [("createNamespace", .bool true)] else [])) ++
    [("members", .list items)]

theorem encode_group (info : Meta) (members : List Definition) (create : Bool) :
    (group info members create).encode =
      .mapping (groupFields info create (encodeAll members)) := rfl

/-- No field beside the metadata has one of their keys. -/
theorem get?_groupFields_of_mem {key : String} (h : key ∈ Meta.keys) (info : Meta) (create : Bool)
    (items : List Value) : Assoc.get? (groupFields info create items) key =
      Assoc.get? (Meta.fields.write info) key := by
  have hother : ∀ key ∈ Meta.keys, key ≠ "type" ∧ key ≠ "createNamespace" ∧ key ≠ "members" := by
    decide
  obtain ⟨htype, hcreate, hmembers⟩ := hother key h
  have hnone : Assoc.get? (if create then [("createNamespace", Value.bool true)] else []) key =
      none := by
    cases create with
    | false => rfl
    | true => exact (Assoc.get?_cons _ _ _ _).trans (if_neg hcreate)
  rw [groupFields, Assoc.get?_append, Assoc.get?_cons, if_neg htype, Assoc.get?_append, hnone,
    Assoc.get?_cons, if_neg hmembers, Option.or_none, Assoc.get?_nil, Option.or_none]

theorem get?_groupFields_createNamespace (h : info.Fits) (create : Bool) (items : List Value) :
    ((Assoc.get? (groupFields info create items) "createNamespace").bind Value.bool?).getD false =
      create := by
  have hnone : Assoc.get? (Meta.fields.write info) "createNamespace" = none :=
    Fields.get?_eq_none_of_notMem (Meta.mem_keys_of_mem_write h) (by decide)
  rw [groupFields, Assoc.get?_append, Assoc.get?_cons, if_neg (by decide), Assoc.get?_append, hnone,
    Option.none_or]
  cases create <;> rfl

/-- Texts that are sorted by key are looked up as they were written. -/
theorem textEntries_eq {fields : Assoc Value} {key : String} {m : Assoc String} (hm : m.IsSorted)
    (h : fields.get? key = if m.isEmpty then none else some (.textMap m)) :
    textEntries fields key = m := by
  cases hempty : m.isEmpty with
  | true =>
    rw [hempty, if_pos rfl] at h
    rw [textEntries, h, List.isEmpty_iff.mp hempty]
    rfl
  | false =>
    rw [hempty, if_neg (by decide)] at h
    rw [textEntries, h]
    change Assoc.sorted (Assoc.texts (m.mapValues .text)) = m
    rw [Assoc.texts_mapValues, Assoc.sorted_of_isSorted hm]

theorem groupInfo_groupFields (h : info.Fits) (create : Bool) (items : List Value) :
    groupInfo (groupFields info create items) info.name = info := by
  have hwritten {key : String} (hkey : key ∈ Meta.keys) :=
    get?_groupFields_of_mem hkey info create items
  have hlabels := (hwritten (by decide)).trans info.get?_write_labels
  have hnotes := (hwritten (by decide)).trans info.get?_write_annotations
  have hns : Assoc.get? (groupFields info create items) "namespace" = some (.text info.ns) :=
    hwritten (by decide)
  rw [groupInfo, hns, textEntries_eq h.labels hlabels, textEntries_eq h.annotations hnotes]
  rfl

/-- Only the field of the members is read for them. -/
theorem decodeMembers_append {known : List String} {before : Assoc Value}
    (h : ∀ e ∈ before, e.1 ≠ "members") (items : List Value) :
    decodeMembers known (before ++ [("members", .list items)]) = decodeAll known items := by
  induction before with
  | nil => rfl
  | cons e before ih =>
    obtain ⟨key, v⟩ := e
    obtain ⟨hkey, hrest⟩ := List.forall_mem_cons.mp h
    rw [List.cons_append]
    unfold decodeMembers
    rw [if_neg hkey, ih hrest]

theorem decodeMembers_groupFields (h : info.Fits) (create : Bool) (items : List Value) :
    decodeMembers types (groupFields info create items) = decodeAll types items := by
  have hmeta : ∀ e ∈ Meta.fields.write info, e.1 ≠ "members" := fun e he hkey =>
    absurd (hkey ▸ Meta.mem_keys_of_mem_write h e he) (by decide)
  refine decodeMembers_append (List.forall_mem_cons.mpr ⟨by decide, ?_⟩) items
  refine List.forall_mem_append.mpr ⟨hmeta, ?_⟩
  cases create with
  | false => exact List.forall_mem_nil _
  | true => exact List.forall_mem_singleton.mpr (by decide)

theorem decodeAll_encodeAll (h : ∀ d ∈ members, decode types d.encode = .ok d) :
    decodeAll types (encodeAll members) = .ok members := by
  induction members with
  | nil => rfl
  | cons d members ih =>
    obtain ⟨hd, hmembers⟩ := List.forall_mem_cons.mp h
    rw [encodeAll, decodeAll, hd, ih hmembers]
    rfl

/-- A group is read back if its members are. -/
theorem decode_encode_group (hinfo : info.Fits) (create : Bool)
    (h : ∀ d ∈ members, decode types d.encode = .ok d) :
    decode types (group info members create).encode = .ok (group info members create) := by
  have hname : Assoc.get? (groupFields info create (encodeAll members)) "name" =
      some (.text info.name) :=
    get?_groupFields_of_mem (by decide) info create (encodeAll members)
  have hcreate := get?_groupFields_createNamespace hinfo create (encodeAll members)
  have hmembers := decodeMembers_groupFields hinfo create (encodeAll members)
  have htype : typeOf types (.mapping (groupFields info create (encodeAll members))) =
      .ok "AppGroup" := rfl
  have hfields (v : Value) : decodeFields "AppGroup" v = none := rfl
  rw [decodeAll_encodeAll h] at hmembers
  rw [encode_group, decode]
  simp only [htype, hfields, Value.field?, Value.entries?, hname, hmembers, hcreate, bind,
    Except.bind, Option.bind_some, Value.text?, groupInfo_groupFields hinfo]

end Group

/-- Whatever has numbers of their types and sorted mappings is read back. -/
theorem decode_encode {d : Definition} (h : d.Fits) : decode types d.encode = .ok d := by
  induction h with
  | app h => exact decode_tag rfl (fun _ => rfl) (App.returnsBehind h)
  | statefulApp h => exact decode_tag rfl (fun _ => rfl) (StatefulApp.returnsBehind h)
  | configMap h => exact decode_tag rfl (fun _ => rfl) (ConfigMap.returnsBehind h)
  | secret h => exact decode_tag rfl (fun _ => rfl) (Secret.returnsBehind h)
  | job h => exact decode_tag rfl (fun _ => rfl) (Job.returnsBehind h)
  | cronJob h => exact decode_tag rfl (fun _ => rfl) (CronJob.returnsBehind h)
  | service h => exact decode_tag rfl (fun _ => rfl) (Service.returnsBehind h)
  | ingress h => exact decode_tag rfl (fun _ => rfl) (Ingress.returnsBehind h)
  | networkPolicy h => exact decode_tag rfl (fun _ => rfl) (NetworkPolicy.returnsBehind h)
  | serviceAccount h => exact decode_tag rfl (fun _ => rfl) (ServiceAccount.returnsBehind h)
  | role scope h =>
    cases scope <;> exact decode_tag rfl (fun _ => rfl) (Role.returnsBehind h _)
  | binding scope h =>
    cases scope <;> exact decode_tag rfl (fun _ => rfl) (Binding.returnsBehind h _)
  | ofNamespace h => exact decode_tag rfl (fun _ => rfl) (NamespaceDefinition.returnsBehind h)
  | group create hinfo _ ih => exact decode_encode_group hinfo create ih

/-- An application and, in a group of their own, the Secrets that it needs. -/
def shop : Definition :=
  let web := (App.named "web").mapWorkload (·.withPort 8080)
  let secrets := Definition.group { name := "secrets" } [.secret (.basicAuth "db" "u" "p")] true
  .group { name := "shop", labels := [("team", "web")] } [.app web, secrets] false

theorem built_shop : shop.Built := by
  have hport := App.IsSetting.workload (.port (by decide : 8080 < UInt16.size))
  have hweb : ((App.named "web").mapWorkload (·.withPort 8080)).Built :=
    Reached.set hport (.new ⟨"web", rfl⟩)
  have hdb : (Secret.basicAuth "db" "u" "p").Built := .new (.basicAuth "db" "u" "p")
  have hsecrets := Built.createNamespace (.add (.groupNamed "secrets") (.secret hdb))
  have hgroup := Built.groupInfo (.label "team" "web") (.groupNamed "shop")
  exact .add (.add hgroup (.app hweb)) hsecrets

end Definition

end Rollout
