import Rollout.Proofs.Definition.Reading
import Rollout.Proofs.Record.Reference

/-!
# Definitions without settings

Each type of definition has a constructor in code, and a smallest mapping that is read as a
definition of the type: it has the type, a name and what else the type requires, in any order. Both
give definitions with the same records, but for Services. A Service that is constructed finds the
pods of the application of its name; one that is read finds none until its definition says which.
-/

namespace Rollout

open Fields

/-! ### The order of entries -/

theorem Meta.looksUp_fields : fields.LooksUp :=
  .seq (.seq (.seq (.map _ looksUp_fieldWith) looksUp_fieldWith) looksUp_elided) looksUp_elided

theorem Workload.looksUp_fields : fields.LooksUp := by
  unfold fields
  repeat with_reducible refine .seq ?_ ?_
  · exact .map _ (looksUp_part Meta.looksUp_fields)
  all_goals exact looksUp_elided

theorem JobTemplate.looksUp_fields : fields.LooksUp := by
  unfold fields
  repeat with_reducible refine .seq ?_ ?_
  · exact .map _ looksUp_elided
  all_goals exact looksUp_elided

namespace Definition

variable {known : List String} {entries others : Assoc Value} {d : Definition}

theorem decodeFields_congr {typeName : String} (hsame : ∀ key, entries.get? key = others.get? key)
    (h : decodeFields typeName (.mapping entries) = some (.ok d)) :
    decodeFields typeName (.mapping others) = some (.ok d) := by
  unfold decodeFields at h ⊢
  split at h
  case h_17 => exact absurd h nofun
  all_goals
    obtain ⟨a, ha, rfl⟩ := map_eq_ok_iff.mp (Option.some.inj h)
    refine congrArg some (map_eq_ok_iff.mpr ⟨a, ?_, rfl⟩)
    refine Codec.decode_mapping_congr ?_ hsame ha
    repeat with_reducible refine .seq ?_ ?_
    all_goals first
      | exact .map _ (looksUp_part Meta.looksUp_fields)
      | exact .map _ (looksUp_part Workload.looksUp_fields)
      | exact looksUp_part JobTemplate.looksUp_fields
      | exact looksUp_elided
      | exact looksUp_fieldWith

theorem decodeMembers_eq (fields : Assoc Value) : decodeMembers known fields =
    match fields.get? "members" with
    | some (.list items) => decodeAll known items
    | some _ => .error .membersNotList
    | .none => .ok [] := by
  induction fields with
  | nil => rfl
  | cons e fields ih =>
    obtain ⟨key, v⟩ := e
    unfold decodeMembers
    rw [Assoc.get?_cons]
    by_cases hkey : key = "members"
    · rw [if_pos hkey, if_pos hkey.symm]
      cases v <;> rfl
    · rw [if_neg hkey, if_neg (Ne.symm hkey), ih]

theorem decodeFields_eq_none {typeName : String} {v : Value} (h : decodeFields typeName v = .none)
    (w : Value) : decodeFields typeName w = .none := by
  unfold decodeFields at h ⊢
  split at h
  case h_17 => rfl
  all_goals exact absurd h nofun

/-- A definition is read from the same entries in any order. -/
theorem decode_congr (hsame : ∀ key, entries.get? key = others.get? key)
    (h : decode known (.mapping entries) = .ok d) : decode known (.mapping others) = .ok d := by
  have hfield : ∀ key, (Value.mapping others).field? key = (Value.mapping entries).field? key :=
    fun key => (hsame key).symm
  have htype : typeOf known (.mapping others) = typeOf known (.mapping entries) := by
    rw [typeOf, typeOf, hfield, hfield]
  simp only [decode, bind_eq_ok_iff] at h ⊢
  obtain ⟨typeName, hname, h⟩ := h
  refine ⟨typeName, htype.trans hname, ?_⟩
  split at h
  · rename_i hfields
    obtain rfl := Except.ok.inj h
    rw [decodeFields_congr hsame hfields]
  · cases h
  · rename_i hfields
    have hinfo : ∀ name, groupInfo others name = groupInfo entries name := by
      intro name
      simp only [groupInfo, textEntries, hsame]
    have hmembers : decodeMembers known others = decodeMembers known entries := by
      rw [decodeMembers_eq, decodeMembers_eq, hsame]
    simp only [decodeFields_eq_none hfields, hfield, hinfo, hmembers]
    exact h

/-! ### Definitions without settings -/

/-- What the constructor of each type is given. -/
inductive Bare where
  | app (name : String)
  | statefulApp (name : String)
  | configMap (name : String)
  | secret (name : String)
  | job (name : String)
  | cronJob (name schedule : String)
  | service (name : String)
  | ingress (name : String)
  | networkPolicy (name : String)
  | serviceAccount (name : String)
  | role (scope : RoleScope) (name : String)
  | binding (scope : RoleScope) (name : String) (roleRef : RoleRef)
  /-- The name and the plural follow from the kind. -/
  | customResource (api version kind : String)
  | ofNamespace (name : String)
  | group (name : String)

namespace Bare

/-- The definition that the constructor makes. -/
def made : Bare → Definition
  | app name => .app (.named name)
  | statefulApp name => .statefulApp (.named name)
  | configMap name => .configMap (.named name)
  | secret name => .secret (.named name)
  | job name => .job (.named name)
  | cronJob name schedule => .cronJob (.named name schedule)
  | service name => .service (.named name)
  | ingress name => .ingress (.named name)
  | networkPolicy name => .networkPolicy (.named name)
  | serviceAccount name => .serviceAccount (.named name)
  | role scope name => .role scope (.named name)
  | binding scope name roleRef => .binding scope (.named name roleRef)
  | customResource api version kind => .customResource (.ofKind api version kind)
  | ofNamespace name => .ofNamespace (.named name)
  | group name => groupNamed name

/-- What its type requires beside a name. -/
def required : Bare → Assoc Value
  | cronJob _ schedule => [("schedule", .text schedule)]
  | binding _ _ roleRef => [("roleRef", RoleRef.codec.encode roleRef)]
  | customResource api version kind => [("group", .text api), ("version", .text version),
      ("kind", .text kind), ("plural", .text (kind.toLower ++ "s"))]
  | _ => []

/-- The entries of the smallest mapping that is read as a definition. -/
def given (b : Bare) : Assoc Value :=
  [("type", .text b.made.typeName), ("name", .text b.made.name)] ++ b.required

/-- The definition that they are read as. A namespace does not live in itself then, and a Service
finds no pods. -/
def read : Bare → Definition
  | service name => .service ((Service.named name).withSelector [])
  | ofNamespace name => .ofNamespace { info := { name } }
  | b => b.made

theorem typeName_read (b : Bare) : b.read.typeName = b.made.typeName := by
  cases b <;> rfl

/-- There is a constructor for each type. -/
theorem mem_types_iff {typeName : String} :
    typeName ∈ types ↔ ∃ b : Bare, b.made.typeName = typeName := by
  constructor
  · intro h
    have htypes : types = [app "", group "", role .cluster "", binding .cluster "" ⟨"", ""⟩,
        configMap "", cronJob "" "", customResource "" "" "", ingress "", job "", ofNamespace "",
        networkPolicy "", role .namespaced "", binding .namespaced "" ⟨"", ""⟩, secret "",
        service "", serviceAccount "", statefulApp ""].map (·.made.typeName) := rfl
    rw [htypes] at h
    obtain ⟨b, -, hb⟩ := List.mem_map.mp h
    exact ⟨b, hb⟩
  · rintro ⟨b, rfl⟩
    cases b with
    | role scope | binding scope => cases scope <;> exact List.mem_of_elem_eq_true rfl
    | _ => exact List.mem_of_elem_eq_true rfl

theorem decode_given (b : Bare) : decode types (.mapping b.given) = .ok b.read := by
  cases b with
  | role scope name => cases scope <;> rfl
  | binding scope name roleRef => cases scope <;> rfl
  | _ => rfl

/-- None of the entries can be left out. -/
theorem decode_erase_ne_ok (b : Bare) {key : String} (h : key ∈ b.given.keys) (d : Definition) :
    decode types (.mapping (b.given.erase key)) ≠ .ok d := by
  have hkeys : b.given.keys = ["type", "name"] ++ b.required.keys := rfl
  rw [hkeys] at h
  have hfails : (decode types (.mapping (b.given.erase key))).isOk = false := by
    cases b with
    | cronJob name schedule =>
      obtain rfl | rfl | rfl := by simpa [required, Assoc.keys] using h
      all_goals rfl
    | binding scope =>
      obtain rfl | rfl | rfl := by simpa [required, Assoc.keys] using h
      all_goals cases scope <;> rfl
    | customResource =>
      obtain rfl | rfl | rfl | rfl | rfl | rfl := by simpa [required, Assoc.keys] using h
      all_goals rfl
    | role scope =>
      obtain rfl | rfl := by simpa [required, Assoc.keys] using h
      all_goals cases scope <;> rfl
    | _ =>
      obtain rfl | rfl := by simpa [required, Assoc.keys] using h
      all_goals rfl
  intro hread
  rw [hread] at hfails
  exact Bool.noConfusion hfails

/-- A Service that is read and one that is constructed find different pods. -/
theorem records_service_ne (name : String) :
    ((Service.named name).withSelector []).records ≠ (Service.named name).records := by
  intro h
  have hselector := congrArg (List.map fun r : Record => (r.spec.at "selector").entries.length) h
  exact absurd hselector nofun

/-- Both definitions generate, and the same but for a Service. -/
theorem exists_records (b : Bare) (files : FileTree) :
    ∃ rs ss, b.read.records files = .ok rs ∧ b.made.records files = .ok ss ∧
      (rs = ss ↔ b.made.typeName ≠ "Service") := by
  cases b with
  | service name =>
    refine ⟨_, _, rfl, rfl, iff_of_false (records_service_ne name) ?_⟩
    exact fun hne => hne rfl
  | role scope | binding scope =>
    refine ⟨_, _, rfl, rfl, iff_of_true rfl ?_⟩
    cases scope <;> exact of_decide_eq_true rfl
  | _ => exact ⟨_, _, rfl, rfl, iff_of_true rfl (of_decide_eq_true rfl)⟩

end Bare

/-- Each type has a constructor, and the smallest mapping with what the constructor is given is read
as a definition of the type, in whatever order its entries are. It has the same records as the one
that is constructed, except for a Service: without a selector of its own, one that is read selects
nothing. -/
theorem records_of_bare (b : Bare) {entries : Assoc Value}
    (hsame : ∀ key, entries.get? key = b.given.get? key) :
    (∀ typeName, typeName ∈ types ↔ ∃ c : Bare, c.made.typeName = typeName) ∧
      (∀ key ∈ b.given.keys, ∀ d, decode types (.mapping (b.given.erase key)) ≠ .ok d) ∧
      ∃ d, decode types (.mapping entries) = .ok d ∧ d.typeName = b.made.typeName ∧
        (∀ name, b = .service name → d = .service ((Service.named name).withSelector [])) ∧
        ∀ files, ∃ rs ss, d.records files = .ok rs ∧ b.made.records files = .ok ss ∧
          (rs = ss ↔ b.made.typeName ≠ "Service") := by
  refine ⟨fun _ => Bare.mem_types_iff, fun _ => b.decode_erase_ne_ok, ?_⟩
  have hread : decode types (.mapping entries) = .ok b.read :=
    decode_congr (fun key => (hsame key).symm) b.decode_given
  refine ⟨b.read, hread, b.typeName_read, ?_, b.exists_records⟩
  rintro name rfl
  rfl

/-- A definition whose type stands last. -/
theorem records_of_bare_backup :
    let entries : Assoc Value := [("name", .text "backup"), ("schedule", .text "0 3 * * *"),
      ("type", .text "CronJob")]
    ∃ d rs, decode types (.mapping entries) = .ok d ∧ d.records .empty = .ok rs ∧
      (cronJob (.named "backup" "0 3 * * *")).records .empty = .ok rs := by
  intro entries
  have hsame : ∀ key, entries.get? key = (Bare.cronJob "backup" "0 3 * * *").given.get? key := by
    intro key
    by_cases hname : key = "name"
    · subst hname
      rfl
    · by_cases hschedule : key = "schedule"
      · subst hschedule
        rfl
      · simp only [entries, Bare.given, Bare.required, List.cons_append, List.nil_append,
          Assoc.get?_cons, if_neg hname, if_neg hschedule]
        rfl
  obtain ⟨-, -, d, hd, -, -, hrecords⟩ := records_of_bare _ hsame
  obtain ⟨rs, ss, hrs, hss, hiff⟩ := hrecords .empty
  obtain rfl := hiff.mpr (by decide)
  exact ⟨d, rs, hd, hrs, hss⟩

/-- A Service that is read selects nothing, and one that is constructed the pods of its
application. -/
theorem not_records_of_bare_api :
    let entries : Assoc Value := [("type", .text "Service"), ("name", .text "api")]
    ∃ d rs ss, decode types (.mapping entries) = .ok d ∧ d.records .empty = .ok rs ∧
      (service (.named "api")).records .empty = .ok ss ∧
      rs.map (fun r => r.spec.at "selector") = [.mapping []] ∧
      ss.map (fun r => r.spec.at "selector") = [.mapping [("app", .text "api")]] :=
  ⟨_, _, _, rfl, rfl, rfl, rfl, rfl⟩

end Definition

end Rollout
