import Rollout.Proofs.Definition.Minimal

/-!
# Metadata of groups

A definition of any type but a group is refused if one of its metadata has another type than it
should. A group looks its metadata up one by one and passes over what has another type: it is read
as if that were not there. So a group is read as the others are, metadata and refusals alike, only
if they would read its metadata, or if it has no name, which a group is refused for too.
-/

namespace Rollout.Definition

/-- What is heeded of an entry of a group: what has the type that it should. -/
def heed (key : String) (v : Value) : Option Value :=
  match key with
  | "namespace" => v.text?.map .text
  | "createNamespace" => v.bool?.map .bool
  | "labels" | "annotations" => v.entries?.map fun entries => .textMap (Assoc.texts entries)
  | _ => some v

/-- The entries of a group without what is passed over. -/
def heeded (fields : Assoc Value) : Assoc Value :=
  fields.filterMap fun e => ((fields.get? e.1).bind (heed e.1)).map (e.1, ·)

/-- The entries are read as metadata, and as whether a group makes its namespace, in the way in
which such fields of other definitions are. -/
structure Reads (fields : Assoc Value) (info : Meta) (create : Bool) : Prop where
  info : Meta.fields.decode .direct fields = .ok info
  create : (Fields.flag "createNamespace" id).decode .direct fields = .ok create

/-- A group with some members is read as other definitions are: it is, with its metadata, just if
these can be read. -/
def IsReadAsOthers (known : List String) (fields : Assoc Value) (members : List Definition) :
    Prop :=
  ∀ d, decode known (.mapping fields) = .ok d ↔
    ∃ info create, Reads fields info create ∧ d = group info members create

variable {known : List String} {fields : Assoc Value} {info : Meta} {create : Bool}

theorem get?_heeded (fields : Assoc Value) (key : String) :
    (heeded fields).get? key = (fields.get? key).bind (heed key) := by
  rw [heeded, Assoc.get?_filterMap_key fun k => (fields.get? k).bind (heed k)]
  split
  next => rfl
  next hkey => rw [Assoc.get?_eq_none_iff.mpr hkey, Option.bind_none]

/-- The name is heeded, whatever it is. -/
theorem get?_heeded_name : (heeded fields).get? "name" = fields.get? "name" := by
  rw [get?_heeded]
  cases fields.get? "name" <;> rfl

/-- What a group looks up is what is read when nothing else is there. -/
theorem reads_heeded {name : String} (hname : fields.get? "name" = some (.text name)) :
    Reads (heeded fields) (groupInfo fields name)
      (((fields.get? "createNamespace").bind Value.bool?).getD false) := by
  have htexts (key : String) (hkey : key = "labels" ∨ key = "annotations") :
      ((heeded fields).get? key = none ∧ textEntries fields key = []) ∨
        ∃ given : Assoc String, (heeded fields).get? key = some (.textMap given) ∧
          textEntries fields key = Assoc.sorted given := by
    have hheed (v : Value) :
        heed key v = v.entries?.map fun entries => .textMap (Assoc.texts entries) := by
      obtain rfl | rfl := hkey <;> rfl
    rw [get?_heeded, textEntries]
    cases fields.get? key with
    | none => exact .inl ⟨rfl, rfl⟩
    | some v =>
      rw [Option.bind_some, hheed]
      cases v with
      | mapping entries => exact .inr ⟨Assoc.texts entries, rfl, rfl⟩
      | _ => exact .inl ⟨rfl, rfl⟩
  constructor
  · refine Fields.decode_eq_ok_iff.mpr (Meta.read_fields_eq_ok_iff.mpr ⟨?_, ?_, ?_, ?_⟩)
    · rw [Fields.required, Fields.read_fieldWith_eq_ok_iff, get?_heeded, hname]
      rfl
    · rw [Fields.read_defaultedText_eq_ok_iff, get?_heeded, groupInfo]
      cases fields.get? "namespace" with
      | none => exact .inl ⟨rfl, rfl⟩
      | some v => cases v <;> first | exact .inr rfl | exact .inl ⟨rfl, rfl⟩
    · exact Fields.read_sortedText_eq_ok_iff.mpr (htexts "labels" (.inl rfl))
    · exact Fields.read_sortedText_eq_ok_iff.mpr (htexts "annotations" (.inr rfl))
  · rw [Fields.decode_eq_ok_iff, Fields.read_flag_eq_ok_iff, get?_heeded]
    cases fields.get? "createNamespace" with
    | none => exact .inl ⟨rfl, rfl⟩
    | some v => cases v <;> first | exact .inr rfl | exact .inl ⟨rfl, rfl⟩

/-- Where everything can be read, everything is heeded. -/
theorem Reads.get?_heeded (h : Reads fields info create) (key : String) :
    (heeded fields).get? key = fields.get? key := by
  have hread := Meta.read_fields_eq_ok_iff.mp (Fields.decode_eq_ok_iff.mp h.info)
  obtain ⟨-, hns, hlabels, hnotes⟩ := hread
  have hcreate := Fields.decode_eq_ok_iff.mp h.create
  rw [Fields.read_defaultedText_eq_ok_iff] at hns
  rw [Fields.read_sortedText_eq_ok_iff] at hlabels hnotes
  rw [Fields.read_flag_eq_ok_iff] at hcreate
  have hmap (given : Assoc String) :
      some (Value.textMap (Assoc.texts (given.mapValues .text))) = some (.textMap given) := by
    rw [Assoc.texts_mapValues]
  rw [Definition.get?_heeded]
  cases hv : fields.get? key with
  | none => rfl
  | some v =>
    rw [Option.bind_some]
    unfold heed
    split
    · rw [hv] at hns
      obtain ⟨⟨⟩, -⟩ | ⟨⟨⟩⟩ := hns
      rfl
    · rw [hv] at hcreate
      obtain ⟨⟨⟩, -⟩ | ⟨⟨⟩⟩ := hcreate
      rfl
    · rw [hv] at hlabels
      obtain ⟨⟨⟩, -⟩ | ⟨given, ⟨⟩, -⟩ := hlabels
      exact hmap given
    · rw [hv] at hnotes
      obtain ⟨⟨⟩, -⟩ | ⟨given, ⟨⟩, -⟩ := hnotes
      exact hmap given
    · rfl

theorem Reads.congr {others : Assoc Value} (hsame : ∀ key, fields.get? key = others.get? key)
    (h : Reads fields info create) : Reads others info create where
  info := Fields.decode_eq_ok_iff.mpr
    (Meta.looksUp_fields hsame (Fields.decode_eq_ok_iff.mp h.info))
  create := Fields.decode_eq_ok_iff.mpr
    (Fields.looksUp_elided hsame (Fields.decode_eq_ok_iff.mp h.create))

theorem Reads.unique {info' : Meta} {create' : Bool} (h : Reads fields info create)
    (h' : Reads fields info' create') : info = info' ∧ create = create' :=
  ⟨Except.ok.inj (h.info.symm.trans h'.info), Except.ok.inj (h.create.symm.trans h'.create)⟩

theorem Reads.get?_name (h : Reads fields info create) :
    fields.get? "name" = some (.text info.name) :=
  Meta.yields_name .direct fields info (Fields.decode_eq_ok_iff.mp h.info)

section Group

variable {members : List Definition} {d : Definition}
  (htype : fields.get? "type" = some (.text "AppGroup")) (hknown : "AppGroup" ∈ known)
  (hmembers : decodeMembers known fields = .ok members)

include htype hknown hmembers

/-- A group whose members can be read is read if it has a name. -/
theorem decode_group : decode known (.mapping fields) =
    match (fields.get? "name").bind Value.text? with
    | none => .error .namelessGroup
    | some name => .ok (group (groupInfo fields name) members
        (((fields.get? "createNamespace").bind Value.bool?).getD false)) := by
  have hfield (key : String) : (Value.mapping fields).field? key = fields.get? key := rfl
  have hof : typeOf known (.mapping fields) = .ok "AppGroup" := by
    rw [typeOf, hfield, htype]
    exact if_pos (List.contains_iff_mem.mpr hknown)
  have hnone : decodeFields "AppGroup" (.mapping fields) = none := rfl
  cases hname : (fields.get? "name").bind Value.text? with
  | none => simp only [decode, hof, bind, Except.bind, hnone, hfield, hname]
  | some name => simp only [decode, hof, bind, Except.bind, hnone, hfield, hname, hmembers]

/-- A group is read as if what is passed over were not there. -/
theorem decode_group_eq_ok_iff : decode known (.mapping fields) = .ok d ↔
    ∃ info create, Reads (heeded fields) info create ∧ d = group info members create := by
  rw [decode_group htype hknown hmembers]
  constructor
  · intro h
    cases hname : fields.get? "name" with
    | none => simp [hname] at h
    | some v =>
      cases v with
      | text name =>
        rw [hname] at h
        exact ⟨_, _, reads_heeded hname, (Except.ok.inj h).symm⟩
      | _ => simp [hname, Value.text?] at h
  · rintro ⟨info, create, h, rfl⟩
    have hname : fields.get? "name" = some (.text info.name) := get?_heeded_name ▸ h.get?_name
    obtain ⟨hinfo, hcreate⟩ := h.unique (reads_heeded hname)
    rw [hname, hcreate]
    exact congrArg (fun info => Except.ok (group info members _)) hinfo.symm

theorem decode_group_eq_error_iff : decode known (.mapping fields) = .error .namelessGroup ↔
    ∀ name, fields.get? "name" ≠ some (.text name) := by
  rw [decode_group htype hknown hmembers]
  cases fields.get? "name" with
  | none => simp
  | some v => cases v <;> simp [Value.text?]

/-- A group is read as if what is passed over were not there, and refused only for having no name.
It is read as other definitions are just if everything about it can be read or it has no name. -/
theorem isReadAsOthers_iff :
    (∀ d, decode known (.mapping fields) = .ok d ↔
      ∃ info create, Reads (heeded fields) info create ∧ d = group info members create) ∧
    (decode known (.mapping fields) = .error .namelessGroup ↔
      ∀ name, fields.get? "name" ≠ some (.text name)) ∧
    (IsReadAsOthers known fields members ↔
      (∃ info create, Reads fields info create) ∨
        ∀ name, fields.get? "name" ≠ some (.text name)) := by
  have hok (d : Definition) := decode_group_eq_ok_iff (d := d) htype hknown hmembers
  refine ⟨hok, decode_group_eq_error_iff htype hknown hmembers, ?_, ?_⟩
  · intro h
    refine or_iff_not_imp_right.mpr fun hname => ?_
    obtain ⟨name, hname⟩ := not_forall_not.mp hname
    obtain ⟨info, create, hread, -⟩ := (h _).mp ((hok _).mpr ⟨_, _, reads_heeded hname, rfl⟩)
    exact ⟨info, create, hread⟩
  · rintro (⟨info, create, hread⟩ | hnameless) d
    · have hsame := hread.get?_heeded
      rw [hok]
      constructor
      · rintro ⟨info, create, h, rfl⟩
        exact ⟨info, create, h.congr hsame, rfl⟩
      · rintro ⟨info, create, h, rfl⟩
        exact ⟨info, create, h.congr fun key => (hsame key).symm, rfl⟩
    · rw [hok]
      refine iff_of_false ?_ ?_
      · rintro ⟨info, create, h, -⟩
        exact hnameless _ (get?_heeded_name ▸ h.get?_name)
      · rintro ⟨info, create, h, -⟩
        exact hnameless _ h.get?_name

end Group

/-- A group about which everything can be read. -/
theorem isReadAsOthers_labelled :
    let fields : Assoc Value := [("type", .text "AppGroup"), ("name", .text "shop"),
      ("labels", .textMap [("team", "web")]), ("createNamespace", .bool true)]
    let info : Meta := { name := "shop", labels := [("team", "web")] }
    fields.get? "type" = some (.text "AppGroup") ∧ "AppGroup" ∈ types ∧
      decodeMembers types fields = .ok [] ∧ Reads fields info true ∧
      IsReadAsOthers types fields [] := by
  intro fields info
  have htype : fields.get? "type" = some (.text "AppGroup") := rfl
  have hknown : "AppGroup" ∈ types := by decide
  have hmembers : decodeMembers types fields = .ok [] := rfl
  have hread : Reads fields info true := ⟨rfl, rfl⟩
  obtain ⟨-, -, hothers⟩ := isReadAsOthers_iff htype hknown hmembers
  exact ⟨htype, hknown, hmembers, hread, hothers.mpr (.inl ⟨info, true, hread⟩)⟩

/-- A group whose namespace is a number is put into the default one. -/
theorem not_isReadAsOthers_shop :
    let fields : Assoc Value := [("type", .text "AppGroup"), ("name", .text "shop"),
      ("namespace", .int 5), ("members", .list [.mapping
        [("type", .text "App"), ("name", .text "web"), ("image", .text "web:1")]])]
    ∃ members, decodeMembers types fields = .ok members ∧
      decode types (.mapping fields) = .ok (group { name := "shop" } members false) ∧
      ¬ IsReadAsOthers types fields members := by
  intro fields
  have hmembers : ∃ members, decodeMembers types fields = .ok members := ⟨_, rfl⟩
  obtain ⟨members, hmembers⟩ := hmembers
  have hdecode : decode types (.mapping fields) = .ok (group { name := "shop" } members false) :=
    decode_group rfl (by decide) hmembers
  refine ⟨members, hmembers, hdecode, fun h => ?_⟩
  obtain ⟨info, create, hread, -⟩ := (h _).mp hdecode
  have hns := (Meta.read_fields_eq_ok_iff.mp (Fields.decode_eq_ok_iff.mp hread.info)).2.1
  obtain ⟨hnone, -⟩ | hsome := Fields.read_defaultedText_eq_ok_iff.mp hns
  · exact absurd hnone nofun
  · exact absurd hsome nofun

end Rollout.Definition
