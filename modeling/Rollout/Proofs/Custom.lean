import Rollout.Proofs.Definition.RoundTrip

/-!
# Custom kinds are read back

A custom kind that has been set up is read back from what is written for it, but for the
defaults of its fields: a default that is null is written like any other one and read as
none. Its schema has an entry for every default, the null ones included, so that the records
are those of before exactly if no field has a null default.
-/

namespace Rollout

open Codec Fields

theorem PropertyType.returns (t : PropertyType) : PropertyType.codec.Returns t := by
  cases t <;> exact returns_choice rfl

namespace SchemaProperty

/-- The field with none in the place of a null default. -/
def withoutNullDefault (p : SchemaProperty) : SchemaProperty :=
  { p with default := p.default.filter fun v => !v.isNull }

theorem withoutNullDefault_eq_self {p : SchemaProperty} (h : p.default ≠ some .null) :
    p.withoutNullDefault = p := by
  rw [withoutNullDefault, filter_notNull_eq_self_iff.mpr h]

/-- All of a field is read back but a null default. -/
theorem readsAs (p : SchemaProperty) : codec.ReadsAs p p.withoutNullDefault :=
  readsAs_struct (by decide)
    (.seq (readsBack_optional nofun fun t _ => t.returns) <|
      .seq (readsBack_optional nofun fun x _ => returns_double x) <|
      .seq (readsBack_optional nofun fun x _ => returns_double x) <|
      .seq (readsBack_items fun v _ => returns_any v) <|
      .seq readsBack_optionalAny <|
      .seq (readsBack_defaulted (returns_bool _)) <|
      .seq readsBack_optionalText <|
      .map _ (readsBack_required p.propertyType.returns))

theorem get?_part {α : Type} (key other : String) (value : Option α) (f : α → Value) :
    Assoc.get? (part key value f) other = if other = key then value.map f else .none := by
  cases value with
  | none => exact (ite_self _).symm
  | some a => exact Assoc.get?_cons key (f a) [] other

/-- The schema of a field gives the default of the field, also if it is null. -/
theorem field?_toSchema_default (p : SchemaProperty) :
    p.toSchema.field? "default" = p.default := by
  have hallowed : Assoc.get? (if p.allowed.isEmpty then [] else [("enum", Value.list p.allowed)])
      "default" = .none := by
    split
    · rfl
    · rfl
  have hpreserve : Assoc.get? (if p.propertyType = .object then
      [("x-kubernetes-preserve-unknown-fields", Value.bool true)] else []) "default" = .none := by
    split
    · rfl
    · rfl
  have hother (key : String) (h : key ≠ "default") {α : Type} (value : Option α) (f : α → Value) :
      Assoc.get? (part key value f) "default" = .none := by
    rw [get?_part, if_neg h.symm]
  have htype : Assoc.get? [("type", Value.text p.propertyType.name)] "default" = .none := rfl
  have hdefault : Assoc.get? (part "default" p.default id) "default" = p.default := by
    rw [get?_part, if_pos rfl, Option.map_id]
    rfl
  simp only [toSchema, Value.field?, Value.entries?, Option.bind_some, Assoc.get?_append, htype,
    hother "description" (by decide), hdefault, hallowed, hother "minimum" (by decide),
    hother "maximum" (by decide), hother "items" (by decide), hpreserve, Option.none_or,
    Option.or_none]

/-- The schema of a field tells a null default from none. -/
theorem toSchema_withoutNullDefault_iff (p : SchemaProperty) :
    p.withoutNullDefault.toSchema = p.toSchema ↔ p.default ≠ some .null := by
  constructor
  · intro hschema hnull
    have hdefault := congrArg (Value.field? · "default") hschema
    simp only [field?_toSchema_default, withoutNullDefault, hnull] at hdefault
    exact absurd hdefault nofun
  · intro h
    rw [withoutNullDefault_eq_self h]

end SchemaProperty

theorem CustomScope.returns (s : CustomScope) : CustomScope.codec.Returns s := by
  cases s <;> exact returns_choice rfl

theorem Controller.returns {c : Controller} (h : c.replicas < UInt32.size) :
    Controller.codec.Returns c :=
  returns_struct (by decide)
    (.seq (readsBack_items fun p _ => returns_pair (returns_text p.1) (returns_text p.2)) <|
      .seq (readsBack_defaulted (returns_nat32 h)) <|
      .map _ readsBack_requiredText)
    rfl

theorem Instance.returns (i : Instance) : Instance.codec.Returns i :=
  returns_struct (by decide)
    (.seq (readsBack_required (returns_any _)) <|
      .seq readsBack_optionalText <|
      .map _ readsBack_requiredText)
    rfl

namespace CustomResource

/-- The settings of a custom kind. An object may name the namespace that it lives in. -/
inductive IsSetting : (CustomResource → CustomResource) → Prop where
  | info {f : Meta → Meta} (hf : Meta.IsSetting f) : IsSetting (·.mapInfo f)
  | plural (plural : String) : IsSetting fun c => { c with plural }
  | scope (scope : CustomScope) : IsSetting fun c => { c with scope }
  | shortName (name : String) : IsSetting fun c => { c with shortNames := c.shortNames ++ [name] }
  | property (name : String) (p : SchemaProperty) : IsSetting (·.withProperty name p)
  | status : IsSetting fun c => { c with statusSubresource := true }
  | controller {x : Controller} (h : x.replicas < UInt32.size) :
    IsSetting fun c => { c with controller := some x }
  | object (i : Instance) : IsSetting fun c => { c with instances := c.instances ++ [i] }

/-- A custom kind that has been set up. -/
def Built : CustomResource → Prop :=
  Reached (fun c => ∃ group version kind, c = ofKind group version kind) IsSetting

/-- The metadata are sorted, and the replicas of the controller are a number of their type. -/
structure Fits (c : CustomResource) : Prop where
  info : c.info.Fits
  controller : ∀ x ∈ c.controller, x.replicas < UInt32.size

variable {c : CustomResource}

theorem Built.fits (h : c.Built) : c.Fits := by
  refine h.holds ?_ fun f c hf hc => ?_
  · rintro _ ⟨group, version, kind, rfl⟩
    exact ⟨Meta.fits_of_empty kind.toLower defaultNamespace, nofun⟩
  · cases hf with
    | info hf => exact { hc with info := hf.fits hc.info }
    | controller hx => exact { hc with controller := forall_mem_some hx }
    -- no other setting changes the metadata or the controller
    | _ => exact { hc with }

/-- The custom kind without the null defaults of its fields. -/
def withoutNullDefaults (c : CustomResource) : CustomResource :=
  { c with properties := c.properties.mapValues SchemaProperty.withoutNullDefault }

/-- All of a custom kind is read back but the null defaults of its fields. -/
theorem readsBehind (h : c.Fits) : codec.ReadsBehind "type" c c.withoutNullDefaults := by
  have hcontroller : ∀ x ∈ c.controller, Controller.codec.Returns x :=
    fun x hx => Controller.returns (h.controller x hx)
  have hproperties : ∀ e ∈ c.properties, SchemaProperty.codec.ReadsAs e.2 e.2.withoutNullDefault :=
    fun e _ => e.2.readsAs
  exact readsBehind_mapping (by decide)
    (.seq (readsBack_items fun i _ => i.returns) <|
      .seq (readsBack_optional nofun hcontroller) <|
      .seq (readsBack_defaulted (returns_bool _)) <|
      .seq (readsBack_orderedMapAs hproperties) <|
      .seq readsBack_itemsText <|
      .seq (readsBack_defaulted c.scope.returns) <|
      .seq readsBack_requiredText <|
      .seq readsBack_requiredText <|
      .seq readsBack_requiredText <|
      .seq readsBack_requiredText <|
      .map _ (readsBack_part (Meta.readsBack_fields h.info)))

theorem withoutNullDefaults_eq_self (h : ∀ e ∈ c.properties, e.2.default ≠ some .null) :
    c.withoutNullDefaults = c := by
  have hproperties : c.properties.mapValues SchemaProperty.withoutNullDefault =
      c.properties.mapValues id :=
    Assoc.mapValues_eq_iff.mpr fun e he => SchemaProperty.withoutNullDefault_eq_self (h e he)
  rw [withoutNullDefaults, hproperties, Assoc.mapValues_id]

/-- The schemas of the fields of its objects, from the record that defines a kind. -/
def fieldSchemas? (r : Record) : Option Value := do
  let versions ← r.toValue.at? ["spec", "versions"]
  let version ← versions.items.head?
  version.at? ["schema", "openAPIV3Schema", "properties", "spec", "properties"]

theorem fieldSchemas?_definitionRecord (c : CustomResource) : fieldSchemas? c.definitionRecord =
    some (.mapping (c.properties.mapValues SchemaProperty.toSchema)) := rfl

/-- The records change exactly if a field has a null default. -/
theorem records_withoutNullDefaults_iff (c : CustomResource) :
    c.withoutNullDefaults.records = c.records ↔ ∀ e ∈ c.properties, e.2.default ≠ some .null := by
  constructor
  · intro hrecords
    have hschemas := congrArg fieldSchemas? (List.cons.inj hrecords).1
    rw [fieldSchemas?_definitionRecord, fieldSchemas?_definitionRecord, withoutNullDefaults,
      Assoc.mapValues_mapValues] at hschemas
    have heach := Assoc.mapValues_eq_iff.mp (Value.mapping.inj (Option.some.inj hschemas))
    exact fun e he => e.2.toSchema_withoutNullDefault_iff.mp (heach e he)
  · intro h
    rw [withoutNullDefaults_eq_self h]

/-- A kind of objects with a level, with its controller and one object. -/
def tickets : CustomResource :=
  { ofKind "desk.example" "v1" "Ticket" with
    properties := [("level", level)], controller := some desk, instances := [first] }
where
  level : SchemaProperty :=
    { propertyType := .integer, default := some (.int 2), allowed := [.int 1, .int 2, .null] }
  desk : Controller := { image := "desk:1.4", manages := [("apps", "deployments")] }
  first : Instance := { name := "first", spec := .mapping [("level", .int 1)] }

theorem built_tickets : tickets.Built := by
  have hnew : (ofKind "desk.example" "v1" "Ticket").Built := .new ⟨_, _, _, rfl⟩
  have hlevel := Reached.set (.property "level" tickets.level) hnew
  have hdesk := Reached.set (.controller (by decide : tickets.desk.replicas < UInt32.size)) hlevel
  exact .set (.object tickets.first) hdesk

/-- A kind of objects with a note, which is null by default. -/
def drafts : CustomResource :=
  (ofKind "desk.example" "v1" "Draft").withProperty "note" note
where
  note : SchemaProperty := { propertyType := .string, default := some .null }

theorem built_drafts : drafts.Built := by
  have hnew : (ofKind "desk.example" "v1" "Draft").Built := .new ⟨_, _, _, rfl⟩
  exact Reached.set (.property "note" drafts.note) hnew

end CustomResource

namespace Definition

open CustomResource

variable {c : CustomResource}

theorem decode_customResource (h : c.Fits) :
    decode types (customResource c).encode = .ok (customResource c.withoutNullDefaults) :=
  decode_tag rfl (fun _ => rfl) (CustomResource.readsBehind h)

theorem forall_records_customResource_iff {d : CustomResource} :
    (∀ files, (customResource c).records files = (customResource d).records files) ↔
      c.records = d.records := by
  constructor
  · exact fun h => Except.ok.inj (h .empty)
  · exact fun h files => congrArg Except.ok h

/-- A custom kind that has been set up is always read back, and what is read generates the
records that the kind generates exactly if no field of its objects has a null default. -/
theorem decode_encode_customResource (h : c.Built) :
    decode types (customResource c).encode = .ok (customResource c.withoutNullDefaults) ∧
      ((∀ files, (customResource c.withoutNullDefaults).records files =
          (customResource c).records files) ↔
        ∀ e ∈ c.properties, e.2.default ≠ some .null) := by
  refine ⟨decode_customResource h.fits, ?_⟩
  rw [forall_records_customResource_iff]
  exact c.records_withoutNullDefaults_iff

theorem decode_encode_tickets : tickets.Built ∧
    decode types (customResource tickets).encode =
      .ok (customResource tickets.withoutNullDefaults) ∧
    ∀ files, (customResource tickets.withoutNullDefaults).records files =
      (customResource tickets).records files := by
  obtain ⟨hread, hrecords⟩ := decode_encode_customResource built_tickets
  refine ⟨built_tickets, hread, hrecords.mpr ?_⟩
  exact List.forall_mem_singleton.mpr nofun

/-- A null default is written, and the records have it, but what is read does not. -/
theorem drafts_lose_default : drafts.Built ∧
    ¬ ∃ d, decode types (customResource drafts).encode = .ok d ∧
      ∀ files, d.records files = (customResource drafts).records files := by
  refine ⟨built_drafts, ?_⟩
  rintro ⟨d, hread, hrecords⟩
  rw [decode_customResource built_drafts.fits] at hread
  obtain rfl := Except.ok.inj hread
  have hnone := drafts.records_withoutNullDefaults_iff.mp
    (forall_records_customResource_iff.mp hrecords)
  exact hnone _ List.mem_cons_self rfl

end Definition

end Rollout
