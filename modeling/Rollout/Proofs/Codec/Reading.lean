import Rollout.Codec.Fields
import Rollout.Meta
import Rollout.Proofs.Codec.Basic

/-!
# What is read from the entries of a mapping

The converse of reading back: what a structure is read as tells of the entries that it is read
from. A property of the whole is found field by field. Each field is what its entry is read as, or
its default if there is no entry for it.
-/

namespace Rollout

namespace Codec

/-- Entries are read as texts if they are texts. -/
theorem decodeEntries_text_eq_ok_iff {src : Source} {entries : Assoc Value} {m : Assoc String} :
    decodeEntries text src entries = .ok m ↔ entries = m.mapValues .text := by
  constructor
  · intro h
    induction entries generalizing m with
    | nil =>
      obtain rfl := Except.ok.inj h
      rfl
    | cons e entries ih =>
      obtain ⟨b, rest, hb, hrest, rfl⟩ := mapM_cons_eq_ok_iff.mp h
      obtain ⟨s, hs, rfl⟩ := map_eq_ok_iff.mp hb
      obtain ⟨k, v⟩ := e
      cases v with
      | text t =>
        obtain rfl := Except.ok.inj hs
        rw [ih hrest]
        rfl
      | _ => exact absurd hs nofun
  · rintro rfl
    have hread := decodeEntries_mapValues (c := text) (m := m) (k := id)
      (fun e _ => returns_text e.2) src
    rwa [Assoc.mapValues_id] at hread

/-- A mapping is read as one of texts if it holds nothing else. -/
theorem decode_sortedText_eq_ok_iff {src : Source} {v : Value} {m : Assoc String} :
    (sorted text).decode src v = .ok m ↔ ∃ given : Assoc String,
      v = .textMap given ∧ m = Assoc.sorted given := by
  cases v with
  | mapping entries =>
    change (decodeEntries text src entries).map Assoc.sorted = .ok m ↔ _
    simp only [map_eq_ok_iff, decodeEntries_text_eq_ok_iff, Value.textMap, Value.mapping.injEq]
    exact exists_congr fun given => and_congr_right fun _ => eq_comm
  | _ => simp [sorted, Value.textMap]

end Codec

namespace Fields

variable {σ τ α β : Type}

/-- Whatever is read by the fields has a property that may depend on the entries. -/
def Yields (f : Fields σ α) (P : Assoc Value → α → Prop) : Prop :=
  ∀ src entries a, f.read src entries = .ok a → P entries a

theorem Yields.mono {f : Fields σ α} {P Q : Assoc Value → α → Prop} (hf : f.Yields P)
    (h : ∀ entries a, P entries a → Q entries a) : f.Yields Q :=
  fun src entries a ha => h entries a (hf src entries a ha)

theorem read_seq_eq_ok_iff {f : Fields σ (α → β)} {x : Fields σ α} {src : Source}
    {entries : Assoc Value} {b : β} : (f <*> x).read src entries = .ok b ↔
      ∃ g a, f.read src entries = .ok g ∧ x.read src entries = .ok a ∧ g a = b := by
  change (both f x).read src entries = .ok b ↔ _
  simp only [both]
  cases f.read src entries with
  | error e => cases x.read src entries <;> simp
  | ok g => cases x.read src entries <;> simp

theorem Yields.seq {f : Fields σ (α → β)} {x : Fields σ α} {F : Assoc Value → (α → β) → Prop}
    {X : Assoc Value → α → Prop} {P : Assoc Value → β → Prop} (hf : f.Yields F) (hx : x.Yields X)
    (h : ∀ entries g a, F entries g → X entries a → P entries (g a)) : (f <*> x).Yields P := by
  intro src entries b hb
  obtain ⟨g, a, hg, ha, rfl⟩ := read_seq_eq_ok_iff.mp hb
  exact h entries g a (hf src entries g hg) (hx src entries a ha)

/-- What does not depend on the last field is found among those before it. -/
theorem Yields.init {f : Fields σ (α → β)} {x : Fields σ α} {P : Assoc Value → β → Prop}
    (hf : f.Yields fun entries g => ∀ a, P entries (g a)) : (f <*> x).Yields P :=
  hf.seq (X := fun _ _ => True) (fun _ _ _ _ => trivial) fun _ _ a h _ => h a

theorem Yields.map {x : Fields σ α} {k : α → β} {P : Assoc Value → β → Prop}
    (hx : x.Yields fun entries a => P entries (k a)) : (k <$> x).Yields P := by
  have hpure : (pure k : Fields σ (α → β)).Yields fun _ g => g = k :=
    fun _ _ _ hg => (Except.ok.inj hg).symm
  exact hpure.seq hx fun entries g a hg ha => hg ▸ ha

theorem yields_part {get : σ → τ} {fields : Fields τ α} {P : Assoc Value → α → Prop}
    (h : fields.Yields P) : (part get fields).Yields P := by
  intro src entries a ha
  simp only [part] at ha
  cases hread : fields.read .gathered entries with
  | error e => simp [hread] at ha
  | ok b =>
    rw [hread] at ha
    obtain rfl := Except.ok.inj ha
    exact h .gathered entries b hread

/-- A field that is given is what its entry is read as, and any other is its default. -/
theorem read_fieldWith_eq_ok_iff {key : String} {get : σ → α} {c : Codec α}
    {absent last : Option α} {hidden : α → Bool} {src : Source} {entries : Assoc Value} {a : α} :
    (fieldWith key get c absent last hidden).read src entries = .ok a ↔
      match entries.get? key with
      | some v => c.decode src v = .ok a
      | .none => absent = some a := by
  simp only [fieldWith]
  cases hget : entries.get? key with
  | none => cases absent <;> cases entries.findIdx? (·.1 == key) <;> simp
  | some v =>
    obtain ⟨place, hplace⟩ := Assoc.exists_findIdx?_of_get? hget
    simp only [hplace]
    cases c.decode src v <;> simp

theorem yields_fieldWith {key : String} {get : σ → α} {c : Codec α} {absent last : Option α}
    {hidden : α → Bool} : (fieldWith key get c absent last hidden).Yields fun entries a =>
      match entries.get? key with
      | some v => ∃ src, c.decode src v = .ok a
      | .none => absent = some a := by
  intro src entries a ha
  have hread := read_fieldWith_eq_ok_iff.mp ha
  cases hget : entries.get? key with
  | none =>
    rw [hget] at hread
    exact hread
  | some v =>
    rw [hget] at hread
    exact ⟨src, hread⟩

/-- What is read of a field that may be left out, its entry gives. -/
theorem yields_optional {key : String} {get : σ → Option α} {c : Codec α} :
    (optional key get c).Yields fun entries a =>
      ∀ b, a = some b → ∃ v src, entries.get? key = some v ∧ c.decode src v = .ok b := by
  unfold optional elided
  refine yields_fieldWith.mono ?_
  rintro entries _ h b rfl
  cases hget : entries.get? key with
  | none =>
    rw [hget] at h
    exact absurd h nofun
  | some v =>
    rw [hget] at h
    obtain ⟨src, h⟩ := h
    cases v with
    | null => exact absurd h nofun
    | _ =>
      obtain ⟨_, h, ⟨⟩⟩ := map_eq_ok_iff.mp h
      exact ⟨_, src, rfl, h⟩

/-- A text that may be left out is read exactly where a text is given. -/
theorem yields_optionalText {key : String} {get : σ → Option String} :
    (optional key get .text).Yields fun entries a =>
      ∀ s, a = some s ↔ entries.get? key = some (.text s) := by
  unfold optional elided
  refine yields_fieldWith.mono ?_
  intro entries a h s
  cases hget : entries.get? key with
  | none =>
    rw [hget] at h
    simp [← Option.some.inj h]
  | some v =>
    rw [hget] at h
    obtain ⟨src, h⟩ := h
    cases v with
    | null => simp [← Except.ok.inj h]
    | text t => simp [← Except.ok.inj h]
    | _ => exact absurd h nofun

theorem yields_requiredText {key : String} {get : σ → String} :
    (required key get .text).Yields fun entries s => entries.get? key = some (.text s) := by
  unfold required
  refine yields_fieldWith.mono ?_
  intro entries s h
  cases hget : entries.get? key with
  | none =>
    rw [hget] at h
    exact absurd h nofun
  | some v =>
    rw [hget] at h
    obtain ⟨src, h⟩ := h
    cases v with
    | text t => rw [Except.ok.inj h]
    | _ => exact absurd h nofun

section Kinds

variable {key : String} {src : Source} {entries : Assoc Value}

/-- A text with a default is what is given, which has to be a text. -/
theorem read_defaultedText_eq_ok_iff {get : σ → String} {default s : String} :
    (defaulted key get .text default).read src entries = .ok s ↔
      (entries.get? key = .none ∧ s = default) ∨ entries.get? key = some (.text s) := by
  rw [defaulted, read_fieldWith_eq_ok_iff]
  cases entries.get? key with
  | none => simp [eq_comm]
  | some v => cases v <;> simp [Codec.text]

/-- A mapping of texts is empty or what is given, which has to be such a mapping. -/
theorem read_sortedText_eq_ok_iff {get : σ → Assoc String} {m : Assoc String} :
    (sortedMap key get .text).read src entries = .ok m ↔
      (entries.get? key = .none ∧ m = []) ∨
        ∃ given : Assoc String, entries.get? key = some (.textMap given) ∧
          m = Assoc.sorted given := by
  rw [sortedMap, elided, read_fieldWith_eq_ok_iff]
  cases entries.get? key with
  | none => simp [eq_comm]
  | some v => simp [Codec.decode_sortedText_eq_ok_iff]

/-- A flag is not set or what is given, which has to be a truth value. -/
theorem read_flag_eq_ok_iff {get : σ → Bool} {b : Bool} :
    (flag key get).read src entries = .ok b ↔
      (entries.get? key = .none ∧ b = false) ∨ entries.get? key = some (.bool b) := by
  rw [flag, elided, read_fieldWith_eq_ok_iff]
  cases entries.get? key with
  | none => simp [eq_comm]
  | some v => cases v <;> simp [Codec.bool]

theorem decode_eq_ok_iff {α : Type} {f : Fields σ α} {a : α} :
    f.decode src entries = .ok a ↔ f.read src entries = .ok a := mapError_eq_ok_iff

end Kinds

/-! ### The order of entries -/

/-- What the fields read depends on the entries only by what is found under each key. -/
def LooksUp (f : Fields σ α) : Prop :=
  ∀ ⦃src : Source⦄ ⦃entries others : Assoc Value⦄ ⦃a : α⦄,
    (∀ key, entries.get? key = others.get? key) →
      f.read src entries = .ok a → f.read src others = .ok a

theorem looksUp_pure (a : α) : (pure a : Fields σ α).LooksUp := fun _ _ _ _ _ h => h

theorem LooksUp.seq {f : Fields σ (α → β)} {x : Fields σ α} (hf : f.LooksUp) (hx : x.LooksUp) :
    (f <*> x).LooksUp := by
  intro src entries others b hsame hb
  obtain ⟨g, a, hg, ha, rfl⟩ := read_seq_eq_ok_iff.mp hb
  exact read_seq_eq_ok_iff.mpr ⟨g, a, hf hsame hg, hx hsame ha, rfl⟩

theorem LooksUp.map (k : α → β) {x : Fields σ α} (hx : x.LooksUp) : (k <$> x).LooksUp :=
  (looksUp_pure k).seq hx

theorem looksUp_part {get : σ → τ} {fields : Fields τ α} (h : fields.LooksUp) :
    (part get fields).LooksUp := by
  intro src entries others a hsame ha
  simp only [part] at ha ⊢
  cases hread : fields.read .gathered entries with
  | error e => simp [hread] at ha
  | ok b =>
    rw [hread] at ha
    obtain rfl := Except.ok.inj ha
    rw [h hsame hread]

theorem looksUp_fieldWith {key : String} {get : σ → α} {c : Codec α} {absent last : Option α}
    {hidden : α → Bool} : (fieldWith key get c absent last hidden).LooksUp := by
  intro src entries others a hsame ha
  rw [read_fieldWith_eq_ok_iff] at ha ⊢
  rw [← hsame key]
  exact ha

theorem looksUp_elided {key : String} {get : σ → α} {c : Codec α} {default : α}
    {hidden : α → Bool} : (elided key get c default hidden).LooksUp := looksUp_fieldWith

end Fields

/-- Metadata are read field by field. -/
theorem Meta.read_fields_eq_ok_iff {src : Source} {entries : Assoc Value} {info : Meta} :
    fields.read src entries = .ok info ↔
      (Fields.required "name" Meta.name .text).read src entries = .ok info.name ∧
      (Fields.defaulted "namespace" Meta.ns .text defaultNamespace).read src entries = .ok info.ns ∧
      (Fields.sortedMap "labels" Meta.labels .text).read src entries = .ok info.labels ∧
      (Fields.sortedMap "annotations" Meta.annotations .text).read src entries =
        .ok info.annotations := by
  constructor
  · intro h
    obtain ⟨_, notes, hrest, hnotes, rfl⟩ := Fields.read_seq_eq_ok_iff.mp h
    obtain ⟨_, labels, hfirst, hlabels, rfl⟩ := Fields.read_seq_eq_ok_iff.mp hrest
    obtain ⟨_, ns, hnamed, hns, rfl⟩ := Fields.read_seq_eq_ok_iff.mp hfirst
    obtain ⟨_, name, hmk, hname, rfl⟩ := Fields.read_seq_eq_ok_iff.mp hnamed
    obtain rfl := Except.ok.inj hmk
    exact ⟨hname, hns, hlabels, hnotes⟩
  · rintro ⟨hname, hns, hlabels, hnotes⟩
    refine Fields.read_seq_eq_ok_iff.mpr ⟨Meta.mk info.name info.ns info.labels, _, ?_, hnotes, rfl⟩
    refine Fields.read_seq_eq_ok_iff.mpr ⟨Meta.mk info.name info.ns, _, ?_, hlabels, rfl⟩
    refine Fields.read_seq_eq_ok_iff.mpr ⟨Meta.mk info.name, _, ?_, hns, rfl⟩
    exact Fields.read_seq_eq_ok_iff.mpr ⟨Meta.mk, _, rfl, hname, rfl⟩

/-- Metadata are read with the name that is given. -/
theorem Meta.yields_name :
    Fields.Yields fields fun entries info => entries.get? "name" = some (.text info.name) := by
  refine .init <| .init <| .init <| .map ?_
  exact Fields.yields_requiredText.mono fun entries name h ns labels notes => h

/-- Metadata are read with the namespace that is given. -/
theorem Meta.yields_fields : Fields.Yields fields fun entries info =>
    ∀ ns, entries.get? "namespace" = some (.text ns) → info.ns = ns := by
  have hname : (Meta.mk <$> Fields.required "name" Meta.name .text).Yields fun _ g =>
      ∀ ns labels notes, (g ns labels notes).ns = ns := .map fun _ _ _ _ _ _ _ => rfl
  refine .init (.init (hname.seq Fields.yields_fieldWith fun entries g a hg ha => ?_))
  intro labels notes ns hns
  rw [hns] at ha
  obtain ⟨src, hread⟩ := ha
  rw [hg]
  exact (Except.ok.inj hread).symm

namespace Codec

variable {σ : Type} {name : String} {fields : Fields σ σ}

/-- Only a mapping is read as a structure with parts, by its fields. -/
theorem decode_mapping_eq_ok_iff {src : Source} {v : Value} {s : σ} :
    (mapping name fields).decode src v = .ok s ↔
      ∃ entries, v = .mapping entries ∧ fields.read src entries = .ok s := by
  cases v with
  | mapping entries =>
    change (fields.read src entries).mapError FieldFault.error = .ok s ↔ _
    rw [mapError_eq_ok_iff]
    constructor
    · exact fun h => ⟨entries, rfl, h⟩
    · rintro ⟨_, ⟨⟩, h⟩
      exact h
  | _ =>
    constructor
    · exact fun h => absurd h nofun
    · rintro ⟨_, h, -⟩
      exact absurd h nofun

/-- A structure with parts is read from the same entries in any order. -/
theorem decode_mapping_congr (hfields : fields.LooksUp) {entries others : Assoc Value}
    (hsame : ∀ key, entries.get? key = others.get? key) {src : Source} {s : σ}
    (h : (mapping name fields).decode src (.mapping entries) = .ok s) :
    (mapping name fields).decode src (.mapping others) = .ok s := by
  obtain ⟨_, ⟨⟩, hread⟩ := decode_mapping_eq_ok_iff.mp h
  exact decode_mapping_eq_ok_iff.mpr ⟨others, rfl, hfields hsame hread⟩

end Codec

end Rollout
