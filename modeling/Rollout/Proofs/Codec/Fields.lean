import Rollout.Codec.Fields
import Rollout.Codec.Tagged
import Rollout.Proofs.Codec.Basic

/-!
# Structures that are read back

The fields of a structure find what was written for them among the entries of any mapping
that agrees with it on their keys. Fields with different keys do not disturb each other, so
that what holds of each of them holds of all of them together.
-/

namespace Rollout.Fields

variable {σ τ α β : Type} {s : σ}

/-- With keys that differ from each other, the fields write entries under these keys alone,
and read `a` wherever each of these keys has what they write for `s`. -/
def ReadsBack (f : Fields σ α) (keys : List String) (s : σ) (a : α) : Prop :=
  keys.Nodup → (∀ e ∈ f.write s, e.1 ∈ keys) ∧ ∀ src entries,
    (∀ key ∈ keys, Assoc.get? entries key = Assoc.get? (f.write s) key) →
      f.read src entries = .ok a

theorem get?_eq_none_of_notMem {m : Assoc Value} {keys : List String}
    (hm : ∀ e ∈ m, e.1 ∈ keys) {key : String} (h : key ∉ keys) : m.get? key = Option.none := by
  rw [Assoc.get?_eq_none_iff]
  intro hkey
  obtain ⟨e, he, rfl⟩ := List.mem_map.mp hkey
  exact h (hm e he)

theorem readsBack_pure (a : α) : (Pure.pure a : Fields σ α).ReadsBack [] s a :=
  fun _ => ⟨fun _ he => absurd he List.not_mem_nil, fun _ _ _ => rfl⟩

/-- The last field is read back beside those before it. -/
theorem ReadsBack.seq {f : Fields σ (α → β)} {x : Fields σ α} {keys others : List String}
    {g : α → β} {a : α} (hx : x.ReadsBack others s a) (hf : f.ReadsBack keys s g) :
    (f <*> x).ReadsBack (keys ++ others) s (g a) := by
  intro hnodup
  obtain ⟨hkeys, hothers, hdisjoint⟩ := List.nodup_append.mp hnodup
  obtain ⟨hfwrite, hfread⟩ := hf hkeys
  obtain ⟨hxwrite, hxread⟩ := hx hothers
  constructor
  · intro e he
    obtain he | he := List.mem_append.mp he
    · exact List.mem_append_left _ (hfwrite e he)
    · exact List.mem_append_right _ (hxwrite e he)
  · intro src entries h
    have hf' : f.read src entries = .ok g := by
      refine hfread src entries fun key hkey => ?_
      have hnone : Assoc.get? (x.write s) key = Option.none :=
        get?_eq_none_of_notMem hxwrite fun hmem => hdisjoint key hkey key hmem rfl
      rw [h key (List.mem_append_left _ hkey)]
      change Assoc.get? (f.write s ++ x.write s) key = _
      rw [Assoc.get?_append, hnone, Option.or_none]
    have hx' : x.read src entries = .ok a := by
      refine hxread src entries fun key hkey => ?_
      have hnone : Assoc.get? (f.write s) key = Option.none :=
        get?_eq_none_of_notMem hfwrite fun hmem => hdisjoint key hmem key hkey rfl
      rw [h key (List.mem_append_right _ hkey)]
      change Assoc.get? (f.write s ++ x.write s) key = _
      rw [Assoc.get?_append, hnone, Option.none_or]
    change (both f x).read src entries = _
    simp only [both, hf', hx']

theorem ReadsBack.congr {f : Fields σ α} {keys keys' : List String} {a a' : α}
    (h : f.ReadsBack keys s a) (hkeys : keys = keys') (ha : a = a') : f.ReadsBack keys' s a' :=
  hkeys ▸ ha ▸ h

theorem ReadsBack.map {x : Fields σ α} {keys : List String} {a : α} (g : α → β)
    (hx : x.ReadsBack keys s a) : (g <$> x).ReadsBack keys s (g a) :=
  hx.seq (readsBack_pure g)

/-- A field is read as its value is, or as what stands for no value where it is not
written. -/
theorem readsBack_fieldWith {key : String} {get : σ → α} {c : Codec α} {absent last : Option α}
    {hidden : α → Bool} {a : α} (hshown : hidden (get s) = false → c.ReadsAs (get s) a)
    (hhidden : hidden (get s) = true → absent = some a) :
    (fieldWith key get c absent last hidden).ReadsBack [key] s a := by
  intro _
  cases hcase : hidden (get s) with
  | true =>
    have hwrite : (fieldWith key get c absent last hidden).write s = [] := if_pos hcase
    rw [hwrite]
    refine ⟨fun _ he => absurd he List.not_mem_nil, fun src entries h => ?_⟩
    have hget : Assoc.get? entries key = Option.none := h key (List.mem_singleton_self key)
    simp only [fieldWith, hget, hhidden hcase]
    cases entries.findIdx? (·.1 == key) <;> rfl
  | false =>
    have hwrite : (fieldWith key get c absent last hidden).write s =
        [(key, c.encode (get s))] := if_neg (by simp [hcase])
    rw [hwrite]
    refine ⟨fun e he => ?_, fun src entries h => ?_⟩
    · rw [List.mem_singleton.mp he]
      exact List.mem_singleton_self key
    · have hget : Assoc.get? entries key = some (c.encode (get s)) := by
        rw [h key (List.mem_singleton_self key), Assoc.get?_cons, if_pos rfl]
      obtain ⟨place, hplace⟩ := Assoc.exists_findIdx?_of_get? hget
      simp only [fieldWith, hget, hplace, hshown hcase src]

section Field

variable {key : String} {c : Codec α}

/-- A field that is always written is read as its value is. -/
theorem readsBack_requiredAs {get : σ → α} {a : α} (h : c.ReadsAs (get s) a) :
    (required key get c).ReadsBack [key] s a :=
  readsBack_fieldWith (fun _ => h) nofun

theorem readsBack_required {get : σ → α} (h : c.Returns (get s)) :
    (required key get c).ReadsBack [key] s (get s) :=
  readsBack_requiredAs h

theorem readsBack_defaultedAs {get : σ → α} {default a : α} (h : c.ReadsAs (get s) a) :
    (defaulted key get c default).ReadsBack [key] s a :=
  readsBack_fieldWith (fun _ => h) nofun

theorem readsBack_defaulted {get : σ → α} {default : α} (h : c.Returns (get s)) :
    (defaulted key get c default).ReadsBack [key] s (get s) :=
  readsBack_defaultedAs h

theorem readsBack_elided {get : σ → α} {default a : α} {hidden : α → Bool}
    (h : c.ReadsAs (get s) a) (hhidden : hidden (get s) = true → a = default) :
    (elided key get c default hidden).ReadsBack [key] s a :=
  readsBack_fieldWith (fun _ => h) fun hcase => by rw [hhidden hcase]

theorem readsBack_optional {get : σ → Option α} (hnull : ∀ a, c.encode a ≠ .null)
    (h : ∀ a ∈ get s, c.Returns a) : (optional key get c).ReadsBack [key] s (get s) :=
  readsBack_elided (Codec.returns_option hnull h) Option.isNone_iff_eq_none.mp

theorem readsBack_items {get : σ → List α} (h : ∀ a ∈ get s, c.Returns a) :
    (items key get c).ReadsBack [key] s (get s) :=
  readsBack_elided (Codec.returns_list h) List.isEmpty_iff.mp

/-- The items of a list are read one by one. -/
theorem readsBack_itemsAs {get : σ → List α} {k : α → α}
    (h : ∀ a ∈ get s, c.ReadsAs a (k a)) :
    (items key get c).ReadsBack [key] s ((get s).map k) :=
  readsBack_elided (Codec.readsAs_list h) fun hempty => by
    rw [List.isEmpty_iff.mp hempty]
    rfl

theorem readsBack_sortedMap {get : σ → Assoc α} (hsorted : (get s).IsSorted)
    (h : ∀ e ∈ get s, c.Returns e.2) : (sortedMap key get c).ReadsBack [key] s (get s) :=
  readsBack_elided (Codec.returns_sorted hsorted h) List.isEmpty_iff.mp

theorem readsBack_orderedMap {get : σ → Assoc α} (h : ∀ e ∈ get s, c.Returns e.2) :
    (orderedMap key get c).ReadsBack [key] s (get s) :=
  readsBack_elided (Codec.returns_ordered h) List.isEmpty_iff.mp

/-- The values of an ordered mapping are read one by one. -/
theorem readsBack_orderedMapAs {get : σ → Assoc α} {k : α → α}
    (h : ∀ e ∈ get s, c.ReadsAs e.2 (k e.2)) :
    (orderedMap key get c).ReadsBack [key] s ((get s).mapValues k) :=
  readsBack_elided (Codec.readsAs_ordered h) fun hempty => by
    rw [List.isEmpty_iff.mp hempty]
    rfl

/-- An optional value is lost if it is null. -/
theorem readsBack_optionalAny {get : σ → Option Value} :
    (optional key get .any).ReadsBack [key] s ((get s).filter fun v => !v.isNull) :=
  readsBack_elided (Codec.readsAs_option_any (get s)) fun hnone => by
    rw [Option.isNone_iff_eq_none.mp hnone]
    rfl

theorem readsBack_requiredText {get : σ → String} :
    (required key get .text).ReadsBack [key] s (get s) :=
  readsBack_required (Codec.returns_text _)

theorem readsBack_optionalText {get : σ → Option String} :
    (optional key get .text).ReadsBack [key] s (get s) :=
  readsBack_optional nofun fun a _ => Codec.returns_text a

theorem readsBack_itemsText {get : σ → List String} :
    (items key get .text).ReadsBack [key] s (get s) :=
  readsBack_items fun a _ => Codec.returns_text a

theorem readsBack_orderedText {get : σ → Assoc String} :
    (orderedMap key get .text).ReadsBack [key] s (get s) :=
  readsBack_orderedMap fun e _ => Codec.returns_text e.2

theorem readsBack_sortedText {get : σ → Assoc String} (h : (get s).IsSorted) :
    (sortedMap key get .text).ReadsBack [key] s (get s) :=
  readsBack_sortedMap h fun e _ => Codec.returns_text e.2

end Field

theorem readsBack_part {get : σ → τ} {fields : Fields τ α} {keys : List String} {a : α}
    (h : fields.ReadsBack keys (get s) a) : (part get fields).ReadsBack keys s a := by
  intro hnodup
  obtain ⟨hwrite, hread⟩ := h hnodup
  refine ⟨hwrite, fun src entries hentries => ?_⟩
  have hgathered := hread .gathered entries hentries
  simp only [part, hgathered]

/-- A whole structure is read from the entries of any mapping that has its fields. -/
theorem ReadsBack.decode {fields : Fields σ α} {keys : List String} {a : α}
    (h : fields.ReadsBack keys s a) (hnodup : keys.Nodup) (before : Assoc Value)
    (hbefore : ∀ key ∈ keys, before.get? key = Option.none) (src : Source) :
    fields.decode src (before ++ fields.write s) = .ok a := by
  have hread := (h hnodup).2 src (before ++ fields.write s) fun key hkey => by
    rw [Assoc.get?_append, hbefore key hkey, Option.none_or]
  rw [Fields.decode, hread]
  rfl

end Rollout.Fields

namespace Rollout.Codec

variable {σ : Type} {fields : Fields σ σ} {keys : List String} {s t : σ}

theorem readsAs_struct {name : String} (hnodup : keys.Nodup) (h : fields.ReadsBack keys s t) :
    (struct name fields).ReadsAs s t :=
  fun src => h.decode hnodup [] (fun _ _ => rfl) src

theorem returns_struct {name : String} (hnodup : keys.Nodup) (h : fields.ReadsBack keys s t)
    (heq : t = s) : (struct name fields).Returns s := by
  subst heq
  exact readsAs_struct hnodup h

/-- What is written for a value is a mapping, and it is read as another value also behind
entries under another key. -/
def ReadsBehind {α : Type} (c : Codec α) (key : String) (a b : α) : Prop :=
  ∃ entries, c.encode a = .mapping entries ∧ ∀ src before,
    (∀ e ∈ before, e.1 = key) → c.decode src (.mapping (before ++ entries)) = .ok b

/-- What is written for a value is a mapping, and it is read back as that value also behind
entries under another key. -/
def ReturnsBehind {α : Type} (c : Codec α) (key : String) (a : α) : Prop := c.ReadsBehind key a a

theorem ReturnsBehind.returns {α : Type} {c : Codec α} {key : String} {a : α}
    (h : c.ReturnsBehind key a) : c.Returns a := by
  intro src
  obtain ⟨entries, hencode, hdecode⟩ := h
  rw [hencode]
  exact hdecode src [] nofun

theorem readsBehind_mapping {name key : String} (hnodup : (key :: keys).Nodup)
    (h : fields.ReadsBack keys s t) : (mapping name fields).ReadsBehind key s t := by
  obtain ⟨hnotMem, hkeys⟩ := List.nodup_cons.mp hnodup
  refine ⟨fields.write s, rfl, fun src before hbefore => ?_⟩
  refine h.decode hkeys before (fun other hother => ?_) src
  rw [Assoc.get?_eq_none_iff]
  intro hmem
  obtain ⟨e, he, rfl⟩ := List.mem_map.mp hmem
  exact hnotMem (hbefore e he ▸ hother)

theorem returnsBehind_mapping {name key : String} (hnodup : (key :: keys).Nodup)
    (h : fields.ReadsBack keys s t) (heq : t = s) :
    (mapping name fields).ReturnsBehind key s := by
  subst heq
  exact readsBehind_mapping hnodup h

theorem readsAs_mapping {name : String} (hnodup : keys.Nodup) (h : fields.ReadsBack keys s t) :
    (mapping name fields).ReadsAs s t :=
  fun src => h.decode hnodup [] (fun _ _ => rfl) src

theorem returns_mapping {name : String} (hnodup : keys.Nodup) (h : fields.ReadsBack keys s t)
    (heq : t = s) : (mapping name fields).Returns s := by
  subst heq
  exact readsAs_mapping hnodup h

end Rollout.Codec

/-!
### Alternatives that are read back

A value of one of several forms is written by the first form that it has and read by the
first form of the name that the tag gives. It is read back if both are the same form and
the fields of that form are read back.
-/

namespace Rollout

namespace Variant

variable {α τ : Type} {a b : α} {v : Variant α} {variants : List (Variant α)} {keys : List String}

/-- A form writes entries under some keys, which differ from each other, for a value, and
reads another value wherever these keys have what it writes. -/
def ReadsAs (v : Variant α) (keys : List String) (a b : α) : Prop :=
  keys.Nodup → ∃ fields, v.write a = some fields ∧ (∀ e ∈ fields, e.1 ∈ keys) ∧
    ∀ entries, (∀ key ∈ keys, Assoc.get? entries key = Assoc.get? fields key) →
      v.read entries = .ok b

/-- A form reads what it writes for a value as that value. -/
def Returns (v : Variant α) (keys : List String) (a : α) : Prop := v.ReadsAs keys a a

theorem readsAs_ofFields {name inner : String} {view : α → Option τ} {fields : Fields τ α} {t : τ}
    (hview : view a = some t) (h : fields.ReadsBack keys t b) :
    (ofFields name inner view fields).ReadsAs keys a b := by
  intro hnodup
  obtain ⟨hwrite, hread⟩ := h hnodup
  refine ⟨fields.write t, ?_, hwrite, fun entries hentries => ?_⟩
  · change (view a).map fields.write = _
    rw [hview]
    rfl
  · change (fields.read .gathered entries).mapError FieldFault.error = _
    rw [hread .gathered entries hentries]
    rfl

theorem returns_ofFields {name inner : String} {view : α → Option τ} {fields : Fields τ α} {t : τ}
    (hview : view a = some t) (h : fields.ReadsBack keys t a) :
    (ofFields name inner view fields).Returns keys a :=
  readsAs_ofFields hview h

theorem returns_alone {name : String} {isThis : α → Bool} (h : isThis a = true) :
    (alone name a isThis).Returns [] a :=
  fun _ => ⟨[], if_pos h, fun _ he => absurd he List.not_mem_nil, fun _ _ => rfl⟩

/-- The first form that a value has is the first form of its name. -/
structure IsFormOf (v : Variant α) (variants : List (Variant α)) (a : α) : Prop where
  writes : variants.find? (fun u => (u.write a).isSome) = some v
  named : variants.find? (fun u => u.name == v.name) = some v

theorem IsFormOf.writeEntries_eq (hv : v.IsFormOf variants a) (tag : String)
    {fields : Assoc Value} (hfields : v.write a = some fields) :
    writeEntries tag variants a = (tag, .text v.name) :: fields := by
  obtain ⟨-, before, after, rfl, hbefore⟩ := List.find?_eq_some_iff_append.mp hv.writes
  have hnone : before.findSome? (fun u => (u.write a).map ((tag, Value.text u.name) :: ·)) =
      none := by
    rw [List.findSome?_eq_none_iff]
    intro u hu
    have hu' := hbefore u hu
    rw [Bool.not_eq_true', Option.isSome_eq_false_iff, Option.isNone_iff_eq_none] at hu'
    rw [hu', Option.map_none]
  rw [writeEntries, List.findSome?_append, hnone, Option.none_or, List.findSome?_cons, hfields]
  rfl

theorem IsFormOf.readEntries_eq (hv : v.IsFormOf variants a) {tag : String}
    {fields entries : Assoc Value} (hnotMem : tag ∉ keys)
    (hread : ∀ entries, (∀ key ∈ keys, Assoc.get? entries key = Assoc.get? fields key) →
      v.read entries = .ok b)
    (hentries : ∀ key ∈ tag :: keys, Assoc.get? entries key =
      Assoc.get? ((tag, .text v.name) :: fields) key) (src : Source) :
    readEntries tag variants src entries = .ok b := by
  have htag : Assoc.get? entries tag = some (.text v.name) := by
    rw [hentries tag List.mem_cons_self, Assoc.get?_cons, if_pos rfl]
  have hpick : pick variants src (.text v.name) = .ok v := by
    simp only [pick, hv.named]
  have hrest : v.read (Assoc.erase entries tag) = .ok b := by
    refine hread _ fun key hkey => ?_
    have hne : key ≠ tag := fun he => hnotMem (he ▸ hkey)
    rw [Assoc.get?_erase_of_ne _ hne, hentries key (List.mem_cons_of_mem _ hkey),
      Assoc.get?_cons, if_neg hne]
  simp only [readEntries, htag, hpick, bind, Except.bind, hrest]

end Variant

variable {σ α : Type} {variants : List (Variant α)} {v : Variant α} {keys : List String}

theorem Fields.readsBack_taggedPart {get : σ → α} {tag : String} {s : σ}
    (hv : v.IsFormOf variants (get s)) (h : v.Returns keys (get s)) :
    (taggedPart get tag variants).ReadsBack (tag :: keys) s (get s) := by
  intro hnodup
  obtain ⟨hnotMem, hkeys⟩ := List.nodup_cons.mp hnodup
  obtain ⟨fields, hfields, hwrite, hread⟩ := h hkeys
  change (∀ e ∈ Variant.writeEntries tag variants (get s), _) ∧ ∀ src entries,
    (∀ key ∈ _, _ = Assoc.get? (Variant.writeEntries tag variants (get s)) key) → _
  rw [hv.writeEntries_eq tag hfields]
  refine ⟨?_, fun src entries hentries => ?_⟩
  · rintro e (_ | ⟨_, he⟩)
    · exact List.mem_cons_self
    · exact List.mem_cons_of_mem _ (hwrite e he)
  · simp only [taggedPart, hv.readEntries_eq hnotMem hread hentries]

theorem Codec.readsAs_tagged {name tag : String} {a b : α} (hnodup : (tag :: keys).Nodup)
    (hv : v.IsFormOf variants a) (h : v.ReadsAs keys a b) :
    (tagged name tag variants).ReadsAs a b := by
  intro src
  obtain ⟨hnotMem, hkeys⟩ := List.nodup_cons.mp hnodup
  obtain ⟨fields, hfields, -, hread⟩ := h hkeys
  change Variant.readEntries tag variants src (Variant.writeEntries tag variants a) = .ok b
  rw [hv.writeEntries_eq tag hfields]
  exact hv.readEntries_eq hnotMem hread (fun _ _ => rfl) src

theorem Codec.returns_tagged {name tag : String} {a : α} (hnodup : (tag :: keys).Nodup)
    (hv : v.IsFormOf variants a) (h : v.Returns keys a) :
    (tagged name tag variants).Returns a :=
  readsAs_tagged hnodup hv h

end Rollout
