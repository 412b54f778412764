import Mathlib.Data.List.Forall2
import Rollout.Proofs.Compose.Closed
import Rollout.Proofs.Config.Resolve

/-!
# The variables of attached data

A service has a variable for each text key of the Secrets and ConfigMaps attached to its workload,
called by the name of what is attached and the key. All letters of a variable are capitals, and
whatever is neither letter nor digit is an underscore, so two keys can have one variable: those of
a Secret and a ConfigMap with one name, or those whose names differ only in what is not kept. Of
such keys the last one counts, Secrets coming before ConfigMaps. All keys keep their values exactly
if no two of them are spelt alike.
-/

namespace Rollout

/-! ### Names of variables -/

namespace Name

/-- Two characters are alike in a variable: one letter or digit, whatever its case, or neither
letter nor digit both of them. -/
def LooksAlike (c d : Char) : Prop :=
  c.isAlphanum = true ∧ d.isAlphanum = true ∧ c.toUpper = d.toUpper ∨
    c.isAlphanum = false ∧ d.isAlphanum = false

/-- Two texts are alike in a variable, character by character. -/
def SpeltAlike (s t : String) : Prop := List.Forall₂ LooksAlike s.toList t.toList

theorem toUpper_ne_underscore {c : Char} (h : c.isAlphanum = true) : c.toUpper ≠ '_' := by
  intro heq
  unfold Char.toUpper at heq
  split at heq
  · rename_i hlower
    rw [Char.ext_iff, ← UInt32.toNat_inj] at heq
    simp only [UInt32.le_iff_toNat_le] at hlower
    grind [UInt32.toNat_add]
  · subst heq
    exact absurd h (by decide)

theorem envChar_eq_iff {c d : Char} :
    ((if c.isAlphanum then c.toUpper else '_') = if d.isAlphanum then d.toUpper else '_') ↔
      LooksAlike c d := by
  unfold LooksAlike
  cases hc : c.isAlphanum <;> cases hd : d.isAlphanum
  · simp
  · simpa using (toUpper_ne_underscore hd).symm
  · simpa using toUpper_ne_underscore hc
  · simp

theorem envVariable_eq_iff {s t : String} : envVariable s = envVariable t ↔ SpeltAlike s t := by
  rw [envVariable, envVariable, ← String.toList_inj, String.toList_ofList, String.toList_ofList,
    ← List.forall₂_eq_eq_eq, List.forall₂_map_left_iff, List.forall₂_map_right_iff]
  simp only [envChar_eq_iff, SpeltAlike]

instance (s t : String) : Decidable (SpeltAlike s t) := decidable_of_iff _ envVariable_eq_iff

theorem envVariable_append (s t : String) :
    envVariable (s ++ t) = envVariable s ++ envVariable t := by
  simp [envVariable]

end Name

/-- Where the pairs of a list are inserted, a key has what the last pair for it gives. -/
theorem Assoc.get?_insertAll_of_isLast {α β : Type} {f : β → String} {g : β → α} {m : Assoc α}
    {key : String} {e : β} {entries : List β} (h : IsLast (f · = key) e entries) :
    (m.insertAll (entries.map fun e => (f e, g e))).get? key = some (g e) := by
  obtain ⟨before, after, rfl, rfl, hafter⟩ := h
  rw [List.map_append, List.map_cons]
  refine get?_insertAll_append_cons m _ (fun hmem => ?_) (g e)
  rw [Assoc.keys, List.map_map] at hmem
  obtain ⟨b, hb, hkey⟩ := List.mem_map.mp hmem
  exact hafter b hb hkey

namespace Compose

variable {files : FileTree} {w : Workload} {x : Deployed}

/-! ### What is attached -/

/-- What attaches a key to a workload. -/
inductive Holder where
  | secret
  | configMap
deriving DecidableEq

/-- A text key of a Secret or ConfigMap. -/
structure AttachedKey where
  holder : Holder
  owner : String
  key : String
deriving DecidableEq

/-- What the variable for a key spells. -/
def AttachedKey.spelling (k : AttachedKey) : String := k.owner ++ "_" ++ k.key

/-- The variable for a key. -/
def AttachedKey.variable (k : AttachedKey) : String := variableName k.owner k.key

theorem AttachedKey.variable_eq_iff {k l : AttachedKey} :
    k.variable = l.variable ↔ Name.SpeltAlike k.spelling l.spelling := by
  have hspelling (k : AttachedKey) : k.variable = Name.envVariable k.spelling := by
    have hmark : Name.envVariable "_" = "_" := rfl
    rw [spelling, Name.envVariable_append, Name.envVariable_append, hmark]
    rfl
  rw [hspelling, hspelling, Name.envVariable_eq_iff]

/-- Of some items with data, one of a name has a text under a key. -/
def HasText {α : Type} (name : α → String) (resolve : α → Except SourceError ResolvedData)
    (items : List α) (owner key value : String) : Prop :=
  ∃ i ∈ items, name i = owner ∧ ∃ data, resolve i = .ok data ∧ data.text.get? key = some value

/-- A Secret or ConfigMap of the workload has a text under the key. -/
def Attaches (files : FileTree) (w : Workload) (k : AttachedKey) (value : String) : Prop :=
  match k.holder with
  | .secret => HasText (·.info.name) (·.resolve files) w.secrets k.owner k.key value
  | .configMap => HasText (·.info.name) (·.resolve files) w.configMaps k.owner k.key value

/-- The text keys of attached data with their values. -/
def Attachment.textKeys (holder : Holder) (a : Attachment) : List (AttachedKey × String) :=
  a.data.text.map fun (key, value) => (⟨holder, a.name, key⟩, value)

/-- All text keys attached to a workload with their values, those of Secrets first. -/
def Deployed.textKeys (x : Deployed) : List (AttachedKey × String) :=
  x.secrets.flatMap (·.textKeys .secret) ++ x.configMaps.flatMap (·.textKeys .configMap)

/-- The variables of a service. -/
def environmentOf (service : Value) : Assoc Value := (service.at "environment").entries

/-- Each text key that is attached has a variable of its own, and this holds its value. -/
structure KeepsAttached (files : FileTree) (w : Workload) (env : Assoc Value) : Prop where
  holds : ∀ k value, Attaches files w k value → env.get? k.variable = some (.text value)
  own : ∀ k value l other, Attaches files w k value → Attaches files w l other →
    k.variable = l.variable → k = l

/-- No two text keys that are attached are spelt alike. -/
def SpeltApart (files : FileTree) (w : Workload) : Prop :=
  ∀ k value l other, Attaches files w k value → Attaches files w l other →
    Name.SpeltAlike k.spelling l.spelling → k = l

section Resolved

variable {α : Type} {name : α → String} {path : α → Option String}
  {resolve : α → Except SourceError ResolvedData} {items : List α} {attached : List Attachment}

/-- With names that differ, a key has one value. -/
theorem HasText.unique {owner key value other : String} (hnames : (items.map name).Nodup)
    (h : HasText name resolve items owner key value)
    (hother : HasText name resolve items owner key other) : value = other := by
  obtain ⟨i, hi, hname, data, hdata, hvalue⟩ := h
  obtain ⟨i', hi', hname', data', hdata', hvalue'⟩ := hother
  obtain rfl := List.inj_on_of_nodup_map hnames hi hi' (hname.trans hname'.symm)
  obtain rfl := Except.ok.inj (hdata.symm.trans hdata')
  exact Option.some.inj (hvalue.symm.trans hvalue')

theorem mem_textKeys_iff
    (h : (items.mapM fun i => (resolve i).map fun d => ⟨name i, path i, d⟩) = .ok attached)
    (hsorted : ∀ i ∈ items, ∀ data, resolve i = .ok data → data.IsSorted) {holder : Holder}
    {k : AttachedKey} {value : String} :
    (k, value) ∈ attached.flatMap (·.textKeys holder) ↔
      k.holder = holder ∧ HasText name resolve items k.owner k.key value := by
  constructor
  · intro hmem
    obtain ⟨a, ha, hk⟩ := List.mem_flatMap.mp hmem
    obtain ⟨i, hi, hresolved⟩ := exists_of_mem_mapM h ha
    obtain ⟨data, hdata, rfl⟩ := map_eq_ok_iff.mp hresolved
    obtain ⟨⟨key, text⟩, hentry, heq⟩ := List.mem_map.mp hk
    obtain ⟨rfl, rfl⟩ := Prod.mk.inj heq
    have hnodup := (hsorted i hi data hdata).text.nodup_keys
    exact ⟨rfl, i, hi, rfl, data, hdata, Assoc.get?_of_mem hnodup hentry⟩
  · rintro ⟨hholder, i, hi, hname, data, hdata, hvalue⟩
    obtain ⟨a, ha, hresolved⟩ := exists_mem_of_mapM h hi
    rw [hdata] at hresolved
    obtain rfl := Except.ok.inj hresolved
    refine List.mem_flatMap.mpr ⟨_, ha, List.mem_map.mpr ⟨_, Assoc.mem_of_get? hvalue, ?_⟩⟩
    obtain ⟨kind, owner, key⟩ := k
    obtain rfl : kind = holder := hholder
    obtain rfl : name i = owner := hname
    rfl

end Resolved

theorem mem_textKeys_deployed_iff (h : deployed files w = .ok x) {k : AttachedKey}
    {value : String} : (k, value) ∈ x.textKeys ↔ Attaches files w k value := by
  obtain ⟨hsecrets, hconfigMaps⟩ := attached_of_deployed h
  rw [Deployed.textKeys, List.mem_append,
    mem_textKeys_iff hsecrets fun s _ _ => DataSource.isSorted_of_resolve,
    mem_textKeys_iff hconfigMaps fun c _ _ => DataSource.isSorted_of_resolve, Attaches]
  cases k.holder <;> simp

theorem Attaches.unique (hsecrets : (w.secrets.map (·.info.name)).Nodup)
    (hconfigMaps : (w.configMaps.map (·.info.name)).Nodup) {k : AttachedKey} {value other : String}
    (h : Attaches files w k value) (hother : Attaches files w k other) : value = other := by
  unfold Attaches at h hother
  cases hholder : k.holder with
  | secret =>
    rw [hholder] at h hother
    exact h.unique hsecrets hother
  | configMap =>
    rw [hholder] at h hother
    exact h.unique hconfigMaps hother

/-! ### The variables of a service -/

theorem environmentOf_service (x : Deployed) (network : String) :
    environmentOf (x.service network) = x.environment.mapValues .text := by
  rw [← at_mapEntry "environment" (x.environment.mapValues .text)]
  simp [environmentOf, Deployed.service, Value.at_mapping, Assoc.get?_append, Assoc.get?_cons,
    Assoc.get?_nil, textsEntry, get?_optionEntry_of_ne, get?_listEntry_of_ne]

theorem environment_eq (x : Deployed) : x.environment =
    x.workload.env.insertAll (x.textKeys.map fun e => (e.1.variable, e.2)) := by
  have hassignments (holder : Holder) (attached : List Attachment) :
      (attached.flatMap (·.textKeys holder)).map (fun e => (e.1.variable, e.2)) =
        attached.flatMap Attachment.assignments := by
    rw [List.map_flatMap]
    simp only [Attachment.textKeys, List.map_map]
    rfl
  rw [Deployed.environment, Deployed.textKeys, List.map_append, hassignments, hassignments,
    List.flatMap_append]

/-- Of the keys for a variable the last one counts. -/
theorem get?_environment_of_isLast {e : AttachedKey × String} {n : String}
    (h : IsLast (·.1.variable = n) e x.textKeys) : x.environment.get? n = some e.2 := by
  rw [environment_eq]
  exact Assoc.get?_insertAll_of_isLast (g := Prod.snd) h

/-- Other variables are those of the workload itself. -/
theorem get?_environment_of_forall_ne {n : String} (h : ∀ e ∈ x.textKeys, e.1.variable ≠ n) :
    x.environment.get? n = x.workload.env.get? n := by
  rw [environment_eq]
  refine Assoc.get?_insertAll_of_notMem fun hmem => ?_
  rw [Assoc.keys, List.map_map] at hmem
  obtain ⟨e, he, hn⟩ := List.mem_map.mp hmem
  exact h e he hn

/-- The values of all keys are kept if no two of these are spelt alike. -/
theorem keepsAttached_of_speltApart (h : deployed files w = .ok x)
    (hsecrets : (w.secrets.map (·.info.name)).Nodup)
    (hconfigMaps : (w.configMaps.map (·.info.name)).Nodup) (hapart : SpeltApart files w) :
    KeepsAttached files w (x.environment.mapValues .text) := by
  have hown : ∀ k value l other, Attaches files w k value → Attaches files w l other →
      k.variable = l.variable → k = l := by
    intro k value l other hk hl heq
    exact hapart k value l other hk hl (AttachedKey.variable_eq_iff.mp heq)
  refine ⟨fun k value hk => ?_, hown⟩
  have hmem := (mem_textKeys_deployed_iff h).mpr hk
  obtain ⟨⟨l, other⟩, hlast⟩ := exists_isLast_iff (p := fun e => e.1.variable = k.variable)
    |>.mpr ⟨(k, value), hmem, rfl⟩
  -- the last key for the variable is the key itself, for no other one has its variable
  have hl := (mem_textKeys_deployed_iff h).mp hlast.mem
  obtain rfl := hown l other k value hl hk hlast.property
  rw [Assoc.get?_mapValues, get?_environment_of_isLast hlast, hl.unique hsecrets hconfigMaps hk]
  rfl

/-- The variables of the service for a workload: those of the attached keys, of which the last one
for a variable counts, and those of the workload that are not among them. All attached keys keep
their values exactly if they are spelt apart. -/
theorem keepsAttached_iff (h : deployed files w = .ok x)
    (hsecrets : (w.secrets.map (·.info.name)).Nodup)
    (hconfigMaps : (w.configMaps.map (·.info.name)).Nodup) (network : String) :
    let env := environmentOf (x.service network)
    (KeepsAttached files w env ↔ SpeltApart files w) ∧
      (∀ k value, (k, value) ∈ x.textKeys ↔ Attaches files w k value) ∧
      (∀ n e, IsLast (·.1.variable = n) e x.textKeys → env.get? n = some (.text e.2)) ∧
      ∀ n, (∀ k value, Attaches files w k value → k.variable ≠ n) →
        env.get? n = (w.env.get? n).map .text := by
  intro env
  have henv : env = x.environment.mapValues .text := environmentOf_service x network
  rw [henv]
  refine ⟨⟨fun hkeeps => ?_, keepsAttached_of_speltApart h hsecrets hconfigMaps⟩,
    fun k value => mem_textKeys_deployed_iff h, fun n e hlast => ?_, fun n hn => ?_⟩
  · intro k value l other hk hl halike
    exact hkeeps.own k value l other hk hl (AttachedKey.variable_eq_iff.mpr halike)
  · rw [Assoc.get?_mapValues, get?_environment_of_isLast hlast]
    rfl
  · have hother : ∀ e ∈ x.textKeys, e.1.variable ≠ n :=
      fun e he => hn e.1 e.2 ((mem_textKeys_deployed_iff h).mp he)
    rw [Assoc.get?_mapValues, get?_environment_of_forall_ne hother, workload_of_deployed h]

/-- Whether keys are spelt apart is seen from the list of them. -/
theorem speltApart_iff (h : deployed files w = .ok x) : SpeltApart files w ↔
    ∀ e ∈ x.textKeys, ∀ f ∈ x.textKeys, Name.SpeltAlike e.1.spelling f.1.spelling → e.1 = f.1 := by
  constructor
  · intro hapart e he f hf
    exact hapart e.1 e.2 f.1 f.2 ((mem_textKeys_deployed_iff h).mp he)
      ((mem_textKeys_deployed_iff h).mp hf)
  · intro hlist k value l other hk hl
    exact hlist (k, value) ((mem_textKeys_deployed_iff h).mpr hk) (l, other)
      ((mem_textKeys_deployed_iff h).mpr hl)

/-- A Secret and a ConfigMap with data for one application, beside a variable of its own. -/
theorem keepsAttached_shop :
    let database := (Secret.named "db-login").add (.literal "password" "s3cret")
    let settings := (ConfigMap.named "settings").add (.literal "log.level" "debug")
    let w := (((Workload.named "shop").withVariable "PORT" "8080").addSecret database).addConfigMap
      settings
    ∃ x, deployed .empty w = .ok x ∧ (w.secrets.map (·.info.name)).Nodup ∧
      (w.configMaps.map (·.info.name)).Nodup ∧
      KeepsAttached .empty w (environmentOf (x.service "shop")) ∧
      (environmentOf (x.service "shop")).get? "PORT" = some (.text "8080") := by
  intro database settings w
  obtain ⟨x, hx⟩ : ∃ x, deployed .empty w = .ok x := ⟨_, rfl⟩
  have hsecrets : (w.secrets.map (·.info.name)).Nodup := by decide
  have hconfigMaps : (w.configMaps.map (·.info.name)).Nodup := by decide
  obtain ⟨hkeeps, hkeys, -, hown⟩ := keepsAttached_iff hx hsecrets hconfigMaps "shop"
  have htextKeys : x.textKeys = [(⟨.secret, "db-login", "password"⟩, "s3cret"),
      (⟨.configMap, "settings", "log.level"⟩, "debug")] := by
    obtain rfl := Except.ok.inj hx
    rfl
  have hother : ∀ e ∈ x.textKeys, e.1.variable ≠ "PORT" := by
    rw [htextKeys]
    decide
  refine ⟨x, hx, hsecrets, hconfigMaps, hkeeps.mpr ?_, hown "PORT" fun k value hk => ?_⟩
  · rw [speltApart_iff hx, htextKeys]
    decide
  · exact hother (k, value) ((hkeys k value).mpr hk)

/-- A Secret and a ConfigMap with one name that both have a key have one variable for it, and this
holds what the ConfigMap has. -/
theorem not_keepsAttached_settings :
    let w := ((Workload.named "api").addSecret
      ((Secret.named "settings").add (.literal "mode" "closed"))).addConfigMap
        ((ConfigMap.named "settings").add (.literal "mode" "open"))
    (w.secrets.map (·.info.name)).Nodup ∧ (w.configMaps.map (·.info.name)).Nodup ∧
      Attaches .empty w ⟨.secret, "settings", "mode"⟩ "closed" ∧
      Attaches .empty w ⟨.configMap, "settings", "mode"⟩ "open" ∧
      ∃ x, deployed .empty w = .ok x ∧
        environmentOf (x.service "api") = [("SETTINGS_MODE", .text "open")] ∧
        ¬ KeepsAttached .empty w (environmentOf (x.service "api")) := by
  intro w
  have hsecret : Attaches .empty w ⟨.secret, "settings", "mode"⟩ "closed" :=
    ⟨_, List.mem_singleton_self _, rfl, _, rfl, rfl⟩
  have hconfigMap : Attaches .empty w ⟨.configMap, "settings", "mode"⟩ "open" :=
    ⟨_, List.mem_singleton_self _, rfl, _, rfl, rfl⟩
  refine ⟨by decide, by decide, hsecret, hconfigMap, _, rfl, ?_, fun hkeeps => ?_⟩
  · rw [environmentOf_service]
    rfl
  · exact absurd (hkeeps.own _ _ _ _ hsecret hconfigMap rfl) (by decide)

end Compose

end Rollout
