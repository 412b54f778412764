import Rollout.Proofs.Kustomize
import Rollout.Rendering

/-!
# Settings of formats are read back

A Terraform module is read back from what is written for it as a kustomization is: a default that
is null is written, and read as none, by which its variable becomes one that has to be given. The
example for users of the module tells this. So what has been read renders the files of before
exactly if no operation of a patch has a null value and no variable a null default.
-/

namespace Rollout

open Codec Fields

namespace Variable

/-- The variable with none in the place of a null default. -/
def withoutNullDefault (v : Variable) : Variable :=
  { v with default := v.default.filter fun value => !value.isNull }

/-- All of a variable is read back but a null default. -/
theorem readsAs (v : Variable) : codec.ReadsAs v v.withoutNullDefault :=
  readsAs_struct (by decide)
    (.seq (readsBack_defaulted (returns_bool _)) <|
      .seq readsBack_optionalAny <|
      .seq readsBack_optionalText <|
      .seq (readsBack_defaulted (returns_text _)) <|
      .map _ readsBack_requiredText)

theorem withoutNullDefault_eq_self {v : Variable} (h : v.default ≠ some .null) :
    v.withoutNullDefault = v := by
  rw [withoutNullDefault, filter_notNull_eq_self_iff.mpr h]

end Variable

theorem ModuleOutput.returns (o : ModuleOutput) : ModuleOutput.codec.Returns o :=
  returns_struct (by decide)
    (.seq (readsBack_defaulted (returns_bool _)) <|
      .seq readsBack_optionalText <|
      .seq readsBack_requiredText <|
      .map _ readsBack_requiredText)
    rfl

theorem LookedUpData.returns (d : LookedUpData) : LookedUpData.codec.Returns d :=
  returns_struct (by decide)
    (.seq (readsBack_defaulted (returns_any _)) <|
      .seq readsBack_requiredText <|
      .map _ readsBack_requiredText)
    rfl

theorem ModuleCall.returns (c : ModuleCall) : ModuleCall.codec.Returns c :=
  returns_struct (by decide)
    (.seq (readsBack_defaulted (returns_ordered fun e _ => returns_any e.2)) <|
      .seq readsBack_optionalText <|
      .seq readsBack_requiredText <|
      .map _ readsBack_requiredText)
    rfl

theorem Backend.returns (b : Backend) : Backend.codec.Returns b :=
  returns_struct (by decide)
    (.seq (readsBack_defaulted (returns_ordered fun e _ => returns_any e.2)) <|
      .map _ readsBack_requiredText)
    rfl

namespace TerraformModule

/-- The module without the null defaults of its variables. -/
def withoutNullDefaults (m : TerraformModule) : TerraformModule :=
  { m with inputs := m.inputs.map Variable.withoutNullDefault }

/-- No declared variable has a null default. -/
def HasNoNulls (m : TerraformModule) : Prop := ∀ v ∈ m.inputs, v.default ≠ some .null

instance : DecidablePred HasNoNulls := fun m =>
  inferInstanceAs (Decidable (∀ v ∈ m.inputs, v.default ≠ some .null))

/-- All of a module is read back but the null defaults of its variables. -/
theorem readsAs (m : TerraformModule) : codec.ReadsAs m m.withoutNullDefaults :=
  readsAs_struct (by decide)
    (.seq (readsBack_defaulted (returns_text _)) <|
      .seq (readsBack_defaulted (returns_text _)) <|
      .seq (readsBack_defaulted (returns_option nofun fun b _ => b.returns)) <|
      .seq (readsBack_defaulted (returns_list fun c _ => c.returns)) <|
      .seq (readsBack_defaulted (returns_list fun d _ => d.returns)) <|
      .seq (readsBack_defaulted (returns_ordered fun e _ => returns_any e.2)) <|
      .seq (readsBack_defaulted (returns_list fun o _ => o.returns)) <|
      .seq (readsBack_defaultedAs (readsAs_list fun v _ => v.readsAs)) <|
      .map _ (readsBack_defaulted (returns_option nofun fun s _ => returns_text s)))

theorem withoutNullDefaults_eq_self {m : TerraformModule} (h : m.HasNoNulls) :
    m.withoutNullDefaults = m := by
  have hinputs : m.inputs.map Variable.withoutNullDefault = m.inputs.map id :=
    List.map_congr_left fun v hv => Variable.withoutNullDefault_eq_self (h v hv)
  rw [withoutNullDefaults, hinputs, List.map_id]

/-- The standard variables have defaults other than null. -/
theorem allVariables_withoutNullDefaults (m : TerraformModule) :
    m.withoutNullDefaults.allVariables = m.allVariables.map Variable.withoutNullDefault := by
  have hstandard : ∀ v ∈ m.standardVariables, v.withoutNullDefault = v := by
    intro v hv
    apply Variable.withoutNullDefault_eq_self
    simp only [standardVariables, List.mem_cons, List.not_mem_nil, or_false] at hv
    rcases hv with rfl | rfl | rfl <;> simp
  have hnames (w : Variable) : m.withoutNullDefaults.inputs.any (·.name == w.name) =
      m.inputs.any (·.name == w.name) := by
    simp only [withoutNullDefaults, List.any_map]
    rfl
  have hkept : (m.standardVariables.filter fun v => !m.inputs.any (·.name == v.name)).map
      Variable.withoutNullDefault =
        (m.standardVariables.filter fun v => !m.inputs.any (·.name == v.name)).map id :=
    List.map_congr_left fun v hv => hstandard v (List.mem_filter.mp hv).1
  rw [allVariables, allVariables, List.map_append, hkept, List.map_id]
  simp only [hnames]
  rfl

end TerraformModule

namespace Terraform

/-- The line that tells that a variable is required is longer than what stands for null. -/
theorem length_sampleLines_lt {v : Variable} (h : v.default = some .null) :
    (sampleLines v).toList.length < (sampleLines v.withoutNullDefault).toList.length := by
  have hgiven : v.isRequired = false := by rw [Variable.isRequired, h]; rfl
  have hnone : v.withoutNullDefault.default = .none := by rw [Variable.withoutNullDefault, h]; rfl
  have hrequired : v.withoutNullDefault.isRequired = true := by
    rw [Variable.isRequired, hnone]
    rfl
  have hsample : v.sample = .null := by simp only [Variable.sample, h, Hcl.ofValue, Hcl.convert]
  have hnull : (Hcl.textAt 0 v.sample).toList.length = 4 := by
    rw [hsample, Hcl.textAt, String.toList_ofList, Hcl.write]
    rfl
  have hline : "# (required)\n".toList.length = 13 := rfl
  simp only [sampleLines, String.toList_append, List.length_append, hgiven, hrequired, if_true,
    Bool.false_eq_true, if_false, String.toList_empty, List.length_nil, hnull, hline]
  simp only [Variable.withoutNullDefault]
  omega

/-- The example for users of the module tells a null default from none. -/
theorem hasNoNulls_of_sampleLines {m : TerraformModule}
    (h : String.join (m.withoutNullDefaults.allVariables.map sampleLines) =
      String.join (m.allVariables.map sampleLines)) : m.HasNoNulls := by
  intro v hv hnull
  have hle : ∀ w ∈ m.allVariables, (sampleLines w).toList.length ≤
      (sampleLines w.withoutNullDefault).toList.length := by
    intro w _
    by_cases hw : w.default = some .null
    · exact Nat.le_of_lt (length_sampleLines_lt hw)
    · rw [Variable.withoutNullDefault_eq_self hw]
  have hlength := congrArg (fun s : String => s.toList.length) h
  simp only [String.toList_join, TerraformModule.allVariables_withoutNullDefaults,
    List.map_map, List.flatMap_map] at hlength
  exact absurd hlength.symm <| Nat.ne_of_lt <| length_flatMap_lt hle
    ⟨v, List.mem_append_right _ hv, length_sampleLines_lt hnull⟩

/-- The files of a module change exactly if a variable has a null default. -/
theorem files_withoutNullDefaults_iff (m : TerraformModule) (name directory : String)
    (rs : List Record) :
    files m.withoutNullDefaults name directory rs = files m name directory rs ↔ m.HasNoNulls := by
  constructor
  · intro hfiles
    rw [files, files] at hfiles
    obtain ⟨-, hlast⟩ := List.append_inj' hfiles (by simp only [List.length_cons])
    have hexample := congrArg OutputFile.content (List.cons.inj hlast).1
    exact hasNoNulls_of_sampleLines (Bytes.ofText_injective hexample)
  · intro h
    rw [TerraformModule.withoutNullDefaults_eq_self h]

end Terraform

namespace RenderSettings

/-- A base, overlays over it and a module are always read back once they have been set up. What is
read renders the files that they render exactly if no operation of a patch has a null value, and
for the module exactly if no variable has a null default. -/
theorem decode_encode_settings {base : Kustomization} {overlays : List Overlay}
    (hbase : base.Built) (hoverlays : ∀ o ∈ overlays, o.Built) (m : TerraformModule) :
    Kustomization.codec.ReadsAs base base.withoutNulls ∧
      (list Overlay.codec).ReadsAs overlays (overlays.map Overlay.withoutNulls) ∧
      TerraformModule.codec.ReadsAs m m.withoutNullDefaults ∧
      (∀ rs, Kustomize.files base.withoutNulls (overlays.map Overlay.withoutNulls) rs =
          Kustomize.files base overlays rs ↔
        base.HasNoNulls ∧ ∀ o ∈ overlays, o.kustomization.HasNoNulls) ∧
      ∀ name directory rs, Terraform.files m.withoutNullDefaults name directory rs =
          Terraform.files m name directory rs ↔
        m.HasNoNulls := by
  refine ⟨?_, ?_, ?_, ?_, ?_⟩
  · exact Kustomization.readsAs hbase.fits
  · exact readsAs_list fun o ho => Overlay.readsAs (hoverlays o ho)
  · exact m.readsAs
  · exact Kustomize.files_withoutNulls_iff base overlays
  · exact Terraform.files_withoutNullDefaults_iff m

/-- The settings of a store: a patch that takes a path away and adds one with a null inside, an
overlay with more replicas, and variables with a default and without. -/
def store : RenderSettings where
  base := ({} : Kustomization).withLabel "app" "store" |>.addPatch labels
  overlays := [production]
  terraform := { inputs := [region, tags] }
where
  labels : Patch := .operations (.ofKind "Deployment" "store")
    [.remove "/spec/replicas", .add "/spec/template/metadata/labels" (.mapping [("team", .null)])]
  production : Overlay :=
    { name := "production", kustomization := ({} : Kustomization).withReplicas "Deployment" "store" 3 }
  region : Variable := { name := "region" }
  tags : Variable :=
    { name := "tags", typeText := "map(string)", default := some (.mapping [("team", .null)]) }

theorem built_store : store.base.Built ∧ ∀ o ∈ store.overlays, o.Built := by
  have hnew : ({} : Kustomization).Built := .new rfl
  have hlabelled := Reached.set (.label "app" "store") hnew
  have hpatched := Reached.set (.patch store.labels) hlabelled
  have hproduction := Reached.set (.replicas "Deployment" "store" 3) hnew
  exact ⟨hpatched, List.forall_mem_singleton.mpr hproduction⟩

theorem decode_encode_store : (store.base.Built ∧ ∀ o ∈ store.overlays, o.Built) ∧
    Kustomization.codec.ReadsAs store.base store.base.withoutNulls ∧
    (list Overlay.codec).ReadsAs store.overlays (store.overlays.map Overlay.withoutNulls) ∧
    TerraformModule.codec.ReadsAs store.terraform store.terraform.withoutNullDefaults ∧
    (∀ rs, Kustomize.files store.base.withoutNulls (store.overlays.map Overlay.withoutNulls) rs =
      Kustomize.files store.base store.overlays rs) ∧
    ∀ name directory rs, Terraform.files store.terraform.withoutNullDefaults name directory rs =
      Terraform.files store.terraform name directory rs := by
  obtain ⟨hbase, hoverlays, hmodule, hkustomize, hterraform⟩ :=
    decode_encode_settings built_store.1 built_store.2 store.terraform
  refine ⟨built_store, hbase, hoverlays, hmodule, fun rs => ?_, fun name directory rs => ?_⟩
  · exact (hkustomize rs).mpr (by decide +kernel)
  · exact (hterraform name directory rs).mpr (by decide +kernel)

/-- An overlay in which the selector of nodes is cleared, and a module with a zone that is null
unless it is given. -/
def cleared : RenderSettings where
  overlays := [anywhere]
  terraform := { inputs := [{ name := "zone", default := some .null }] }
where
  selector : Patch := .operations (.ofKind "Deployment" "web")
    [.replace "/spec/template/spec/nodeSelector" .null]
  anywhere : Overlay :=
    { name := "anywhere", kustomization := ({} : Kustomization).addPatch selector }

/-- A null value and a null default are written, and the files have them, but what is read does
not. -/
theorem nulls_lost : cleared.anywhere.Built ∧
    (¬ ∃ o, Overlay.codec.ReadsAs cleared.anywhere o ∧
      ∀ rs, Kustomize.files {} [o] rs = Kustomize.files {} [cleared.anywhere] rs) ∧
    ¬ ∃ m, TerraformModule.codec.ReadsAs cleared.terraform m ∧ ∀ name directory rs,
      Terraform.files m name directory rs = Terraform.files cleared.terraform name directory rs := by
  have hnew : ({} : Kustomization).Built := .new rfl
  have hpatched := Reached.set (.patch cleared.selector) hnew
  have hbuilt : cleared.anywhere.Built := hpatched
  refine ⟨hbuilt, ?_, ?_⟩
  · rintro ⟨o, hread, hfiles⟩
    have ho : cleared.anywhere.withoutNulls = o :=
      Except.ok.inj ((Overlay.readsAs hbuilt .direct).symm.trans (hread .direct))
    subst ho
    have hnone := (Kustomize.files_withoutNulls_iff {} [cleared.anywhere] []).mp (hfiles [])
    exact absurd (hnone.2 _ List.mem_cons_self) (by decide +kernel)
  · rintro ⟨m, hread, hfiles⟩
    have hm : cleared.terraform.withoutNullDefaults = m :=
      Except.ok.inj ((cleared.terraform.readsAs .direct).symm.trans (hread .direct))
    subst hm
    have hnone := (Terraform.files_withoutNullDefaults_iff _ _ _ _).mp (hfiles "web" "web" [])
    exact absurd hnone (by decide +kernel)

end RenderSettings

end Rollout
