import Rollout.Proofs.App.Nested
import Rollout.Proofs.App.Settings
import Rollout.Proofs.Chart.Workload
import Rollout.Proofs.Definition.Reading

/-!
# The account that pods run under

An application may have an account made for its pods. The name under which the pods run is kept
apart from it, with the workload. The setting that attaches an account also names it there, so that
only naming another one by hand parts the two again. An application that is read has each of them as
its definition gives it, without regard to the other.
-/

namespace Rollout

/-- The account under which the pods of a record run. -/
def Record.podAccount? (r : Record) : Option String := (r.podSpec.at "serviceAccountName").text?

namespace Workload

variable {f : Workload → Workload}

/-- Pods run under the account that the workload names. -/
theorem text?_serviceAccountName (w : Workload) (mode : StorageMode) (notes : Assoc String) :
    (((w.podTemplate mode notes).at "spec").at "serviceAccountName").text? = w.serviceAccount := by
  rw [Value.at, (w.field?_podSpec mode notes).1]
  cases w.serviceAccount <;> rfl

/-- A setting names the account of the pods, or leaves it as it is. -/
theorem IsSetting.names_or_keeps_account (hf : IsSetting f) :
    (∃ name, f = (·.withServiceAccountName name)) ∨
      ∀ w, (f w).serviceAccount = w.serviceAccount := by
  cases hf with
  | serviceAccountName name => exact .inl ⟨name, rfl⟩
  | _ => exact .inr fun _ => rfl

/-- The account of the pods is the text that its field has. -/
theorem yields_serviceAccount : fields.Yields fun entries w =>
    ∀ name, w.serviceAccount = some name ↔ entries.get? "serviceAccount" = some (.text name) := by
  unfold fields
  refine .init <| .init <| Fields.Yields.seq (F := fun _ g => ∀ account selector restart,
    (g account selector restart).serviceAccount = account) ?_ Fields.yields_optionalText ?_
  · repeat with_reducible refine .init ?_
    refine .map fun _ _ _ _ => ?_
    repeat intro
    rfl
  · intro entries g account hg haccount selector restart
    rw [hg]
    exact haccount

end Workload

/-- An account is read with the name that is given. -/
theorem ServiceAccount.name_of_decode {src : Source} {v : Value} {x : ServiceAccount}
    (h : codec.decode src v = .ok x) :
    ∃ given : Assoc Value, v = .mapping given ∧ given.get? "name" = some (.text x.info.name) := by
  obtain ⟨given, rfl, hread⟩ := Codec.decode_mapping_eq_ok_iff.mp h
  refine ⟨given, rfl, ?_⟩
  refine Fields.Yields.init
    (P := fun entries x => Assoc.get? entries "name" = some (.text x.info.name))
    (.init (.map ?_)) _ _ _ hread
  exact (Fields.yields_part Meta.yields_name).mono fun _ _ h _ _ => h

namespace App

variable {files : FileTree} {rs : List Record} {a : App} {x : ServiceAccount} {f : App → App}

/-- The pods run under the account that is made for them, if one is made. -/
def Coupled (a : App) : Prop :=
  ∀ x, a.managedServiceAccount = some x → a.workload.serviceAccount = some x.info.name

theorem coupled_iff (hx : a.managedServiceAccount = some x) :
    a.Coupled ↔ a.workload.serviceAccount = some x.info.name := by
  constructor
  · intro h
    exact h x hx
  · intro h y hy
    obtain rfl := Option.some.inj (hx.symm.trans hy)
    exact h

/-! ### Applications that are set up -/

/-- The setting names an account for the pods and makes none. -/
def NamesAccount (f : App → App) : Prop :=
  ∃ name, f = (·.mapWorkload (·.withServiceAccountName name))

theorem not_namesAccount_withServiceAccount (x : ServiceAccount) :
    ¬ NamesAccount (·.withServiceAccount x) := by
  rintro ⟨name, h⟩
  have hmade := congrArg (fun f => (f (named "")).managedServiceAccount) h
  exact absurd hmade nofun

/-- What a setting does to the account of the pods: it names one, makes one and names it, or leaves
both as they are. -/
theorem IsSetting.account_cases (hf : IsSetting f) :
    NamesAccount f ∨ (∃ x, f = (·.withServiceAccount x)) ∨
      ∀ a, (f a).managedServiceAccount = a.managedServiceAccount ∧
        (f a).workload.serviceAccount = a.workload.serviceAccount := by
  cases hf with
  | serviceAccount hx => exact .inr (.inl ⟨_, rfl⟩)
  | workload hf =>
    obtain ⟨name, rfl⟩ | hkeeps := hf.names_or_keeps_account
    · exact .inl ⟨name, rfl⟩
    · exact .inr (.inr fun a => ⟨rfl, hkeeps a.workload⟩)
  | _ => exact .inr (.inr fun a => ⟨rfl, rfl⟩)

theorem coupled_named (name : String) : (named name).Coupled := nofun

theorem coupled_withServiceAccount (a : App) (x : ServiceAccount) :
    (a.withServiceAccount x).Coupled :=
  (coupled_iff rfl).mpr rfl

/-- Naming an account by hand is right only if it is the one that is made. -/
theorem coupled_withServiceAccountName_iff (hx : a.managedServiceAccount = some x) {name : String} :
    (a.mapWorkload (·.withServiceAccountName name)).Coupled ↔ name = x.info.name := by
  rw [coupled_iff (a := a.mapWorkload _) hx]
  exact Option.some_inj

/-- Every other setting keeps the pods under their account. -/
theorem IsSetting.coupled (hf : IsSetting f) (hnot : ¬ NamesAccount f) (h : a.Coupled) :
    (f a).Coupled := by
  obtain hnames | ⟨x, rfl⟩ | hkeeps := hf.account_cases
  · exact absurd hnames hnot
  · exact coupled_withServiceAccount a x
  · intro x hx
    obtain ⟨hmade, hnamed⟩ := hkeeps a
    rw [hnamed]
    exact h x (hmade ▸ hx)

/-- An application that is set up without naming an account by hand runs its pods under the account
that it makes. -/
theorem coupled_of_reached
    (h : Reached (fun a => ∃ name, a = named name) (fun f => IsSetting f ∧ ¬ NamesAccount f) a) :
    a.Coupled := by
  refine h.holds ?_ ?_
  · rintro _ ⟨name, rfl⟩
    exact coupled_named name
  · intro f a hf ha
    exact hf.1.coupled hf.2 ha

/-! ### Applications that are read -/

/-- Both accounts of an application are those that entries give. -/
structure AccountsGiven (entries : Assoc Value) (a : App) : Prop where
  named : ∀ name, a.workload.serviceAccount = some name ↔
    entries.get? "serviceAccount" = some (.text name)
  made : ∀ x, a.managedServiceAccount = some x → ∃ given : Assoc Value,
    entries.get? "managedServiceAccount" = some (.mapping given) ∧
      given.get? "name" = some (.text x.info.name)

theorem accountsGiven_of_decode {entries : Assoc Value}
    (h : Definition.decode Definition.types (.mapping entries) = .ok (.app a)) :
    a.AccountsGiven entries := by
  obtain ⟨_, ⟨⟩, hcodec | ⟨_, _, _, hgroup, -⟩⟩ := Definition.of_decode h
  · obtain ⟨_, ⟨⟩, hread⟩ := Codec.decode_mapping_eq_ok_iff.mp hcodec
    refine Fields.Yields.seq (P := AccountsGiven)
      (F := fun entries g => ∀ made, (g made).managedServiceAccount = made ∧
        ∀ name, (g made).workload.serviceAccount = some name ↔
          Assoc.get? entries "serviceAccount" = some (.text name))
      ?_ Fields.yields_optional ?_ _ _ _ hread
    · refine .init <| .init <| .init <| .init <| .init <| .init <| .map ?_
      refine (Fields.yields_part Workload.yields_serviceAccount).mono fun _ _ h => ?_
      intro _ _ _ _ _ _ made
      exact ⟨rfl, h⟩
    · intro entries g made hg hmade
      obtain ⟨hsame, hnamed⟩ := hg made
      refine ⟨hnamed, fun x hx => ?_⟩
      obtain ⟨v, src, hv, hdecode⟩ := hmade x (hsame ▸ hx)
      obtain ⟨given, rfl, hname⟩ := ServiceAccount.name_of_decode hdecode
      exact ⟨given, hv, hname⟩
  · exact absurd hgroup nofun

/-- An application that is read runs its pods under the account that it makes if the definition says
its name twice. -/
theorem coupled_iff_of_decode {entries : Assoc Value}
    (h : Definition.decode Definition.types (.mapping entries) = .ok (.app a))
    (hx : a.managedServiceAccount = some x) : ∃ given : Assoc Value,
      entries.get? "managedServiceAccount" = some (.mapping given) ∧
      (a.Coupled ↔ entries.get? "serviceAccount" = given.get? "name") := by
  have haccounts := accountsGiven_of_decode h
  obtain ⟨given, hgiven, hname⟩ := haccounts.made x hx
  refine ⟨given, hgiven, ?_⟩
  rw [hname, ← haccounts.named]
  exact coupled_iff hx

/-! ### The records -/

theorem podAccount?_deploymentRecord (a : App) (notes : Assoc String) :
    (a.deploymentRecord notes).podAccount? = a.workload.serviceAccount :=
  a.workload.text?_serviceAccountName .claims notes

/-- The account that is made is among the records. -/
theorem exists_account (h : a.records files = .ok rs) (hx : a.managedServiceAccount = some x) :
    ∃ account ∈ rs, account.kind = "ServiceAccount" ∧ account.name? = some x.info.name := by
  obtain ⟨notes, hcomposed⟩ := composed h
  have hnested : Definition.serviceAccount x ∈ a.nested := by
    simp [nested, attached, hx]
  obtain ⟨r, hr⟩ := hcomposed.generates _ hnested
  have hdescribes := Workload.describes_adoptRecord (hcomposed.isNested _ hnested).namespaced
    (hcomposed.describes hnested hr) a.workload.info.ns
  exact ⟨_, (hcomposed.mem_iff _).mpr (.inr ⟨_, hnested, r, hr, rfl⟩), hdescribes.kind_eq,
    hdescribes.name⟩

/-- An application that makes an account has one Deployment, and the record of the account. The pods
of the Deployment run under this account exactly if the workload names it. This holds of every
application that is set up without naming an account by hand, and is kept by naming the same one;
an application that is read has to give the name a second time, for its pods. -/
theorem pods_run_under_account (h : a.records files = .ok rs)
    (hx : a.managedServiceAccount = some x) :
    ∃ deployment ∈ rs, (∀ r ∈ rs, r.kind = "Deployment" ↔ r = deployment) ∧
      ∃ account ∈ rs, account.kind = "ServiceAccount" ∧ account.name? = some x.info.name ∧
        (deployment.podAccount? = account.name? ↔ a.Coupled) ∧
        (Reached (fun a => ∃ name, a = named name) (fun f => IsSetting f ∧ ¬ NamesAccount f) a →
          deployment.podAccount? = account.name?) ∧
        (∀ name, (a.mapWorkload (·.withServiceAccountName name)).Coupled ↔ name = x.info.name) ∧
        ∀ entries : Assoc Value,
          Definition.decode Definition.types (.mapping entries) = .ok (.app a) →
            ∃ given : Assoc Value,
              entries.get? "managedServiceAccount" = some (.mapping given) ∧
              (deployment.podAccount? = account.name? ↔
                entries.get? "serviceAccount" = given.get? "name") := by
  obtain ⟨notes, hdeployment⟩ := deployment_mem_iff h
  obtain ⟨hmem, hkind⟩ := (hdeployment _).mpr rfl
  obtain ⟨account, haccount, hkind', hname⟩ := exists_account h hx
  have hcoupled : (a.deploymentRecord notes).podAccount? = account.name? ↔ a.Coupled := by
    rw [podAccount?_deploymentRecord, hname, coupled_iff hx]
  refine ⟨_, hmem, ?_, account, haccount, hkind', hname, hcoupled, ?_,
    fun name => coupled_withServiceAccountName_iff hx, ?_⟩
  · intro r hr
    constructor
    · intro hr'
      exact (hdeployment r).mp ⟨hr, hr'⟩
    · rintro rfl
      exact hkind
  · intro hreached
    exact hcoupled.mpr (coupled_of_reached hreached)
  · intro entries hread
    obtain ⟨given, hgiven, hiff⟩ := coupled_iff_of_decode hread hx
    exact ⟨given, hgiven, hcoupled.trans hiff⟩

/-- An application that is set up, and one that is read and says the name of its account twice. -/
theorem pods_run_under_account_web :
    let web := (named "web").withServiceAccount (.named "web-sa")
    let entries : Assoc Value := [("type", .text "App"), ("name", .text "web"),
      ("serviceAccount", .text "web-sa"),
      ("managedServiceAccount", .mapping [("name", .text "web-sa")])]
    (∃ rs, web.records .empty = .ok rs ∧ ∃ deployment ∈ rs, deployment.kind = "Deployment" ∧
      ∃ account ∈ rs, account.name? = some "web-sa" ∧
        deployment.podAccount? = account.name?) ∧
    ∃ a, Definition.decode Definition.types (.mapping entries) = .ok (.app a) ∧
      ∃ rs, a.records .empty = .ok rs ∧ ∃ deployment ∈ rs, deployment.kind = "Deployment" ∧
        ∃ account ∈ rs, account.name? = some "web-sa" ∧
          deployment.podAccount? = account.name? := by
  intro web entries
  constructor
  · obtain ⟨rs, hrs⟩ : ∃ rs, web.records .empty = .ok rs := ⟨_, rfl⟩
    obtain ⟨deployment, hmem, honly, account, haccount, -, hname, -, hreached, -⟩ :=
      pods_run_under_account hrs rfl
    have hnew : Reached (fun a => ∃ name, a = named name) (fun f => IsSetting f ∧ ¬ NamesAccount f)
        (named "web") := .new ⟨"web", rfl⟩
    have hsetting : IsSetting (·.withServiceAccount (.named "web-sa")) :=
      .serviceAccount (.new ⟨"web-sa", rfl⟩)
    have hset := Reached.set ⟨hsetting, not_namesAccount_withServiceAccount _⟩ hnew
    exact ⟨rs, hrs, deployment, hmem, (honly deployment hmem).mpr rfl, account, haccount, hname,
      hreached hset⟩
  · obtain ⟨a, x, rs, hread, hx, hsame, hrs⟩ : ∃ a x rs,
        Definition.decode Definition.types (.mapping entries) = .ok (.app a) ∧
        a.managedServiceAccount = some x ∧ x.info.name = "web-sa" ∧
        a.records .empty = .ok rs := ⟨_, _, _, rfl, rfl, rfl, rfl⟩
    obtain ⟨deployment, hmem, honly, account, haccount, -, hname, -, -, -, hdecoded⟩ :=
      pods_run_under_account hrs hx
    obtain ⟨given, hgiven, hiff⟩ := hdecoded entries hread
    obtain rfl : [("name", .text "web-sa")] = given :=
      Value.mapping.inj (Option.some.inj hgiven)
    exact ⟨a, hread, rs, hrs, deployment, hmem, (honly deployment hmem).mpr rfl, account, haccount,
      hsame ▸ hname, hiff.mpr rfl⟩

/-- An application that is read and gives the name of its account only where the account is made.
Its pods run under no account of that name. -/
theorem not_pods_run_under_account_web :
    let entries : Assoc Value := [("type", .text "App"), ("name", .text "web"),
      ("image", .text "nginx:1.25"),
      ("managedServiceAccount", .mapping [("name", .text "web-sa")])]
    ∃ a rs, Definition.decode Definition.types (.mapping entries) = .ok (.app a) ∧
      a.records .empty = .ok rs ∧
      ∃ deployment ∈ rs, deployment.kind = "Deployment" ∧ deployment.podAccount? = none ∧
        ∃ account ∈ rs, account.kind = "ServiceAccount" ∧ account.name? = some "web-sa" := by
  intro entries
  obtain ⟨a, x, rs, hread, hx, hsame, hnone, hrs⟩ : ∃ a x rs,
      Definition.decode Definition.types (.mapping entries) = .ok (.app a) ∧
      a.managedServiceAccount = some x ∧ x.info.name = "web-sa" ∧
      a.workload.serviceAccount = none ∧ a.records .empty = .ok rs :=
    ⟨_, _, _, rfl, rfl, rfl, rfl, rfl⟩
  obtain ⟨notes, hdeployment⟩ := deployment_mem_iff hrs
  obtain ⟨hmem, hkind⟩ := (hdeployment _).mpr rfl
  obtain ⟨account, haccount, hkind', hname⟩ := exists_account hrs hx
  exact ⟨a, rs, hread, hrs, _, hmem, hkind, (podAccount?_deploymentRecord a notes).trans hnone,
    account, haccount, hkind', hsame ▸ hname⟩

end App

end Rollout
