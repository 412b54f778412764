import Rollout.Proofs.Rendering.Scope

/-!
# Accounts and the bindings that name them

A binding names each account together with its namespace, that of the definition if the subject
was given none. So the records that are generated keep a binding and its account together. A
release then moves the account, but it leaves the subjects of the binding as they are: what it
installs has its role only if the release is in the namespace of the definition.
-/

namespace Rollout

/-- The account that a subject of a binding names. -/
def Value.account? (v : Value) : Option Identity :=
  if (v.at "kind").text? = some "ServiceAccount" then
    v.nameOf?.map (⟨"ServiceAccount", ·, (v.at "namespace").text?⟩)
  else none

namespace Record

/-- The subjects of a binding. -/
def subjects (r : Record) : List Value := (r.toValue.at "subjects").items

/-- The accounts to which a binding gives its role. -/
def accounts (r : Record) : List Identity := r.subjects.filterMap Value.account?

end Record

/-- The account that a subject stands for in a binding of some namespace. -/
def Subject.account? (bindingNamespace : String) (s : Subject) : Option Identity :=
  match s.kind with
  | .serviceAccount => some ⟨"ServiceAccount", s.name, some (s.ns.getD bindingNamespace)⟩
  | .user | .group => none

theorem Subject.account?_toValue (bindingNamespace : String) (s : Subject) :
    (s.toValue bindingNamespace).account? = s.account? bindingNamespace := by
  obtain ⟨kind, name, ns⟩ := s
  cases kind <;> rfl

theorem Subject.account?_eq_some_iff {bindingNamespace name ns : String} {s : Subject} :
    s.account? bindingNamespace = some ⟨"ServiceAccount", name, some ns⟩ ↔
      s.kind = .serviceAccount ∧ s.name = name ∧ s.ns.getD bindingNamespace = ns := by
  obtain ⟨kind, own, place⟩ := s
  cases kind <;> simp [account?]

namespace Binding

variable {scope : RoleScope} {b : Binding}

theorem accounts_record (scope : RoleScope) (b : Binding) (name : String)
    (subjects : List Subject) : (b.record scope name subjects).accounts =
      subjects.filterMap (Subject.account? b.info.ns) := by
  change (subjects.map (Subject.toValue b.info.ns)).filterMap Value.account? = _
  rw [List.filterMap_map]
  exact List.filterMap_congr fun s _ => s.account?_toValue b.info.ns

/-- In one record or in one for each, the subjects stand for the same accounts. -/
theorem flatMap_accounts_records (scope : RoleScope) (b : Binding) :
    (b.records scope).flatMap Record.accounts =
      b.subjects.filterMap (Subject.account? b.info.ns) := by
  unfold records
  split
  · rw [List.flatMap_map, List.filterMap_eq_flatMap_toList]
    refine List.flatMap_congr fun s _ => ?_
    rw [accounts_record]
    cases haccount : s.account? b.info.ns <;> simp [haccount]
  · rw [List.flatMap_singleton, accounts_record]

end Binding

namespace CustomResource

variable {c : CustomResource} {controller : Controller}

/-- The records of a custom kind with a controller begin with that of the kind, the account of the
controller, its role and the binding of the two, which names the account where it is. -/
theorem records_of_controller (h : c.controller = some controller) :
    ∃ account role binding rest,
      c.records = c.definitionRecord :: account :: role :: binding :: rest ∧
      account.Describes ⟨"ServiceAccount", c.controllerName, some c.info.ns⟩ ∧
      role.kind = "ClusterRole" ∧
      binding.Describes ⟨"ClusterRoleBinding", c.controllerName, none⟩ ∧
      binding.accounts = [account.identity] := by
  obtain ⟨account, role, binding, deployment, hfour, haccount, hrole, hbinding, haccounts⟩ :
      ∃ account role binding deployment,
        c.controllerRecords controller = [account, role, binding, deployment] ∧
        account.Describes (.placed "ServiceAccount" c.controllerName c.info.ns) ∧
        role.kind = "ClusterRole" ∧
        binding.Describes (.placed "ClusterRoleBinding" c.controllerName c.info.ns) ∧
        binding.accounts = [⟨"ServiceAccount", c.controllerName, some c.info.ns⟩] :=
    ⟨_, _, _, _, rfl, Record.describes_of_meta (by decide) (by decide) _ c.info _, rfl,
      Record.describes_of_meta (by decide) (by decide) _ c.info _, rfl⟩
  have hscope : Kind.isClusterScoped "ServiceAccount" = false := by decide
  rw [Identity.placed_of_namespaced hscope] at haccount
  refine ⟨account, role, binding, deployment :: c.instances.map c.instanceRecord, ?_, haccount,
    hrole, hbinding, by rw [haccounts, haccount.identity]⟩
  rw [records, h, Option.map_some, Option.getD_some, hfour]
  rfl

/-- The binding of the controller gives its role to the account. Both are of the name of the
controller and have templates in every chart, and that of the account is bound to the namespace of
the release. -/
structure Binds (c : CustomResource) (account binding : Record) : Prop where
  isAccount : account.Describes ⟨"ServiceAccount", c.controllerName, some c.info.ns⟩
  isBinding : binding.Describes ⟨"ClusterRoleBinding", c.controllerName, none⟩
  accounts : binding.accounts = [account.identity]
  copied : ∀ chart : Chart, ∀ r ∈ [account, binding],
    r ∈ chart.copiedRecords (Chart.Primary.find? (.customResource c) c.records) c.records
  line : Text.contains (Chart.recordText account) Chart.namespaceLine = true

theorem exists_binds (h : c.controller = some controller) :
    ∃ account ∈ c.records, ∃ binding ∈ c.records, c.Binds account binding := by
  obtain ⟨account, role, binding, rest, hrecords, haccount, hrole, hbinding, haccounts⟩ :=
    records_of_controller h
  have hnone : Chart.Primary.find? (.customResource c) c.records = none := rfl
  have hkind : c.definitionRecord.kind = "CustomResourceDefinition" := rfl
  have hscope : Kind.isClusterScoped "ServiceAccount" = false := by decide
  refine ⟨account, by simp [hrecords], binding, by simp [hrecords],
    { isAccount := haccount
      isBinding := hbinding
      accounts := haccounts
      copied := fun chart => ?_
      line := Chart.contains_recordText haccount hscope }⟩
  rw [hnone, hrecords]
  refine List.forall_mem_cons.mpr ⟨?_, List.forall_mem_singleton.mpr ?_⟩
  · refine Chart.mem_copiedRecords_none [c.definitionRecord] ?_ chart
    simp [hkind, haccount.kind_eq]
  · refine Chart.mem_copiedRecords_none [c.definitionRecord, account, role] ?_ chart
    simp [hkind, haccount.kind_eq, hrole, hbinding.kind_eq]

end CustomResource

namespace Chart

/-- A release leaves the subjects of a binding as they are. -/
theorem accounts_releasedIn (ns : String) (r : Record) :
    (releasedIn ns r).accounts = r.accounts := by
  have hfield : (releasedIn ns r).field? "subjects" = r.field? "subjects" :=
    field?_releasedIn (by decide) ns r
  have hsubjects : (releasedIn ns r).subjects = r.subjects :=
    congrArg (fun v : Option Value => (v.getD .null).items) hfield
  rw [Record.accounts, hsubjects, Record.accounts]

theorem flatMap_accounts_releasedIn (ns : String) (rs : List Record) :
    (rs.map (releasedIn ns)).flatMap Record.accounts = rs.flatMap Record.accounts := by
  rw [List.flatMap_map]
  exact List.flatMap_congr fun r _ => accounts_releasedIn ns r

/-- A release in a namespace moves the account of a controller there, and its binding names it only
if the custom kind was defined in this namespace. -/
theorem released_iff_of_binds {c : CustomResource} {account binding : Record}
    (h : c.Binds account binding) (ns : String) :
    (releasedIn ns account).Describes ⟨"ServiceAccount", c.controllerName, some ns⟩ ∧
      ((releasedIn ns account).identity ∈ (releasedIn ns binding).accounts ↔ c.info.ns = ns) := by
  have hreleased : (releasedIn ns account).Describes
      ⟨"ServiceAccount", c.controllerName, some ns⟩ := describes_releasedIn h.isAccount ns
  refine ⟨hreleased, ?_⟩
  rw [accounts_releasedIn, h.accounts, List.mem_singleton, hreleased.identity, h.isAccount.identity]
  simp [eq_comm]

/-- The binding of a controller names its account. A binding that is defined names an account for each
subject that is one, in its own namespace if the subject has none. A release moves the account of a
controller and the bindings of namespaces, but a binding goes on to name the accounts that it named
before. So it names the account that is installed only if the release is in the namespace of the
definition, or in one that a subject of this name was given. A template holds a record as a release
in the namespace of the mark would install it, and no valid namespace is the mark. -/
theorem account_released_iff (c : CustomResource) (scope : RoleScope) (b : Binding) (ns : String) :
    (∀ controller, c.controller = some controller →
      ∃ account ∈ c.records, ∃ binding ∈ c.records, c.Binds account binding ∧
        (releasedIn ns account).Describes ⟨"ServiceAccount", c.controllerName, some ns⟩ ∧
        ((releasedIn ns account).identity ∈ (releasedIn ns binding).accounts ↔ c.info.ns = ns)) ∧
    (∀ r ∈ b.records scope, ∃ name,
      r.Describes (.placed scope.bindingKind name b.info.ns) ∧
      (releasedIn ns r).Describes (.placed scope.bindingKind name ns)) ∧
    (b.records scope).flatMap Record.accounts =
      b.subjects.filterMap (Subject.account? b.info.ns) ∧
    (∀ s ∈ b.subjects, s.kind = .serviceAccount → s.ns = none →
      ⟨"ServiceAccount", s.name, some b.info.ns⟩ ∈ (b.records scope).flatMap Record.accounts ∧
      (⟨"ServiceAccount", s.name, some ns⟩ ∈
          ((b.records scope).map (releasedIn ns)).flatMap Record.accounts ↔
        ∃ t ∈ b.subjects, t.kind = .serviceAccount ∧ t.name = s.name ∧
          t.ns.getD b.info.ns = ns)) ∧
    boundRecord = releasedIn namespaceMark ∧ Name.isValidLabel namespaceMark = false := by
  refine ⟨fun controller h => ?_, fun r hr => ?_, b.flatMap_accounts_records scope,
    fun s hs hkind hns => ⟨?_, ?_⟩, rfl, by decide⟩
  · obtain ⟨account, haccount, binding, hbinding, hbinds⟩ := CustomResource.exists_binds h
    exact ⟨account, haccount, binding, hbinding, hbinds, released_iff_of_binds hbinds ns⟩
  · obtain ⟨name, -, hdescribes⟩ := Binding.describes_of_mem_records hr
    exact ⟨name, hdescribes, describes_releasedIn_placed hdescribes ns⟩
  · rw [b.flatMap_accounts_records scope]
    exact List.mem_filterMap.mpr
      ⟨s, hs, Subject.account?_eq_some_iff.mpr ⟨hkind, rfl, by rw [hns, Option.getD_none]⟩⟩
  · rw [flatMap_accounts_releasedIn, b.flatMap_accounts_records scope, List.mem_filterMap]
    exact exists_congr fun t => and_congr_right fun _ => Subject.account?_eq_some_iff

/-- A custom kind with a controller. -/
def backups : CustomResource :=
  { CustomResource.ofKind "platform.example" "v1" "Backup" with
    controller := some { image := "backups:1" } }

/-- A role that is given to an account. -/
def deploys : Binding :=
  (Binding.named "deploys" (.clusterRole "edit")).addSubject (.serviceAccount "ci")

theorem account_released_live :
    (∃ account ∈ backups.records, ∃ binding ∈ backups.records,
      account.identity ∈ binding.accounts ∧
      (releasedIn "live" account).identity ∉ (releasedIn "live" binding).accounts) ∧
    ⟨"ServiceAccount", "ci", some "live"⟩ ∉
      ((deploys.records .namespaced).map (releasedIn "live")).flatMap Record.accounts := by
  obtain ⟨hcontroller, -, -, hsubjects, -⟩ :=
    account_released_iff backups .namespaced deploys "live"
  obtain ⟨account, haccount, binding, hbinding, hbinds, -, hiff⟩ :=
    hcontroller { image := "backups:1" } rfl
  have hnone : ¬ ∃ t ∈ deploys.subjects, t.kind = .serviceAccount ∧ t.name = "ci" ∧
      t.ns.getD deploys.info.ns = "live" := by decide
  refine ⟨⟨account, haccount, binding, hbinding, hbinds.accounts ▸ List.mem_singleton_self _, ?_⟩,
    fun hmem => hnone ?_⟩
  · rw [hiff]
    decide
  · exact (hsubjects (.serviceAccount "ci") (List.mem_singleton_self _) rfl rfl).2.mp hmem

/-- In the templates, the account is in the namespace of the release, and the binding names one in
the default namespace. -/
theorem backups_bound :
    let account := backups.records.getD 1 default
    let binding := backups.records.getD 3 default
    account ∈ backups.records ∧ binding ∈ backups.records ∧ account.identity ∈ binding.accounts ∧
    (boundRecord account).identity =
      ⟨"ServiceAccount", "backup-controller", some namespaceMark⟩ ∧
    (boundRecord binding).accounts =
      [⟨"ServiceAccount", "backup-controller", some "default"⟩] ∧
    (boundRecord account).identity ∉ (boundRecord binding).accounts := by
  intro account binding
  refine ⟨List.mem_cons_of_mem _ List.mem_cons_self, ?_, ?_, ?_, ?_, ?_⟩ <;> decide +kernel

end Chart

end Rollout
