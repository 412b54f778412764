import Rollout.Meta
import Rollout.Record.Basic
import Rollout.Workload.Container

/-!
# Access

Service accounts, the roles that grant permissions, and the bindings that give roles to
accounts, users and groups. Roles and bindings exist in one namespace or in the whole
cluster.
-/

namespace Rollout

/-- Where a role or a binding is valid. -/
inductive RoleScope where
  | namespaced
  | cluster
deriving DecidableEq

namespace RoleScope

/-- The kind of a role. -/
def roleKind : RoleScope → String
  | namespaced => "Role"
  | cluster => "ClusterRole"

/-- The kind of a binding. -/
def bindingKind : RoleScope → String
  | namespaced => "RoleBinding"
  | cluster => "ClusterRoleBinding"

/-- Whether records name a namespace. -/
def isNamespaced (s : RoleScope) : Bool := s == namespaced

end RoleScope

namespace Access

/-- The group of all that concerns access. -/
def apiGroup : String := "rbac.authorization.k8s.io"

/-- The version in which records concern access. -/
def apiVersion : String := "rbac.authorization.k8s.io/v1"

end Access

/-- A permission: verbs on resources of some groups. -/
structure PolicyRule where
  apiGroups : List String := []
  resources : List String
  verbs : List String
  resourceNames : List String := []
deriving DecidableEq

namespace PolicyRule

def codec : Codec PolicyRule :=
  .struct "PolicyRule" <|
    PolicyRule.mk <$> .defaulted "apiGroups" (·.apiGroups) (.list .text) []
      <*> .required "resources" (·.resources) (.list .text)
      <*> .required "verbs" (·.verbs) (.list .text)
      <*> .items "resourceNames" (·.resourceNames) .text

/-- Verbs on resources of one group. -/
def on (group : String) (resources verbs : List String) : PolicyRule :=
  { apiGroups := [group], resources, verbs }

/-- The verbs that only read. -/
def readOnly (group : String) (resources : List String) : PolicyRule :=
  on group resources ["get", "list", "watch"]

def toValue (r : PolicyRule) : Value :=
  .mapping <|
    [("apiGroups", .texts r.apiGroups), ("resources", .texts r.resources),
      ("verbs", .texts r.verbs)] ++
      textsEntry "resourceNames" r.resourceNames

end PolicyRule

/-- A set of permissions. -/
structure Role where
  info : Meta
  rules : List PolicyRule := []
deriving DecidableEq

namespace Role

/-- A role that grants nothing. -/
def named (name : String) : Role := { info := { name } }

def codec (scope : RoleScope) : Codec Role :=
  .mapping scope.roleKind <|
    Role.mk <$> .part (·.info) Meta.fields
      <*> .defaulted "rules" (·.rules) (.list PolicyRule.codec) []

def mapInfo (r : Role) (f : Meta → Meta) : Role := { r with info := f r.info }

def addRule (r : Role) (rule : PolicyRule) : Role := { r with rules := r.rules ++ [rule] }

def allow (r : Role) (group : String) (resources verbs : List String) : Role :=
  r.addRule (.on group resources verbs)

def records (scope : RoleScope) (r : Role) : List Record :=
  [⟨[("apiVersion", .text Access.apiVersion), ("kind", .text scope.roleKind),
    ("metadata", r.info.toValue scope.isNamespaced),
    ("rules", .list (r.rules.map PolicyRule.toValue))]⟩]

def problems (scope : RoleScope) (r : Role) : List String :=
  let kind := scope.roleKind
  let name := r.info.name
  r.info.problems kind ++
    (if r.rules.isEmpty then [s!"{kind} '{name}' grants nothing"] else []) ++
    (r.rules.filter fun rule => rule.verbs.isEmpty || rule.resources.isEmpty).map
      fun _ => s!"{kind} '{name}' has a rule without verbs or resources"

end Role

/-- What a subject is. -/
inductive SubjectKind where
  | serviceAccount
  | user
  | group
deriving DecidableEq

namespace SubjectKind

def name : SubjectKind → String
  | serviceAccount => "ServiceAccount"
  | user => "User"
  | group => "Group"

def codec : Codec SubjectKind := .choice [serviceAccount, user, group] name

end SubjectKind

/-- Whom a role is given to. The namespace is that of a service account; without one it
is the namespace of the binding. -/
structure Subject where
  kind : SubjectKind
  name : String
  ns : Option String := none
deriving DecidableEq

namespace Subject

def codec : Codec Subject :=
  .struct "Subject" <|
    Subject.mk <$> .required "kind" (·.kind) SubjectKind.codec
      <*> .required "name" (·.name) .text
      <*> .optional "namespace" (·.ns) .text

def serviceAccount (name : String) : Subject := { kind := .serviceAccount, name }

def user (name : String) : Subject := { kind := .user, name }

def group (name : String) : Subject := { kind := .group, name }

def inNamespace (s : Subject) (ns : String) : Subject := { s with ns := some ns }

/-- The subject in the record of a binding that lives in a namespace. -/
def toValue (bindingNamespace : String) (s : Subject) : Value :=
  .mapping
    [("kind", .text s.kind.name), ("name", .text s.name),
      match s.kind with
      | .serviceAccount => ("namespace", .text (s.ns.getD bindingNamespace))
      | .user | .group => ("apiGroup", .text Access.apiGroup)]

end Subject

/-- The role that a binding gives. -/
structure RoleRef where
  kind : String
  name : String
deriving DecidableEq

namespace RoleRef

def codec : Codec RoleRef :=
  .struct "RoleRef" <|
    RoleRef.mk <$> .required "kind" (·.kind) .text <*> .required "name" (·.name) .text

def role (name : String) : RoleRef := ⟨"Role", name⟩

def clusterRole (name : String) : RoleRef := ⟨"ClusterRole", name⟩

def toValue (r : RoleRef) : Value :=
  .mapping [("apiGroup", .text Access.apiGroup), ("kind", .text r.kind), ("name", .text r.name)]

end RoleRef

/-- A role given to subjects, in one record or in one for each of them. -/
structure Binding where
  info : Meta
  roleRef : RoleRef
  subjects : List Subject := []
  onePerSubject : Bool := false
deriving DecidableEq

namespace Binding

/-- A binding without subjects. -/
def named (name : String) (roleRef : RoleRef) : Binding := { info := { name }, roleRef }

def codec (scope : RoleScope) : Codec Binding :=
  .mapping scope.bindingKind <|
    Binding.mk <$> .part (·.info) Meta.fields
      <*> .required "roleRef" (·.roleRef) RoleRef.codec
      <*> .defaulted "subjects" (·.subjects) (.list Subject.codec) []
      <*> .defaulted "onePerSubject" (·.onePerSubject) .bool false

def mapInfo (b : Binding) (f : Meta → Meta) : Binding := { b with info := f b.info }

def addSubject (b : Binding) (s : Subject) : Binding := { b with subjects := b.subjects ++ [s] }

/-- The record with a name for some of the subjects. -/
def record (scope : RoleScope) (b : Binding) (name : String) (subjects : List Subject) : Record :=
  ⟨[("apiVersion", .text Access.apiVersion), ("kind", .text scope.bindingKind),
    ("metadata", b.info.toValueNamed name scope.isNamespaced), ("roleRef", b.roleRef.toValue),
    ("subjects", .list (subjects.map (Subject.toValue b.info.ns)))]⟩

def records (scope : RoleScope) (b : Binding) : List Record :=
  if b.onePerSubject && b.subjects.length > 1 then
    b.subjects.map fun s => b.record scope (b.info.name ++ "-" ++ s.name) [s]
  else [b.record scope b.info.name b.subjects]

def problems (scope : RoleScope) (b : Binding) : List String :=
  let kind := scope.bindingKind
  let name := b.info.name
  b.info.problems kind ++
    (if b.subjects.isEmpty then [s!"{kind} '{name}' has no subjects"] else []) ++
    if scope = .cluster ∧ b.roleRef.kind ≠ "ClusterRole" then
      [s!"{kind} '{name}' must reference a ClusterRole, not a {b.roleRef.kind}"]
    else []

end Binding

/-- The identity under which pods run. -/
structure ServiceAccount where
  info : Meta
  automountToken : Option Bool := none
  imagePullSecrets : List String := []
deriving DecidableEq

namespace ServiceAccount

/-- An account without settings. -/
def named (name : String) : ServiceAccount := { info := { name } }

def codec : Codec ServiceAccount :=
  .mapping "ServiceAccount" <|
    ServiceAccount.mk <$> .part (·.info) Meta.fields
      <*> .optional "automountToken" (·.automountToken) .bool
      <*> .items "imagePullSecrets" (·.imagePullSecrets) .text

def mapInfo (a : ServiceAccount) (f : Meta → Meta) : ServiceAccount := { a with info := f a.info }

def withAutomountToken (a : ServiceAccount) (automount : Bool) : ServiceAccount :=
  { a with automountToken := some automount }

def addImagePullSecret (a : ServiceAccount) (secret : String) : ServiceAccount :=
  { a with imagePullSecrets := a.imagePullSecrets ++ [secret] }

def records (a : ServiceAccount) : List Record :=
  [⟨[("apiVersion", .text "v1"), ("kind", .text "ServiceAccount"),
      ("metadata", a.info.toValue true)] ++
    optionEntry "automountServiceAccountToken" a.automountToken .bool ++
    listEntry "imagePullSecrets" (a.imagePullSecrets.map fun s => .mapping [("name", .text s)])⟩]

def problems (a : ServiceAccount) : List String := a.info.problems "ServiceAccount"

end ServiceAccount

end Rollout
