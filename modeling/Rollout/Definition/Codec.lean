import Rollout.Definition.Basic

/-!
# Reading and writing definitions

A definition is a mapping whose field `type` names its type. A group lists the
definitions of its members; of its other fields those of another type than expected are
passed over.
-/

/-!
### Edit distance

How many insertions, deletions and replacements of one character turn one text into
another, computed row by row of the usual table.
-/

namespace Rollout.Text

/-- The next row of the table. `above` is the row so far without its first entry,
`corner` that entry, and `left` the entry just computed. -/
def nextRow (a : Char) : List Char → (corner left : Nat) → (above : List Nat) → List Nat
  | b :: bs, corner, left, up :: above =>
    let cost := if a = b then corner else corner + 1
    let here := min cost (min (up + 1) (left + 1))
    here :: nextRow a bs up here above
  | _, _, _, _ => []

/-- The table's last row for `s` against `t`, started from the row before `s`. -/
def distanceRow (t : List Char) : List Char → (row : List Nat) → List Nat
  | [], row => row
  | a :: s, row =>
    match row with
    | [] => []
    | corner :: above => distanceRow t s ((corner + 1) :: nextRow a t corner (corner + 1) above)

/-- The edit distance of two texts. -/
def distance (s t : String) : Nat :=
  (distanceRow t.toList s.toList (List.range (t.length + 1))).getLastD 0

end Rollout.Text

namespace Rollout

/-- Why a value is no definition. -/
inductive DefinitionError where
  /-- It does not name its type. Its own name is given if it has one. -/
  | untyped (name : Option String)
  /-- Its type is not known. -/
  | unknownType (given : String) (known : List String) (suggestion : Option String)
  /-- Its fields do not fit its type. -/
  | unreadable (name : Option String) (error : DecodeError)
  | namelessGroup
  | membersNotList

namespace DefinitionError

/-- The name of a definition in a message. -/
def named : Option String → String
  | some name => s!"definition '{name}'"
  | none => "definition"

def message : DefinitionError → String
  | untyped name => "Invalid definition: " ++ named name ++ " has no 'type' field"
  | unknownType given known _ =>
    let types := ", ".intercalate known
    s!"Unknown builder type '{given}' (known types: {types})"
  | unreadable name error => "Invalid definition: " ++ named name ++ ": " ++ error.message
  | namelessGroup => "Invalid definition: AppGroup definition has no 'name'"
  | membersNotList => "Invalid definition: AppGroup 'members' must be a list"

end DefinitionError

namespace Definition

/-- The names of all types, sorted. -/
def types : List String :=
  ["App", "AppGroup", "ClusterRole", "ClusterRoleBinding", "ConfigMap", "CronJob",
    "CustomResource", "Ingress", "Job", "Namespace", "NetworkPolicy", "Role", "RoleBinding",
    "Secret", "Service", "ServiceAccount", "StatefulApp"]

/-- The largest distance at which a type is suggested for a misspelt one. -/
def maxSuggestionDistance : Nat := 3

/-- The first of the pairs with the least number. -/
def nearest : List (Nat × String) → Option (Nat × String)
  | [] => none
  | p :: ps =>
    match nearest ps with
    | some q => if q.1 < p.1 then some q else some p
    | none => some p

/-- The type that was probably meant. One that differs in case alone comes first. -/
def suggestion? (known : List String) (given : String) : Option String :=
  match known.find? fun k => k.toLower == given.toLower with
  | some k => some k
  | none =>
    let near := (known.map fun k => (Text.distance given k, k)).filter
      fun p => p.1 ≤ maxSuggestionDistance
    (nearest near).map (·.2)

/-- Read the fields of a definition of any type but a group. -/
def decodeFields (typeName : String) (v : Value) : Option (Except DecodeError Definition) :=
  let as {α : Type} (c : Codec α) (f : α → Definition) : Option (Except DecodeError Definition) :=
    some ((c.decode .direct v).map f)
  match typeName with
  | "App" => as App.codec app
  | "StatefulApp" => as StatefulApp.codec statefulApp
  | "ConfigMap" => as ConfigMap.codec configMap
  | "Secret" => as Secret.codec secret
  | "Job" => as Job.codec job
  | "CronJob" => as CronJob.codec cronJob
  | "Service" => as Service.codec service
  | "Ingress" => as Ingress.codec ingress
  | "NetworkPolicy" => as NetworkPolicy.codec networkPolicy
  | "ServiceAccount" => as ServiceAccount.codec serviceAccount
  | "Role" => as (Role.codec .namespaced) (role .namespaced)
  | "ClusterRole" => as (Role.codec .cluster) (role .cluster)
  | "RoleBinding" => as (Binding.codec .namespaced) (binding .namespaced)
  | "ClusterRoleBinding" => as (Binding.codec .cluster) (binding .cluster)
  | "CustomResource" => as CustomResource.codec customResource
  | "Namespace" => as NamespaceDefinition.codec ofNamespace
  | _ => none

/-- The texts in a field, sorted by key; whatever else stands there is passed over. -/
def textEntries (fields : Assoc Value) (key : String) : Assoc String :=
  let entries := ((fields.get? key).map Value.entries).getD []
  Assoc.sorted (entries.filterMap fun (k, v) => v.text?.map (k, ·))

/-- The metadata of a group. -/
def groupInfo (fields : Assoc Value) (name : String) : Meta :=
  { name
    ns := ((fields.get? "namespace").bind Value.text?).getD defaultNamespace
    labels := textEntries fields "labels"
    annotations := textEntries fields "annotations" }

/-- The type that a value names, if it is one of the known types. -/
def typeOf (known : List String) (v : Value) : Except DefinitionError String :=
  match (v.field? "type").bind Value.text? with
  | none => .error (.untyped ((v.field? "name").bind Value.text?))
  | some typeName =>
    if known.contains typeName then .ok typeName
    else .error (.unknownType typeName known (suggestion? known typeName))

mutual

/-- Read a definition of one of the known types. -/
def decode (known : List String) : Value → Except DefinitionError Definition
  | .mapping fields => do
    let v := Value.mapping fields
    let typeName ← typeOf known v
    let name := (v.field? "name").bind Value.text?
    match decodeFields typeName v with
    | some (.ok d) => .ok d
    | some (.error e) => .error (.unreadable name e)
    | none =>
      match name with
      | none => .error .namelessGroup
      | some name =>
        let members ← decodeMembers known fields
        let create := ((v.field? "createNamespace").bind Value.bool?).getD false
        .ok (group (groupInfo fields name) members create)
  | v => do
    let _ ← typeOf known v
    .error .namelessGroup

/-- Read the members that the fields of a group list. -/
def decodeMembers (known : List String) :
    List (String × Value) → Except DefinitionError (List Definition)
  | [] => .ok []
  | (key, v) :: rest =>
    if key = "members" then
      match v with
      | .list items => decodeAll known items
      | _ => .error .membersNotList
    else decodeMembers known rest

/-- Read definitions one after the other. -/
def decodeAll (known : List String) : List Value → Except DefinitionError (List Definition)
  | [] => .ok []
  | v :: vs => do
    let d ← decode known v
    let ds ← decodeAll known vs
    .ok (d :: ds)

end

/-- The entries of a value behind the name of its type. -/
def tag (typeName : String) (v : Value) : Value := .mapping (("type", .text typeName) :: v.entries)

mutual

/-- Write a definition. -/
def encode : Definition → Value
  | app a => tag "App" (App.codec.encode a)
  | statefulApp a => tag "StatefulApp" (StatefulApp.codec.encode a)
  | configMap c => tag "ConfigMap" (ConfigMap.codec.encode c)
  | secret s => tag "Secret" (Secret.codec.encode s)
  | job j => tag "Job" (Job.codec.encode j)
  | cronJob j => tag "CronJob" (CronJob.codec.encode j)
  | service s => tag "Service" (Service.codec.encode s)
  | ingress i => tag "Ingress" (Ingress.codec.encode i)
  | networkPolicy p => tag "NetworkPolicy" (NetworkPolicy.codec.encode p)
  | serviceAccount a => tag "ServiceAccount" (ServiceAccount.codec.encode a)
  | role scope r => tag scope.roleKind ((Role.codec scope).encode r)
  | binding scope b => tag scope.bindingKind ((Binding.codec scope).encode b)
  | customResource c => tag "CustomResource" (CustomResource.codec.encode c)
  | ofNamespace n => tag "Namespace" (NamespaceDefinition.codec.encode n)
  | group info members create =>
    tag "AppGroup" <| .mapping <|
      Meta.fields.write info ++ (if create then [("createNamespace", .bool true)] else []) ++
        [("members", .list (encodeAll members))]

/-- Write definitions one after the other. -/
def encodeAll : List Definition → List Value
  | [] => []
  | d :: ds => encode d :: encodeAll ds

end

end Definition

end Rollout
