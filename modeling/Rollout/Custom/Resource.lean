import Rollout.Custom.Schema
import Rollout.Meta
import Rollout.Record.Basic

/-!
# Custom kinds

A kind of one's own: its definition, the controller that looks after its objects, and
the objects themselves.
-/

namespace Rollout

/-- Where objects of a custom kind live. -/
inductive CustomScope where
  | namespaced
  | cluster
deriving DecidableEq

namespace CustomScope

def name : CustomScope → String
  | namespaced => "Namespaced"
  | cluster => "Cluster"

def codec : Codec CustomScope := .choice [namespaced, cluster] name

end CustomScope

/-- What runs the controller of a custom kind. -/
structure Controller where
  image : String
  replicas : Nat := 1
  /-- Further groups and resources that it manages. -/
  manages : List (String × String) := []
deriving DecidableEq

namespace Controller

def codec : Codec Controller :=
  .struct "Controller" <|
    Controller.mk <$> .required "image" (·.image) .text
      <*> .defaulted "replicas" (·.replicas) .nat32 1
      <*> .items "manages" (·.manages) (.pair .text .text)

def withManaged (c : Controller) (group resource : String) : Controller :=
  { c with manages := c.manages ++ [(group, resource)] }

end Controller

/-- An object of a custom kind. -/
structure Instance where
  name : String
  ns : Option String := none
  spec : Value

namespace Instance

def codec : Codec Instance :=
  .struct "Instance" <|
    Instance.mk <$> .required "name" (·.name) .text
      <*> .optional "namespace" (·.ns) .text
      <*> .required "spec" (·.spec) .any

end Instance

/-- A custom kind with its controller and its objects. -/
structure CustomResource where
  info : Meta
  group : String
  version : String
  kind : String
  plural : String
  scope : CustomScope := .namespaced
  shortNames : List String := []
  properties : Assoc SchemaProperty := []
  statusSubresource : Bool := false
  controller : Option Controller := none
  instances : List Instance := []

namespace CustomResource

/-- A custom kind. Its name is the kind in lower case, and so is its plural with an `s`. -/
def ofKind (group version kind : String) : CustomResource :=
  { info := { name := kind.toLower }, group, version, kind, plural := kind.toLower ++ "s" }

def codec : Codec CustomResource :=
  .mapping "CustomResource" <|
    CustomResource.mk <$> .part (·.info) Meta.fields
      <*> .required "group" (·.group) .text
      <*> .required "version" (·.version) .text
      <*> .required "kind" (·.kind) .text
      <*> .required "plural" (·.plural) .text
      <*> .defaulted "scope" (·.scope) CustomScope.codec .namespaced
      <*> .items "shortNames" (·.shortNames) .text
      <*> .orderedMap "properties" (·.properties) SchemaProperty.codec
      <*> .defaulted "statusSubresource" (·.statusSubresource) .bool false
      <*> .optional "controller" (·.controller) Controller.codec
      <*> .items "instances" (·.instances) Instance.codec

def mapInfo (c : CustomResource) (f : Meta → Meta) : CustomResource := { c with info := f c.info }

def withProperty (c : CustomResource) (name : String) (p : SchemaProperty) : CustomResource :=
  { c with properties := c.properties.insert name p }

def addInstance (c : CustomResource) (name : String) (spec : Value) : CustomResource :=
  { c with instances := c.instances ++ [{ name, spec }] }

/-- The name of the definition of the kind. -/
def definitionName (c : CustomResource) : String := c.plural ++ "." ++ c.group

/-- The version in which records of the kind are written. -/
def apiVersion (c : CustomResource) : String := c.group ++ "/" ++ c.version

/-- The schema of what the objects specify. -/
def specSchema (c : CustomResource) : Value := Schema.toValue c.properties

/-- A mapping that keeps whatever it is given. -/
def openObject : Value :=
  .mapping [("type", .text "object"), ("x-kubernetes-preserve-unknown-fields", .bool true)]

/-- The record that defines the kind. -/
def definitionRecord (c : CustomResource) : Record :=
  let properties := [("spec", c.specSchema)] ++
    if c.statusSubresource then [("status", openObject)] else []
  let version := [("name", .text c.version), ("served", .bool true), ("storage", .bool true),
      ("schema", .mapping [("openAPIV3Schema", .mapping
        [("type", .text "object"), ("properties", .mapping properties)])])] ++
    if c.statusSubresource then [("subresources", .mapping [("status", .empty)])] else []
  let names := [("kind", .text c.kind), ("plural", .text c.plural),
      ("singular", .text c.kind.toLower)] ++
    if c.shortNames.isEmpty then [] else [("shortNames", .texts c.shortNames)]
  ⟨[("apiVersion", .text "apiextensions.k8s.io/v1"), ("kind", .text "CustomResourceDefinition"),
    ("metadata", c.info.toValueNamed c.definitionName false),
    ("spec", .mapping [("group", .text c.group), ("names", .mapping names),
      ("scope", .text c.scope.name), ("versions", .list [.mapping version])])]⟩

/-- The name of all that belongs to the controller. -/
def controllerName (c : CustomResource) : String := c.kind.toLower ++ "-controller"

/-- The permission to manage resources of a group. -/
def managing (group : String) (resources : List String) : Value :=
  .mapping [("apiGroups", .texts [group]), ("resources", .texts resources),
    ("verbs", .texts ["get", "list", "watch", "create", "update", "patch", "delete"])]

/-- The labels of the pods of the controller. -/
def controllerPodLabels (c : CustomResource) : Assoc String :=
  c.info.allLabels.insertSorted Label.app c.controllerName
    |>.insertSorted Label.name c.controllerName |>.insertSorted Label.component "controller"

/-- The records of the controller: its account, its role, the binding of the two, and
what runs it. -/
def controllerRecords (c : CustomResource) (controller : Controller) : List Record :=
  let name := c.controllerName
  let group := "rbac.authorization.k8s.io"
  let rules := [managing c.group [c.plural, c.plural ++ "/status"],
      .mapping [("apiGroups", .texts [""]), ("resources", .texts ["events"]),
        ("verbs", .texts ["create", "patch"])]] ++
    controller.manages.map fun (group, resource) => managing group [resource]
  [⟨[("apiVersion", .text "v1"), ("kind", .text "ServiceAccount"),
      ("metadata", c.info.toValueNamed name true)]⟩,
    ⟨[("apiVersion", .text (group ++ "/v1")), ("kind", .text "ClusterRole"),
      ("metadata", c.info.toValueNamed name false), ("rules", .list rules)]⟩,
    ⟨[("apiVersion", .text (group ++ "/v1")), ("kind", .text "ClusterRoleBinding"),
      ("metadata", c.info.toValueNamed name false),
      ("roleRef", .mapping [("apiGroup", .text group), ("kind", .text "ClusterRole"),
        ("name", .text name)]),
      ("subjects", .list [.mapping [("kind", .text "ServiceAccount"), ("name", .text name),
        ("namespace", .text c.info.ns)]])]⟩,
    ⟨[("apiVersion", .text "apps/v1"), ("kind", .text "Deployment"),
      ("metadata", c.info.toValueNamed name true),
      ("spec", .mapping [("replicas", .nat controller.replicas),
        ("selector", .mapping [("matchLabels", .mapping [("app", .text name)])]),
        ("template", .mapping
          [("metadata", .mapping [("labels", .textMap c.controllerPodLabels)]),
            ("spec", .mapping [("serviceAccountName", .text name),
              ("containers", .list [.mapping [("name", .text "controller"),
                ("image", .text controller.image)]])])])])]⟩]

/-- The record of an object of the kind. -/
def instanceRecord (c : CustomResource) (i : Instance) : Record :=
  ⟨[("apiVersion", .text c.apiVersion), ("kind", .text c.kind),
    ("metadata", .mapping <|
      [("name", .text i.name)] ++
        (match c.scope with
        | .namespaced => [("namespace", .text (i.ns.getD c.info.ns))]
        | .cluster => []) ++
        [("labels", .textMap c.info.allLabels)]),
    ("spec", i.spec)]⟩

def records (c : CustomResource) : List Record :=
  c.definitionRecord :: (c.controller.map c.controllerRecords).getD [] ++
    c.instances.map c.instanceRecord

/-- Whether a kind is written as a word of letters and digits that begins with a capital. -/
def isKindName (kind : String) : Bool :=
  kind.toList.head?.any Char.isUpper && kind.toList.all Char.isAlphanum

def instanceProblems (c : CustomResource) (i : Instance) : List String :=
  let kind := c.kind
  Name.problems kind i.name Name.maxLength ++
    (Schema.violations c.properties i.spec).map fun v =>
      s!"{kind} '{i.name}' spec " ++ Schema.pathText v.path ++ ": " ++ v.message

def problems (c : CustomResource) : List String :=
  let kind := c.kind
  (if Name.isValidQualified c.group && c.group.toList.contains '.' then []
    else [s!"CustomResource '{kind}' group '{c.group}' must be a dotted domain"]) ++
  (if isKindName kind then [] else [s!"CustomResource kind '{kind}' must be UpperCamelCase"]) ++
  (if Name.isValidLabel c.plural then []
    else [s!"CustomResource '{kind}' plural '{c.plural}' must be a lowercase DNS label"]) ++
  c.instances.flatMap c.instanceProblems

end CustomResource

end Rollout
