import Rollout.Codec.Fields
import Rollout.Hcl.Basic
import Rollout.Meta

/-!
# Settings of a Terraform module

Variables, outputs and everything else that a module declares beside the resources for
records. The namespace of the module is the default of one of its variables.
-/

namespace Rollout

/-- An input of a module. -/
structure Variable where
  name : String
  typeText : String := "string"
  description : Option String := none
  /-- A variable without a default has to be given. -/
  default : Option Value := none
  sensitive : Bool := false
deriving DecidableEq

namespace Variable

def codec : Codec Variable :=
  .struct "Variable" <|
    Variable.mk <$> .required "name" (·.name) .text
      <*> .defaulted "type" (·.typeText) .text "string"
      <*> .optional "description" (·.description) .text
      <*> .optional "default" (·.default) .any
      <*> .defaulted "sensitive" (·.sensitive) .bool false

def isRequired (v : Variable) : Bool := v.default.isNone

/-- The value that stands for a variable without a default: the empty one of its type. -/
def emptyOfType (typeText : String) : Hcl :=
  if typeText = "number" then .int 0
  else if typeText = "bool" then .bool false
  else if ["list", "set", "tuple"].any (Text.startsWith typeText ·) then .list []
  else if ["map", "object"].any (Text.startsWith typeText ·) then .object []
  else .text ""

/-- A value as an example for users of the module. -/
def sample (v : Variable) : Hcl :=
  match v.default with
  | some value => .ofValue value
  | none => emptyOfType v.typeText

end Variable

/-- An output of a module. Its value is an expression. -/
structure ModuleOutput where
  name : String
  value : String
  description : Option String := none
  sensitive : Bool := false
deriving DecidableEq

def ModuleOutput.codec : Codec ModuleOutput :=
  .struct "Output" <|
    ModuleOutput.mk <$> .required "name" (·.name) .text
      <*> .required "value" (·.value) .text
      <*> .optional "description" (·.description) .text
      <*> .defaulted "sensitive" (·.sensitive) .bool false

/-- Data that a module looks up. Texts of its body may be expressions. -/
structure LookedUpData where
  typeName : String
  name : String
  body : Value := .null
deriving DecidableEq

def LookedUpData.codec : Codec LookedUpData :=
  .struct "DataSource" <|
    LookedUpData.mk <$> .required "type" (·.typeName) .text
      <*> .required "name" (·.name) .text
      <*> .defaulted "body" (·.body) .any .null

/-- The use of another module. Texts of its inputs may be expressions. -/
structure ModuleCall where
  name : String
  source : String
  version : Option String := none
  inputs : Assoc Value := []
deriving DecidableEq

def ModuleCall.codec : Codec ModuleCall :=
  .struct "ModuleCall" <|
    ModuleCall.mk <$> .required "name" (·.name) .text
      <*> .required "source" (·.source) .text
      <*> .optional "version" (·.version) .text
      <*> .defaulted "inputs" (·.inputs) (.ordered .any) []

/-- Where the state of a module is kept. -/
structure Backend where
  typeName : String
  config : Assoc Value := []
deriving DecidableEq

def Backend.codec : Codec Backend :=
  .struct "Backend" <|
    Backend.mk <$> .required "type" (·.typeName) .text
      <*> .defaulted "config" (·.config) (.ordered .any) []

/-- The settings of a module. -/
structure TerraformModule where
  ns : Option String := none
  inputs : List Variable := []
  outputs : List ModuleOutput := []
  locals : Assoc Value := []
  data : List LookedUpData := []
  modules : List ModuleCall := []
  backend : Option Backend := none
  providerVersion : String := "~> 2.23"
  requiredVersion : String := ">= 1.3"
deriving DecidableEq

namespace TerraformModule

def codec : Codec TerraformModule :=
  .struct "TerraformModule" <|
    TerraformModule.mk <$> .defaulted "namespace" (·.ns) (.option .text) none
      <*> .defaulted "variables" (·.inputs) (.list Variable.codec) []
      <*> .defaulted "outputs" (·.outputs) (.list ModuleOutput.codec) []
      <*> .defaulted "locals" (·.locals) (.ordered .any) []
      <*> .defaulted "dataSources" (·.data) (.list LookedUpData.codec) []
      <*> .defaulted "modules" (·.modules) (.list ModuleCall.codec) []
      <*> .defaulted "backend" (·.backend) (.option Backend.codec) none
      <*> .defaulted "providerVersion" (·.providerVersion) .text "~> 2.23"
      <*> .defaulted "requiredVersion" (·.requiredVersion) .text ">= 1.3"

/-- Set the namespace unless there is one. -/
def withDefaultNamespace (m : TerraformModule) (ns : String) : TerraformModule :=
  { m with ns := some (m.ns.getD ns) }

/-- The namespace whose records are bound to the variable. -/
def boundNamespace (m : TerraformModule) : String := m.ns.getD defaultNamespace

/-- The variables that every module has. -/
def standardVariables (m : TerraformModule) : List Variable :=
  [ { name := "namespace", description := some "Namespace the resources are created in"
      default := some (.text m.boundNamespace) },
    { name := "kubeconfig_path", description := some "Path to the kubeconfig file"
      default := some (.text "~/.kube/config") },
    { name := "kube_context"
      description := some "Kubeconfig context, empty for the current context"
      default := some (.text "") } ]

/-- All variables. A declared one takes the place of a standard one of the same name. -/
def allVariables (m : TerraformModule) : List Variable :=
  (m.standardVariables.filter fun v => !m.inputs.any (·.name == v.name)) ++ m.inputs

end TerraformModule

end Rollout
