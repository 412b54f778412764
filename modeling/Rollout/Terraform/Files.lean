import Rollout.Json.Printer
import Rollout.Label
import Rollout.Output
import Rollout.Terraform.Block

/-!
# The files of a Terraform module

The resources, variables and outputs of a module each have a file, and so has every other
setting that is used. Two more files show how to use the module.
-/

namespace Rollout.Terraform

/-- A file of HCL below the standard comment. -/
def hclFile (path : String) (items : List Hcl.Item) : OutputFile :=
  .ofText path <| Hcl.Item.text <|
    .comment s!"Generated by {Generator.name} {Generator.version}. Do not edit by hand." ::
      .blank :: items

/-- An attribute that is left out if it is not given. -/
def optionItem {α : Type} (key : String) (value : Option α) (f : α → Hcl) : List Hcl.Item :=
  (value.map fun a => .attribute key (f a)).toList

/-- An attribute that is left out if it is false. -/
def flagItem (key : String) (value : Bool) : List Hcl.Item :=
  if value then [.attribute key (.bool true)] else []

def variableItem (v : Variable) : Hcl.Item :=
  .block "variable" [v.name] <|
    [.attribute "type" (.expression v.typeText)] ++
      optionItem "description" v.description .text ++ optionItem "default" v.default .ofValue ++
      flagItem "sensitive" v.sensitive

def outputItem (o : ModuleOutput) : Hcl.Item :=
  .block "output" [o.name] <|
    optionItem "description" o.description .text ++
      [.attribute "value" (.expression o.value)] ++ flagItem "sensitive" o.sensitive

def versionsItem (m : TerraformModule) : Hcl.Item :=
  .block "terraform" []
    [.attribute "required_version" (.text m.requiredVersion), .blank,
      .block "required_providers" []
        [.attribute "kubernetes" (Hcl.textMap
          [("source", "hashicorp/kubernetes"), ("version", m.providerVersion)])]]

def providerItem : Hcl.Item :=
  .block "provider" ["kubernetes"]
    [.attribute "config_path" (.expression "var.kubeconfig_path"),
      .attribute "config_context"
        (.expression "var.kube_context == \"\" ? null : var.kube_context")]

/-- Settings as attributes. -/
def attributes (f : Value → Hcl) (entries : Assoc Value) : List Hcl.Item :=
  entries.map fun (key, v) => .attribute key (f v)

def dataItem (d : LookedUpData) : Hcl.Item :=
  .block "data" [d.typeName, d.name] (Hcl.recordItems (Hcl.ofInput d.body).entries)

def moduleItem (c : ModuleCall) : Hcl.Item :=
  .block "module" [c.name] <|
    [.attribute "source" (.text c.source)] ++ optionItem "version" c.version .text ++
      (if c.inputs.isEmpty then [] else [.blank]) ++ attributes .ofInput c.inputs

def backendItem (b : Backend) : Hcl.Item :=
  .block "terraform" [] [.block "backend" [b.typeName] (attributes .ofValue b.config)]

/-- The lines by which a variable is set in an example. -/
def sampleLines (v : Variable) : String :=
  (v.description.map fun d => s!"# {d}\n").getD "" ++
    (if v.isRequired then "# (required)\n" else "") ++
    v.name ++ " = " ++ Hcl.textAt 0 v.sample ++ "\n\n"

/-! ### The description of the module -/

/-- A description in a table. -/
def descriptionCell (d : Option String) : String := d.getD "None"

/-- The default of a variable in a table. -/
def defaultCell (v : Variable) : String :=
  match v.default with
  | some value => "\x60" ++ Json.text value.sortKeys ++ "\x60"
  | none => "required"

def inputRow (v : Variable) : String :=
  s!"\n| \x60{v.name}\x60 | \x60{v.typeText}\x60 | {descriptionCell v.description} | " ++
    defaultCell v ++ " |"

def outputRow (o : ModuleOutput) : String :=
  s!"\n| \x60{o.name}\x60 | {descriptionCell o.description} |"

def resourceRow (b : Block) : String := s!"\n| \x60{b.resourceType}\x60 | \x60{b.label}\x60 |"

/-- The outputs of a module in its description. -/
def outputSection (outputs : List ModuleOutput) : String :=
  if outputs.isEmpty then "\n\nThis module has no outputs."
  else
    "\n\n| Name | Description |\n|------|-------------|" ++
      String.join (outputs.map outputRow)

/-- The description of a module, which stands in a directory. -/
def readme (name directory : String) (bs : List Block) (inputs : List Variable)
    (outputs : List ModuleOutput) : String :=
  let required := inputs.filter Variable.isRequired
  let label := Text.replace name "-" "_"
  s!"# {name}\n\nTerraform module generated by {Generator.name} {Generator.version} for the\n" ++
    s!"\x60{name}\x60 deployment.\n\n## Usage\n\n\x60\x60\x60hcl\nmodule \"{label}\" \x7b\n" ++
    s!"  source = \"./{directory}\"" ++
    String.join (required.map fun v => s!"\n  {v.name} = \"...\"") ++
    "\n\x7d\n\x60\x60\x60\n\n## Resources\n\n| Type | Name |\n|------|------|" ++
    String.join (bs.map resourceRow) ++
    "\n\n## Inputs\n\n| Name | Type | Description | Default |\n" ++
    "|------|------|-------------|---------|" ++
    String.join (inputs.map inputRow) ++
    "\n\n## Outputs" ++ outputSection outputs

/-- A file that is left out if its list is empty. -/
def fileOf {α : Type} (path : String) (xs : List α) (items : List Hcl.Item) : List OutputFile :=
  if xs.isEmpty then [] else [hclFile path items]

/-- The files of a module for records, which stands in a directory. -/
def files (m : TerraformModule) (name directory : String) (rs : List Record) : List OutputFile :=
  let bs := blocks m rs
  let inputs := m.allVariables
  let outputs := outputs m bs
  [hclFile "main.tf" (Hcl.Item.spaced (bs.map Block.item)),
    hclFile "variables.tf" (Hcl.Item.spaced (inputs.map variableItem)),
    hclFile "outputs.tf" (Hcl.Item.spaced (outputs.map outputItem)),
    hclFile "versions.tf" [versionsItem m], hclFile "providers.tf" [providerItem]] ++
    fileOf "locals.tf" m.locals [.block "locals" [] (attributes .ofInput m.locals)] ++
    fileOf "data.tf" m.data (Hcl.Item.spaced (m.data.map dataItem)) ++
    fileOf "modules.tf" m.modules (Hcl.Item.spaced (m.modules.map moduleItem)) ++
    fileOf "backend.tf" m.backend.toList (m.backend.toList.map backendItem) ++
    [.ofText "terraform.tfvars.example" (String.join (inputs.map sampleLines)),
      .ofText "README.md" (readme name directory bs inputs outputs)]

end Rollout.Terraform
