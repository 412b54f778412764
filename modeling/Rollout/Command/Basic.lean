import Rollout.Command.Argument
import Rollout.Label

/-!
# Commands

What can be asked for on the command line, and how it is asked for.
-/

namespace Rollout

/-- Something to do with a definition file. -/
inductive Command where
  /-- Write every format below an output directory. -/
  | render (file output : String) (formats overrides : List String) (singleFile : Bool)
  /-- Print all records. -/
  | preview (file : String)
  /-- Tell what is wrong. -/
  | validate (file : String) (asJson strict : Bool)
  /-- Hand the manifests to a program that applies them. -/
  | apply (file : String) (dryRun : Bool) (kubectl : String)
  /-- Begin a definition file. -/
  | init (name output : String)
deriving DecidableEq

/-- What the arguments of the program ask for. -/
inductive Request where
  | run (c : Command)
  | print (text : String)
  | misuse
deriving DecidableEq

namespace Command

/-- The name of a definition file unless another one is given. -/
def defaultFile : String := "deckhand.yaml"

def fileOperand : Operand :=
  { name := "DEFINITION", help := "Definition file", default := some defaultFile }

def renderForm : CommandForm where
  name := "render"
  about := "Render the definition into output directories"
  operand := fileOperand
  options :=
    [ { name := "output", letter := some 'o', help := "Output directory", value := some "OUTPUT"
        default := some "dist", variableName := some "DECKHAND_OUTPUT" },
      { name := "format", letter := some 'f', value := some "FORMAT", isRepeatable := true
        help := "Formats to render (k8s, compose, helm, kustomize, terraform, all)"
        allowsEmpty := true },
      { name := "set", value := some "SET", isRepeatable := true, allowsEmpty := true
        help := "Set chart values on command line (key=value)" },
      { name := "single-file", help := "Write Kubernetes manifests into a single file" } ]

def previewForm : CommandForm where
  name := "preview"
  about := "Print the generated manifests to stdout"
  operand := fileOperand

def validateForm : CommandForm where
  name := "validate"
  about := "Check the definition and the records it generates"
  operand := fileOperand
  options :=
    [ { name := "json", help := "Output results as JSON" },
      { name := "strict", help := "Exit with an error when problems are found" } ]

def applyForm : CommandForm where
  name := "apply"
  about := "Render manifests and apply them with kubectl"
  operand := fileOperand
  options :=
    [ { name := "dry-run", help := "Print what would be applied without running kubectl" },
      { name := "kubectl", help := "kubectl binary to run", value := some "KUBECTL"
        default := some "kubectl", variableName := some "DECKHAND_KUBECTL", allowsEmpty := true } ]

def initForm : CommandForm where
  name := "init"
  about := "Create a starter definition file"
  operand := { name := "NAME", help := "Application name", allowsEmpty := true }
  options :=
    [ { name := "output", letter := some 'o', help := "Output directory", value := some "OUTPUT"
        default := some "." } ]

/-- All commands. -/
def forms : List CommandForm := [renderForm, previewForm, validateForm, applyForm, initForm]

/-- The command that its form and what was given for it describe. -/
def ofGiven (environment : Assoc String) (f : CommandForm) (g : Given) : Except Halt Command := do
  let operand ← g.operandOf f
  let value (name : String) : Except Halt String := g.valueOf environment f name
  match f.name with
  | "render" =>
    .ok (render operand (← value "output") (g.valuesOf "format") (g.valuesOf "set")
      (g.hasFlag "single-file"))
  | "preview" => .ok (preview operand)
  | "validate" => .ok (validate operand (g.hasFlag "json") (g.hasFlag "strict"))
  | "apply" => .ok (apply operand (g.hasFlag "dry-run") (← value "kubectl"))
  | _ => .ok (init operand (← value "output"))

end Command

namespace Request

/-- What the program says of itself. -/
def about : String :=
  "Render one deployment definition as Kubernetes, Compose, Helm, Kustomize or Terraform"

def helpText : String := Help.ofProgram Generator.name about Command.forms

/-- The version of the program, under the name of a part of it. -/
def versionText (name : String) : String := name ++ " " ++ Generator.version ++ "\n"

/-- What the arguments of a command ask for. -/
def ofCommand (environment : Assoc String) (f : CommandForm) (arguments : List String) : Request :=
  match (Given.ofArguments f arguments).bind (Command.ofGiven environment f) with
  | .ok c => run c
  | .error .help => print (Help.ofCommand Generator.name environment f)
  | .error .version => print (versionText (Generator.name ++ "-" ++ f.name))
  | .error .misuse => misuse

/-- What a call for help asks for. -/
def ofHelp (environment : Assoc String) : List String → Request
  | [] => print helpText
  | ["help"] => print (Help.ofHelp Generator.name)
  | [name] =>
    match Command.forms.find? (·.name = name) with
    | some f => print (Help.ofCommand Generator.name environment f)
    | none => misuse
  | _ => misuse

/-- What is asked for by the name of a command and its arguments. -/
def ofNamed (environment : Assoc String) : List String → Request
  | [] => misuse
  | "help" :: arguments => ofHelp environment arguments
  | name :: arguments =>
    match Command.forms.find? (·.name = name) with
    | some f => ofCommand environment f arguments
    | none => misuse

/-- What is asked for by what the options in front of a command say, else by the command. -/
def ofEvents (debug : Bool) (command : Request) : List ArgumentEvent → Request
  | [] => command
  | .flag o :: events =>
    if o.name = "help" then print helpText
    else if o.name = "version" then print (versionText Generator.name)
    else if debug then misuse
    else ofEvents true command events
  | _ => misuse

/-- What the arguments of the program ask for. -/
def ofArguments (environment : Assoc String) (arguments : List String) : Request :=
  let leading := arguments.takeWhile ArgumentEvent.isOption
  let options := leading.takeWhile (· ≠ "--")
  let command :=
    if options.length < leading.length then misuse
    else ofNamed environment (arguments.drop leading.length)
  ofEvents false command (ArgumentEvent.ofArguments [.debug, .help_, .version] options)

end Request

end Rollout
