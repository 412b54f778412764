import Rollout.Assoc
import Rollout.Text.Split

/-!
# Arguments of commands

A command has options, some of which take a value, and at most one operand. What it takes
is described once; both the reading of its arguments and its help text follow from the
description.
-/

namespace Rollout

/-- An option of a command. -/
structure CommandOption where
  name : String
  /-- The letter that also stands for it. -/
  letter : Option Char := none
  help : String
  /-- What stands for its value in a help text, if it takes one. -/
  value : Option String := none
  default : Option String := none
  /-- The variable of the environment that gives its value if no argument does. -/
  variableName : Option String := none
  isRepeatable : Bool := false
  allowsEmpty : Bool := false

/-- The operand of a command. -/
structure Operand where
  name : String
  help : String
  default : Option String := none
  allowsEmpty : Bool := false

/-- What a command takes. -/
structure CommandForm where
  name : String
  about : String
  operand : Operand
  /-- Its options beside those that all commands have. -/
  options : List CommandOption := []

namespace CommandOption

/-- Tells more of what is done. -/
def debug : CommandOption := { name := "debug", help := "Enable debug output" }

def help_ : CommandOption := { name := "help", letter := some 'h', help := "Print help" }

def version : CommandOption := { name := "version", letter := some 'V', help := "Print version" }

end CommandOption

/-- All options of a command. -/
def CommandForm.allOptions (f : CommandForm) : List CommandOption :=
  .debug :: f.options ++ [.help_, .version]

/-- What an argument says. -/
inductive ArgumentEvent where
  | flag (o : CommandOption)
  | value (o : CommandOption) (given : String)
  | operand (given : String)
  /-- An option that is not known, or that has a value or none against its kind. -/
  | fault

namespace ArgumentEvent

/-- What letters after one dash say, and the option that takes its value from the next
argument. A letter that takes a value takes what follows it, less an equals sign. -/
def ofLetters (options : List CommandOption) :
    List Char → List ArgumentEvent × Option CommandOption
  | [] => ([], none)
  | c :: cs =>
    match options.find? (·.letter = some c) with
    | none => ([fault], none)
    | some o =>
      if o.value.isNone then
        let (events, last) := ofLetters options cs
        (flag o :: events, last)
      else
        match cs with
        | [] => ([], some o)
        | '=' :: given => ([value o (String.ofList given)], none)
        | given => ([value o (String.ofList given)], none)

/-- What a name after two dashes says, perhaps with a value after an equals sign. -/
def ofName (options : List CommandOption) (s : String) :
    List ArgumentEvent × Option CommandOption :=
  let (name, given) :=
    match Text.cutAt '=' s with
    | some (name, given) => (name, some given)
    | none => (s, none)
  match options.find? (·.name = name), given with
  | none, _ => ([fault], none)
  | some o, some given => ([if o.value.isSome then value o given else fault], none)
  | some o, none => if o.value.isSome then ([], some o) else ([flag o], none)

/-- Whether an argument is an option. One dash alone is none. -/
def isOption (s : String) : Bool := Text.startsWith s "-" && s != "-"

/-- What an argument says, if it is an option. -/
def ofOption (options : List CommandOption) (s : String) :
    List ArgumentEvent × Option CommandOption :=
  match s.toList with
  | '-' :: '-' :: name => ofName options (String.ofList name)
  | _ :: letters => ofLetters options letters
  | [] => ([], none)

/-- What arguments say, in order. After two dashes all are operands. -/
def ofArguments (options : List CommandOption) : List String → List ArgumentEvent
  | [] => []
  | s :: rest =>
    if s = "--" then rest.map operand
    else if isOption s then
      match ofOption options s, rest with
      | (events, none), rest => events ++ ofArguments options rest
      | (events, some o), given :: rest =>
        if isOption given then events ++ [fault]
        else events ++ value o given :: ofArguments options rest
      | (events, some _), [] => events ++ [fault]
    else operand s :: ofArguments options rest

end ArgumentEvent

/-- What the arguments of a command give. -/
structure Given where
  operand : Option String := none
  flags : List String := []
  /-- The values of options, in order. -/
  values : List (String × String) := []

/-- Why the arguments of a command give nothing to do. -/
inductive Halt where
  | help
  | version
  /-- The arguments are not those of a command. -/
  | misuse
deriving DecidableEq

namespace Given

/-- Take what one argument says. -/
def add (f : CommandForm) (g : Given) : ArgumentEvent → Except Halt Given
  | .flag o =>
    if o.name = "help" then .error .help
    else if o.name = "version" then .error .version
    else if g.flags.contains o.name then .error .misuse
    else .ok { g with flags := o.name :: g.flags }
  | .value o given =>
    let isRepeated := !o.isRepeatable && g.values.any (·.1 = o.name)
    if isRepeated || (given.isEmpty && !o.allowsEmpty) then .error .misuse
    else .ok { g with values := g.values ++ [(o.name, given)] }
  | .operand given =>
    if g.operand.isSome || (given.isEmpty && !f.operand.allowsEmpty) then .error .misuse
    else .ok { g with operand := some given }
  | .fault => .error .misuse

/-- What arguments give. -/
def ofArguments (f : CommandForm) (arguments : List String) : Except Halt Given :=
  (ArgumentEvent.ofArguments f.allOptions arguments).foldlM (add f) {}

/-- The operand, or its default. -/
def operandOf (g : Given) (f : CommandForm) : Except Halt String :=
  match g.operand.orElse fun _ => f.operand.default with
  | some s => .ok s
  | none => .error .misuse

def hasFlag (g : Given) (name : String) : Bool := g.flags.contains name

/-- All values of an option. -/
def valuesOf (g : Given) (name : String) : List String :=
  (g.values.filter (·.1 = name)).map (·.2)

/-- The value of an option: that of an argument, else that of the environment, else its
default. -/
def valueOf (g : Given) (environment : Assoc String) (f : CommandForm) (name : String) :
    Except Halt String :=
  let option := f.options.find? (·.name = name)
  match (g.valuesOf name).head?, option with
  | some given, _ => .ok given
  | none, some o =>
    match o.variableName.bind environment.get? with
    | some given => if given.isEmpty && !o.allowsEmpty then .error .misuse else .ok given
    | none => .ok (o.default.getD "")
  | none, none => .ok ""

end Given

end Rollout

/-!
### Help texts

The text that tells what a command takes: what it does, how it is called, and its operand
and options in two columns.
-/

namespace Rollout.Help

/-- Lines of two columns, the second of which begins two spaces after the widest entry of
the first. -/
def columns (rows : List (String × String)) : String :=
  let width := (rows.map fun row => row.1.length).foldl max 0
  String.join <| rows.map fun (left, right) =>
    "  " ++ left ++ String.ofList (List.replicate (width + 2 - left.length) ' ') ++ right ++ "\n"

/-- Remarks in brackets after the text of an entry. -/
def remarks (text : String) (all : List String) : String :=
  " ".intercalate (text :: all.map fun r => s!"[{r}]")

/-- What is told of a default. -/
def defaultRemark (default : Option String) : List String :=
  default.toList.map fun d => s!"default: {d}"

/-- The line of an option. -/
def optionRow (environment : Assoc String) (o : CommandOption) : String × String :=
  let letter :=
    match o.letter with
    | some c => s!"-{c}, "
    | none => "    "
  let value :=
    match o.value with
    | some v => s!" <{v}>"
    | none => ""
  let variableRemark := o.variableName.toList.map fun v =>
    let given := (environment.get? v).getD ""
    s!"env: {v}={given}"
  (letter ++ "--" ++ o.name ++ value, remarks o.help (variableRemark ++ defaultRemark o.default))

/-- The operand in a call: in brackets if there is a default. -/
def operandText (o : Operand) : String :=
  if o.default.isSome then s!"[{o.name}]" else s!"<{o.name}>"

/-- The help text of a command of a program. -/
def ofCommand (program : String) (environment : Assoc String) (f : CommandForm) : String :=
  let operand := operandText f.operand
  let name := f.name
  f.about ++ s!"\n\nUsage: {program} {name} [OPTIONS] {operand}\n\nArguments:\n" ++
    columns [(operand, remarks f.operand.help (defaultRemark f.operand.default))] ++
    "\nOptions:\n" ++ columns (f.allOptions.map (optionRow environment))

/-- The command that prints help texts, as it stands among the others. -/
def helpCommand : String × String :=
  ("help", "Print this message or the help of the given subcommand(s)")

/-- The help text of a program with several commands. -/
def ofProgram (program about : String) (forms : List CommandForm) : String :=
  about ++ s!"\n\nUsage: {program} [OPTIONS] <COMMAND>\n\nCommands:\n" ++
    columns ((forms.map fun f => (f.name, f.about)) ++ [helpCommand]) ++
    "\nOptions:\n" ++ columns ([.debug, .help_, .version].map (optionRow []))

/-- The help text of the command that prints help texts. -/
def ofHelp (program : String) : String :=
  helpCommand.2 ++ s!"\n\nUsage: {program} help [COMMAND]...\n\nArguments:\n" ++
    columns [("[COMMAND]...", "Print help for the subcommand(s)")]

end Rollout.Help
