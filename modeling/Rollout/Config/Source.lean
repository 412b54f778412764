import Rollout.Bytes.Basic
import Rollout.Codec.Tagged
import Rollout.Config.Template
import Rollout.FileTree
import Rollout.Json.Printer
import Rollout.Text.Basic
import Rollout.Text.Split
import Rollout.Yaml.Printer

/-!
# Sources of configuration data

The data of a ConfigMap or a Secret comes from sources: texts written in the definition,
structured data, templates and files. They are resolved one after the other into one map
of texts and one of other contents; a later source replaces what an earlier one gave for
the same key.
-/

/-!
### Environment files

One variable a line, `NAME=value`. Blank lines and lines that begin with `#` say
nothing, `export` may stand before the name, and a value may stand between quotes.
-/

namespace Rollout.EnvFile

/-- A value without the quotes around it, if the same quote stands at both ends. -/
def unquote (value : List Char) : List Char :=
  match value with
  | q :: rest =>
    if (q = '"' || q = '\'') && !rest.isEmpty && rest.getLast? == some q then rest.dropLast
    else value
  | [] => []

/-- The variable that a line sets. -/
def parseLine (line : List Char) : Option (String × String) :=
  let line := Text.trimmed line
  if line.isEmpty || line.head? == some '#' then none
  else
    let line := ("export ".toList.isPrefixOf? line).getD line
    match Text.cut '=' line with
    | none => none
    | some (key, value) =>
      let key := Text.trimmed key
      if key.isEmpty then none
      else some (String.ofList key, String.ofList (unquote (Text.trimmed value)))

/-- The variables that the lines of a text set, in order. -/
def parse (content : String) : List (String × String) :=
  (Text.linesOf content.toList).filterMap parseLine

end Rollout.EnvFile

namespace Rollout

/-- Why a source cannot be resolved. `owner` is the name of what the data belongs to. -/
inductive SourceError where
  | fileNotFound (owner path : String)
  | directoryNotFound (owner path : String)
  | unreadable (owner path : String) (fault : FileFault)

namespace SourceError

def message : SourceError → String
  | fileNotFound owner path => s!"{owner}: source file not found: {path}"
  | directoryNotFound owner path => s!"{owner}: source directory not found: {path}"
  | unreadable owner path fault => s!"{owner}: failed to read {path}: " ++ fault.message

/-- The path that was not there or could not be read. -/
def path : SourceError → String
  | fileNotFound _ path | directoryNotFound _ path | unreadable _ path _ => path

end SourceError

/-- What is done about files and directories that do not exist. -/
inductive MissingSources where
  /-- They are an error. -/
  | error
  /-- A comment that names the path stands in for their content. -/
  | placeholder
deriving DecidableEq

namespace MissingSources

def name : MissingSources → String
  | error => "error"
  | placeholder => "placeholder"

def codec : Codec MissingSources := .choice [error, placeholder] name

end MissingSources

/-- One source of data. -/
inductive DataSource where
  | literal (key value : String)
  | json (key : String) (value : Value)
  | yaml (key : String) (value : Value)
  | properties (key : String) (pairs : Assoc String)
  | ini (key : String) (sections : Assoc (Assoc String))
  | file (key : Option String) (path : String)
  | directory (path : String)
  | envFile (path : String)
  | template (key text : String) (vars : Assoc String)
  | binary (key : String) (data : Bytes)
  | binaryFile (key : Option String) (path : String)

namespace DataSource

/-- Paths of files. -/
def pathCodec : Codec String where
  encode := .text
  decode _
    | .text s => .ok s
    | v => .error (.wrongType v "path string")

/-- Contents as lists of numbers. -/
def bytesCodec : Codec Bytes :=
  (Codec.list .nat8).map (·.map UInt8.ofNat) (·.map UInt8.toNat)

/-- The forms of a source. -/
def variants : List (Variant DataSource) :=
  [ .ofFields "literal" "Literal"
      (fun | literal key value => some (key, value) | _ => none)
      (literal <$> .required "key" (·.1) .text <*> .required "value" (·.2) .text),
    .ofFields "json" "Json"
      (fun | json key value => some (key, value) | _ => none)
      (json <$> .required "key" (·.1) .text <*> .required "value" (·.2) .any),
    .ofFields "yaml" "Yaml"
      (fun | yaml key value => some (key, value) | _ => none)
      (yaml <$> .required "key" (·.1) .text <*> .required "value" (·.2) .any),
    .ofFields "properties" "Properties"
      (fun | properties key pairs => some (key, pairs) | _ => none)
      (properties <$> .required "key" (·.1) .text
        <*> .required "entries" (·.2) (.ordered .text)),
    .ofFields "ini" "Ini"
      (fun | ini key sections => some (key, sections) | _ => none)
      (ini <$> .required "key" (·.1) .text
        <*> .required "sections" (·.2) (.ordered (.ordered .text))),
    .ofFields "file" "File"
      (fun | file key path => some (key, path) | _ => none)
      (file <$> .optional "key" (·.1) .text <*> .required "path" (·.2) pathCodec),
    .ofFields "directory" "Directory"
      (fun | directory path => some path | _ => none)
      (directory <$> .required "path" id pathCodec),
    .ofFields "envFile" "EnvFile"
      (fun | envFile path => some path | _ => none)
      (envFile <$> .required "path" id pathCodec),
    .ofFields "template" "Template"
      (fun | template key text vars => some (key, text, vars) | _ => none)
      (template <$> .required "key" (·.1) .text <*> .required "template" (·.2.1) .text
        <*> .defaulted "vars" (·.2.2) (.ordered .text) []),
    .ofFields "binary" "Binary"
      (fun | binary key data => some (key, data) | _ => none)
      (binary <$> .required "key" (·.1) .text <*> .required "data" (·.2) bytesCodec),
    .ofFields "binaryFile" "BinaryFile"
      (fun | binaryFile key path => some (key, path) | _ => none)
      (binaryFile <$> .optional "key" (·.1) .text <*> .required "path" (·.2) pathCodec) ]

def codec : Codec DataSource := .tagged "DataSource" "source" variants

end DataSource

/-- Resolved data: texts, and contents that are none, each sorted by key. -/
structure ResolvedData where
  text : Assoc String := []
  binary : Assoc Bytes := []
deriving DecidableEq

namespace ResolvedData

def isEmpty (d : ResolvedData) : Bool := d.text.isEmpty && d.binary.isEmpty

/-- Give a key a text. -/
def insertText (d : ResolvedData) (key value : String) : ResolvedData :=
  ⟨d.text.insertSorted key value, d.binary.erase key⟩

/-- Give a key a content that is no text. -/
def insertBinary (d : ResolvedData) (key : String) (content : Bytes) : ResolvedData :=
  ⟨d.text.erase key, d.binary.insertSorted key content⟩

/-- Give a key the content of a file, as a text if it is one. -/
def insertContent (d : ResolvedData) (key : String) (content : Bytes) : ResolvedData :=
  match Bytes.text? content with
  | some text => d.insertText key text
  | none => d.insertBinary key content

/-- The texts as a value. -/
def textValue (d : ResolvedData) : Value := .textMap d.text

/-- The other contents as a value, in base 64. -/
def binaryValue (d : ResolvedData) : Value := .textMap (d.binary.mapValues Bytes.Base64.encode)

end ResolvedData

namespace DataSource

/-- The key of a file that is given none: its name. -/
def fileKey (path : String) : String := (FileTree.lastName? path).getD path

/-- The comment that stands in for something missing. -/
def placeholderText (what path : String) : String := s!"# {what} not found: {path}"

/-- One `key=value` line for each entry. -/
def propertiesText (pairs : Assoc String) : String :=
  String.join (pairs.map fun (k, v) => s!"{k}={v}\n")

/-- One section: its name in brackets and a line for each entry. -/
def sectionText (name : String) (pairs : Assoc String) : String :=
  s!"[{name}]\n" ++ String.join (pairs.map fun (k, v) => s!"{k} = {v}\n")

/-- Sections with blank lines between them. -/
def iniText (sections : Assoc (Assoc String)) : String :=
  "\n".intercalate (sections.map fun (name, pairs) => sectionText name pairs)

/-- The content of a file. A missing file has none where placeholders are allowed. -/
def readFile (files : FileTree) (owner : String) (policy : MissingSources) (path : String) :
    Except SourceError (Option Bytes) :=
  match files.read path with
  | .ok content => .ok (some content)
  | .error .notFound =>
    match policy with
    | .error => .error (.fileNotFound owner path)
    | .placeholder => .ok none
  | .error fault => .error (.unreadable owner path fault)

/-- What a source gives, in order: keys with texts, with contents that are always kept as
they are, or with contents of files. -/
inductive Contribution where
  | text (key value : String)
  | binary (key : String) (content : Bytes)
  | content (key : String) (content : Bytes)

/-- Add what a source gives to the data. -/
def Contribution.addTo (d : ResolvedData) : Contribution → ResolvedData
  | text key value => d.insertText key value
  | binary key bytes => d.insertBinary key bytes
  | content key bytes => d.insertContent key bytes

/-- What a source gives. -/
def contributions (files : FileTree) (owner : String) (policy : MissingSources) :
    DataSource → Except SourceError (List Contribution)
  | literal key value => .ok [.text key value]
  | json key value => .ok [.text key (Json.textLines value)]
  | yaml key value => .ok [.text key (Yaml.text value)]
  | properties key pairs => .ok [.text key (propertiesText pairs)]
  | ini key sections => .ok [.text key (iniText sections)]
  | template key text vars => .ok [.text key (Template.substitute text vars)]
  | binary key data => .ok [.binary key data]
  | file key path => do
    let key := key.getD (fileKey path)
    match ← readFile files owner policy path with
    | some content => .ok [.content key content]
    | none => .ok [.text key (placeholderText "file" path)]
  | binaryFile key path => do
    let key := key.getD (fileKey path)
    match ← readFile files owner policy path with
    | some content => .ok [.binary key content]
    | none => .ok [.text key (placeholderText "file" path)]
  | directory path =>
    if files.isDirectory path then
      .ok ((files.filesIn path).map fun (name, content) => .content name content)
    else
      match policy with
      | .error => .error (.directoryNotFound owner path)
      | .placeholder => .ok [.text (fileKey path) (placeholderText "directory" path)]
  | envFile path => do
    match ← readFile files owner policy path with
    | some content =>
      .ok ((EnvFile.parse (Bytes.lenientText content)).map fun (k, v) => .text k v)
    | none => .ok [.text (fileKey path) (placeholderText "env file" path)]

/-- Resolve sources in order. The first one that cannot be resolved is reported. -/
def resolve (files : FileTree) (owner : String) (policy : MissingSources)
    (sources : List DataSource) : Except SourceError ResolvedData := do
  let given ← sources.mapM (contributions files owner policy)
  .ok (given.flatten.foldl Contribution.addTo {})

end DataSource

end Rollout
