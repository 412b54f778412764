import Rollout.Hcl.Basic
import Rollout.Text.Split

/-!
# Files of HCL

A file is a list of attributes, blocks, comments and blank lines, where blocks hold such
lists in turn. In the block for a record, objects become blocks, lists of objects become
one block for each item, and a fixed set of maps of scalars stay attributes.

Keys in camel case become words with underscores between them, and a block that stands
for one item of a list bears the singular of the list's name.
-/

namespace Rollout.Hcl

/-! ### Names of attributes and blocks -/

/-- Whether an upper-case letter begins a word, given the characters before and after it:
it follows a lower-case letter or a digit, or stands between an upper-case and a
lower-case letter. -/
def beginsWord (before after : Option Char) : Bool :=
  match before with
  | some p =>
    if p.isLower || p.isDigit then true
    else p.isUpper && after.any Char.isLower
  | none => false

/-- The characters that stand for one between two others. -/
def snakeChar (before : Option Char) (c : Char) (after : Option Char) : List Char :=
  if c.isUpper then
    if beginsWord before after then ['_', c.toLower] else [c.toLower]
  else if c = '-' || c = '.' then ['_']
  else [c]

/-- A key in lower case with underscores, given the character before it. -/
def snakeFrom : (before : Option Char) → List Char → List Char
  | _, [] => []
  | before, c :: rest => snakeChar before c rest.head? ++ snakeFrom (some c) rest

/-- A key in lower case with underscores. -/
def snakeCase (key : String) : String := String.ofList (snakeFrom none key.toList)

/-- The singular of a name. -/
def singular (name : String) : String :=
  match name with
  | "tls" | "image_pull_secrets" => name
  | "policies" => "policy"
  | "addresses" => "address"
  | _ =>
    match Text.dropEnd? "ies" name with
    | some stem => stem ++ "y"
    | none =>
      if Text.endsWith name "ss" then name
      else
        match Text.dropEnd? "s" name with
        | some stem => if stem.isEmpty then name else stem
        | none => name

/-- Whether a key can be written without quotes. -/
def isIdentifier (key : String) : Bool :=
  match key.toList with
  | [] => false
  | c :: cs =>
    (c.isAlpha || c = '_') && cs.all fun c => c.isAlphanum || c = '_' || c = '-'

/-! ### Items -/

/-- What a file or a block consists of. -/
inductive Item where
  | comment (said : String)
  | blank
  | attribute (key : String) (value : Hcl)
  | block (name : String) (labels : List String) (items : List Item)

/-- The keys whose objects stay attributes if they hold scalars alone. -/
def attributeMaps : List String :=
  ["labels", "annotations", "data", "string_data", "binary_data", "selector", "match_labels",
    "node_selector", "limits", "requests", "hard", "default", "default_request", "max", "min",
    "capacity", "parameters"]

/-- Whether an object under a key stays an attribute. -/
def isAttributeMap (key : String) (entries : Assoc Hcl) : Bool :=
  attributeMaps.contains key && entries.all fun (_, v) => v.isScalar

mutual

/-- What the block for a record consists of. -/
def recordItems : List (String × Hcl) → List Item
  | [] => []
  | (key, v) :: rest => entryItems (snakeCase key) v ++ recordItems rest

/-- What one entry of a record becomes. -/
def entryItems (key : String) : Hcl → List Item
  | .null => []
  | .object entries =>
    if isAttributeMap key entries then [.attribute key (.object entries)]
    else [.block key [] (recordItems entries)]
  | .list items =>
    if !items.isEmpty && items.all isObject then itemBlocks (singular key) items
    else [.attribute key (.list items)]
  | v => [.attribute key v]

/-- One block for each object of a list. -/
def itemBlocks (name : String) : List Hcl → List Item
  | [] => []
  | .object entries :: rest => .block name [] (recordItems entries) :: itemBlocks name rest
  | _ :: rest => itemBlocks name rest

end

namespace Item

/-- A line of some level. -/
def line (level : Nat) (chars : List Char) : List Char := indentation level ++ chars ++ ['\n']

/-- The key of an attribute, with quotes if it needs them. -/
def keyText (key : String) : List Char := if isIdentifier key then key.toList else quoteChars key

/-- The name of a block and its labels. -/
def header (name : String) (labels : List String) : List Char :=
  name.toList ++ labels.flatMap (fun label => ' ' :: quoteChars label) ++ [' ', '\x7b']

mutual

/-- Write an item on lines of some level. -/
def write (level : Nat) : Item → List Char
  | .comment said => line level ('#' :: ' ' :: said.toList)
  | .blank => ['\n']
  | .attribute key value => line level (keyText key ++ ' ' :: '=' :: ' ' :: Hcl.write level value)
  | .block name labels items =>
    line level (header name labels) ++ writeAll (level + 1) items ++ line level ['\x7d']

/-- Write items one after the other. -/
def writeAll (level : Nat) : List Item → List Char
  | [] => []
  | item :: items => write level item ++ writeAll level items

end

/-- The text of a file. -/
def text (items : List Item) : String := String.ofList (writeAll 0 items)

/-- Items with a blank line between each two. -/
def spaced : List Item → List Item
  | [] => []
  | [item] => [item]
  | item :: items => item :: .blank :: spaced items

end Item

end Rollout.Hcl
