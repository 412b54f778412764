import Rollout.Decimal.Style
import Rollout.Text.Split
import Rollout.Value.Basic

/-!
# Values of the configuration language HCL

They are those of a definition and, beside them, expressions that are written as they
are. A text is a literal unless it comes from a place where expressions are allowed and
has the form of one.
-/

namespace Rollout

/-- A value of HCL. -/
inductive Hcl where
  | null
  | bool (b : Bool)
  | int (n : Int)
  | double (x : Double)
  | text (s : String)
  /-- An expression, written without quotes. -/
  | expression (source : String)
  | list (items : List Hcl)
  | object (entries : List (String × Hcl))

namespace Hcl

instance : Inhabited Hcl := ⟨.null⟩

/-- The expression that a text of the form `$\x7b...\x7d` holds. -/
def placeholder? (s : String) : Option String :=
  (Text.dropStart? "$\x7b" s).bind (Text.dropEnd? "\x7d")

/-- A text where expressions are allowed. -/
def ofInputText (s : String) : Hcl :=
  match placeholder? s with
  | some source => .expression source
  | none => .text s

mutual

/-- A value in which each text is turned into what `ofText` makes of it. -/
def convert (ofText : String → Hcl) : Value → Hcl
  | .null => .null
  | .bool b => .bool b
  | .int n => .int n
  | .double x => .double x
  | .text s => ofText s
  | .list items => .list (convertItems ofText items)
  | .mapping entries => .object (convertEntries ofText entries)

def convertItems (ofText : String → Hcl) : List Value → List Hcl
  | [] => []
  | v :: vs => convert ofText v :: convertItems ofText vs

def convertEntries (ofText : String → Hcl) : List (String × Value) → List (String × Hcl)
  | [] => []
  | (k, v) :: rest => (k, convert ofText v) :: convertEntries ofText rest

end

/-- A value in which every text is a literal. -/
def ofValue (v : Value) : Hcl := convert .text v

/-- A value in which a text may be an expression. -/
def ofInput (v : Value) : Hcl := convert ofInputText v

/-- Whether a value is neither a list nor an object. -/
def isScalar : Hcl → Bool
  | list _ | object _ => false
  | _ => true

def isObject : Hcl → Bool
  | object _ => true
  | _ => false

/-- The entries of an object, and none of anything else. -/
def entries : Hcl → Assoc Hcl
  | object entries => entries
  | _ => []

/-- Texts as the entries of an object. -/
def textMap (m : Assoc String) : Hcl := .object (m.mapValues .text)

/-!
### Writing values

A list of scalars stands on one line; every other list and every object that is not
empty has a line for each of its items. Inside quotes, a dollar or percent sign before a
brace is doubled, so that no text opens a template.
-/

/-- What stands for a character inside quotes, given the one after it. -/
def quotedChar (c : Char) (next : Option Char) : List Char :=
  match c with
  | '"' => ['\\', '"']
  | '\\' => ['\\', '\\']
  | '\n' => ['\\', 'n']
  | '\r' => ['\\', 'r']
  | '\t' => ['\\', 't']
  | '$' => if next = some '\x7b' then ['$', '$'] else ['$']
  | '%' => if next = some '\x7b' then ['%', '%'] else ['%']
  | c => [c]

/-- What stands for a text inside quotes. -/
def quotedChars : List Char → List Char
  | [] => []
  | c :: rest => quotedChar c rest.head? ++ quotedChars rest

/-- A text between quotes. -/
def quoteChars (s : String) : List Char := '"' :: quotedChars s.toList ++ ['"']

/-- A text between quotes. -/
def quote (s : String) : String := String.ofList (quoteChars s)

/-- The blanks at the start of a line. -/
def indentation (level : Nat) : List Char := List.replicate (2 * level) ' '

mutual

/-- Write a value that begins on a line of some level. -/
def write (level : Nat) : Hcl → List Char
  | .null => "null".toList
  | .bool b => (if b then "true" else "false").toList
  | .int n => NumberStyle.int n
  | .double x => NumberStyle.json.write x
  | .text s => quoteChars s
  | .expression source => source.toList
  | .list items =>
    if items.all isScalar then '[' :: writeInline level items ++ [']']
    else '[' :: '\n' :: writeItems level items ++ indentation level ++ [']']
  | .object [] => ['\x7b', '\x7d']
  | .object entries =>
    '\x7b' :: '\n' :: writeEntries level entries ++ indentation level ++ ['\x7d']

/-- Write items on one line. -/
def writeInline (level : Nat) : List Hcl → List Char
  | [] => []
  | [v] => write level v
  | v :: vs => write level v ++ ',' :: ' ' :: writeInline level vs

/-- Write items on lines of their own, one level deeper. -/
def writeItems (level : Nat) : List Hcl → List Char
  | [] => []
  | v :: vs =>
    indentation (level + 1) ++ write (level + 1) v ++ ',' :: '\n' :: writeItems level vs

/-- Write entries on lines of their own, one level deeper. -/
def writeEntries (level : Nat) : List (String × Hcl) → List Char
  | [] => []
  | (key, v) :: rest =>
    indentation (level + 1) ++ quoteChars key ++ ' ' :: '=' :: ' ' :: write (level + 1) v ++
      '\n' :: writeEntries level rest

end

/-- The text of a value that begins on a line of some level. -/
def textAt (level : Nat) (v : Hcl) : String := String.ofList (write level v)

end Hcl

end Rollout
