import Rollout.Value.Basic
import Rollout.Decimal.Style

/-!
# Writing JSON

Values as JSON texts: on one line, or with one item or entry a line, each level indented
by two more spaces. A text is quoted; control characters, the quote and the backslash
are escaped.
-/

namespace Rollout.Json

/-- The characters that stand for a character inside a quoted text. -/
def escape (c : Char) : List Char :=
  if c = '"' then ['\\', '"']
  else if c = '\\' then ['\\', '\\']
  else if c = '\n' then ['\\', 'n']
  else if c = '\r' then ['\\', 'r']
  else if c = '\t' then ['\\', 't']
  else if c.toNat = 8 then ['\\', 'b']
  else if c.toNat = 12 then ['\\', 'f']
  else if c.toNat < 32 then
    ['\\', 'u', '0', '0', Nat.digitChar (c.toNat / 16), Nat.digitChar (c.toNat % 16)]
  else [c]

/-- A quoted text. -/
def quote (s : String) : List Char := '"' :: s.toList.flatMap escape ++ ['"']

/-- A scalar. Lists and mappings have no text here. -/
def scalar : Value → List Char
  | .null => "null".toList
  | .bool b => (if b then "true" else "false").toList
  | .int n => NumberStyle.int n
  | .double x => NumberStyle.json.write x
  | .text s => quote s
  | .list _ | .mapping _ => []

mutual

/-- A value on one line, followed by `rest`. -/
def write : Value → (rest : List Char) → List Char
  | .list items, rest => '[' :: writeItems items true (']' :: rest)
  | .mapping entries, rest => '{' :: writeEntries entries true ('}' :: rest)
  | v, rest => scalar v ++ rest

/-- Items with commas between them. -/
def writeItems : List Value → (first : Bool) → (rest : List Char) → List Char
  | [], _, rest => rest
  | v :: vs, first, rest =>
    (if first then [] else [',']) ++ write v (writeItems vs false rest)

/-- Entries with commas between them. -/
def writeEntries : List (String × Value) → (first : Bool) → (rest : List Char) → List Char
  | [], _, rest => rest
  | (k, v) :: entries, first, rest =>
    (if first then [] else [',']) ++ quote k ++ ':' :: write v (writeEntries entries false rest)

end

/-- The text of a value on one line. -/
def text (v : Value) : String := String.ofList (write v [])

/-- A line end and the indentation of a level. -/
def newline (level : Nat) : List Char := '\n' :: List.replicate (2 * level) ' '

mutual

/-- A value on lines of its own, at a level, followed by `rest`. -/
def writeLines : Value → (level : Nat) → (rest : List Char) → List Char
  | .list items, level, rest =>
    if items.isEmpty then '[' :: ']' :: rest
    else '[' :: writeItemLines items level true (newline level ++ ']' :: rest)
  | .mapping entries, level, rest =>
    if entries.isEmpty then '{' :: '}' :: rest
    else '{' :: writeEntryLines entries level true (newline level ++ '}' :: rest)
  | v, _, rest => scalar v ++ rest

/-- Items, each on a line of the next level. -/
def writeItemLines : List Value → (level : Nat) → (first : Bool) → (rest : List Char) → List Char
  | [], _, _, rest => rest
  | v :: vs, level, first, rest =>
    (if first then [] else [',']) ++ newline (level + 1) ++
      writeLines v (level + 1) (writeItemLines vs level false rest)

/-- Entries, each on a line of the next level. -/
def writeEntryLines :
    List (String × Value) → (level : Nat) → (first : Bool) → (rest : List Char) → List Char
  | [], _, _, rest => rest
  | (k, v) :: entries, level, first, rest =>
    (if first then [] else [',']) ++ newline (level + 1) ++ quote k ++ ':' :: ' ' ::
      writeLines v (level + 1) (writeEntryLines entries level false rest)

end

/-- The text of a value with one item or entry a line. -/
def textLines (v : Value) : String := String.ofList (writeLines v 0 [])

end Rollout.Json
