import Rollout.Decimal.Style
import Rollout.Yaml.Character
import Rollout.Yaml.Scalar

/-!
# Writing YAML

Values as YAML texts in block style. The items of a list stand under the key of the
list, entries of a mapping two spaces further in. A text is written without quotes
where that reads back as the text, on lines of its own if it holds a line feed, and
else between single or, for characters that need an escape, double quotes.
-/

namespace Rollout.Yaml

/-- Characters that have a meaning of their own at the head of an unquoted text. -/
def isIndicator (c : Char) : Bool := "#,[]\x7b\x7d&*!|>'\"%@\x60".toList.contains c

/-- Whether what follows a character begins with a gap or is nothing. -/
def gapFollows (rest : List Char) : Bool := rest.head?.all isGap

/-- Whether a colon before a gap, or a hash sign after one, stands in a text.
`afterGap` says whether the character before the text is a gap. -/
def hasInnerIndicator : (afterGap : Bool) → List Char → Bool
  | _, [] => false
  | afterGap, c :: rest =>
    (c = ':' && gapFollows rest) || (c = '#' && afterGap) || hasInnerIndicator (isGap c) rest

/-- Whether a text could be taken for something else than a text where a value stands. -/
def hasIndicator (s : List Char) : Bool :=
  "---".toList.isPrefixOf s || "...".toList.isPrefixOf s ||
    match s with
    | [] => false
    | c :: rest =>
      isIndicator c || ((c = '?' || c = '-') && gapFollows rest) || hasInnerIndicator false s

/-- Whether two characters with given properties stand side by side. -/
def hasPair (first second : Char → Bool) : List Char → Bool
  | a :: b :: rest => (first a && second b) || hasPair first second (b :: rest)
  | _ => false

/-- The character of an indentation. -/
def isSpace (c : Char) : Bool := c = ' '

/-- Whether a text has a line end. -/
def isMultiline (s : List Char) : Bool := s.any isBreak

/-- Whether a text needs escapes: it holds a character that is not printable, or a line
of it ends in a space. -/
def needsEscape (s : List Char) : Bool :=
  s.any (!isPrintable ·) || hasPair isSpace isBreak s

/-- Whether a text may stand without quotes. -/
def allowsPlain (s : List Char) : Bool :=
  !hasIndicator s && !needsEscape s && !isMultiline s &&
    s.head? != some ' ' && s.getLast? != some ' '

/-- Whether a text may stand between single quotes. -/
def allowsSingle (s : List Char) : Bool := !needsEscape s && !hasPair isBreak isSpace s

/-- Whether a text may stand on lines of its own. -/
def allowsLiteral (s : List Char) : Bool :=
  !s.isEmpty && !needsEscape s && s.getLast? != some ' '

/-- How a text is written. -/
inductive Style where
  | plain
  | single
  | double
  | literal
deriving DecidableEq

/-- How a text is written where a value stands. -/
def styleOf (s : List Char) : Style :=
  if s.contains '\n' then if allowsLiteral s then .literal else .double
  else if readsAsText s && allowsPlain s then .plain
  else if allowsSingle s then .single
  else .double

/-- `size` hexadecimal digits in upper case for a number. -/
def hexDigits (size n : Nat) : List Char :=
  (List.range size).map fun i => (Nat.digitChar (n / Nat.pow 16 (size - 1 - i) % 16)).toUpper

/-- What stands for a character between double quotes. -/
def escape (c : Char) : List Char :=
  let n := c.toNat
  if isPrintable c && !isBreak c && c ≠ '"' && c ≠ '\\' then [c]
  else
    let letter : Option Char :=
      [(0x00, '0'), (0x07, 'a'), (0x08, 'b'), (0x09, 't'), (0x0a, 'n'), (0x0b, 'v'), (0x0c, 'f'),
        (0x0d, 'r'), (0x1b, 'e'), (0x22, '"'), (0x5c, '\\'), (0x85, 'N'), (0xa0, '_'),
        (0x2028, 'L'), (0x2029, 'P')].lookup n
    match letter with
    | some l => ['\\', l]
    | none =>
      if n ≤ 0xff then '\\' :: 'x' :: hexDigits 2 n
      else if n ≤ 0xffff then '\\' :: 'u' :: hexDigits 4 n
      else '\\' :: 'U' :: hexDigits 8 n

/-- The spaces of an indentation. -/
def spaces (n : Nat) : List Char := List.replicate n ' '

/-- Text between single quotes, where a quote is written twice. Characters after a line
end are indented; `fresh` says whether a line end came just before. -/
def singleBody (indent : Nat) : (fresh : Bool) → List Char → List Char
  | fresh, [] => if fresh then spaces indent else []
  | fresh, c :: rest =>
    if isBreak c then c :: singleBody indent true rest
    else
      (if fresh && !isSpace c then spaces indent else []) ++
        (if c = '\'' then ['\'', '\''] else [c]) ++
        singleBody indent (fresh && isSpace c) rest

/-- Text on lines of its own, each non-empty line indented. -/
def literalBody (indent : Nat) : (fresh : Bool) → List Char → List Char
  | _, [] => []
  | fresh, c :: rest =>
    if isBreak c then c :: literalBody indent true rest
    else (if fresh then spaces indent else []) ++ c :: literalBody indent false rest

/-- The marks that say where the indentation of such a text begins, if it begins with a
space or a line end, and what its last line ends are. -/
def literalMarks (s : List Char) : List Char :=
  (if s.head?.any (fun c => isSpace c || isBreak c) then ['2'] else []) ++
    match s.reverse with
    | [] => ['-']
    | [c] => if isBreak c then ['+'] else ['-']
    | c :: d :: _ => if !isBreak c then ['-'] else if isBreak d then ['+'] else []

/-- A text up to and with the end of its last line. Lines after the first are indented. -/
def textLine (indent : Nat) (s : List Char) : List Char :=
  match styleOf s with
  | .plain => s ++ ['\n']
  | .single => '\'' :: singleBody indent false s ++ ['\'', '\n']
  | .double => '"' :: s.flatMap escape ++ ['"', '\n']
  | .literal =>
    '|' :: literalMarks s ++ '\n' :: literalBody indent true s ++
      if s.getLast?.any isBreak then [] else ['\n']

/-- A scalar up to and with its line end. Lists and mappings have no line of this kind. -/
def scalarLine (indent : Nat) : Value → List Char
  | .null => "null\n".toList
  | .bool b => (if b then "true\n" else "false\n").toList
  | .int n => NumberStyle.int n ++ ['\n']
  | .double x => NumberStyle.yaml.write x ++ ['\n']
  | .text s => textLine indent s.toList
  | .list _ => "[]\n".toList
  | .mapping _ => "\x7b\x7d\n".toList

/-- Whether a key stands before its colon on one line; other keys are marked with `?`. -/
def isSimpleKey (key : String) : Bool :=
  !isMultiline key.toList && key.utf8ByteSize ≤ 128

/-- A simple key without its line end. -/
def keyText (key : String) : List Char := (textLine 0 key.toList).dropLast

mutual

/-- A value whose first line is already indented to a column. -/
def write (indent : Nat) : Value → List Char
  | .list items => if items.isEmpty then "[]\n".toList else writeItems indent false items
  | .mapping entries =>
    if entries.isEmpty then "\x7b\x7d\n".toList else writeEntries indent false entries
  | v => scalarLine indent v

/-- A value that follows its key at a column. -/
def writeUnderKey (indent : Nat) : Value → List Char
  | .list items =>
    if items.isEmpty then " []\n".toList else '\n' :: writeItems indent true items
  | .mapping entries =>
    if entries.isEmpty then " \x7b\x7d\n".toList else '\n' :: writeEntries (indent + 2) true entries
  | v => ' ' :: scalarLine (indent + 2) v

/-- Items at a column. `pad` says whether the first line still needs its indentation. -/
def writeItems (indent : Nat) (pad : Bool) : List Value → List Char
  | [] => []
  | v :: vs =>
    (if pad then spaces indent else []) ++ '-' :: ' ' :: write (indent + 2) v ++
      writeItems indent true vs

/-- Entries at a column. `pad` says whether the first line still needs its indentation. -/
def writeEntries (indent : Nat) (pad : Bool) : List (String × Value) → List Char
  | [] => []
  | (key, v) :: rest =>
    (if pad then spaces indent else []) ++
      (if isSimpleKey key then keyText key ++ ':' :: writeUnderKey indent v
      else
        '?' :: ' ' :: textLine (indent + 2) key.toList ++ spaces indent ++
          ':' :: ' ' :: write (indent + 2) v) ++
      writeEntries indent true rest

end

/-- The YAML document of a value. -/
def text (v : Value) : String :=
  String.ofList <|
    match v with
    | .list _ | .mapping _ => write 0 v
    | v => scalarLine 2 v

end Rollout.Yaml
