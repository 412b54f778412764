import Rollout.Yaml.Character

/-!
# Characters and their places

A text of YAML is read as a list of characters that know their line and column: the
depth of a block is the column at which it begins. The ways to end a line are told apart
no further here, except for the two separators that stay in the text.
-/

namespace Rollout.Yaml

/-- A character of a text, and where it stands. -/
structure Spot where
  char : Char
  line : Nat
  column : Nat
  /-- How many characters precede it. -/
  index : Nat

/-- What a character that ends a line stands for. -/
def lineEnd (c : Char) : Char := if c = '\u2028' || c = '\u2029' then c else '\n'

namespace Spot

/-- The characters of a text from a place on. -/
def list (line column index : Nat) : List Char → List Spot
  | [] => []
  | '\r' :: '\n' :: rest => ⟨'\n', line, column, index⟩ :: list (line + 1) 0 (index + 2) rest
  | c :: rest =>
    if isBreak c then ⟨lineEnd c, line, column, index⟩ :: list (line + 1) 0 (index + 1) rest
    else ⟨c, line, column, index⟩ :: list line (column + 1) (index + 1) rest

/-- The characters of a text. -/
def ofText (s : List Char) : List Spot := list 0 0 0 s

/-- The characters without their places. -/
def chars (s : List Spot) : List Char := s.map (·.char)

/-- Take the characters of a class off the head. -/
def takeWhile (p : Char → Bool) (s : List Spot) : List Char := chars (s.takeWhile (p ·.char))

/-- What follows the characters of a class at the head. -/
def dropWhile (p : Char → Bool) (s : List Spot) : List Spot := s.dropWhile (p ·.char)

/-- Whether the next character is of a class. -/
def nextIs (p : Char → Bool) : List Spot → Bool
  | s :: _ => p s.char
  | [] => false

/-- Whether a word ends here. -/
def endsWord : List Spot → Bool
  | s :: _ => isGap s.char
  | [] => true

/-- Whether a line ends here. -/
def endsLine : List Spot → Bool
  | s :: _ => isBreak s.char
  | [] => true

/-- Take blanks and a comment off the head. -/
def dropComment (s : List Spot) : List Spot :=
  let s := dropWhile isBlank s
  if nextIs (· = '#') s then dropWhile (!isBreak ·) s else s

/-- Whether a line consists of three times a character, up to the end of the word. -/
def isMark (c : Char) : List Spot → Bool
  | a :: b :: d :: rest =>
    a.column = 0 && a.char = c && b.char = c && d.char = c && endsWord rest
  | _ => false

/-- Whether a document begins or ends here. -/
def isDocumentMark (s : List Spot) : Bool := isMark '-' s || isMark '.' s

end Spot

end Rollout.Yaml
