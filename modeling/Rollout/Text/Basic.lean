/-!
# Texts by their characters

The classes of Unicode that decide where a text is trimmed, where it is cut into
words, which characters a file name may not hold, and which ones a message escapes.
-/

namespace Rollout.Text

/-- White space as Unicode's property `White_Space` lists it. -/
def isBlank (c : Char) : Bool :=
  let n := c.toNat
  (0x09 ≤ n && n ≤ 0x0d) || n == 0x20 || n == 0x85 || n == 0xa0 || n == 0x1680 ||
    (0x2000 ≤ n && n ≤ 0x200a) || n == 0x2028 || n == 0x2029 || n == 0x202f ||
    n == 0x205f || n == 0x3000

/-- A control character: Unicode's general category `Cc`. -/
def isControl (c : Char) : Bool :=
  c.toNat < 0x20 || (0x7f ≤ c.toNat && c.toNat < 0xa0)

/-- Every blank of core's narrower class is a blank. -/
theorem isBlank_of_isWhitespace {c : Char} (h : c.isWhitespace = true) : isBlank c = true := by
  simp only [Char.isWhitespace, Bool.or_eq_true, decide_eq_true_eq] at h
  rcases h with ((rfl | rfl) | rfl) | rfl <;> decide

/-- The characters after the leading blanks. -/
def trimLeft (s : List Char) : List Char := s.dropWhile isBlank

/-- The characters before the trailing blanks. -/
def trimRight (s : List Char) : List Char := s.reverse.dropWhile isBlank |>.reverse

/-- The characters between the leading and the trailing blanks. -/
def trimmed (s : List Char) : List Char := trimRight (trimLeft s)

/-- Take the leading and the trailing blanks off a text. -/
def trim (s : String) : String := String.ofList (trimmed s.toList)

/-- Cut characters into the maximal runs of non-blanks. -/
def wordsOf : List Char → List (List Char)
  | [] => []
  | c :: cs =>
    if isBlank c then wordsOf cs
    else
      match cs, wordsOf cs with
      | [], _ => [[c]]
      | d :: _, ws =>
        if isBlank d then [c] :: ws
        else
          match ws with
          | [] => [[c]]
          | w :: ws => (c :: w) :: ws

/-- The words of a text: its maximal runs of non-blanks, in order. -/
def words (s : String) : List String := (wordsOf s.toList).map String.ofList

/-!
### Texts in messages

A text that a message quotes stands between double quotes, a character between single
ones. Quotes, backslashes and characters that cannot be seen are escaped.
-/

/-- Characters without a picture of their own: format characters, separators other than
the space, and private or unassigned places. -/
def isUnseen (c : Char) : Bool :=
  let n := c.toNat
  isControl c || n == 0xad || (0x600 ≤ n && n ≤ 0x605) || n == 0x61c || n == 0x6dd ||
    n == 0x70f || n == 0x1680 || n == 0x180e || (0x2000 ≤ n && n ≤ 0x200f) ||
    (0x2028 ≤ n && n ≤ 0x202f) || (0x205f ≤ n && n ≤ 0x206f) || n == 0x3000 || n == 0xa0 ||
    (0xe000 ≤ n && n ≤ 0xf8ff) || n == 0xfeff || (0xfff0 ≤ n && n ≤ 0xfffb) || n == 0xffff ||
    n == 0xfffe || 0xe0000 ≤ n

/-- Marks that combine with the character before them. -/
def isCombining (c : Char) : Bool :=
  let n := c.toNat
  (0x300 ≤ n && n ≤ 0x36f) || (0x483 ≤ n && n ≤ 0x489) || (0x591 ≤ n && n ≤ 0x5bd) ||
    (0x1ab0 ≤ n && n ≤ 0x1aff) || (0x1dc0 ≤ n && n ≤ 0x1dff) || (0x20d0 ≤ n && n ≤ 0x20f0) ||
    (0xfe00 ≤ n && n ≤ 0xfe0f) || (0xfe20 ≤ n && n ≤ 0xfe2f)

/-- What stands for a character inside a text quoted by a mark. `first` says whether the
text begins with it. -/
def quotedChar (mark : Char) (first : Bool) (c : Char) : List Char :=
  match c with
  | '\\' => ['\\', '\\']
  | '\n' => ['\\', 'n']
  | '\r' => ['\\', 'r']
  | '\t' => ['\\', 't']
  | c =>
    if c = mark then ['\\', mark]
    else if c.toNat = 0 then ['\\', '0']
    else if isUnseen c || (first && isCombining c) then
      '\\' :: 'u' :: '\x7b' :: Nat.toDigits 16 c.toNat ++ ['\x7d']
    else [c]

/-- A text between double quotes. -/
def quoted (s : String) : String :=
  match s.toList with
  | [] => "\"\""
  | c :: cs =>
    String.ofList ('"' :: quotedChar '"' true c ++ cs.flatMap (quotedChar '"' false) ++ ['"'])

/-- A character between single quotes. -/
def quotedAlone (c : Char) : String :=
  String.ofList ('\'' :: quotedChar '\'' true c ++ ['\''])

end Rollout.Text
