/-!
# Cutting and joining texts

A text is cut at every occurrence of a character, at its first occurrence, or into
lines; occurrences of a text inside another are found from the left and do not overlap.
-/

namespace Rollout.Text

/-- Cut characters at every separator. There is one part more than there are separators. -/
def partsOf (sep : Char) : List Char → List (List Char)
  | [] => [[]]
  | c :: cs =>
    if c = sep then [] :: partsOf sep cs
    else
      match partsOf sep cs with
      | [] => [[c]]
      | w :: ws => (c :: w) :: ws

/-- The parts of a text between the occurrences of a character. -/
def parts (sep : Char) (s : String) : List String :=
  (partsOf sep s.toList).map String.ofList

theorem partsOf_ne_nil (sep : Char) (s : List Char) : partsOf sep s ≠ [] := by
  cases s with
  | nil => simp [partsOf]
  | cons c cs =>
    by_cases h : c = sep
    · simp [partsOf, h]
    · simp only [partsOf, h, if_false]
      split <;> simp

/-- What stands before and after the first occurrence of a character. -/
def cut (sep : Char) : List Char → Option (List Char × List Char)
  | [] => none
  | c :: cs => if c = sep then some ([], cs) else (cut sep cs).map fun (a, b) => (c :: a, b)

/-- `cut` on texts. -/
def cutAt (sep : Char) (s : String) : Option (String × String) :=
  (cut sep s.toList).map fun (a, b) => (String.ofList a, String.ofList b)

/-- What stands before and after the last occurrence of a character. -/
def cutLast (sep : Char) (s : String) : Option (String × String) :=
  (cut sep s.toList.reverse).map fun (a, b) => (String.ofList b.reverse, String.ofList a.reverse)

/-- Drop one trailing carriage return. -/
def dropReturn (line : List Char) : List Char :=
  match line.reverse with
  | '\r' :: rest => rest.reverse
  | _ => line

/-- The lines of a text. A line ends at a line feed or at the end of the text, which
opens no further line after a final line feed; one carriage return before the line feed
belongs to the line end. -/
def linesOf (s : List Char) : List (List Char) :=
  let pieces := partsOf '\n' s
  let last := pieces.getLastD []
  pieces.dropLast.map dropReturn ++ if last.isEmpty then [] else [last]

/-- `linesOf` on texts. -/
def lines (s : String) : List String := (linesOf s.toList).map String.ofList

/-- Whether one text begins with another. -/
def startsWith (s : String) (start : String) : Bool := start.toList.isPrefixOf s.toList

/-- Whether one text ends with another. -/
def endsWith (s : String) (ending : String) : Bool := ending.toList.isSuffixOf s.toList

/-- What follows `start` in a text that begins with it. -/
def dropStart? (start s : String) : Option String :=
  (start.toList.isPrefixOf? s.toList).map String.ofList

/-- What precedes `ending` in a text that ends with it. -/
def dropEnd? (ending s : String) : Option String :=
  (ending.toList.reverse.isPrefixOf? s.toList.reverse).map fun r => String.ofList r.reverse

/-- Whether one list of characters stands somewhere inside another. -/
def hasInside (inner : List Char) : List Char → Bool
  | [] => inner.isEmpty
  | c :: cs => inner.isPrefixOf (c :: cs) || hasInside inner cs

/-- Whether one text stands somewhere inside another. -/
def contains (s inner : String) : Bool := hasInside inner.toList s.toList

/-- Replace each occurrence of `old`, leaving out the next `skip` characters first. -/
def replaceFrom (old new : List Char) : Nat → List Char → List Char
  | _, [] => []
  | skip + 1, _ :: cs => replaceFrom old new skip cs
  | 0, c :: cs =>
    if old.isPrefixOf (c :: cs) then new ++ replaceFrom old new (old.length - 1) cs
    else c :: replaceFrom old new 0 cs

/-- Replace the occurrences of a non-empty text, found from the left without overlap. -/
def replace (s old new : String) : String :=
  String.ofList (replaceFrom old.toList new.toList 0 s.toList)

/-- The bytes a text takes in UTF-8, the unit in which lengths of names are limited. -/
def byteLength (s : String) : Nat := s.utf8ByteSize

end Rollout.Text
