import Rollout.Text.Basic
import Rollout.Text.Split

/-!
# Names and schedules

Which texts may name an object of a cluster, and how a name is turned into a file name,
an identifier or the name of an environment variable. All checks rest on one grammar:
a *label* is a non-empty text of lower-case letters, digits and hyphens that neither
begins nor ends with a hyphen. A schedule is checked in the same way, field by field.
-/

namespace Rollout.Name

/-- The longest name in full, in bytes. -/
def maxLength : Nat := 253

/-- The longest label, in bytes. -/
def maxLabelLength : Nat := 63

/-- A lower-case letter or a digit, of ASCII. -/
def isLabelEdge (c : Char) : Bool := c.isLower || c.isDigit

/-- A character inside a label. -/
def isLabelChar (c : Char) : Bool := isLabelEdge c || c == '-'

/-- A label: non-empty, made of label characters, with no hyphen at either end. -/
def isLabelOf : List Char → Bool
  | [] => false
  | c :: cs => isLabelEdge c && cs.all isLabelChar && (c :: cs).getLast?.any isLabelEdge

/-- A text that is a label. -/
def isLabel (s : String) : Bool := isLabelOf s.toList

/-- A name that is valid both in a cluster and as a file name. -/
def isValid (s : String) : Bool := Text.byteLength s ≤ maxLength && isLabel s

/-- A label of the length that a namespace, Service or container name may have. -/
def isValidLabel (s : String) : Bool := Text.byteLength s ≤ maxLabelLength && isLabel s

/-- A dotted name, each part of it a label. -/
def isValidQualified (s : String) : Bool :=
  Text.byteLength s ≤ maxLength && (Text.partsOf '.' s.toList).all isLabelOf

/-- What is wrong with a name, in the words of a report on the thing it names. -/
def problems (what name : String) (max : Nat) : List String :=
  if name.isEmpty then [s!"{what} name must not be empty"]
  else
    let size := Text.byteLength name
    (if size > max then [s!"{what} name '{name}' is {size} characters long (max {max})"]
      else []) ++
    (if isLabel name then []
      else [s!"{what} name '{name}' must consist of lowercase alphanumerics and '-', " ++
        "and start and end with an alphanumeric"])

/-- Characters that a file name may not hold. -/
def isUnsafeInFile (c : Char) : Bool :=
  "/\\:*?\"<>| ".toList.contains c || Text.isControl c

/-- A file name for a name: every unsafe character becomes a hyphen. -/
def fileName (s : String) : String :=
  String.ofList (s.toList.map fun c => if isUnsafeInFile c then '-' else c)

/-- The characters of an identifier: letters and digits of ASCII stay, all else becomes an
underscore. -/
def identifierChars (s : List Char) : List Char :=
  s.map fun c => if c.isAlphanum then c else '_'

/-- An identifier for a name. It never begins with a digit. -/
def identifier (s : String) : String :=
  match identifierChars s.toList with
  | [] => ""
  | c :: cs => String.ofList (if c.isDigit then '_' :: c :: cs else c :: cs)

/-- The name of an environment variable for a name: upper-case letters, digits and
underscores. -/
def envVariable (s : String) : String :=
  String.ofList (s.toList.map fun c => if c.isAlphanum then c.toUpper else '_')

end Rollout.Name

/-!
### Schedules

A schedule has five fields: minute, hour, day of the month, month and day of the week.
Some common ones have a name of their own that begins with `@`.
-/

namespace Rollout.Schedule

/-- The named schedules, written out. -/
def named : List (String × String) :=
  [("@yearly", "0 0 1 1 *"), ("@annually", "0 0 1 1 *"), ("@monthly", "0 0 1 * *"),
    ("@weekly", "0 0 * * 0"), ("@daily", "0 0 * * *"), ("@midnight", "0 0 * * *"),
    ("@hourly", "0 * * * *")]

/-- A character that a field may hold. -/
def isFieldChar (c : Char) : Bool :=
  c.isAlphanum || "*/,?-#".toList.contains c

/-- A field: at least one character, each of them allowed. -/
def isField (s : List Char) : Bool := !s.isEmpty && s.all isFieldChar

/-- The form of a schedule with five fields joined by single spaces, if it has one. -/
def normalize? (schedule : String) : Option String :=
  let text := Text.trim schedule
  let fields := Text.wordsOf ((named.lookup text).getD text).toList
  if fields.length = 5 ∧ fields.all isField then
    some (String.ofList ([' '].intercalate fields))
  else none

end Rollout.Schedule
