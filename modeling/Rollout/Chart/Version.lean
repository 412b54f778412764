import Rollout.Decimal.Reader
import Rollout.Text.Basic
import Rollout.Text.Split

/-!
# Versions of charts

A version is written as three numbers with dots between them. A hyphen may lead to
identifiers of a pre-release, and a plus sign to identifiers of a build. Numbers have no
leading zeros, also not those among the identifiers of a pre-release, so that every
version has one written form.
-/

namespace Rollout

/-- The parts of a version. -/
inductive VersionPart where
  | major
  | minor
  | patch
  | preRelease
  | build
deriving DecidableEq

def VersionPart.text : VersionPart → String
  | major => "major version number"
  | minor => "minor version number"
  | patch => "patch version number"
  | preRelease => "pre-release identifier"
  | build => "build metadata"

/-- Why a text is no version. -/
inductive VersionError where
  | empty
  /-- The text ends inside a part. -/
  | ends (part : VersionPart)
  /-- A character cannot stand in a part. -/
  | unexpected (c : Char) (part : VersionPart)
  /-- A character cannot follow a part. -/
  | trailing (c : Char) (part : VersionPart)
  | leadingZero (part : VersionPart)
  | tooLarge (part : VersionPart)
  | emptySegment (part : VersionPart)
deriving DecidableEq

def VersionError.message : VersionError → String
  | empty => "empty string, expected a semver version"
  | ends part => s!"unexpected end of input while parsing {part.text}"
  | unexpected c part =>
    s!"unexpected character {Text.quotedAlone c} while parsing {part.text}"
  | trailing c part => s!"unexpected character {Text.quotedAlone c} after {part.text}"
  | leadingZero part => s!"invalid leading zero in {part.text}"
  | tooLarge part => s!"value of {part.text} exceeds u64::MAX"
  | emptySegment part => s!"empty identifier segment in {part.text}"

/-- A version. The identifiers of a pre-release and of a build are empty if there are
none. -/
structure Version where
  major : Nat
  minor : Nat
  patch : Nat
  preRelease : String := ""
  build : String := ""
deriving DecidableEq

namespace Version

def text (v : Version) : String :=
  s!"{v.major}.{v.minor}.{v.patch}" ++
    (if v.preRelease.isEmpty then "" else "-" ++ v.preRelease) ++
    (if v.build.isEmpty then "" else "+" ++ v.build)

/-- Read the digits of a number. Of a leading zero and a number that is too large the one
met first is reported. -/
def readDigits (part : VersionPart) : (n : Nat) → (begun : Bool) → List Char →
    Except VersionError (Nat × Bool × List Char)
  | n, begun, c :: rest =>
    if c.isDigit then
      let next := n * 10 + (c.toNat - '0'.toNat)
      if n = 0 ∧ begun then .error (.leadingZero part)
      else if (next : Int) > maxUInt64 then .error (.tooLarge part)
      else readDigits part next true rest
    else .ok (n, begun, c :: rest)
  | n, begun, [] => .ok (n, begun, [])

/-- Read a number at the head of a text. -/
def readNumber (part : VersionPart) (s : List Char) : Except VersionError (Nat × List Char) := do
  let (n, begun, rest) ← readDigits part 0 false s
  if begun then .ok (n, rest)
  else
    match rest with
    | c :: _ => .error (.unexpected c part)
    | [] => .error (.ends part)

/-- Read the dot after a part. -/
def readDot (part : VersionPart) : List Char → Except VersionError (List Char)
  | '.' :: rest => .ok rest
  | c :: _ => .error (.trailing c part)
  | [] => .error (.ends part)

/-- The characters of identifiers. -/
def isIdentifierChar (c : Char) : Bool := c.isAlphanum || c = '-'

/-- Whether an identifier is a number of several digits that begins with zero. -/
def isZeroPadded (identifier : List Char) : Bool :=
  identifier.length > 1 && identifier.all Char.isDigit && identifier.head? == some '0'

/-- The leading characters of identifiers and the dots between them, and what follows. -/
def spanIdentifiers (s : List Char) : List Char × List Char :=
  s.span fun c => isIdentifierChar c || c = '.'

/-- Check identifiers from left to right. -/
def checkIdentifiers (part : VersionPart) : List (List Char) → Except VersionError Unit
  | [] => .ok ()
  | identifier :: rest =>
    if identifier.isEmpty then .error (.emptySegment part)
    else if part = .preRelease ∧ isZeroPadded identifier then .error (.leadingZero part)
    else checkIdentifiers part rest

/-- Read the identifiers that a mark leads to. There are none without the mark. -/
def readIdentifiers (mark : Char) (part : VersionPart) :
    List Char → Except VersionError (Option String × List Char)
  | c :: s =>
    if c = mark then
      let (identifiers, rest) := spanIdentifiers s
      do
        checkIdentifiers part (Text.partsOf '.' identifiers)
        .ok (some (String.ofList identifiers), rest)
    else .ok (none, c :: s)
  | [] => .ok (none, [])

/-- Read a version. -/
def parse (s : String) : Except VersionError Version := do
  if s.isEmpty then .error .empty
  else
    let (major, rest) ← readNumber .major s.toList
    let (minor, rest) ← readNumber .minor (← readDot .major rest)
    let (patch, rest) ← readNumber .patch (← readDot .minor rest)
    let (preRelease, rest) ← readIdentifiers '-' .preRelease rest
    let (build, rest) ← readIdentifiers '+' .build rest
    match rest with
    | [] => .ok ⟨major, minor, patch, preRelease.getD "", build.getD ""⟩
    | c :: _ =>
      let last :=
        if build.isSome then .build else if preRelease.isSome then .preRelease else .patch
      .error (.trailing c last)

end Version

end Rollout
