import Rollout.Json.Reader
import Rollout.Yaml.Spot

/-!
# Anchors, tags and directives

The short signs beside the contents of a document: a name for a node, the name of its
type, and what a document says in front about its version and about names of types.
-/

namespace Rollout.Yaml

/-- The name after the sign of an anchor or alias. -/
def anchorName? (s : List Spot) : Option (String × List Spot) :=
  let name := Spot.takeWhile isNameChar s
  let rest := Spot.dropWhile isNameChar s
  let isClosed :=
    Spot.endsWord rest || Spot.nextIs (fun c => "?:,]\x7d%@\x60".toList.contains c) rest
  if name.isEmpty || !isClosed then none else some (String.ofList name, rest)

/-- A tag: a handle that a document may give a meaning, and what follows it. -/
structure Tag where
  handle : String
  suffix : String

namespace Tag

/-- A character of tags. Some are allowed only in tags that are written in full. -/
def isTagChar (inFull : Bool) (c : Char) : Bool :=
  isNameChar c || ";/?:@&=+$.!~*'()".toList.contains c ||
    (inFull && (c = ',' || c = '[' || c = ']'))

/-- The byte that two hexadecimal digits stand for. -/
def byte? (a b : Char) : Option UInt8 := do
  some (UInt8.ofNat ((← Json.hexDigit? a) * 16 + (← Json.hexDigit? b)))

/-- The bytes of a text of tag characters, in which a percent sign and two hexadecimal
digits stand for a byte. -/
def bytes (inFull : Bool) : List Spot → Option (List UInt8 × List Spot)
  | [] => some ([], [])
  | s :: rest =>
    if s.char = '%' then
      match rest with
      | a :: b :: rest => do
        let byte ← byte? a.char b.char
        let (more, rest) ← bytes inFull rest
        some (byte :: more, rest)
      | _ => none
    else if isTagChar inFull s.char then
      (bytes inFull rest).map fun (more, r) => (s.char.toString.toUTF8.toList ++ more, r)
    else some ([], s :: rest)

/-- A text of tag characters. -/
def uri? (inFull : Bool) (s : List Spot) : Option (String × List Spot) := do
  let (bs, rest) ← bytes inFull s
  let text ← String.fromUTF8? ⟨bs.toArray⟩
  some (text, rest)

/-- Whether a tag ends here. -/
def ends (inBrackets : Bool) (s : List Spot) : Bool :=
  Spot.endsWord s || (inBrackets && Spot.nextIs (· = ',') s)

/-- The tag after its first exclamation mark. -/
def read? (inBrackets : Bool) (s : List Spot) : Option (Tag × List Spot) := do
  let (tag, rest) ←
    match s with
    | ⟨'<', _, _, _⟩ :: inner => do
      let (suffix, rest) ← uri? true inner
      if suffix.isEmpty || !Spot.nextIs (· = '>') rest then none
      else some (Tag.mk "" suffix, rest.tail)
    | _ => do
      let name := Spot.takeWhile isNameChar s
      let after := Spot.dropWhile isNameChar s
      if Spot.nextIs (· = '!') after then
        let (suffix, rest) ← uri? false after.tail
        if suffix.isEmpty then none
        else some (Tag.mk (String.ofList ('!' :: name ++ ['!'])) suffix, rest)
      else
        let (suffix, rest) ← uri? false s
        some (if suffix.isEmpty then Tag.mk "" "!" else Tag.mk "!" suffix, rest)
  if ends inBrackets rest then some (tag, rest) else none

end Tag

/-- What a document says in front. -/
inductive Directive where
  | version (major minor : Nat)
  /-- What a handle of tags stands for. -/
  | handle (name meaning : String)

namespace Directive

/-- The number at the head of a text. It has at most nine digits. -/
def number? (s : List Spot) : Option (Nat × List Spot) :=
  let digits := Spot.takeWhile Char.isDigit s
  if digits.isEmpty || digits.length > 9 then none
  else some (digitsValue digits, Spot.dropWhile Char.isDigit s)

/-- A directive after its percent sign, and the text after its line. -/
def read? (s : List Spot) : Option (Directive × List Spot) := do
  let name := Spot.takeWhile isNameChar s
  let rest := Spot.dropWhile isNameChar s
  if !Spot.endsWord rest then none
  else
    let arguments := Spot.dropWhile isBlank rest
    let (directive, rest) ←
      match String.ofList name with
      | "YAML" => do
        let (major, rest) ← number? arguments
        if !Spot.nextIs (· = '.') rest then none
        else
          let (minor, rest) ← number? rest.tail
          some (version major minor, rest)
      | "TAG" => do
        if !Spot.nextIs (· = '!') arguments then none
        else
          let inner := Spot.takeWhile isNameChar arguments.tail
          let after := Spot.dropWhile isNameChar arguments.tail
          let isNamed := Spot.nextIs (· = '!') after
          let after := if isNamed then after.tail else after
          if (!isNamed && !inner.isEmpty) || !Spot.nextIs isBlank after then none
          else
            let (meaning, rest) ← Tag.uri? true (Spot.dropWhile isBlank after)
            if meaning.isEmpty || !Spot.endsWord rest then none
            else
              let handle := if isNamed then '!' :: inner ++ ['!'] else ['!']
              some (Directive.handle (String.ofList handle) meaning, rest)
      | _ => none
    let rest := Spot.dropComment rest
    if Spot.endsLine rest then some (directive, rest.tail) else none

end Directive

end Rollout.Yaml
