import Rollout.Json.Reader
import Rollout.Yaml.Spot

/-!
# Plain and quoted scalars

Scalars that stand in a line and may go on over the next ones. A single line end inside
a scalar stands for a space; of several the first stands for nothing. Blanks around line
ends do not count.
-/

namespace Rollout.Yaml

/-- What stands between two words of a scalar. -/
structure Gap where
  /-- The blanks before the first line end. -/
  blanks : List Char
  breaks : List Char

namespace Gap

/-- The text that a gap stands for. -/
def text (g : Gap) : List Char :=
  match g.breaks with
  | [] => g.blanks
  | ['\n'] => [' ']
  | '\n' :: more => more
  | breaks => breaks

/-- The gap at the head of a text. -/
def read (s : List Spot) : Gap :=
  ⟨Spot.takeWhile isBlank s, (Spot.takeWhile isGap s).filter isBreak⟩

/-- Whether a later line of the gap has a tab in front of a column. -/
def hasTabBefore (column : Nat) (s : List Spot) : Bool :=
  ((s.takeWhile fun x => isGap x.char).dropWhile fun x => isBlank x.char).any fun x =>
    x.char = '\t' && x.column < column

end Gap

/-- The signs of lists and mappings that are written in brackets. -/
def isBracketSign (c : Char) : Bool :=
  c = ',' || c = '[' || c = ']' || c = '\x7b' || c = '\x7d'

/-- The characters of a plain scalar up to the next gap. Inside brackets a colon may not be
followed by a sign. -/
def plainWord (inBrackets : Bool) : List Spot → Option (List Char × List Spot)
  | [] => some ([], [])
  | s :: rest =>
    let colonBefore (p : Char → Bool) := s.char = ':' && Spot.nextIs p rest
    if inBrackets && colonBefore fun c => isBracketSign c || c = '?' then none
    else if isGap s.char || (s.char = ':' && Spot.endsWord rest) ||
        (inBrackets && isBracketSign s.char) then some ([], s :: rest)
    else (plainWord inBrackets rest).map fun (cs, r) => (s.char :: cs, r)

/-- A plain scalar that has been read. -/
structure Plain where
  text : List Char
  /-- Whether a line end follows it. -/
  endsLine : Bool
  rest : List Spot

/-- Read a plain scalar on. `before` is what has been read and `gap` what stands between
that and the next word. Outside of brackets, lines in front of column `margin` do not
belong to it. -/
def plainFrom (inBrackets : Bool) (margin : Nat) :
    (fuel : Nat) → (before gap : List Char) → (afterBreak : Bool) → List Spot → Option Plain
  | 0, before, _, afterBreak, s => some ⟨before, afterBreak, s⟩
  | fuel + 1, before, gap, afterBreak, s =>
    if Spot.isDocumentMark s || Spot.nextIs (· = '#') s then some ⟨before, afterBreak, s⟩
    else do
      let (word, rest) ← plainWord inBrackets s
      let text := if word.isEmpty then before else before ++ gap ++ word
      let afterBreak := afterBreak && word.isEmpty
      if !Spot.nextIs isGap rest then some ⟨text, afterBreak, rest⟩
      else if Gap.hasTabBefore margin rest then none
      else
        let next := Gap.read rest
        let hasBreak := !next.breaks.isEmpty
        let after := Spot.dropWhile isGap rest
        let isOutside :=
          match after with
          | x :: _ => x.column < margin
          | [] => true
        if !inBrackets && hasBreak && isOutside then some ⟨text, hasBreak, after⟩
        else plainFrom inBrackets margin fuel text next.text hasBreak after

/-- Read a plain scalar. -/
def plain? (inBrackets : Bool) (margin : Nat) (s : List Spot) : Option Plain :=
  plainFrom inBrackets margin (s.length + 1) [] [] false s

/-- The character that hexadecimal digits stand for. -/
def hexChar? (digits : List Char) : Option Char := do
  let n ← digits.foldlM (fun n c => (Json.hexDigit? c).map (n * 16 + ·)) 0
  if n < 0xd800 || (0xdfff < n && n ≤ 0x10ffff) then some (Char.ofNat n) else none

/-- The character that an escape stands for, and the length of the escape after the
backslash. -/
def escape? : List Char → Option (Char × Nat)
  | [] => none
  | c :: rest =>
    let hex (n : Nat) : Option (Char × Nat) :=
      if rest.length < n then none else (hexChar? (rest.take n)).map (·, n + 1)
    match c with
    | '0' => some ('\x00', 1)
    | 'a' => some ('\x07', 1)
    | 'b' => some ('\x08', 1)
    | 't' | '\t' => some ('\t', 1)
    | 'n' => some ('\n', 1)
    | 'v' => some ('\x0b', 1)
    | 'f' => some ('\x0c', 1)
    | 'r' => some ('\r', 1)
    | 'e' => some ('\x1b', 1)
    | ' ' | '"' | '/' | '\\' => some (c, 1)
    | 'N' => some ('\x85', 1)
    | '_' => some ('\xa0', 1)
    | 'L' => some ('\u2028', 1)
    | 'P' => some ('\u2029', 1)
    | 'x' => hex 2
    | 'u' => hex 4
    | 'U' => hex 8
    | _ => none

/-- Why a part of a quoted scalar ends. -/
inductive PartEnd where
  /-- The closing quote. -/
  | closed
  | gap
  /-- A line end that is escaped, and so does not count. -/
  | joined

/-- The characters of a quoted scalar up to the next gap, leaving out `skip` characters
first. -/
def quotedPart (mark : Char) : (skip : Nat) → List Spot →
    Option (List Char × PartEnd × List Spot)
  | _, [] => none
  | skip + 1, _ :: rest => quotedPart mark skip rest
  | 0, s :: rest =>
    let goOn (c : Char) (skip : Nat) :=
      (quotedPart mark skip rest).map fun (cs, r) => (c :: cs, r)
    if isGap s.char then some ([], .gap, s :: rest)
    else if s.char = mark then
      if mark = '\'' && Spot.nextIs (· = mark) rest then goOn mark 1
      else some ([], .closed, rest)
    else if s.char = '\\' && mark = '"' then
      if Spot.nextIs isBreak rest then some ([], .joined, rest.tail)
      else
        match escape? (Spot.chars (rest.take 9)) with
        | some (c, length) => goOn c length
        | none => none
    else goOn s.char 0

/-- Read a quoted scalar on after its opening mark. `before` is what has been read. -/
def quotedFrom (mark : Char) : (fuel : Nat) → (before : List Char) → List Spot →
    Option (List Char × List Spot)
  | 0, _, _ => none
  | fuel + 1, before, s =>
    if Spot.isDocumentMark s then none
    else do
      let (part, partEnd, rest) ← quotedPart mark 0 s
      let gap := Gap.read rest
      let after := Spot.dropWhile isGap rest
      match partEnd with
      | .closed => some (before ++ part, rest)
      | .gap => quotedFrom mark fuel (before ++ part ++ gap.text) after
      | .joined => quotedFrom mark fuel (before ++ part ++ gap.breaks) after

/-- Read a quoted scalar after its opening mark. -/
def quoted? (mark : Char) (s : List Spot) : Option (List Char × List Spot) :=
  quotedFrom mark (s.length + 1) [] s

end Rollout.Yaml
