import Rollout.Yaml.Block
import Rollout.Yaml.Inline
import Rollout.Yaml.Tag

/-!
# Tokens

The signs and scalars of a text in order, together with the beginnings and ends of blocks,
which are not written but follow from the columns at which things stand.

What stands before a colon is the key of a mapping although nothing marks it in front. So
each place at which a key may begin is remembered until it is clear whether it is one: a
key is followed by its colon on the same line and within 1024 characters.
-/

namespace Rollout.Yaml

/-- A sign or scalar of a text. -/
inductive Token where
  | directive (d : Directive)
  | documentStart
  | documentEnd
  | blockList
  | blockMapping
  /-- The end of a block. -/
  | blockEnd
  | openList
  | closeList
  | openMapping
  | closeMapping
  | comma
  /-- The dash in front of an item. -/
  | item
  | key
  | value
  | alias (name : String)
  | anchor (name : String)
  | tag (tag : Tag)
  | scalar (text : String) (isPlain : Bool)

/-- A place at which the key of a mapping may begin. -/
structure KeyStart where
  /-- How many tokens precede it. -/
  tokens : Nat
  spot : Spot
  /-- Whether it has to be a key because its block is a mapping. -/
  isRequired : Bool

/-- What has been read of a text. -/
structure Layout where
  /-- The tokens, the last one first. -/
  tokens : List Token := []
  /-- The columns of the open blocks, the innermost one first. -/
  columns : List Nat := []
  /-- For each open bracket, the innermost one first, and for the text around all of them:
  where a key may have begun. -/
  keys : List (Option KeyStart) := [none]
  /-- Whether a key may begin here. -/
  keyAllowed : Bool := true

namespace Layout

/-- How long a key may be at most. -/
def maxKeyLength : Nat := 1024

def inBrackets (l : Layout) : Bool := l.keys.length > 1

/-- The column of the innermost block. -/
def column (l : Layout) : Int :=
  match l.columns with
  | c :: _ => c
  | [] => -1

/-- Add a token. -/
def push (l : Layout) (t : Token) : Layout := { l with tokens := t :: l.tokens }

/-- Add tokens in front of those that followed the first `place` ones. -/
def insertAt (l : Layout) (place : Nat) (ts : List Token) : Layout :=
  let later := l.tokens.length - place
  { l with tokens := l.tokens.take later ++ ts.reverse ++ l.tokens.drop later }

/-- Forget the innermost place at which a key may have begun, unless it has to be one. -/
def forgetKey (l : Layout) : Option Layout :=
  match l.keys with
  | some k :: rest => if k.isRequired then none else some { l with keys := none :: rest }
  | _ => some l

/-- Forget the places that are too far away for a key. -/
def forgetFarKeys (l : Layout) (at_ : Spot) : Option Layout := do
  let keys ← l.keys.mapM fun key =>
    match key with
    | none => some none
    | some k =>
      if k.spot.line < at_.line || k.spot.index + maxKeyLength < at_.index then
        if k.isRequired then none else some none
      else some (some k)
  some { l with keys }

/-- Remember that a key may begin here. -/
def noteKey (l : Layout) (s : Spot) : Option Layout :=
  if l.keyAllowed then do
    let isRequired := !l.inBrackets && l.column = s.column
    let l ← l.forgetKey
    some { l with keys := some ⟨l.tokens.length, s, isRequired⟩ :: l.keys.tail }
  else some l

/-- Close the blocks that are deeper than a column. -/
def closeBlocks (column : Int) : (open_ : List Nat) → List Token → List Nat × List Token
  | [], ts => ([], ts)
  | c :: cs, ts => if column < c then closeBlocks column cs (.blockEnd :: ts) else (c :: cs, ts)

/-- Close the blocks that are deeper than a column. Brackets are not bound to columns. -/
def dedent (l : Layout) (column : Int) : Layout :=
  if l.inBrackets then l
  else
    let (columns, tokens) := closeBlocks column l.columns l.tokens
    { l with columns, tokens }

/-- Open a block at a column if it is deeper than the innermost one. -/
def indent (l : Layout) (column place : Nat) (t : Token) : Layout :=
  if l.inBrackets || column ≤ l.column then l
  else { l.insertAt place [t] with columns := column :: l.columns }

/-- Read on after a sign. -/
def sign (l : Layout) (t : Token) (keyAllowed : Bool) : Layout :=
  { l.push t with keyAllowed }

/-- A bracket opens. -/
def openBracket (l : Layout) (s : Spot) (t : Token) : Option Layout := do
  let l ← l.noteKey s
  some { l.sign t true with keys := none :: l.keys }

/-- A bracket closes. -/
def closeBracket (l : Layout) (t : Token) : Option Layout := do
  let l ← l.forgetKey
  let keys := if l.inBrackets then l.keys.tail else l.keys
  some { l.sign t false with keys }

/-- A document or the whole text ends. -/
def close (l : Layout) : Option Layout := do
  let l ← (l.dedent (-1)).forgetKey
  some { l with keyAllowed := false }

/-- A sign of a block, as it stands in front of an item or of a key. -/
def blockSign (l : Layout) (s : Spot) (block sign : Token) (keyAllowed : Bool) :
    Option Layout := do
  if !l.inBrackets && !l.keyAllowed then none
  else
    let l ← (l.indent s.column l.tokens.length block).forgetKey
    some (l.sign sign keyAllowed)

/-- The colon after a key. -/
def colon (l : Layout) (s : Spot) : Option Layout :=
  match l.keys with
  | some k :: rest =>
    let l := { l.insertAt k.tokens [.key] with keys := none :: rest }
    some ((l.indent k.spot.column k.tokens .blockMapping).sign .value false)
  | _ =>
    if l.inBrackets then some (l.sign .value false)
    else if !l.keyAllowed then none
    else some ((l.indent s.column l.tokens.length .blockMapping).sign .value true)

/-- Skip blanks, comments and line ends. Outside of brackets a key may begin after a line
end, and no tab may precede a key. -/
def skip (l : Layout) : (isFirst : Bool) → (inComment : Bool) → List Spot → Layout × List Spot
  | _, _, [] => (l, [])
  | isFirst, inComment, s :: rest =>
    if isBreak s.char then
      skip (if l.inBrackets then l else { l with keyAllowed := true }) false false rest
    else if inComment || s.char = '#' then skip l false true rest
    else if s.char = ' ' || (s.char = '\t' && (l.inBrackets || !l.keyAllowed)) ||
        (isFirst && s.char = '\ufeff') then skip l false false rest
    else (l, s :: rest)

/-- Whether a plain scalar may begin with a character, given whether a gap follows it. -/
def startsPlain (l : Layout) (c : Char) (beforeBlank beforeGap : Bool) : Bool :=
  !"-?:,[]\x7b\x7d#&*!|>'\"%@\x60".toList.contains c || (c = '-' && !beforeBlank) ||
    (!l.inBrackets && (c = '?' || c = ':') && !beforeGap)

/-- Read the scalar or sign at the head of a text. -/
def read (l : Layout) (s : Spot) (rest : List Spot) : Option (Layout × List Spot) := do
  let inBrackets := l.inBrackets
  let next (l : Option Layout) : Option (Layout × List Spot) := l.map (·, rest)
  let beforeGap := Spot.endsWord rest
  let isSign := inBrackets || beforeGap
  let node (t : Token) (rest : List Spot) : Option (Layout × List Spot) := do
    let l ← l.noteKey s
    some (l.sign t false, rest)
  let scalar (cs : List Char) (rest : List Spot) := node (.scalar (String.ofList cs) false) rest
  let block (folded : Bool) : Option (Layout × List Spot) := do
    let l ← l.forgetKey
    let (cs, rest) ← Block.read? folded l.column rest
    some (l.sign (.scalar (String.ofList cs) false) true, rest)
  if s.column = 0 && s.char = '%' then do
    let l ← l.close
    let (d, rest) ← Directive.read? rest
    some (l.push (.directive d), rest)
  else if Spot.isMark '-' (s :: rest) then do
    some ((← l.close).push .documentStart, rest.drop 2)
  else if Spot.isMark '.' (s :: rest) then do
    some ((← l.close).push .documentEnd, rest.drop 2)
  else
    match s.char with
    | '[' => next (l.openBracket s .openList)
    | '{' => next (l.openBracket s .openMapping)
    | ']' => next (l.closeBracket .closeList)
    | '}' => next (l.closeBracket .closeMapping)
    | ',' => next (l.forgetKey.map (·.sign .comma true))
    | '*' => do
      let (name, rest) ← anchorName? rest
      node (.alias name) rest
    | '&' => do
      let (name, rest) ← anchorName? rest
      node (.anchor name) rest
    | '!' => do
      let (tag, rest) ← Tag.read? inBrackets rest
      node (.tag tag) rest
    | '\'' | '"' => do
      let (cs, rest) ← quoted? s.char rest
      scalar cs rest
    | c =>
      if c = '-' && beforeGap then next (l.blockSign s .blockList .item true)
      else if c = '?' && isSign then next (l.blockSign s .blockMapping .key (!inBrackets))
      else if c = ':' && isSign then next (l.colon s)
      else if c = '|' && !inBrackets then block false
      else if c = '>' && !inBrackets then block true
      else if !isGap c && l.startsPlain c (Spot.nextIs isBlank rest) beforeGap then do
        let p ← plain? inBrackets (l.column + 1).toNat (s :: rest)
        let (l, rest) ← node (.scalar (String.ofList p.text) true) p.rest
        some (if p.endsLine then { l with keyAllowed := true } else l, rest)
      else none

/-- Read a text on to its end. -/
def readAll : (fuel : Nat) → Layout → (isFirst : Bool) → List Spot → Option (List Token)
  | 0, _, _, _ => none
  | fuel + 1, l, isFirst, s =>
    match l.skip isFirst false s with
    | (l, []) => do
      let l ← l.close
      some l.tokens.reverse
    | (l, s :: rest) => do
      let l ← l.forgetFarKeys s
      let (l, rest) ← (l.dedent s.column).read s rest
      readAll fuel l false rest

end Layout

/-- The tokens of a text. -/
def Token.ofText? (s : List Char) : Option (List Token) :=
  if s.all isAllowed then Layout.readAll (s.length + 1) {} true (Spot.ofText s) else none

end Rollout.Yaml
