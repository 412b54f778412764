import Rollout.Assoc
import Rollout.Yaml.Token

/-!
# Nodes

The scalars, lists and mappings that tokens describe. A text describes one document or
none. An alias stands for the node that was given its name last; it is kept as it is, so
that a node may stand in several places and even inside itself.
-/

namespace Rollout.Yaml

/-- A scalar, list or mapping with its tag. -/
inductive Node where
  | scalar (tag : Option String) (text : String) (isPlain : Bool)
  | list (tag : Option String) (items : List Node)
  | mapping (tag : Option String) (entries : List (Node × Node))
  /-- The node that an anchor marks. -/
  | alias (anchor : Nat)

/-- A document: its node, unless there is nothing in the text, and the marked nodes. -/
structure Document where
  root : Option Node
  anchored : List (Nat × Node)

namespace Node

/-- The node that is there where nothing is written. -/
def empty : Node := .scalar none "" true

/-- What has been read of a document. -/
structure Progress where
  tokens : List Token
  /-- What the handles of tags stand for. -/
  handles : Assoc String
  /-- The number of the anchor with each name. -/
  names : Assoc Nat := []
  anchored : List (Nat × Node) := []

/-- A step of reading nodes. -/
abbrev Reading := StateT Progress Option

/-- The next token. -/
def peek : Reading (Option Token) := return (← get).tokens.head?

/-- Pass over the next token. -/
def advance : Reading Unit := modify fun p => { p with tokens := p.tokens.tail }

/-- The signs after which nothing was written where a node might stand. -/
inductive Stop where
  | item
  | key
  | value
  | comma
  | blockEnd
  | close
deriving DecidableEq

/-- The sign that a token is. -/
def stop? : Token → Option Stop
  | .item => some .item
  | .key => some .key
  | .value => some .value
  | .comma => some .comma
  | .blockEnd => some .blockEnd
  | .closeList | .closeMapping => some .close
  | _ => none

/-- Whether the next token is one of some signs. -/
def atStop (stops : List Stop) : Reading Bool := do
  return ((← peek).bind stop?).any stops.contains

/-- The name of an anchor and a tag, in either order. -/
def properties : Reading (Option String × Option Tag) := do
  match (← get).tokens with
  | .anchor name :: .tag tag :: _ | .tag tag :: .anchor name :: _ =>
    advance
    advance
    return (some name, some tag)
  | .anchor name :: _ =>
    advance
    return (some name, none)
  | .tag tag :: _ =>
    advance
    return (none, some tag)
  | _ => return (none, none)

/-- The full text of a tag. -/
def tagText (tag : Tag) : Reading String := do
  if tag.handle.isEmpty then return tag.suffix
  else
    match (← get).handles.get? tag.handle with
    | some meaning => return meaning ++ tag.suffix
    | none => failure

/-- Give the next anchor a name. Anchors are numbered by how many names were known
before. -/
def nameAnchor (name : String) : Reading Nat := do
  let p ← get
  let number := p.names.length
  set { p with names := p.names.insert name number }
  return number

/-- Keep the node that an anchor marks. -/
def keep (number : Option Nat) (n : Node) : Reading Node := do
  match number with
  | some number =>
    modify fun p => { p with anchored := (number, n) :: p.anchored }
    return n
  | none => return n

/-- The tag of a scalar. The tag that says nothing is none. -/
def scalarTag (tag : Option String) : Option String := if tag = some "!" then none else tag

mutual

/-- Read a node. `inBlock` says whether it may be a block, and `afterKey` whether the items
of a list may stand no deeper than the key in front of it. -/
def read (inBlock afterKey : Bool) : (fuel : Nat) → Reading Node
  | 0 => failure
  | fuel + 1 => do
    if let some (.alias name) := ← peek then
      advance
      match (← get).names.get? name with
      | some number => return .alias number
      | none => failure
    else
      let (name, tag) ← properties
      let tag ← tag.mapM tagText
      let number ← name.mapM nameAnchor
      let next ← peek
      let list (items : Reading (List Node)) : Reading Node := do
        keep number (.list tag (← items))
      let mapping (entries : Reading (List (Node × Node))) : Reading Node := do
        keep number (.mapping tag (← entries))
      match next, inBlock with
      | some .item, _ =>
        if afterKey then list (itemsAfterKey fuel) else bare name tag number
      | some (.scalar text isPlain), _ =>
        advance
        keep number (.scalar (scalarTag tag) text isPlain)
      | some .openList, _ => do
        advance
        list (bracketItems true fuel)
      | some .openMapping, _ => do
        advance
        mapping (bracketEntries true fuel)
      | some .blockList, true => do
        advance
        list (blockItems fuel)
      | some .blockMapping, true => do
        advance
        mapping (blockEntries fuel)
      | _, _ => bare name tag number
where
  /-- A node of which only the anchor or the tag is written. -/
  bare (name tag : Option String) (number : Option Nat) : Reading Node :=
    if name.isNone && tag.isNone then failure
    else keep number (.scalar (scalarTag tag) "" true)

/-- Read a node unless one of some signs comes first. -/
def readUnless (stops : List Stop) (inBlock afterKey : Bool) : (fuel : Nat) → Reading Node
  | 0 => failure
  | fuel + 1 => do
    if ← atStop stops then return empty else read inBlock afterKey fuel

/-- Read the value of a key. -/
def readValue (stops : List Stop) (inBlock : Bool) : (fuel : Nat) → Reading Node
  | 0 => failure
  | fuel + 1 => do
    if ← atStop [.value] then
      advance
      readUnless stops inBlock inBlock fuel
    else return empty

/-- Read the items of a block. -/
def blockItems : (fuel : Nat) → Reading (List Node)
  | 0 => failure
  | fuel + 1 => do
    match ← peek with
    | some .item =>
      advance
      let n ← readUnless [.item, .blockEnd] true false fuel
      return n :: (← blockItems fuel)
    | some .blockEnd =>
      advance
      return []
    | _ => failure

/-- Read items that stand no deeper than the key in front of them. -/
def itemsAfterKey : (fuel : Nat) → Reading (List Node)
  | 0 => failure
  | fuel + 1 => do
    if ← atStop [.item] then
      advance
      let n ← readUnless [.item, .key, .value, .blockEnd] true false fuel
      return n :: (← itemsAfterKey fuel)
    else return []

/-- Read the entries of a block. -/
def blockEntries : (fuel : Nat) → Reading (List (Node × Node))
  | 0 => failure
  | fuel + 1 => do
    let stops := [.key, .value, .blockEnd]
    match ← peek with
    | some .key =>
      advance
      let k ← readUnless stops true true fuel
      let v ← readValue stops true fuel
      return (k, v) :: (← blockEntries fuel)
    | some .blockEnd =>
      advance
      return []
    | _ => failure

/-- Read the items up to the closing bracket. An item may be a mapping with one entry. -/
def bracketItems (isFirst : Bool) : (fuel : Nat) → Reading (List Node)
  | 0 => failure
  | fuel + 1 => do
    if !isFirst && !(← atStop [.close]) then
      if ← atStop [.comma] then advance else failure
    match ← peek with
    | some .closeList =>
      advance
      return []
    | some .key =>
      advance
      let k ←
        if ← atStop [.value, .comma, .close] then
          advance
          pure empty
        else read false false fuel
      let v ← readValue [.comma, .close] false fuel
      return .mapping none [(k, v)] :: (← bracketItems false fuel)
    | _ =>
      let n ← read false false fuel
      return n :: (← bracketItems false fuel)

/-- Read the entries up to the closing brace. -/
def bracketEntries (isFirst : Bool) : (fuel : Nat) → Reading (List (Node × Node))
  | 0 => failure
  | fuel + 1 => do
    if !isFirst && !(← atStop [.close]) then
      if ← atStop [.comma] then advance else failure
    match ← peek with
    | some .closeMapping =>
      advance
      return []
    | some .key =>
      advance
      let k ← readUnless [.value, .comma, .close] false false fuel
      let v ← readValue [.comma, .close] false fuel
      return (k, v) :: (← bracketEntries false fuel)
    | _ =>
      let k ← read false false fuel
      return (k, empty) :: (← bracketEntries false fuel)

end

end Node

namespace Document

/-- What the handles of tags stand for unless a document says otherwise. -/
def standardHandles : Assoc String := [("!", "!"), ("!!", "tag:yaml.org,2002:")]

/-- Whether this is a version that can be read. -/
def isKnownVersion (major minor : Nat) : Bool := major = 1 && (minor = 1 || minor = 2)

/-- The handles that the directives in front of a document declare, and the tokens after
them. A document says each thing once. -/
def directives : (versioned : Bool) → (handles : Assoc String) → List Token →
    Option (Assoc String × List Token)
  | versioned, handles, .directive (.version major minor) :: rest =>
    if versioned || !isKnownVersion major minor then none else directives true handles rest
  | versioned, handles, .directive (.handle name meaning) :: rest =>
    if handles.has name then none else directives versioned (handles.insert name meaning) rest
  | _, handles, rest => some (handles, rest)

/-- Whether a token belongs to the frame of documents. -/
def isFrame : Token → Bool
  | .directive _ | .documentStart | .documentEnd => true
  | _ => false

/-- Read the node of a document, after which only ends of documents may follow. -/
def ofProgress? (p : Node.Progress) : Option Document := do
  let isEmpty := (p.tokens.head?.map isFrame).getD true
  let (root, p) ←
    if isEmpty then some (Node.empty, p)
    else (Node.read true false (4 * p.tokens.length + 4)).run p
  let isEnd (t : Token) : Bool :=
    match t with
    | .documentEnd => true
    | _ => false
  if p.tokens.all isEnd then some ⟨root, p.anchored⟩ else none

/-- The document that tokens describe. -/
def ofTokens? : List Token → Option Document
  | [] => some ⟨none, []⟩
  | .documentEnd :: _ => none
  | t :: ts => do
    if isFrame t then
      let (own, rest) ← directives false [] (t :: ts)
      match rest with
      | .documentStart :: rest =>
        ofProgress? { tokens := rest, handles := standardHandles.insertAll own }
      | _ => none
    else ofProgress? { tokens := t :: ts, handles := standardHandles }

/-- The document that a text describes. -/
def ofText? (s : String) : Option Document := (Token.ofText? s.toList).bind ofTokens?

end Document

end Rollout.Yaml
