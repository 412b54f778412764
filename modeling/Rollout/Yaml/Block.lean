import Rollout.Yaml.Spot

/-!
# Block scalars

Scalars whose lines stand below their sign, deeper than what they belong to. In a literal
one every line counts as it is; in a folded one the end of a line stands for a space,
unless one of the lines around it begins with a blank.
-/

namespace Rollout.Yaml

/-- What happens to the line ends at the end of a block scalar. -/
inductive Chomping where
  /-- None counts. -/
  | strip
  /-- The first one counts. -/
  | clip
  /-- All count. -/
  | keep

namespace Block

/-- The chomping that a sign stands for. -/
def chomping? (c : Char) : Option Chomping :=
  if c = '+' then some .keep else if c = '-' then some .strip else none

/-- The number that a digit from 1 on stands for. -/
def depth? (c : Char) : Option Nat :=
  if '1' ≤ c ∧ c ≤ '9' then some (c.toNat - '0'.toNat) else none

/-- The signs after that of the scalar: how it is chomped, and how deep its lines are. -/
def signs (s : List Spot) : Chomping × Option Nat × List Spot :=
  let chomp (s : List Spot) : Option (Chomping × List Spot) :=
    s.head?.bind fun x => (chomping? x.char).map (·, s.tail)
  let depth (s : List Spot) : Option Nat × List Spot :=
    match s.head?.bind fun x => depth? x.char with
    | some n => (some n, s.tail)
    | none => (none, s)
  match chomp s with
  | some (c, rest) =>
    let (n, rest) := depth rest
    (c, n, rest)
  | none =>
    let (n, rest) := depth s
    match n, chomp rest with
    | some _, some (c, rest) => (c, n, rest)
    | _, _ => (.clip, n, rest)

/-- The line ends up to the next line that is not empty, given the depth of the lines or
zero if it is not known. The widest of the lines passed over is counted too. A tab may not
stand where the depth of a line is told. -/
def emptyLines (depth : Nat) : (widest : Nat) → List Spot →
    Option (List Char × Nat × List Spot)
  | widest, [] => some ([], widest, [])
  | widest, s :: rest =>
    let widest := max widest s.column
    let isBefore := depth = 0 || s.column < depth
    if isBefore && s.char = ' ' then emptyLines depth widest rest
    else if isBefore && s.char = '\t' then none
    else if isBreak s.char then
      (emptyLines depth widest rest).map fun (breaks, r) => (s.char :: breaks, r)
    else some ([], widest, s :: rest)

/-- What has been read of a block scalar. -/
structure Lines where
  text : List Char
  /-- The line end of the last line. -/
  lineEnd : List Char
  /-- The line ends of the empty lines after it. -/
  empty : List Char
  /-- Whether the last line begins with a blank. -/
  blank : Bool

/-- Add a line. -/
def Lines.add (b : Lines) (folded : Bool) (line lineEnd empty : List Char) : Lines :=
  let blank := (line.head?.map isBlank).getD false
  let joint :=
    if folded && b.lineEnd = ['\n'] && !b.blank && !blank then
      if b.empty.isEmpty then [' '] else []
    else b.lineEnd
  ⟨b.text ++ joint ++ b.empty ++ line, lineEnd, empty, blank⟩

/-- The text of all lines. -/
def Lines.close (b : Lines) : Chomping → List Char
  | .strip => b.text
  | .clip => b.text ++ b.lineEnd
  | .keep => b.text ++ b.lineEnd ++ b.empty

/-- Read the lines of a depth. -/
def lines (folded : Bool) (depth : Nat) : (fuel : Nat) → Lines → List Spot →
    Option (Lines × List Spot)
  | 0, b, s => some (b, s)
  | fuel + 1, b, s =>
    match s with
    | [] => some (b, [])
    | x :: _ =>
      if x.column ≠ depth then some (b, s)
      else do
        let line := Spot.takeWhile (!isBreak ·) s
        let after := Spot.dropWhile (!isBreak ·) s
        let lineEnd := Spot.chars (after.take 1)
        let (empty, _, rest) ← emptyLines depth 0 after.tail
        lines folded depth fuel (b.add folded line lineEnd empty) rest

/-- Read a block scalar after its sign. `outer` is the column of what it belongs to. -/
def read? (folded : Bool) (outer : Int) (s : List Spot) : Option (List Char × List Spot) := do
  let (chomping, deeper, rest) := signs s
  let rest := Spot.dropComment rest
  if !Spot.endsLine rest then none
  else
    let told := (deeper.map fun n => (if outer < 0 then 0 else outer.toNat) + n).getD 0
    let (empty, widest, rest) ← emptyLines told 0 rest.tail
    let depth := if told = 0 then max widest (max (outer + 1).toNat 1) else told
    let (b, rest) ← lines folded depth (rest.length + 1) ⟨[], [], empty, false⟩ rest
    some (b.close chomping, rest)

end Block

end Rollout.Yaml
