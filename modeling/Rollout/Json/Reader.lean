import Rollout.Value.Basic
import Rollout.Decimal.Reader

/-!
# Reading JSON

A text is read as exactly one value. A key that a mapping gives twice keeps its first
place and its last value, and lists and mappings nest at most 127 deep. A number
without point and exponent is an integer if it fits 64 bits.
-/

namespace Rollout.Json

/-- White space between the signs of a text. -/
def isSpace (c : Char) : Bool := c = ' ' || c = '\t' || c = '\n' || c = '\r'

/-- The number that a hexadecimal digit stands for. -/
def hexDigit? (c : Char) : Option Nat :=
  if c.isDigit then some (c.toNat - '0'.toNat)
  else if 'a' ≤ c ∧ c ≤ 'f' then some (c.toNat - 'a'.toNat + 10)
  else if 'A' ≤ c ∧ c ≤ 'F' then some (c.toNat - 'A'.toNat + 10)
  else none

/-- The number that four hexadecimal digits stand for. -/
def hexUnit? (a b c d : Char) : Option Nat := do
  some ((((← hexDigit? a) * 16 + (← hexDigit? b)) * 16 + (← hexDigit? c)) * 16 + (← hexDigit? d))

/-- Whether a number is the first half of a pair that stands for one character. -/
def isHigh (n : Nat) : Bool := 0xd800 ≤ n && n ≤ 0xdbff

/-- Whether a number is the second half of such a pair. -/
def isLow (n : Nat) : Bool := 0xdc00 ≤ n && n ≤ 0xdfff

/-- The character of an escape with one letter. -/
def shortEscape? (c : Char) : Option Char :=
  match c with
  | '"' => some '"'
  | '\\' => some '\\'
  | '/' => some '/'
  | 'b' => some '\x08'
  | 'f' => some '\x0c'
  | 'n' => some '\n'
  | 'r' => some '\r'
  | 't' => some '\t'
  | _ => none

/-- The characters up to the closing quote, and what follows it. -/
def readQuoted : List Char → Option (List Char × List Char)
  | [] => none
  | '"' :: rest => some ([], rest)
  | '\\' :: 'u' :: a :: b :: c :: d :: rest =>
    match hexUnit? a b c d, rest with
    | none, _ => none
    | some n, '\\' :: 'u' :: e :: f :: g :: h :: more =>
      if isHigh n then
        match hexUnit? e f g h with
        | some m =>
          if isLow m then
            (readQuoted more).map fun (cs, r) =>
              (Char.ofNat (0x10000 + (n - 0xd800) * 0x400 + (m - 0xdc00)) :: cs, r)
          else none
        | none => none
      else if isLow n then none
      else (readQuoted ('\\' :: 'u' :: e :: f :: g :: h :: more)).map fun (cs, r) =>
        (Char.ofNat n :: cs, r)
    | some n, rest =>
      if isHigh n || isLow n then none
      else (readQuoted rest).map fun (cs, r) => (Char.ofNat n :: cs, r)
  | '\\' :: c :: rest => do
    let e ← shortEscape? c
    let (cs, r) ← readQuoted rest
    some (e :: cs, r)
  | c :: rest =>
    if c.toNat < 32 || c = '\\' then none
    else (readQuoted rest).map fun (cs, r) => (c :: cs, r)

/-- A decimal as a double: its digits as far as they fit 64 bits, rounded to a double, and
then multiplied or divided once by a power of ten. -/
def scaled? (negative : Bool) (digits : Nat) (exponent : Int) : Option Double :=
  if digits = 0 then some ⟨negative, 0, Double.count_pos⟩
  else do
    let significand ← Double.ofRatio? negative digits 1
    if exponent > 308 then none
    else if exponent ≥ 0 then significand.mul? (← Double.ofDecimal? false 1 exponent)
    else if exponent ≥ -308 then significand.div? (← Double.ofDecimal? false 1 (-exponent))
    else if exponent < -400 then some ⟨negative, 0, Double.count_pos⟩
    else do
      let most ← Double.ofDecimal? false 1 308
      (← significand.div? most).div? (← Double.ofDecimal? false 1 (-exponent - 308))

/-- Digits that fit 64 bits: their number, and how many were left over. -/
def fitDigits : List Char → (n : Nat) → Nat × Nat
  | [], n => (n, 0)
  | c :: cs, n =>
    let m := n * 10 + (c.toNat - '0'.toNat)
    if m < UInt64.size then fitDigits cs m else (n, cs.length + 1)

/-- The number at the head of a text. -/
def readNumber (s : List Char) : Option (Value × List Char) := do
  let (negative, rest) :=
    match s with
    | '-' :: rest => (true, rest)
    | rest => (false, rest)
  let (whole, rest) := spanDigits rest
  match whole with
  | [] => none
  | '0' :: _ :: _ => none
  | _ =>
    let (places, hasPoint, rest) :=
      match rest with
      | '.' :: rest => let (ds, rest) := spanDigits rest; (ds, true, rest)
      | rest => ([], false, rest)
    if hasPoint && places.isEmpty then none
    else
      let (exponent, after) ← readExponent? rest
      let isWhole := !hasPoint && after.length = rest.length
      let n : Int := digitsValue whole
      if isWhole && negative && n ≠ 0 && -n ≥ minInt64 then some (.int (-n), after)
      else if isWhole && !negative && n ≤ maxUInt64 then some (.int n, after)
      else
        let (wholePart, dropped) := fitDigits whole 0
        let (digits, unused) :=
          if dropped > 0 then (wholePart, places.length) else fitDigits places wholePart
        let shift : Int := (dropped : Int) - ((places.length - unused : Nat) : Int)
        some (.double (← scaled? negative digits (exponent + shift)), after)

mutual

/-- The value at the head of a text. `depth` lists and mappings may still be opened. -/
def readValue : (fuel depth : Nat) → List Char → Option (Value × List Char)
  | 0, _, _ => none
  | fuel + 1, depth, s =>
    match s.dropWhile isSpace with
    | 'n' :: 'u' :: 'l' :: 'l' :: rest => some (.null, rest)
    | 't' :: 'r' :: 'u' :: 'e' :: rest => some (.bool true, rest)
    | 'f' :: 'a' :: 'l' :: 's' :: 'e' :: rest => some (.bool false, rest)
    | '"' :: rest => (readQuoted rest).map fun (cs, r) => (.text (String.ofList cs), r)
    | '[' :: rest =>
      match depth with
      | 0 => none
      | depth + 1 =>
        match rest.dropWhile isSpace with
        | ']' :: rest => some (.list [], rest)
        | rest => (readItems fuel depth rest).map fun (items, r) => (.list items, r)
    | '{' :: rest =>
      match depth with
      | 0 => none
      | depth + 1 =>
        match rest.dropWhile isSpace with
        | '}' :: rest => some (.mapping [], rest)
        | rest => (readEntries fuel depth rest).map fun (entries, r) =>
            (.mapping (Assoc.ofPairs entries), r)
    | s => readNumber s

/-- The items up to the closing bracket. -/
def readItems : (fuel depth : Nat) → List Char → Option (List Value × List Char)
  | 0, _, _ => none
  | fuel + 1, depth, s => do
    let (v, rest) ← readValue fuel depth s
    match rest.dropWhile isSpace with
    | ']' :: rest => some ([v], rest)
    | ',' :: rest =>
      let (vs, rest) ← readItems fuel depth rest
      some (v :: vs, rest)
    | _ => none

/-- The entries up to the closing brace. -/
def readEntries : (fuel depth : Nat) → List Char → Option (List (String × Value) × List Char)
  | 0, _, _ => none
  | fuel + 1, depth, s =>
    match s.dropWhile isSpace with
    | '"' :: rest => do
      let (key, rest) ← readQuoted rest
      match rest.dropWhile isSpace with
      | ':' :: rest =>
        let (v, rest) ← readValue fuel depth rest
        let entry := (String.ofList key, v)
        match rest.dropWhile isSpace with
        | '}' :: rest => some ([entry], rest)
        | ',' :: rest =>
          let (entries, rest) ← readEntries fuel depth rest
          some (entry :: entries, rest)
        | _ => none
      | _ => none
    | _ => none

end

/-- The value that a text spells. -/
def parse? (s : String) : Option Value := do
  let cs := s.toList
  let (v, rest) ← readValue (2 * cs.length + 2) 127 cs
  if rest.all isSpace then some v else none

end Rollout.Json
