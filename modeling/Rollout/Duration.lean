import Rollout.Codec.Basic
import Rollout.Decimal.Reader

/-!
# Durations

A duration is written as a sum of spans, `1h 30m`, each a number and a unit. A month is
30.44 days and a year 365.25 days.
-/

namespace Rollout

/-- A span of time in nanoseconds. -/
structure Duration where
  nanos : Nat
deriving DecidableEq, Inhabited

namespace Duration

/-- How many nanoseconds a second has. -/
def second : Nat := 1000000000

/-- A duration of milliseconds. -/
def ofMillis (n : Nat) : Duration := ⟨n * 1000000⟩

/-- The whole seconds of a duration. -/
def seconds (d : Duration) : Nat := d.nanos / second

/-- The units of a span: their names, and how many nanoseconds they have. -/
def units : List (List String × Nat) :=
  [(["nanos", "nsec", "ns"], 1),
    (["usec", "us", "µs"], 1000),
    (["millis", "msec", "ms"], 1000000),
    (["seconds", "second", "secs", "sec", "s"], second),
    (["minutes", "minute", "min", "mins", "m"], 60 * second),
    (["hours", "hour", "hr", "hrs", "h"], 3600 * second),
    (["days", "day", "d"], 86400 * second),
    (["weeks", "week", "wk", "wks", "w"], 604800 * second),
    (["months", "month", "M"], 2630016 * second),
    (["years", "year", "yr", "yrs", "y"], 31557600 * second)]

/-- The nanoseconds of a unit. -/
def unit? (name : List Char) : Option Nat :=
  (units.find? fun (names, _) => names.any (·.toList == name)).map (·.2)

/-- A letter of a unit. -/
def isUnitChar (c : Char) : Bool := c.isAlpha || c = 'µ'

/-- A digit of a number, or a blank inside it. -/
def isNumberChar (c : Char) : Bool := c.isDigit || Text.isBlank c

/-- Both parts of a span fit 64 bits: its whole number in its unit, in nanoseconds for
the units below a second and in seconds for the others, and the fraction. -/
def spanNanos? (whole : Nat) (places : Option (List Char)) (unit : Nat) : Option Nat := do
  let scale (u : Nat) : Nat := if u < second then u else u / second
  if whole * scale unit ≥ UInt64.size then none
  else
    match places with
    | none => some (whole * unit)
    | some digits =>
      let numerator := digitsValue digits
      -- units up to a minute count their fraction in nanoseconds, longer ones in seconds
      let (step, size) := if unit ≤ 60 * second then (1, unit) else (second, unit / second)
      if digits.length > 19 ∨ unit = 1 ∨ numerator * size ≥ UInt64.size then none
      else some (whole * unit + numerator * size / Nat.pow 10 digits.length * step)

/-- The sum of the spans that a text begins with, in nanoseconds. -/
def readSpans : (fuel : Nat) → List Char → Option Nat
  | 0, _ => none
  | fuel + 1, s =>
    match s.dropWhile Text.isBlank with
    | [] => none
    | s@(first :: _) =>
      if !first.isDigit then none
      else
        let (number, rest) := s.span isNumberChar
        let whole := digitsValue (number.filter Char.isDigit)
        let (places, rest) :=
          match rest with
          | '.' :: rest =>
            let (digits, rest) := rest.span isNumberChar
            (some (digits.filter Char.isDigit), rest)
          | rest => (none, rest)
        let (name, rest) := rest.span isUnitChar
        if whole ≥ UInt64.size ∨ places = some [] then none
        else do
          let nanos ← spanNanos? whole places (← unit? name)
          if (rest.dropWhile Text.isBlank).isEmpty then some nanos
          else some (nanos + (← readSpans fuel rest))

/-- The duration that a text describes, if its seconds fit 64 bits. -/
def parse? (s : String) : Option Duration :=
  if s = "0" then some ⟨0⟩
  else
    match readSpans (s.length + 1) s.toList with
    | some nanos => if nanos / second < UInt64.size then some ⟨nanos⟩ else none
    | none => none

/-- The spans that make up a duration, longest first, each with its number and unit. -/
def spans (d : Duration) : List (Nat × String) :=
  let secs := d.seconds
  let rest := d.nanos % second
  let inYear := secs % 31557600
  let inMonth := inYear % 2630016
  let inDay := inMonth % 86400
  let plural (n : Nat) (unit : String) : Nat × String := (n, if n > 1 then unit ++ "s" else unit)
  [plural (secs / 31557600) "year", plural (inYear / 2630016) "month",
    plural (inMonth / 86400) "day", (inDay / 3600, "h"), (inDay % 3600 / 60, "m"),
    (inDay % 60, "s"), (rest / 1000000, "ms"), (rest / 1000 % 1000, "us"), (rest % 1000, "ns")]

/-- The text of a duration. -/
def text (d : Duration) : String :=
  if d.nanos = 0 then "0s"
  else " ".intercalate <| (d.spans.filter (·.1 > 0)).map fun (n, unit) => s!"{n}{unit}"

def codec : Codec Duration where
  encode d := .text d.text
  decode _
    | .text s =>
      match parse? s with
      | some d => .ok d
      | none => .error (.wrongValue (.text s) "a duration")
    | v => .error (.wrongType v "a duration")

end Duration

end Rollout
