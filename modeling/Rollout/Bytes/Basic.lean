/-!
# Bytes

File contents are bytes. A text is its bytes in UTF-8, and bytes are a text if they are
valid UTF-8.
-/

namespace Rollout

/-- The contents of a file. -/
abbrev Bytes := List UInt8

namespace Bytes

/-- A text in UTF-8. -/
def ofText (s : String) : Bytes := s.toUTF8.toList

/-- The text that bytes in UTF-8 spell, if they do. -/
def text? (bytes : Bytes) : Option String :=
  String.fromUTF8? (ByteArray.mk bytes.toArray)

/-!
### Reading UTF-8 leniently

Where bytes are no valid UTF-8, the longest beginning of a character that they hold, or
else a single byte, is read as the replacement character.
-/

/-- What stands in for bytes that spell no character. -/
def replacement : Char := '\ufffd'

/-- Whether a byte may follow the first byte of a character. -/
def isTail (b : UInt8) : Bool := 0x80 ≤ b && b ≤ 0xbf

/-- How many bytes follow a first byte, the bits it contributes, and the bounds of the
second byte, which rule out overlong forms, halves of pairs and numbers out of range. -/
def leadOf? (b : UInt8) : Option (Nat × Nat × UInt8 × UInt8) :=
  let n := b.toNat
  if 0xc2 ≤ b && b ≤ 0xdf then some (1, n - 0xc0, 0x80, 0xbf)
  else if b == 0xe0 then some (2, 0, 0xa0, 0xbf)
  else if b == 0xed then some (2, 13, 0x80, 0x9f)
  else if 0xe1 ≤ b && b ≤ 0xef then some (2, n - 0xe0, 0x80, 0xbf)
  else if b == 0xf0 then some (3, 0, 0x90, 0xbf)
  else if b == 0xf4 then some (3, 4, 0x80, 0x8f)
  else if 0xf1 ≤ b && b ≤ 0xf3 then some (3, n - 0xf0, 0x80, 0xbf)
  else none

/-- The characters of bytes. `begun` is the character begun: how many bytes it lacks, the
bits it has, and the bounds of its next byte. -/
def lenientChars : (begun : Option (Nat × Nat × UInt8 × UInt8)) → Bytes → List Char
  | none, [] => []
  | some _, [] => [replacement]
  | some (lacks, bits, low, high), b :: rest =>
    if low ≤ b && b ≤ high then
      let bits := bits * 64 + b.toNat % 64
      match lacks with
      | 0 | 1 => Char.ofNat bits :: lenientChars none rest
      | lacks + 1 => lenientChars (some (lacks, bits, 0x80, 0xbf)) rest
    else
      replacement ::
        if b < 0x80 then Char.ofNat b.toNat :: lenientChars none rest
        else
          match leadOf? b with
          | some lead => lenientChars (some lead) rest
          | none => replacement :: lenientChars none rest
  | none, b :: rest =>
    if b < 0x80 then Char.ofNat b.toNat :: lenientChars none rest
    else
      match leadOf? b with
      | some lead => lenientChars (some lead) rest
      | none => replacement :: lenientChars none rest

/-- The text that bytes spell, with replacements where they spell none. -/
def lenientText (bytes : Bytes) : String := String.ofList (lenientChars none bytes)

/-!
### Base 64

Three bytes are written as four characters of an alphabet of sixty-four; a last group
of one or two bytes is filled up with `=`.
-/

namespace Base64

/-- The standard alphabet. -/
def alphabet : List Char :=
  "ABCDEFGHIJKLMNOPQRSTUVWXYZabcdefghijklmnopqrstuvwxyz0123456789+/".toList

/-- The character for a number below 64. -/
def digit (n : Nat) : Char := alphabet.getD n '='

/-- The number below 64 that a character stands for. -/
def value? (c : Char) : Option Nat := alphabet.idxOf? c

/-- The characters for bytes. -/
def encodeChars : Bytes → List Char
  | [] => []
  | [a] =>
    let n := a.toNat * 16
    [digit (n / 64), digit (n % 64), '=', '=']
  | [a, b] =>
    let n := (a.toNat * 256 + b.toNat) * 4
    [digit (n / 4096), digit (n / 64 % 64), digit (n % 64), '=']
  | a :: b :: c :: rest =>
    let n := (a.toNat * 256 + b.toNat) * 256 + c.toNat
    digit (n / 262144) :: digit (n / 4096 % 64) :: digit (n / 64 % 64) :: digit (n % 64) ::
      encodeChars rest

/-- The text for bytes. -/
def encode (bytes : Bytes) : String := String.ofList (encodeChars bytes)

/-- The bytes that padded groups of four characters stand for. The bits that a padded
group leaves over have to be zero. -/
def decodeChars? : List Char → Option Bytes
  | [] => some []
  | [a, b, '=', '='] => do
    let n := (← value? a) * 64 + (← value? b)
    if n % 16 = 0 then some [UInt8.ofNat (n / 16)] else none
  | [a, b, c, '='] => do
    let n := ((← value? a) * 64 + (← value? b)) * 64 + (← value? c)
    if n % 4 = 0 then some [UInt8.ofNat (n / 1024), UInt8.ofNat (n / 4 % 256)] else none
  | a :: b :: c :: d :: rest => do
    let n := (((← value? a) * 64 + (← value? b)) * 64 + (← value? c)) * 64 + (← value? d)
    let tail ← decodeChars? rest
    some (UInt8.ofNat (n / 65536) :: UInt8.ofNat (n / 256 % 256) :: UInt8.ofNat (n % 256) :: tail)
  | _ => none

/-- The bytes that a text stands for. -/
def decode? (s : String) : Option Bytes := decodeChars? s.toList

end Base64

end Bytes

end Rollout
