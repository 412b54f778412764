import Rollout.Assoc

/-!
# Templates

A template is a text with placeholders: names between braces. Filling it in is one pass
from left to right, so that what a placeholder stands for is never filled in itself.
-/

namespace Rollout.Template

/-- A letter or an underscore, of ASCII. -/
def isNameStart (c : Char) : Bool := c.isAlpha || c = '_'

/-- A letter, a digit or an underscore, of ASCII. -/
def isNameChar (c : Char) : Bool := c.isAlphanum || c = '_'

/-- A part of a template. -/
inductive Piece where
  | placeholder (name : List Char)
  | char (c : Char)
deriving DecidableEq

/-- The name of the placeholder whose opening brace stands just before these characters. -/
def nameAt? (s : List Char) : Option (List Char) :=
  let name := s.takeWhile isNameChar
  match name, s.dropWhile isNameChar with
  | c :: _, '}' :: _ => if isNameStart c then some name else none
  | _, _ => none

/-- Cut a template into its parts, leaving out the next `skip` characters first. -/
def piecesFrom : (skip : Nat) → List Char → List Piece
  | _, [] => []
  | skip + 1, _ :: rest => piecesFrom skip rest
  | 0, c :: rest =>
    if c = '{' then
      match nameAt? rest with
      | some name => .placeholder name :: piecesFrom (name.length + 1) rest
      | none => .char c :: piecesFrom 0 rest
    else .char c :: piecesFrom 0 rest

/-- The parts of a template. -/
def pieces (s : List Char) : List Piece := piecesFrom 0 s

/-- The text of a part as it stands in the template. -/
def Piece.source : Piece → List Char
  | placeholder name => '{' :: name ++ ['}']
  | char c => [c]

/-- The text of a part once it is filled in. Placeholders without a value stay. -/
def Piece.fill (vars : Assoc String) : Piece → List Char
  | char c => [c]
  | placeholder name =>
    match vars.get? (String.ofList name) with
    | some value => value.toList
    | none => (placeholder name).source

/-- Fill in a template. -/
def substitute (template : String) (vars : Assoc String) : String :=
  String.ofList ((pieces template.toList).flatMap (Piece.fill vars))

end Rollout.Template
