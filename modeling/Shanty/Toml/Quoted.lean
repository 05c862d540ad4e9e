/-
# Strings in configuration documents

A string stands in double quotes, between which a backslash starts an escape, or in
single quotes, between which every character stands for itself. With three quotes in
place of one it may go on over several lines, and a line end right behind the opening
quotes does not belong to it.
-/

import Shanty.Toml.Scalar

namespace Shanty.Toml

/-- The characters that separate on a line. -/
def isBlank (c : Char) : Bool := c = ' ' || c = '\t'

/-- The characters that end a line. -/
def isLineEnd (c : Char) : Bool := c = '\n' || c = '\r'

/-- The character with a code, or the replacement character if there is none. -/
def charOfCode (code : Nat) : Char :=
  if code.isValidChar then Char.ofNat code else Char.ofNat 0xFFFD

/-- The character that hexadecimal digits stand for. -/
def hexChar? (digits : List Char) : Option Char :=
  if digits.all isHexDigit then some (charOfCode (readBase 16 digits)) else none

/-- The character that an escape of one letter stands for. -/
def escape? : Char → Option Char
  | 'b' => some '\x08'
  | 't' => some '\t'
  | 'n' => some '\n'
  | 'f' => some '\x0c'
  | 'r' => some '\r'
  | '"' => some '"'
  | '/' => some '/'
  | '\\' => some '\\'
  | _ => none

/-- How a string in double quotes is bounded. -/
structure Bounds where
  /-- Whether three quotes end it, and not one. -/
  tripled : Bool
  /-- Whether it may go on over several lines. -/
  manyLines : Bool

/-- What was read, with a character in front of it. -/
def prepend (c : Char) (read : List Char × List Char) : List Char × List Char :=
  (c :: read.1, read.2)

/-- Reads a string up to its closing double quotes. A backslash in front of blanks and
line ends takes all of them out of the string. -/
def basicBody? (bounds : Bounds) (skipping : Bool) : List Char → Option (List Char × List Char)
  | [] => none
  | '\\' :: 'u' :: a :: b :: c :: d :: rest => do
    return prepend (← hexChar? [a, b, c, d]) (← basicBody? bounds false rest)
  | '\\' :: 'U' :: a :: b :: c :: d :: e :: f :: g :: h :: rest => do
    return prepend (← hexChar? [a, b, c, d, e, f, g, h]) (← basicBody? bounds false rest)
  | '\\' :: c :: rest =>
    if isBlank c || isLineEnd c then basicBody? bounds true rest
    else do return prepend (← escape? c) (← basicBody? bounds false rest)
  | '"' :: '"' :: '"' :: rest =>
    if bounds.tripled then some ([], rest) else some ([], '"' :: '"' :: rest)
  | c :: rest =>
    if skipping && (isBlank c || isLineEnd c) then basicBody? bounds true rest
    else if c = '"' && !bounds.tripled then some ([], rest)
    else if c.toNat < 0x20 && c ≠ '\t' && !(bounds.manyLines && isLineEnd c) then none
    else (basicBody? bounds false rest).map (prepend c)

/-- Reads a string up to its closing single quotes, of which there may be three. -/
def literalBody? (tripled : Bool) : List Char → Option (List Char × List Char)
  | [] => none
  | '\'' :: '\'' :: '\'' :: rest =>
    if tripled then some ([], rest) else some ([], '\'' :: '\'' :: rest)
  | c :: rest =>
    if c = '\'' && !tripled then some ([], rest)
    else (literalBody? tripled rest).map (prepend c)

/-- A text without the line end at its start. -/
def dropLineEnd : List Char → List Char
  | '\r' :: '\n' :: rest | '\n' :: rest => rest
  | text => text

/-- Reads the string at the start of a text, which starts with a quote. -/
def quoted? : List Char → Option (List Char × List Char)
  | '"' :: '"' :: '"' :: rest => basicBody? ⟨true, true⟩ false (dropLineEnd rest)
  | '"' :: rest => basicBody? ⟨false, false⟩ false rest
  | '\'' :: '\'' :: '\'' :: rest => literalBody? true (dropLineEnd rest)
  | '\'' :: rest => literalBody? false rest
  | _ => none

end Shanty.Toml
