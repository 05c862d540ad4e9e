/-
# Quoted literals

A literal stands for a sequence of bytes. It is written in one of three ways.
Between double quotes, a backslash starts an escape, and a line must not end; the
same holds between single quotes, where there must not be more than one character.
Between back quotes all stands for itself, except that carriage returns are left
out.

Literals in programs are always between double quotes and know four escapes only;
the others are understood here as well.
-/

import Shanty.Text.Utf8

namespace Shanty.Text.Literal

/-- The value of a hexadecimal digit. -/
def hexDigit? (c : Char) : Option Nat :=
  if '0' ≤ c && c ≤ '9' then some (c.toNat - '0'.toNat)
  else if 'a' ≤ c && c ≤ 'f' then some (c.toNat - 'a'.toNat + 10)
  else if 'A' ≤ c && c ≤ 'F' then some (c.toNat - 'A'.toNat + 10)
  else none

/-- The value of an octal digit. -/
def octalDigit? (c : Char) : Option Nat :=
  if '0' ≤ c && c ≤ '7' then some (c.toNat - '0'.toNat) else none

/-- The number with the given digits in a base. -/
def number? (base : Nat) (digit? : Char → Option Nat) (value : Nat) : List Char → Option Nat
  | [] => some value
  | c :: rest => do number? base digit? (value * base + (← digit? c)) rest

/-- The bytes of the character with a code, if there is one. -/
def character? (code : Nat) : Option (List UInt8) :=
  if code.isValidChar then some (Utf8.encode [Char.ofNat code]) else none

/-- A single byte, if the number fits. -/
def byte? (value : Nat) : Option (List UInt8) :=
  if value < 256 then some [UInt8.ofNat value] else none

/-- The byte that an escape of one letter stands for, apart from the quotes. -/
def simpleEscape? : Char → Option UInt8
  | 'a' => some 7
  | 'b' => some 8
  | 't' => some 9
  | 'n' => some 10
  | 'v' => some 11
  | 'f' => some 12
  | 'r' => some 13
  | '\\' => some 92
  | _ => none

/-- How many digits an escape has and how they are read: the number of characters
after the letter, the base and the bytes that the number stands for. -/
structure NumericEscape where
  length : Nat
  base : Nat
  digit? : Char → Option Nat
  bytes? : Nat → Option (List UInt8)

/-- The numeric escape that starts with a letter. An octal one starts with its first
digit, which is given as the value so far. -/
def numericEscape? (letter : Char) : Option (Nat × NumericEscape) :=
  match letter with
  | 'x' => some (0, ⟨2, 16, hexDigit?, byte?⟩)
  | 'u' => some (0, ⟨4, 16, hexDigit?, character?⟩)
  | 'U' => some (0, ⟨8, 16, hexDigit?, character?⟩)
  | c => (octalDigit? c).map fun value => (value, ⟨2, 8, octalDigit?, byte?⟩)

/-- The bytes of the character at the front of a literal between the given quotes,
and the number of characters that it takes. -/
def unit? (quote : Char) : List Char → Option (List UInt8 × Nat)
  | [] => none
  | '\\' :: letter :: rest =>
    if letter = quote then some (Utf8.encode [letter], 2)
    else match simpleEscape? letter with
      | some byte => some ([byte], 2)
      | none => do
        let (start, escape) ← numericEscape? letter
        let digits := rest.take escape.length
        if digits.length < escape.length then none
        else
          let value ← number? escape.base escape.digit? start digits
          return (← escape.bytes? value, 2 + escape.length)
  | ['\\'] => none
  | c :: _ => if c = '\n' || c = quote then none else some (Utf8.encode [c], 1)

/-- The bytes of what stands between double quotes. -/
def body? (body : List Char) : Option (List UInt8) :=
  match body with
  | [] => some []
  | c :: rest => do
    let (bytes, length) ← unit? '"' (c :: rest)
    return bytes ++ (← body? (rest.drop (length - 1)))
termination_by body.length
decreasing_by simp only [List.length_drop, List.length_cons]; omega

/-- The bytes of what stands between single quotes. -/
def singleBody? (body : List Char) : Option (List UInt8) :=
  match body with
  | [] => some []
  | body => do
    let (bytes, length) ← unit? '\'' body
    if length = body.length then return bytes else none

/-- The bytes that a literal stands for, quotes included in the text. -/
def decode? (text : String) : Option (List UInt8) :=
  match text.toList with
  | '"' :: rest => if rest.getLast? = some '"' then body? rest.dropLast else none
  | '\'' :: rest => if rest.getLast? = some '\'' then singleBody? rest.dropLast else none
  | '`' :: rest =>
    if rest.getLast? = some '`' && !rest.dropLast.contains '`' then
      some (Utf8.encode (rest.dropLast.filter (· ≠ '\r')))
    else none
  | _ => none

end Shanty.Text.Literal
