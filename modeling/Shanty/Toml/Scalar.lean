/-
# Scalars in configuration documents

Which numbers, dates and times a document may hold. All of them are judged by how
they are written; nothing is computed with them.

Underscores may be put between the digits of a number. Whole numbers must fit into 64
bits and may be written in base two, eight or sixteen. A number with a fraction or an
exponent must not be too large for a binary fraction of double precision.
-/

import Shanty.Text.Number

namespace Shanty.Toml

/-- The value of a hexadecimal digit. -/
def hexValue? (c : Char) : Option Nat :=
  if '0' ≤ c && c ≤ '9' then some (c.toNat - '0'.toNat)
  else if 'a' ≤ c && c ≤ 'f' then some (c.toNat - 'a'.toNat + 10)
  else if 'A' ≤ c && c ≤ 'F' then some (c.toNat - 'A'.toNat + 10)
  else none

/-- Whether a character is a hexadecimal digit. -/
def isHexDigit (c : Char) : Bool := (hexValue? c).isSome

/-- Whether there is a digit in front of each underscore and something behind it, given
whether the text comes behind a digit. -/
def underscoresFit (isDigit : Char → Bool) (behindDigit : Bool) : List Char → Bool
  | [] => true
  | ['_'] => false
  | c :: rest => (c ≠ '_' || behindDigit) && underscoresFit isDigit (isDigit c) rest

/-- The number that digits stand for in a base. -/
def readBase (base : Nat) (digits : List Char) : Nat :=
  digits.foldl (fun value c => value * base + (hexValue? c).getD 0) 0

/-- Whether digits in a base make a number that fits into 64 bits with its sign. -/
def fitsBase (base : Nat) (digits : List Char) : Bool :=
  readBase base digits < 0x8000000000000000

/-- Whether a text that was read as a whole number is one. Three or more digits must not
start with a zero unless it belongs to the mark of a base. -/
def isInteger (written : List Char) : Bool :=
  let fits := underscoresFit Char.isDigit false written
  match written.filter (· ≠ '_') with
  | '0' :: 'x' :: c :: digits =>
    underscoresFit isHexDigit false written && fitsBase 16 (c :: digits)
  | '0' :: 'o' :: c :: digits => fits && fitsBase 8 (c :: digits)
  | '0' :: 'b' :: c :: digits => fits && fitsBase 2 (c :: digits)
  | '0' :: _ :: _ :: _ => false
  | plain => fits && (Text.readInt64? (String.ofList plain)).isSome

/-- Half a step above the largest fraction of double precision. -/
def floatLimit : Nat := Nat.pow 2 970 * (Nat.pow 2 54 - 1)

/-- Whether digits, of which some belong to the fraction, times a power of ten stay
below the limit. The power is only computed for numbers with as many digits in front
of the point as the limit has. -/
def isFinite (digits : List Char) (fraction : Nat) (exponent : Int) : Bool :=
  let significant := digits.dropWhile (· = '0')
  let length : Int := significant.length + exponent - fraction
  if significant.isEmpty || length < 309 then true
  else if 309 < length then false
  else
    let shift := exponent - fraction
    readBase 10 significant * Nat.pow 10 shift.toNat < floatLimit * Nat.pow 10 (-shift).toNat

/-- A text without the sign at its start, and whether that is a minus. -/
def splitSign : List Char → Bool × List Char
  | '-' :: rest => (true, rest)
  | '+' :: rest => (false, rest)
  | text => (false, text)

/-- The exponent at the end of a number. -/
def exponent? : List Char → Option Int
  | [] => some 0
  | c :: rest =>
    let (negative, digits) := splitSign rest
    if (c = 'e' || c = 'E') && !digits.isEmpty && digits.all Char.isDigit then
      some (if negative then -(readBase 10 digits : Int) else readBase 10 digits)
    else none

/-- Whether a text that was read as a number with a fraction or an exponent is one. -/
def isFloat (written : List Char) : Bool :=
  let plain := (splitSign (written.filter (· ≠ '_'))).2
  let whole := plain.takeWhile Char.isDigit
  let (fraction, rest) := match plain.dropWhile Char.isDigit with
    | '.' :: rest => (rest.takeWhile Char.isDigit, rest.dropWhile Char.isDigit)
    | rest => ([], rest)
  underscoresFit Char.isDigit false written && !(whole ++ fraction).isEmpty &&
    match exponent? rest with
    | none => false
    | some exponent => isFinite (whole ++ fraction) fraction.length exponent

/-- The number of days of a month in a year. -/
def daysIn (year month : Nat) : Nat :=
  if month = 2 then
    if year % 4 = 0 && (year % 100 ≠ 0 || year % 400 = 0) then 29 else 28
  else if month = 4 || month = 6 || month = 9 || month = 11 then 30
  else 31

/-- The numbers between the characters of a text that are no digits. -/
def numbersIn (text : List Char) : List Nat :=
  (text.splitBy fun first second => first.isDigit && second.isDigit).filterMap fun group =>
    if group.all Char.isDigit then some (readBase 10 group) else none

/-- Whether the day of a date exists. -/
def isDate (written : List Char) : Bool :=
  match numbersIn written with
  | [year, month, day] => 1 ≤ month && month ≤ 12 && 1 ≤ day && day ≤ daysIn year month
  | _ => false

/-- Whether a time of day exists. -/
def isTime (written : List Char) : Bool :=
  match numbersIn written with
  | hour :: minute :: second :: _ => hour < 24 && minute < 60 && second < 60
  | _ => false

/-- Whether the distance of a time zone exists. A whole day and a whole hour count as
such. -/
def isOffset (written : List Char) : Bool :=
  match numbersIn written with
  | [] => true
  | [hour, minute] => hour ≤ 24 && minute ≤ 60
  | _ => false

end Shanty.Toml
