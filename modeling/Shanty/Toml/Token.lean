/-
# The tokens of configuration documents

A document is cut into tokens in two modes. Where a statement can start, a bracket
opens a header and any other text is a key. Where a value can start, brackets and
braces open arrays and tables, and numbers, dates and strings are told apart by their
first characters. A line end leads back to statements unless an array is open. So what
a text means can depend on the lines before it: behind a key whose value is still
missing, the brackets of a header are read as those of an array.

The cut ends with the first mistake. `tokens` gives all tokens of a text.
-/

import Shanty.Toml.Key

namespace Shanty.Toml

/-- A token. Numbers, dates and times are kept as they are written. -/
inductive Token
  /-- A key, with the escapes between its quotes resolved. -/
  | key (written : List Char)
  /-- What is written between single brackets. -/
  | header (written : List Char)
  /-- What is written between double brackets. -/
  | listHeader (written : List Char)
  | equals | comma
  | openBracket | closeBracket
  | openBrackets | closeBrackets
  | openBrace | closeBrace
  | string (text : List Char)
  | bool (flag : Bool)
  /-- A number that is a word: without bound, or none at all. -/
  | word (written : List Char)
  | integer (written : List Char)
  | float (written : List Char)
  | date (written : List Char)
  | time (written : List Char)
  | offset (written : List Char)
  | finish
  | mistake

/-- What can start at a place in a document. -/
inductive Mode
  | statement | value

/-- What is opened in a value and has to be closed. -/
inductive Bracket
  | square | curly
  deriving DecidableEq

/-- Where the cut has got to: what can start here, and what is open, innermost first. -/
structure Place where
  mode : Mode := .statement
  opened : List Bracket := []

/-- One step of the cut: the tokens that it gives, and where and with which text to go
on, unless it was the last step. -/
structure Step where
  tokens : List Token
  next : Option (Place × List Char)

namespace Step

/-- A step that gives tokens and goes on. -/
def go (tokens : List Token) (place : Place) (rest : List Char) : Step :=
  ⟨tokens, some (place, rest)⟩

/-- A step that gives tokens up to a mistake. -/
def fail (tokens : List Token) : Step := ⟨tokens ++ [.mistake], none⟩

/-- A step that gives a token which may be there, with its rest, or a mistake. -/
def ofRead (place : Place) (read : Option (Token × List Char)) : Step :=
  match read with
  | some (token, rest) => go [token] place rest
  | none => fail []

end Step

/-- The text after the comment that it starts with. -/
def skipComment (text : List Char) : List Char := text.dropWhile (· ≠ '\n')

/-- Reads a key, up to what ends it: an equals sign, or a blank that no dot follows. -/
def keyText? (allowance : Nat) (text : List Char) : Option (List Char × List Char) :=
  match allowance, text with
  | _, [] => some ([], [])
  | 0, _ :: _ => none
  | allowance + 1, c :: rest =>
    if c = '=' then some ([], c :: rest)
    else if c = '"' then do
      let (body, rest) ← basicBody? ⟨false, true⟩ false rest
      extend ('"' :: body ++ ['"']) (← keyText? allowance rest)
    else if c = '\'' then do
      let (body, rest) ← literalBody? false rest
      extend ('\'' :: body ++ ['\'']) (← keyText? allowance rest)
    else if isBlank c then
      match skipBlanks rest with
      | '.' :: after => do
        extend (' ' :: rest.takeWhile isBlank ++ '.' :: after.takeWhile isBlank)
          (← keyText? allowance (skipBlanks after))
      | rest => some ([], rest)
    else if c = '.' || isBare c then do extend [c] (← keyText? allowance rest)
    else none
where
  /-- What was read, with more text in front of it. -/
  extend (front : List Char) (read : List Char × List Char) :
      Option (List Char × List Char) :=
    some (front ++ read.1, read.2)

/-- The token for what is written in a header. There is none if nothing is. -/
def headerTokens (token : List Char → Token) (written : List Char) : List Token :=
  if written.isEmpty then [] else [token written]

/-- The step behind the opening brackets of a header. -/
def headerStep (place : Place) (text : List Char) : Step :=
  let isInside (c : Char) : Bool := c ≠ '[' && c ≠ ']'
  match text with
  | '[' :: text =>
    let front := .openBrackets :: headerTokens .listHeader (text.takeWhile isInside)
    match text.dropWhile isInside with
    | ']' :: ']' :: rest => .go (front ++ [.closeBrackets]) place rest
    | _ => .fail front
  | text =>
    match text.dropWhile isInside with
    | ']' :: rest =>
      .go (.openBracket :: headerTokens .header (text.takeWhile isInside) ++ [.closeBracket])
        place rest
    | _ => .fail [.openBracket]

/-- The step at a brace that closes a table. -/
def closeBraceStep (opened : List Bracket) (rest : List Char) : Step :=
  match opened with
  | .curly :: opened => .go [.closeBrace] ⟨.value, opened⟩ rest
  | _ => .fail [.closeBrace]

/-- The step where a statement can start, given the first character. -/
def statementStep (opened : List Bracket) (c : Char) (rest : List Char) : Step :=
  let place : Place := ⟨.statement, opened⟩
  if c = '}' then closeBraceStep opened rest
  else if c = '[' then headerStep place rest
  else if c = '#' then .go [] place (skipComment rest)
  else if c = '=' then .go [.equals] ⟨.value, opened⟩ rest
  else if isBlank c || isLineEnd c then .go [] place rest
  else
    .ofRead place ((keyText? (rest.length + 1) (c :: rest)).map fun (written, rest) =>
      (.key written, rest))

/-- Whether a text has the shape of another, in which a zero stands for any digit. -/
def hasShape : List Char → List Char → Bool
  | [], [] => true
  | '0' :: shape, c :: text => c.isDigit && hasShape shape text
  | s :: shape, c :: text => s = c && hasShape shape text
  | _, _ => false

/-- Splits off the text of a shape. -/
def splitShape? (shape : String) (text : List Char) : Option (List Char × List Char) :=
  let front := text.take shape.length
  if hasShape shape.toList front then some (front, text.drop shape.length) else none

/-- Reads a time of day, of which the seconds may have a fraction. -/
def timeText? (text : List Char) : Option (List Char × List Char) := do
  let (whole, rest) ← splitShape? "00:00:00" text
  match rest with
  | '.' :: rest =>
    let fraction := rest.takeWhile Char.isDigit
    if fraction.isEmpty then none
    else some (whole ++ '.' :: fraction, rest.drop fraction.length)
  | rest => some (whole, rest)

/-- The tokens behind a time that follows a date: the distance of a time zone, if there
is one. -/
def offsetTokens? : List Char → Option (List Token × List Char)
  | 'Z' :: rest => some ([.offset ['Z']], rest)
  | c :: rest =>
    if c = '+' || c = '-' then
      (splitShape? "00:00" rest).map fun (distance, rest) => ([.offset (c :: distance)], rest)
    else some ([], c :: rest)
  | [] => some ([], [])

/-- The step behind a date, at its time. -/
def datedTimeStep (place : Place) (date : List Char) (text : List Char) : Step :=
  match timeText? text with
  | none => .fail [.date date]
  | some (time, rest) =>
    match offsetTokens? rest with
    | none => .fail [.date date, .time time]
    | some (offset, rest) => .go ([.date date, .time time] ++ offset) place rest

/-- The step at a date. Only a time, the end of the text or a space can follow it. -/
def dateStep (place : Place) (text : List Char) : Step :=
  match splitShape? "0000-00-00" text with
  | none => .fail []
  | some (date, rest) =>
    match rest with
    | [] => .go [.date date] place []
    | 'T' :: rest => datedTimeStep place date rest
    | ' ' :: rest =>
      if (splitShape? "00" rest).isSome then datedTimeStep place date rest
      else .go [.date date] place rest
    | _ => .fail [.date date]

/-- Whether a character marks an exponent. -/
def isMark (c : Char) : Bool := c = 'e' || c = 'E'

/-- Whether a character is a sign. -/
def isSign (c : Char) : Bool := c = '+' || c = '-'

/-- The decimal number at the start of a text. Signs go on with it behind the mark of an
exponent only. -/
def decimalText (behindMark : Bool) : List Char → List Char
  | [] => []
  | c :: rest =>
    if c.isDigit || c = '_' || c = '.' || isMark c || behindMark && isSign c then
      c :: decimalText (isMark c) rest
    else []

/-- Whether a decimal number has a digit, also in front of the point if it has one, which
must be the only point and stand in front of a digit. -/
def pointFits (number : List Char) : Bool :=
  (number.takeWhile (· ≠ '.')).any Char.isDigit &&
    match number.dropWhile (· ≠ '.') with
    | [] => true
    | _ :: fraction => fraction.head?.any Char.isDigit && !fraction.contains '.'

/-- The token for a decimal number with the sign in front of it, and the rest. -/
def decimal? (sign text : List Char) : Option (Token × List Char) :=
  let number := decimalText false text
  if pointFits number then
    let token := if number.any fun c => c = '.' || isMark c then Token.float else .integer
    some (token (sign ++ number), text.drop number.length)
  else none

/-- The token for digits in a base behind its mark, and the rest. -/
def based? (mark : Char) (isDigit : Char → Bool) (text : List Char) :
    Option (Token × List Char) :=
  let digits := text.takeWhile fun c => isDigit c || c = '_'
  if digits.isEmpty then none
  else some (.integer ('0' :: mark :: digits), text.drop digits.length)

/-- The word at the start of a text that is a value, and the rest. -/
def word? : List Char → Option (Token × List Char)
  | 't' :: 'r' :: 'u' :: 'e' :: rest => some (.bool true, rest)
  | 'f' :: 'a' :: 'l' :: 's' :: 'e' :: rest => some (.bool false, rest)
  | 'i' :: 'n' :: 'f' :: rest => some (.word ['i', 'n', 'f'], rest)
  | 'n' :: 'a' :: 'n' :: rest => some (.word ['n', 'a', 'n'], rest)
  | _ => none

/-- The token for the number at the start of a text, and the rest. -/
def number? : List Char → Option (Token × List Char)
  | '0' :: 'x' :: text => based? 'x' isHexDigit text
  | '0' :: 'o' :: text => based? 'o' (fun c => '0' ≤ c && c ≤ '7') text
  | '0' :: 'b' :: text => based? 'b' (fun c => c = '0' || c = '1') text
  | '0' :: c :: text => if c.isAlpha then none else decimal? [] ('0' :: c :: text)
  | c :: text =>
    if isSign c then
      match word? text with
      | some (.word written, rest) => some (.word (c :: written), rest)
      | _ => decimal? [c] text
    else decimal? [] (c :: text)
  | [] => none

/-- The step at a number, a date, a time or a word. -/
def scalarStep (place : Place) (c : Char) (text : List Char) : Step :=
  if isSign c then .ofRead place (number? text)
  else if c.isDigit then
    if (splitShape? "00:" text).isSome then
      .ofRead place ((timeText? text).map fun (time, rest) => (.time time, rest))
    else if (splitShape? "0000-" text).isSome then dateStep place text
    else .ofRead place (number? text)
  else .ofRead place (word? text)

/-- The step where a value can start, given the first character. -/
def valueStep (opened : List Bracket) (c : Char) (rest : List Char) : Step :=
  let place : Place := ⟨.value, opened⟩
  if c = '=' then .go [.equals] place rest
  else if c = '[' then .go [.openBracket] ⟨.value, .square :: opened⟩ rest
  else if c = ']' then
    match opened with
    | .square :: opened => .go [.closeBracket] ⟨.value, opened⟩ rest
    | _ => .fail [.closeBracket]
  else if c = '{' then .go [.openBrace] ⟨.statement, .curly :: opened⟩ rest
  else if c = '}' then closeBraceStep opened rest
  else if c = '#' then .go [] place (skipComment rest)
  else if c = '"' || c = '\'' then
    .ofRead place ((quoted? (c :: rest)).map fun (text, rest) => (.string text, rest))
  else if c = ',' then
    .go [.comma] ⟨if opened.head? = some .curly then .statement else .value, opened⟩ rest
  else if isLineEnd c then
    .go [] ⟨if opened.head? = some .square then .value else .statement, opened⟩ rest
  else if isBlank c then .go [] place rest
  else scalarStep place c (c :: rest)

/-- The next step. -/
def nextStep (place : Place) : List Char → Step
  | [] => ⟨[.finish], none⟩
  | c :: rest =>
    match place.mode with
    | .statement => statementStep place.opened c rest
    | .value => valueStep place.opened c rest

/-- The tokens of a text from a place in it. The last one is the end of the text or a
mistake. Each step takes some text away. -/
def tokensFrom (place : Place) (text : List Char) : List Token :=
  match nextStep place text with
  | ⟨front, none⟩ => front
  | ⟨front, some (place, rest)⟩ =>
    if _h : rest.length < text.length then front ++ tokensFrom place rest
    else front ++ [.mistake]
termination_by text.length

/-- The tokens of a text. -/
def tokens (text : List Char) : List Token := tokensFrom {} text

end Shanty.Toml
