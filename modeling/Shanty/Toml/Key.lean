/-
# Keys in configuration documents

A key is a path: parts with dots between them. A part is bare or stands in quotes,
between which it is taken as it is. Behind a part in quotes the dot may be missing,
and a dot at the start does not count.
-/

import Shanty.Toml.Quoted

namespace Shanty.Toml

/-- The characters of which keys are made that need no quotes. -/
def isBare (c : Char) : Bool := c.isAlphanum || c = '_' || c = '-'

/-- The text after the blanks at its start. -/
def skipBlanks (text : List Char) : List Char := text.dropWhile isBlank

/-- A part in quotes, given the text behind its opening quote, and what follows it. -/
def quotedPart? (quote : Char) (text : List Char) : Option (String × List Char) :=
  match text.dropWhile (· ≠ quote) with
  | [] => none
  | _ :: rest => some (String.ofList (text.takeWhile (· ≠ quote)), rest)

/-- A bare part and what follows it. Behind blanks only a dot can follow. -/
def barePart? (text : List Char) : Option (String × List Char) :=
  let part := String.ofList (text.takeWhile isBare)
  let rest := text.dropWhile isBare
  match skipBlanks rest with
  | [] => some (part, [])
  | '.' :: after => some (part, '.' :: after)
  | _ => none

/-- The text behind a dot, which must go on with a part or a space. -/
def afterDot? (text : List Char) : Option (List Char) :=
  match text with
  | [] => none
  | c :: _ => if isBare c || c = '\'' || c = '"' || c = ' ' then some text else none

/-- The parts of a key. The length of the text is enough of an allowance. -/
def parts? (allowance : Nat) (text : List Char) : Option (List String) :=
  match allowance, skipBlanks text with
  | _, [] => some []
  | 0, _ :: _ => none
  | allowance + 1, c :: rest => do
    if c = '.' then parts? allowance (← afterDot? rest)
    else
      let (part, rest) ←
        if c = '\'' || c = '"' then quotedPart? c rest
        else if isBare c then barePart? (c :: rest)
        else none
      return part :: (← parts? allowance rest)

/-- The path that a key is. It has at least one part. -/
def path? (key : List Char) : Option (List String) :=
  match parts? key.length key with
  | some [] => none
  | parts => parts

end Shanty.Toml
