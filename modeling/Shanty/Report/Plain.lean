/-
# Texts without colours

A text that is printed may hold marks that would set colours on a terminal: escape
codes, and tags in angle brackets, which count if one of them is the closing tag
`</>`. Nothing is printed in colours here, so the marks are left out.

Where a mark is left out, what stood around it may become a mark. Such a mark is left
out as well, unless marks are nested deeper than anyone looks.
-/

import Shanty.Report.Excerpt

namespace Shanty.Plain

/-- A text without the pieces in it of some kind, given how long the piece of that kind
is with which a text starts, which is zero if it starts with none. The first characters
may have to be skipped. -/
def without (size : List Char → Nat) (skip : Nat) : List Char → List Char
  | [] => []
  | c :: rest =>
    match if skip = 0 then size (c :: rest) else skip with
    | 0 => c :: without size 0 rest
    | more + 1 => without size more rest

/-- The length of characters of a kind with an end behind them, or zero if that is not
how a text starts. -/
def closedRun (isInside : Char → Bool) (stop : Char) (text : List Char) : Nat :=
  let run := text.takeWhile isInside
  if text[run.length]? = some stop then run.length + 1 else 0

/-- The length of the escape code at the start of a text. -/
def codeSize : List Char → Nat
  | '\x1b' :: '[' :: rest =>
    match closedRun (fun c => c.isDigit || c = ';' || c = '?') 'm' rest with
    | 0 | 1 => 0
    | size => size + 2
  | _ => 0

/-- The length of the tag at the start of a text. -/
def tagSize : List Char → Nat
  | '<' :: rest =>
    let slash := if rest.head? = some '/' then 1 else 0
    let isInside (c : Char) : Bool := c.isAlphanum || c = '_' || c = '=' || c = ',' || c = ';'
    match closedRun isInside '>' (rest.drop slash) with
    | 0 => 0
    | size => size + slash + 1
  | _ => 0

/-- A text without escape codes. -/
def withoutCodes (text : List Char) : List Char := without codeSize 0 text

/-- Whether there is a closing tag in a text. -/
def hasClosingTag : List Char → Bool
  | [] => false
  | '<' :: '/' :: '>' :: _ => true
  | _ :: rest => hasClosingTag rest

/-- A text without tags, if one of them is a closing tag. -/
def withoutTags (text : List Char) : List Char :=
  if hasClosingTag text then without tagSize 0 text else text

/-- A text from which tags have been left out a number of times. -/
def untagged : Nat → List Char → List Char
  | 0, text => text
  | times + 1, text => untagged times (withoutTags text)

/-- A text as it is printed. -/
def print (text : String) : String :=
  String.ofList (untagged 4 (withoutCodes (untagged 1 text.toList)))

/-- A text as it is printed on a line that it ends. -/
def printLine (text : String) : String :=
  String.ofList (untagged 4 (withoutCodes (untagged 2 (text.toList ++ ['\n']))))

/-- A text as it is printed behind a word, with all its lines below each other. -/
def printBehind (word text : String) : String :=
  let ended := withoutTags (text.toList ++ ['\n'])
  let lines := Excerpt.splitLines (ended.reverse.dropWhile (· = '\n')).reverse
  let shown := lines.map fun line => withoutCodes (withoutTags line)
  let margin := List.replicate (word.length + 3) ' '
  String.ofList (untagged 5 (' ' :: word.toList ++ [' ', ' '] ++
    List.intercalate ('\n' :: margin) shown ++ ['\n']))

end Shanty.Plain
