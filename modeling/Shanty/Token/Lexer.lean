/-
# Cutting a source text into tokens

A source text alternates between gaps and tokens. A gap is made of blanks and of
comments, which run from `//` to the end of their line. A token is the longest
word, number, string or symbol that can be read from where it starts.

`Scanner.next` reads one token. A mistake in the text does not stop the scanner
for good: the characters of the failed token are kept as pending text, which is
glued to the front of whatever is read next, and the scanner can be asked again.
Compilation never does so, but a caller that wants all mistakes can.

`Piece.read_append` says that a piece of text and what follows it make up the text
they were read from, so that nothing is lost or read twice, and `next_progress`
that every step short of the end consumes something, so that scanning ends.
-/

import Shanty.Token
import Shanty.Text.Letter

namespace Shanty

/-- What can be wrong with the spelling of a token. -/
inductive LexicalError
  /-- The text read so far is not a symbol and cannot become one. -/
  | illegalCharacter (text : String)
  /-- A string runs into the end of its line, with or without a bad escape. -/
  | unterminatedString (badEscape : Bool)
  /-- A string is complete but has an escape that means nothing. -/
  | badEscape
  deriving DecidableEq

/-- The wording of a lexical error. -/
def LexicalError.message : LexicalError → String
  | .illegalCharacter text => "Illegal character " ++ text
  | .unterminatedString false => "Unterminated string literal ignored"
  | .unterminatedString true => "Unterminated string literal with bad escape sequence ignored"
  | .badEscape => "String literal with bad escape sequence ignored"

namespace Token.Lexer

open Text (isLetter isDigit decimalValue)

/-- The characters that separate tokens. -/
def isBlank (c : Char) : Bool :=
  c = ' ' || c = '\t' || c = '\n' || c = '\r' || c = '\x0b' || c = '\x0c'

/-- Whether a word can start with a character. -/
def startsWord (c : Char) : Bool := c = '_' || isLetter c

/-- Whether a word can go on with a character. -/
def continuesWord (c : Char) : Bool := startsWord c || isDigit c

/-- Splits off the gap at the head of a text. Inside a comment everything is
passed over up to and including the end of the line. -/
def splitGap (inComment : Bool) : List Char → List Char × List Char
  | [] => ([], [])
  | '/' :: '/' :: rest =>
    let (gap, after) := splitGap true rest
    ('/' :: '/' :: gap, after)
  | c :: rest =>
    if inComment || isBlank c then
      let (gap, after) := splitGap (inComment && c != '\n') rest
      (c :: gap, after)
    else ([], c :: rest)

/-- What a piece of text turned out to be. -/
inductive Verdict
  | token (kind : Kind)
  | mistake (error : LexicalError)

/-- A piece of text that was read in one go, and what comes after it. To know
that it ends there, the scanner may have had to look past the end of the text. -/
structure Piece where
  text : List Char
  rest : List Char
  verdict : Verdict
  sawEnd : Bool

/-- The piece with more text in front of it. -/
def Piece.after (front : List Char) (piece : Piece) : Piece :=
  { piece with text := front ++ piece.text }

/-- Extends a symbol as long as the longer text is a symbol too. -/
def growSymbol (symbol : List Char) : List Char → List Char × List Char
  | [] => ([], [])
  | c :: rest =>
    if (Kind.ofSymbol? (symbol ++ [c])).isSome then
      let (grown, after) := growSymbol (symbol ++ [c]) rest
      (c :: grown, after)
    else ([], c :: rest)

/-- What a text that cannot be extended to a longer symbol is. -/
def symbolVerdict (text : List Char) : Verdict :=
  match Kind.ofSymbol? text with
  | some kind => .token kind
  | none => .mistake (.illegalCharacter (String.ofList text))

/-- Reads a symbol. Pending text counts as part of it. A text that neither is a
symbol nor starts one is given up at once. -/
def readSymbol (pending : List Char) (c : Char) (rest : List Char) : Piece :=
  if (Kind.ofSymbol? (pending ++ [c])).isSome || Kind.startsSymbol (pending ++ [c]) then
    ⟨c :: (growSymbol (pending ++ [c]) rest).1, (growSymbol (pending ++ [c]) rest).2,
      symbolVerdict (pending ++ [c] ++ (growSymbol (pending ++ [c]) rest).1),
      (growSymbol (pending ++ [c]) rest).2.isEmpty⟩
  else ⟨[c], rest, symbolVerdict (pending ++ [c]), false⟩

/-- Reads a keyword or an identifier. Pending text counts as part of it. -/
def readWord (pending : List Char) (c : Char) (rest : List Char) : Piece :=
  let word := c :: rest.takeWhile continuesWord
  let after := rest.dropWhile continuesWord
  ⟨word, after, .token (Kind.ofWord (pending ++ word)), after.isEmpty⟩

/-- Reads a run of digits. -/
def readNumber (c : Char) (rest : List Char) : Piece :=
  let after := rest.dropWhile isDigit
  ⟨c :: rest.takeWhile isDigit, after, .token .intLiteral, after.isEmpty⟩

/-- Whether a character after a backslash makes an escape. -/
def isEscape (c : Char) : Bool := c = 'n' || c = 't' || c = '"' || c = '\\'

/-- Reads a string from after its opening quote up to and including the closing
one, or up to the end of the line. -/
def readStringBody (badEscape : Bool) : List Char → Piece
  | [] => ⟨[], [], .mistake (.unterminatedString badEscape), true⟩
  | '"' :: rest =>
    ⟨['"'], rest, if badEscape then .mistake .badEscape else .token .stringLiteral, false⟩
  | '\n' :: rest => ⟨[], '\n' :: rest, .mistake (.unterminatedString badEscape), false⟩
  | ['\\'] => ⟨['\\'], [], .mistake (.unterminatedString true), true⟩
  | '\\' :: '\n' :: rest =>
    ⟨['\\'], '\n' :: rest, .mistake (.unterminatedString true), false⟩
  | '\\' :: c :: rest =>
    (readStringBody (badEscape || !isEscape c) rest).after ['\\', c]
  | c :: rest => (readStringBody badEscape rest).after [c]

/-- Reads the piece of text that starts with a character outside all gaps. -/
def read (pending : List Char) (c : Char) (rest : List Char) : Piece :=
  if c = '/' then ⟨['/'], rest, .token .slash, rest.isEmpty⟩
  else if c = '"' then (readStringBody false rest).after ['"']
  else if isDigit c then readNumber c rest
  else if startsWord c then readWord pending c rest
  else readSymbol pending c rest

/-- The token of a kind with a given text. A number that is too large is replaced
by the largest one. Pending text in front of a number makes it unreadable, and it
is treated alike. -/
def makeToken (kind : Kind) (text : List Char) (span : Span) : Token :=
  if kind = .intLiteral && (text.any (!isDigit ·) || maxInt < decimalValue text) then
    ⟨kind, toString maxInt, span, true⟩
  else ⟨kind, String.ofList text, span, false⟩

end Token.Lexer

/-- What one step of the scanner yields. -/
inductive Scan
  | token (token : Token)
  | mistake (error : LexicalError) (span : Span)
  /-- The text could not be read any further. -/
  | unreadable (reason : String)

/-- Whether a step ended the scan: nothing can be read after it. -/
def Scan.isFinal : Scan → Bool
  | .token found => found.kind = .endOfFile
  | .mistake _ _ => false
  | .unreadable _ => true

/-- A source text that has been scanned up to some place. The text may break off
instead of ending; reading or looking past its last character then fails for the
given reason. -/
structure Scanner where
  rest : List Char
  place : Position := .origin
  pending : List Char := []
  breakage : Option String := none

namespace Scanner

open Token.Lexer

/-- The scanner after passing over the gap in front of the next token. -/
def skipGap (scanner : Scanner) : Scanner :=
  let (gap, rest) := splitGap false scanner.rest
  { scanner with rest, place := scanner.place.advance gap }

/-- The text of a token whose own characters are `text`. A division sign stands
for itself alone, and pending text is dropped. -/
def tokenText (pending : List Char) (kind : Token.Kind) (text : List Char) : List Char :=
  if kind = .slash then text else pending ++ text

/-- What the scanner yields for a piece of text in front of it. -/
def take (scanner : Scanner) (piece : Piece) : Scan × Scanner :=
  let stop := scanner.place.advance piece.text
  let span : Span := ⟨scanner.place, stop⟩
  let after := { scanner with rest := piece.rest, place := stop }
  match piece.verdict with
  | .token kind =>
    (.token (makeToken kind (tokenText scanner.pending kind piece.text) span),
      { after with pending := [] })
  | .mistake error =>
    (.mistake error span, { after with pending := scanner.pending ++ piece.text })

/-- What the scanner yields for a piece of text in front of it, if the text can be
read as far as the piece needs. -/
def settle (scanner : Scanner) (piece : Piece) : Scan × Scanner :=
  match scanner.breakage with
  | some reason => if piece.sawEnd then (.unreadable reason, scanner) else scanner.take piece
  | none => scanner.take piece

/-- What the scanner yields at the end of the text. The end token takes the
pending text along. -/
def finish (scanner : Scanner) : Scan × Scanner :=
  match scanner.breakage with
  | some reason => (.unreadable reason, scanner)
  | none =>
    (.token (makeToken .endOfFile scanner.pending ⟨scanner.place, scanner.place⟩),
      { scanner with pending := [] })

/-- Reads the token that starts right here. -/
def nextHere (scanner : Scanner) : Scan × Scanner :=
  match scanner.rest with
  | [] => scanner.finish
  | c :: rest => scanner.settle (read scanner.pending c rest)

/-- Reads the next token. At the end of the text that is the end token. -/
def next (scanner : Scanner) : Scan × Scanner := scanner.skipGap.nextHere

end Scanner

namespace Token.Lexer

/-- The gap and what follows it make up the text. -/
theorem splitGap_append (inComment : Bool) (text : List Char) :
    (splitGap inComment text).1 ++ (splitGap inComment text).2 = text := by
  fun_induction splitGap inComment text <;> simp_all

theorem growSymbol_append (symbol text : List Char) :
    (growSymbol symbol text).1 ++ (growSymbol symbol text).2 = text := by
  fun_induction growSymbol symbol text <;> simp_all

theorem readStringBody_append (badEscape : Bool) (text : List Char) :
    (readStringBody badEscape text).text ++ (readStringBody badEscape text).rest = text := by
  fun_induction readStringBody badEscape text <;> simp_all [Piece.after]

/-- A piece of text and what follows it make up the text it was read from. -/
theorem read_append (pending : List Char) (c : Char) (rest : List Char) :
    (read pending c rest).text ++ (read pending c rest).rest = c :: rest := by
  unfold read
  split
  · simp_all
  split
  · simp_all [Piece.after, readStringBody_append]
  split
  · simp [readNumber]
  split
  · simp [readWord]
  · unfold readSymbol
    split
    · simp [growSymbol_append]
    · simp

/-- Every piece of text has at least one character. -/
theorem read_text_ne_nil (pending : List Char) (c : Char) (rest : List Char) :
    (read pending c rest).text ≠ [] := by
  unfold read
  split
  · simp
  split
  · simp [Piece.after]
  split
  · simp [readNumber]
  split
  · simp [readWord]
  · unfold readSymbol
    split <;> simp

/-- What follows a piece of text is shorter than the text it was read from. -/
theorem length_read_rest (pending : List Char) (c : Char) (rest : List Char) :
    (read pending c rest).rest.length < rest.length + 1 := by
  have whole := congrArg List.length (read_append pending c rest)
  have some := List.length_pos_iff.mpr (read_text_ne_nil pending c rest)
  simp only [List.length_append, List.length_cons] at whole
  omega

end Token.Lexer

namespace Scanner

open Token.Lexer

/-- Passing over a gap reads on, or stays where it is. -/
theorem length_skipGap_rest (scanner : Scanner) :
    scanner.skipGap.rest.length ≤ scanner.rest.length := by
  have whole := congrArg List.length (splitGap_append false scanner.rest)
  simp only [List.length_append] at whole
  simp only [skipGap]
  omega

/-- At the end of the text every step is the last one. -/
theorem finish_isFinal (scanner : Scanner) : scanner.finish.1.isFinal = true := by
  unfold finish
  split <;> simp [Scan.isFinal, makeToken]

/-- The scanner takes up where a piece of text ended, or it has reached the end. -/
theorem settle_rest (scanner : Scanner) (piece : Piece)
    (goesOn : (scanner.settle piece).1.isFinal = false) :
    (scanner.settle piece).2.rest = piece.rest := by
  have taken : (scanner.take piece).2.rest = piece.rest := by
    unfold take
    split <;> rfl
  revert goesOn
  unfold settle
  split
  · split
    · simp [Scan.isFinal]
    · exact fun _ => taken
  · exact fun _ => taken

/-- A step that does not end the scan consumes something. -/
theorem next_progress (scanner : Scanner) (goesOn : scanner.next.1.isFinal = false) :
    scanner.next.2.rest.length < scanner.rest.length := by
  have gap := length_skipGap_rest scanner
  revert goesOn
  unfold next nextHere
  split
  · simp [finish_isFinal]
  · next c rest atText =>
    intro goesOn
    rw [settle_rest _ _ goesOn]
    have shorter := length_read_rest scanner.skipGap.pending c rest
    rw [atText, List.length_cons] at gap
    omega

/-- All that the scanner yields up to the end. A caller that is not `patient` gets
no further than the first mistake. -/
def scanAll (patient : Bool) (scanner : Scanner) : List Scan :=
  if _final : scanner.next.1.isFinal then [scanner.next.1]
  else match scanner.next.1 with
    | .mistake error span =>
      .mistake error span :: if patient then scanAll patient scanner.next.2 else []
    | scan => scan :: scanAll patient scanner.next.2
termination_by scanner.rest.length
decreasing_by all_goals exact next_progress scanner (by simpa using _final)

end Scanner

end Shanty
