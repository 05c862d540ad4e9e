/-
# Tokens

The words of the language: their kinds, how keywords and symbols are spelled, and
the line that stands for a token in a token listing. Spelling is given as lists of
characters, because that is what the scanner holds when it asks.
-/

import Shanty.Text.Span
import Shanty.Diagnostic

namespace Shanty

namespace Token

/-- The kinds of token, in the order in which they are numbered. -/
inductive Kind
  | int | bool | string | void | record
  | «if» | «else» | «while» | «return» | receive | report | true | false
  | plus | minus | star | slash
  | equal | notEqual | less | greater | lessEqual | greaterEqual
  | not | and | or
  | assign | increment | decrement
  | leftParen | rightParen | leftBrace | rightBrace | leftBracket | rightBracket
  | comma | semicolon
  | ident | intLiteral | stringLiteral
  | endOfFile
  deriving DecidableEq

namespace Kind

/-- The number of a kind: its place in the list of kinds. -/
def number (kind : Kind) : Nat := kind.ctorIdx

/-- The name of a kind in a token listing. -/
def name : Kind → String
  | .int => "INT" | .bool => "BOOL" | .string => "STRING" | .void => "VOID"
  | .record => "RECORD" | .if => "IF" | .else => "ELSE" | .while => "WHILE"
  | .return => "RETURN" | .receive => "RECEIVE" | .report => "REPORT"
  | .true => "TRUE" | .false => "FALSE"
  | .plus => "PLUS" | .minus => "MINUS" | .star => "TIMES" | .slash => "DIVIDE"
  | .equal => "EQUALS" | .notEqual => "NOTEQUALS" | .less => "LESS"
  | .greater => "GREATER" | .lessEqual => "LESSEQ" | .greaterEqual => "GREATEREQ"
  | .not => "NOT" | .and => "AND" | .or => "OR"
  | .assign => "ASSIGN" | .increment => "INC" | .decrement => "DEC"
  | .leftParen => "LPAREN" | .rightParen => "RPAREN"
  | .leftBrace => "LBRACE" | .rightBrace => "RBRACE"
  | .leftBracket => "OPEN" | .rightBracket => "CLOSE"
  | .comma => "COMMA" | .semicolon => "SEMICOL"
  | .ident => "ID" | .intLiteral => "INTLITERAL" | .stringLiteral => "STRINGLITERAL"
  | .endOfFile => "EOF"

/-- The keywords with their kinds. -/
def keywords : List (List Char × Kind) := [
  (['i', 'n', 't'], .int),
  (['b', 'o', 'o', 'l'], .bool),
  (['s', 't', 'r', 'i', 'n', 'g'], .string),
  (['v', 'o', 'i', 'd'], .void),
  (['r', 'e', 'c', 'o', 'r', 'd'], .record),
  (['i', 'f'], .if),
  (['e', 'l', 's', 'e'], .else),
  (['w', 'h', 'i', 'l', 'e'], .while),
  (['r', 'e', 't', 'u', 'r', 'n'], .return),
  (['r', 'e', 'c', 'e', 'i', 'v', 'e'], .receive),
  (['r', 'e', 'p', 'o', 'r', 't'], .report),
  (['t', 'r', 'u', 'e'], .true),
  (['f', 'a', 'l', 's', 'e'], .false)]

/-- The kind of a word: the keyword that it spells, or else an identifier. -/
def ofWord (word : List Char) : Kind := (keywords.lookup word).getD .ident

/-- The symbols with their kinds. The division sign is missing: it is told apart from
a comment before symbols are considered. -/
def symbols : List (List Char × Kind) := [
  (['+'], .plus),
  (['-'], .minus),
  (['*'], .star),
  (['=', '='], .equal),
  (['!', '='], .notEqual),
  (['<'], .less),
  (['<', '='], .lessEqual),
  (['>'], .greater),
  (['>', '='], .greaterEqual),
  (['&', '&'], .and),
  (['|', '|'], .or),
  (['!'], .not),
  (['='], .assign),
  (['+', '+'], .increment),
  (['-', '-'], .decrement),
  (['('], .leftParen),
  ([')'], .rightParen),
  (['{'], .leftBrace),
  (['}'], .rightBrace),
  (['['], .leftBracket),
  ([']'], .rightBracket),
  ([','], .comma),
  ([';'], .semicolon)]

/-- The kind that a symbol spells. -/
def ofSymbol? (text : List Char) : Option Kind := symbols.lookup text

/-- Whether a text is no symbol itself but the first half of one. -/
def startsSymbol (text : List Char) : Bool := text = ['&'] || text = ['|']

end Kind

end Token

/-- A word of a program. The text of a literal or an identifier is kept as it was
written; a string keeps its quotes and its escapes. An integer literal beyond the
largest integer stands for that integer, and `clamped` remembers it. -/
structure Token where
  kind : Token.Kind
  text : String
  span : Span
  clamped : Bool := false
  deriving DecidableEq

namespace Token

/-- The largest integer that a literal can denote. -/
def maxInt : Nat := 2147483647

/-- The line for a token in a token listing: its kind, the text of an identifier
or a literal, and where it starts. -/
def listing (token : Token) : String :=
  let name := match token.kind with
    | .ident | .intLiteral | .stringLiteral => token.kind.name ++ ":" ++ token.text
    | kind => kind.name
  name ++ " " ++ token.span.start.render

/-- The remark that a token calls for: a literal that had to be clamped is
pointed out. -/
def warning? (token : Token) : Option Message :=
  if token.clamped then
    some (.warning token.span "Integer literal too large; using max value")
  else none

end Token

end Shanty
