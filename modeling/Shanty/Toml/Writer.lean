/-
# Writing configuration documents

Within a table the plain entries come first, then the tables in it, each behind an
empty line and indented by two spaces more. Entries are written in the order in
which they are given.
-/

import Shanty.Toml

namespace Shanty.Toml

/-- A hexadecimal digit. -/
def hexDigit (value : Nat) : Char :=
  if value < 10 then Char.ofNat ('0'.toNat + value) else Char.ofNat ('A'.toNat + value - 10)

/-- A number below two to the sixteenth in four hexadecimal digits. -/
def fourDigits (value : Nat) : List Char :=
  [hexDigit (value / 4096 % 16), hexDigit (value / 256 % 16), hexDigit (value / 16 % 16),
    hexDigit (value % 16)]

/-- A character as it is written between quotes. A character that has no escape of its
own, and whose code is below 31 in its lowest sixteen bits, is given by these bits. -/
def escapeChar (c : Char) : List Char :=
  match c with
  | '\x08' => ['\\', 'b']
  | '\t' => ['\\', 't']
  | '\n' => ['\\', 'n']
  | '\x0c' => ['\\', 'f']
  | '\r' => ['\\', 'r']
  | '"' => ['\\', '"']
  | '\\' => ['\\', '\\']
  | c =>
    let low := c.toNat % 0x10000
    if low < 31 then ['\\', 'u'] ++ fourDigits low else [c]

/-- A string in quotes. -/
def renderString (text : String) : String :=
  "\"" ++ String.ofList (text.toList.flatMap escapeChar) ++ "\""

mutual

/-- A value on one line. -/
def renderInline : Value → String
  | .string text => renderString text
  | .bool flag => if flag then "true" else "false"
  | .scalar text => text
  | .array items => "[" ++ String.intercalate ", " (renderItems items) ++ "]"
  | .table _ _ | .tables _ => ""

/-- Values on one line. -/
def renderItems : List Value → List String
  | [] => []
  | item :: rest => renderInline item :: renderItems rest

end

/-- The plain entries of a table. -/
def renderPlain (margin : String) : Entries → String
  | [] => ""
  | (_, .table _ _) :: rest | (_, .tables _) :: rest => renderPlain margin rest
  | (key, value) :: rest =>
    margin ++ key ++ " = " ++ renderInline value ++ "\n" ++ renderPlain margin rest

mutual

/-- The tables in a table, each with all that is in it. -/
def renderTables (margin path : String) : Entries → String
  | [] => ""
  | (key, .table inner _) :: rest =>
    "\n" ++ margin ++ "[" ++ path ++ key ++ "]\n" ++ renderPlain (margin ++ "  ") inner ++
      renderTables (margin ++ "  ") (path ++ key ++ ".") inner ++ renderTables margin path rest
  | (key, .tables items) :: rest =>
    renderList margin (path ++ key) items ++ renderTables margin path rest
  | _ :: rest => renderTables margin path rest

/-- The tables of a list of tables, each with all that is in it. -/
def renderList (margin path : String) : List (Entries × Bool) → String
  | [] => ""
  | (inner, _) :: rest =>
    "\n" ++ margin ++ "[[" ++ path ++ "]]\n" ++ renderPlain (margin ++ "  ") inner ++
      renderTables (margin ++ "  ") (path ++ ".") inner ++ renderList margin path rest

end

/-- A document as a text. -/
def render (document : Entries) : String :=
  renderPlain "" document ++ renderTables "" "" document

end Shanty.Toml
