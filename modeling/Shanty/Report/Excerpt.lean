/-
# Excerpts of the source

A message that blames a stretch of the source shows it: each line that the stretch
touches behind its number, without the indentation that all these lines share, and
below it a line of carets under the part that is meant.

Tabs are shown as four spaces, which is also how wide they are for the columns of a
span. The end of a line is counted in bytes and the columns of a span in characters,
so the carets of a stretch that goes on to the next line may reach past the end of a
line that is not plain ASCII.
-/

import Shanty.Fault

namespace Shanty.Excerpt

/-- The lines of a text, without what ends them. There is one more than there are line
ends. -/
def splitLines : List Char → List (List Char)
  | [] => [[]]
  | c :: rest =>
    match splitLines rest with
    | [] => [[c]]
    | line :: lines => if c = '\n' then [] :: line :: lines else (c :: line) :: lines

/-- A line without carriage returns at its end. -/
def trimReturns (line : List Char) : List Char :=
  (line.reverse.dropWhile (· = '\r')).reverse

/-- A line with its tabs expanded. -/
def expandTabs (line : List Char) : List Char :=
  line.flatMap fun c => if c = '\t' then List.replicate tabWidth ' ' else [c]

/-- A line as it is shown, apart from its indentation. -/
def shownLine (line : List Char) : List Char := expandTabs (trimReturns line)

/-- The number of spaces at the start of a line. -/
def indent (line : List Char) : Nat := (line.takeWhile (· = ' ')).length

/-- The indentation that all lines have at least. -/
def sharedIndent : List (List Char) → Nat
  | [] => 0
  | line :: rest => rest.foldl (fun least line => min least (indent line)) (indent line)

/-- The number of bytes of a line. -/
def byteLength (line : List Char) : Nat := line.foldr (fun c length => c.utf8Size + length) 0

/-- A text filled up with spaces to a number of characters. -/
def padded (text : String) (width : Nat) : List Char :=
  text.toList ++ List.replicate (width - text.length) ' '

/-- The columns at which carets stand below a line, counted after the indentation:
how many to leave out and how many to mark. At least one is marked. -/
def carets (start stop : Int) (shared : Nat) : Nat × Nat :=
  ((start - shared).toNat, max 1 (stop - start).toNat)

/-- A line and the carets below it. Answers what stands behind the number of the line
and what stands on the line of the carets. -/
def rows (number : String) (width shared : Nat) (line : List Char) (start stop : Int) :
    List Char :=
  let gutter := " | ".toList
  let (skip, marks) := carets start stop shared
  padded number width ++ gutter ++ line.drop shared ++ ['\n'] ++
    List.replicate width ' ' ++ gutter ++ List.replicate skip ' ' ++
    List.replicate marks '^' ++ ['\n']

/-- The rows of some lines, the first of which has a number and starts to be meant at
a column. The last one is meant up to a column, all others to their ends. -/
def rowsFrom (number : Int) (width shared : Nat) (start stop : Int) :
    List (List Char) → List Char
  | [] => []
  | [line] =>
    rows (toString number) width shared line start (min stop (byteLength line))
  | line :: rest =>
    rows (toString number) width shared line start (byteLength line) ++
      rowsFrom (number + 1) width shared shared stop rest

/-- The lines of a text that a span touches. A span that starts before the first line
touches nothing that could be shown. -/
def touched (source : List Char) (span : Span) : Except Fault (List (List Char)) :=
  if span.start.line < 0 && span.start.line ≤ span.stop.line then
    .error (.crash ("no line " ++ toString span.start.line))
  else
    .ok ((((splitLines source).drop span.start.line.toNat).take
      (span.stop.line - span.start.line + 1).toNat).map shownLine)

/-- The excerpt of a text that shows a span. -/
def ofSpan (source : List Char) (span : Span) : Except Fault (List Char) := do
  let lines ← touched source span
  let width := (toString (Position.oneBased span.stop.line)).length
  return rowsFrom (span.start.line + 1) width (sharedIndent lines) span.start.col span.stop.col
    lines

end Shanty.Excerpt
