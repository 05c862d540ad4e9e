/-
# Positions and spans of source text

Every token, every node of a syntax tree and every diagnostic says where in the
source it stands. A place is a line and a column, both counted from zero; a span
runs from its first place up to, and not including, its last one. Columns count
characters, except that a tab is four columns wide, so that they agree with a
display in which tabs have been expanded.

People read places counted from one, and the two `render` functions are the only
ones that know it.
-/

namespace Shanty

/-- A place in a source text. The coordinates are integers because a span may
also be handed in from outside, where nothing keeps it inside the text. -/
structure Position where
  line : Int
  col : Int
  deriving DecidableEq

/-- The stretch of text from one place up to another. -/
structure Span where
  start : Position
  stop : Position
  deriving DecidableEq

/-- The width of a tab, in columns. -/
def tabWidth : Nat := 4

namespace Position

/-- The first place of a text. -/
def origin : Position := ⟨0, 0⟩

/-- The place after reading one character. -/
def step (place : Position) (c : Char) : Position :=
  if c = '\n' then ⟨place.line + 1, 0⟩
  else if c = '\t' then ⟨place.line, place.col + tabWidth⟩
  else ⟨place.line, place.col + 1⟩

/-- The place after reading a stretch of text. -/
def advance (place : Position) (text : List Char) : Position :=
  text.foldl step place

/-- A coordinate as people count it. Coordinates are 64-bit words, so the
largest one is followed by the smallest. -/
def oneBased (n : Int) : Int := Int.bmod (n + 1) 0x10000000000000000

/-- The place as `[line,column]`, counted from one. -/
def render (place : Position) : String :=
  "[" ++ toString (oneBased place.line) ++ "," ++ toString (oneBased place.col) ++ "]"

@[simp]
theorem advance_nil (place : Position) : place.advance [] = place := rfl

@[simp]
theorem advance_cons (place : Position) (c : Char) (text : List Char) :
    place.advance (c :: text) = (place.step c).advance text := rfl

/-- Reading two stretches of text one after the other is reading them joined. -/
theorem advance_append (place : Position) (first second : List Char) :
    place.advance (first ++ second) = (place.advance first).advance second := by
  simp [advance]

end Position

namespace Span

/-- The span from the start of one span to the end of another. -/
def through (first last : Span) : Span := ⟨first.start, last.stop⟩

/-- The span as `[line,column]-[line,column]`, counted from one. -/
def render (span : Span) : String := span.start.render ++ "-" ++ span.stop.render

/-- A span that may be missing. A missing one is written with the zeros that no
place of a text has when counted from one. -/
def renderOptional : Option Span → String
  | some span => span.render
  | none => "[0,0]-[0,0]"

end Span

end Shanty
