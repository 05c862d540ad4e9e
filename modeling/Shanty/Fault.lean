/-
# Faults

A diagnostic blames the program that is being compiled. A fault blames the
compiler: it ends the work on the spot and yields no result. The library never
raises one on a program that it accepted; the constructors say which promise was
broken so that this can be stated.
-/

import Shanty.Text.Span

namespace Shanty

/-- Why a computation was broken off. -/
inductive Fault
  /-- A promise between two phases was not kept. -/
  | internal (text : String)
  /-- A part of the language that is not supported yet was reached. -/
  | unfinished (text : String)
  /-- A mistake in the source that was raised where nobody turned it into a
  diagnostic. -/
  | unreported (span : Option Span) (text : String)
  /-- Something that has no value was used as if it had one. -/
  | crash (text : String)
  deriving DecidableEq

namespace Fault

/-- Use of a symbol, a type or an operand that is absent. -/
def absent : Fault := .crash "runtime error: invalid memory address or nil pointer dereference"

/-- The label under which the fault is announced. Only what was left unfinished
on purpose has one of its own. -/
def label : Fault → String
  | .unfinished _ => "ToDoError"
  | _ => "InternalError"

/-- What went wrong. -/
def text : Fault → String
  | .internal text | .unfinished text | .unreported _ text | .crash text => text

/-- The fault as a single line: its label and what went wrong. -/
def describe (fault : Fault) : String := fault.label ++ ": " ++ fault.text

end Fault

end Shanty
