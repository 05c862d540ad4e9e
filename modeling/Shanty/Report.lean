/-
# Reporting

A reporter keeps the messages of a compilation and shows them as they come, as far
as its level lets it. At the highest level it also tells how each phase went and
closes with a summary. What it shows is answered as a text; printing it is left to
the caller.

Faults are announced, too, under a label of their own.
-/

import Shanty.Diagnostic
import Shanty.Report.Excerpt
import Shanty.Report.Plain

namespace Shanty

/-- How much is shown. Each level shows all that those before it show. -/
inductive LogLevel
  | silent
  | error
  | warn
  | verbose
  deriving DecidableEq

namespace LogLevel

/-- The name of a level. -/
def name : LogLevel → String
  | .silent => "silent"
  | .error => "error"
  | .warn => "warn"
  | .verbose => "verbose"

/-- The number of a level, from the one that shows least. -/
def number : LogLevel → Nat
  | .silent => 0
  | .error => 1
  | .warn => 2
  | .verbose => 3

/-- All levels, from the one that shows least. -/
def all : List LogLevel := [.silent, .error, .warn, .verbose]

/-- The level with a name. -/
def ofName? (name : String) : Option LogLevel := all.find? fun level => level.name = name

/-- Whether messages of a severity are shown. -/
def shows (level : LogLevel) : Severity → Bool
  | .error => 0 < level.number
  | .warning => 1 < level.number

end LogLevel

/-- A line with a tag in front. -/
def tagged (tag text : String) : String := Plain.print tag ++ Plain.printLine (" " ++ text)

/-- The announcement of a fault that ends everything. -/
def Fault.announce (fault : Fault) : String := "\n" ++ tagged (fault.label ++ ":") fault.text

/-- A reporter. The path stands in front of the messages and the source is what they
are about. -/
structure Reporter where
  level : LogLevel
  path : String
  source : String
  messages : List Message := []
  /-- The phase that is under way, if there is one. -/
  phase : String := ""

namespace Reporter

/-- The texts of the errors. -/
def errors (reporter : Reporter) : List String :=
  (reporter.messages.filter Message.isError).map (·.text)

/-- All messages, each on a line of its own. -/
def summary (reporter : Reporter) : String :=
  String.join (reporter.messages.map fun message => message.render ++ "\n")

/-- The word for a severity. -/
def severityWord : Severity → String
  | .error => "error"
  | .warning => "warning"

/-- The place of a message as it stands in front of it. -/
def renderPlace (path : String) : Option Span → String
  | none => path ++ ": "
  | some span => path ++ ":" ++ toString (Position.oneBased span.start.line) ++ ":" ++
    toString (Position.oneBased span.start.col) ++ ": "

/-- A message as it is shown, with an excerpt of the source if it has a span and there
is a source. -/
def display (reporter : Reporter) (message : Message) : Except Fault String := do
  let excerpt ← match message.span with
    | some span =>
      if reporter.source = "" then pure [] else Excerpt.ofSpan reporter.source.toList span
    | none => pure []
  return renderPlace reporter.path message.span ++ severityWord message.severity ++ ": " ++
    message.text ++ "\n" ++ String.ofList excerpt ++ "\n"

/-- Takes a message and answers what is shown of it. The message is kept even if it
cannot be shown. -/
def add (reporter : Reporter) (message : Message) : Reporter × Except Fault String :=
  ({ reporter with messages := reporter.messages ++ [message] },
    if reporter.level.shows message.severity then reporter.display message else .ok "")

/-- Takes messages one after the other and answers all that is shown of them. -/
def addAll (reporter : Reporter) : List Message → Reporter × Except Fault String
  | [] => (reporter, .ok "")
  | message :: rest =>
    match reporter.add message with
    | (reporter, .error fault) => (reporter, .error fault)
    | (reporter, .ok shown) =>
      let (reporter, more) := reporter.addAll rest
      (reporter, more.map (shown ++ ·))

/-- Takes what broke off a computation. A mistake in the source becomes a message; any
other fault goes on. -/
def catch? (reporter : Reporter) : Fault → Reporter × Except Fault String
  | .unreported span text => reporter.add (.error span text)
  | fault => (reporter, .error fault)

/-- The width in bytes to which the names of phases are filled up. -/
def phaseWidth : Nat := 12

/-- Starts a phase. -/
def beginPhase (reporter : Reporter) (phase : String) : Reporter := { reporter with phase }

/-- Ends the phase under way and tells how it went, given the time that it took as it is
shown. A name that is too long cannot be filled up. -/
def endPhase (reporter : Reporter) (ok : Bool) (elapsed : String) :
    Reporter × Except Fault String :=
  let size := reporter.phase.utf8ByteSize
  if reporter.level ≠ .verbose || reporter.phase = "" then (reporter, .ok "")
  else if phaseWidth < size then
    (reporter, .error (.crash "phase name too long"))
  else
    let name := reporter.phase ++ String.ofList (List.replicate (phaseWidth - size) ' ')
    ({ reporter with phase := "" },
      .ok (if ok then Plain.printBehind "Done" (name ++ " " ++ elapsed)
        else Plain.printBehind "Fail" name))

/-- A number of things. -/
def counted (count : Nat) (thing : String) : String :=
  toString count ++ " " ++ thing ++ if count = 1 then "" else "s"

/-- The closing words. -/
def finished (reporter : Reporter) : String :=
  if reporter.level ≠ .verbose then ""
  else
    let errors := errorCount reporter.messages
    "\n" ++ (if errors = 0 then "All done! " else "Oh no! ") ++ "(" ++ counted errors "error" ++
      ", " ++ counted (warningCount reporter.messages) "warning" ++ ")\n"

end Reporter

end Shanty
