/-
# Diagnostics

What a compilation has to say about a program is a list of messages in the order
in which they came up. Errors make a program unacceptable, warnings do not. Every
phase returns the messages that it produced; whether and how they are shown is
decided elsewhere.
-/

import Shanty.Text.Span

namespace Shanty

/-- How grave a message is. -/
inductive Severity
  | error
  | warning
  deriving DecidableEq

/-- One remark about a program. A message about the input as a whole has no
span. -/
structure Message where
  severity : Severity
  span : Option Span
  text : String
  deriving DecidableEq

namespace Message

/-- An error. -/
def error (span : Option Span) (text : String) : Message := ⟨.error, span, text⟩

/-- A warning. -/
def warning (span : Option Span) (text : String) : Message := ⟨.warning, span, text⟩

/-- Whether the message is an error. -/
def isError (message : Message) : Bool := message.severity = .error

/-- The message on a line of its own, behind its span if it has one. -/
def render (message : Message) : String :=
  match message.span with
  | none => message.text
  | some span => span.render ++ ": " ++ message.text

end Message

/-- The number of errors among some messages. -/
def errorCount (messages : List Message) : Nat := messages.countP Message.isError

/-- The number of warnings among some messages. -/
def warningCount (messages : List Message) : Nat :=
  messages.countP fun message => !message.isError

end Shanty
