/-
# The analysis of a program

The first half of a compilation: a source text is parsed, its names are resolved
and its types are checked. A phase that finds a mistake is the last one to run. A
caller may insist that the checker runs after a failed resolution, too, at the risk
of a fault.

An analysis may start from the record types of an earlier one, in which case they
keep their fields, and from its messages.
-/

import Shanty.Resolution
import Shanty.Tree.Parser
import Shanty.Typing

namespace Shanty

/-- The phases of the analysis. -/
inductive Phase
  | parse
  | resolve
  | check
  deriving DecidableEq

/-- The name of a phase. -/
def Phase.name : Phase → String
  | .parse => "parse"
  | .resolve => "resolve"
  | .check => "check"

/-- How far an analysis has come: the program with what is known about it, the
record types, the scopes left open, the messages, the first phase that found a
mistake, and whether the types have been checked. -/
structure Analysis where
  program : Option Tree.Program := none
  registry : Registry := {}
  chain : ScopeChain := {}
  messages : List Message := []
  failed : Option Phase := none
  checked : Bool := false

namespace Analysis

/-- Whether no phase has found a mistake. -/
def ok (analysis : Analysis) : Bool := analysis.failed.isNone

/-- The analysis after a phase, given whether the phase found no mistake. -/
def after (analysis : Analysis) (phase : Phase) (ok : Bool) (messages : List Message) :
    Analysis :=
  { analysis with
    messages := analysis.messages ++ messages
    failed := if ok then analysis.failed else analysis.failed.or (some phase) }

/-- Parses a source text. -/
def parse (analysis : Analysis) (stream : TokenStream) : Analysis :=
  let result := Tree.parse stream
  { analysis.after .parse result.program.isSome result.messages with program := result.program }

/-- Resolves the names of a program that has been parsed. -/
def resolve (analysis : Analysis) : Except Fault Analysis :=
  match analysis.program with
  | none => .ok analysis
  | some program => do
    let (state, resolved) ← Shanty.resolve analysis.registry program
    return { analysis.after .resolve resolved.ok resolved.messages with
      program := some resolved.tree, registry := state.registry, chain := state.chain }

/-- Checks the types of a program that has been resolved. After a failed resolution
it only does so under force. -/
def check (analysis : Analysis) (force : Bool := false) : Except Fault Analysis :=
  match analysis.program with
  | none => .ok analysis
  | some program =>
    if analysis.ok || force then do
      let checked ← Shanty.check program
      return { analysis.after .check checked.messages.isEmpty checked.messages with
        program := some checked.tree, checked := true }
    else .ok analysis

/-- A fresh analysis that knows the record types of an earlier program, whether or
not there were mistakes in it, and goes on from its messages. -/
def following (earlier : TokenStream) : Except Fault Analysis := do
  let analysis ← (Analysis.parse {} earlier).resolve
  return { registry := analysis.registry, messages := analysis.messages }

end Analysis

end Shanty
