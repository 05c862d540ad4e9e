/-
# Compilation

A compilation takes a source through all phases. Each phase only starts if those
before it have found no mistake, and the reporter tells how they go. On the way the
compilation delivers what was asked for: the tokens, the program as it was parsed and
with its resolved names, the intermediate code, and the generated code.

The phases themselves are plain functions. What is added here is the order in which
they run, what is reported, and what is delivered to the host.
-/

import Shanty.Code.Lowering
import Shanty.Code.Peephole
import Shanty.Project
import Shanty.Report
import Shanty.Resolution
import Shanty.Tree.Outline
import Shanty.Tree.Parser
import Shanty.Tree.Printer
import Shanty.Typing

namespace Shanty

/-- The ending of the names of files with code for a target. -/
def Target.extension : Target → String
  | .x64 => ".s"
  | .mips => ".asm"
  | .llvm => ".ll"

namespace Compilation

/-- The path that stands for the screen. -/
def screen : String := "--"

/-- Where the code of a source goes, given the path that was asked for and the
extension that files with such code have. Without a path the code goes next to the
source, and relative paths start from the folder of the source. -/
def outputPath (source output extension : String) : String :=
  if output = screen then output
  else if output = "" then Path.dropExtension source ++ extension
  else if Path.isAbsolute output then output
  else Path.join (Path.directory source) output

/-- The paths to which a compilation delivers what it comes by on its way to the code.
What has an empty path is not delivered. -/
structure Artifacts where
  tokens : String := ""
  /-- The program as it was parsed. -/
  parsed : String := ""
  /-- The program with the types of its names. -/
  names : String := ""
  /-- The intermediate code. -/
  listing : String := ""
  /-- Whether the syntax tree is shown. -/
  showTree : Bool := false

/-- A source with its absolute path, and all that was asked for. -/
structure Job where
  path : String
  text : String
  profile : Profile := {}
  artifacts : Artifacts := {}

/-- Why something was not delivered. -/
inductive DeliveryError
  | noFolder (path : String) (reason : HostError)
  | noFile (path : String) (reason : HostError)

/-- The error in words. -/
def DeliveryError.message : DeliveryError → String
  | .noFolder path reason => "failed to create directory for " ++ path ++ ": " ++ reason.message
  | .noFile path reason => "failed to create " ++ path ++ ": " ++ reason.message

/-- Delivers a text to a path. The file is made before the text, so a fault in place of
a text leaves an empty file behind. -/
def deliver (path : String) (text : Except Fault String) : Script (Except DeliveryError Unit) := do
  if path = screen then
    Script.print (← Script.ofExcept text)
    return .ok ()
  match ← Script.request (.makeFolder (Path.directory path)) with
  | .error reason => return .error (.noFolder path reason)
  | .ok () =>
    match ← Script.request (.write path (text.toOption.getD "")) with
    | .error reason => return .error (.noFile path reason)
    | .ok () =>
      let _ ← Script.ofExcept text
      return .ok ()

end Compilation

/-- A part of a compilation. It goes on from a reporter and has no result if the
compilation has failed. -/
abbrev Compilation (α : Type) := OptionT (StateT Reporter Script) α

namespace Compilation

/-- A script as a part of a compilation. -/
def ofScript {α : Type} (script : Script α) : Compilation α := OptionT.lift (StateT.lift script)

/-- Shows a text. -/
def print (text : String) : Compilation Unit := ofScript (Script.print text)

/-- A result that may be a fault. -/
def ofExcept {α : Type} (result : Except Fault α) : Compilation α :=
  ofScript (Script.ofExcept result)

/-- Lets the reporter take a message. -/
def reportOne (message : Message) : Compilation Unit := do
  let (reporter, shown) := (← get).add message
  set reporter
  print (← ofExcept shown)

/-- Lets the reporter take messages one after the other. -/
def report (messages : List Message) : Compilation Unit := messages.forM reportOne

/-- Does something as a phase with a name. The phase is ended even if it failed. -/
def phase {α : Type} (name : String) (work : Compilation α) : Compilation α := do
  modify (·.beginPhase name)
  ofScript (Script.request .startWatch)
  let result ← OptionT.lift (OptionT.run work)
  let elapsed ← ofScript (Script.request .readWatch)
  let (reporter, shown) := (← get).endPhase result.isSome elapsed
  set reporter
  print (← ofExcept shown)
  OptionT.mk (pure result)

/-- Delivers a text if it has a path. The compilation fails if it cannot be delivered. -/
def artifact (path what : String) (text : Except Fault String) : Compilation Unit := do
  if path ≠ "" then
    match ← ofScript (deliver path text) with
    | .ok () => pure ()
    | .error reason =>
      print (tagged "Output Error" ("failed to write " ++ what ++ ": " ++ reason.message))
      failure

/-- Lists the tokens of a source, if that was asked for. -/
def listTokens (job : Job) (stream : TokenStream) : Compilation Unit := do
  if job.artifacts.tokens ≠ "" then
    report stream.messages
    if stream.failure.isSome then failure
    artifact job.artifacts.tokens "tokens" (.ok stream.listing)

/-- Parses the source. -/
def parse (job : Job) : Compilation Tree.Program := do
  let stream := TokenStream.ofText job.text.toList
  listTokens job stream
  let result := Tree.parse stream
  report result.messages
  match result.program with
  | none => failure
  | some program =>
    if job.artifacts.showTree then print program.outline.render
    artifact job.artifacts.parsed "unparse" (.ok program.render)
    return program

/-- Resolves the names of a program. -/
def resolve (program : Tree.Program) : Compilation Tree.Program := do
  let (_, resolved) ← ofExcept (Shanty.resolve {} program)
  report resolved.messages
  if resolved.ok then return resolved.tree else failure

/-- Checks the types of a resolved program. -/
def check (program : Tree.Program) : Compilation Tree.Program := do
  let checked ← ofExcept (Shanty.check program)
  report checked.messages
  if checked.messages.isEmpty then return checked.tree else failure

/-- The phases that look for mistakes. -/
def analyze (job : Job) : Compilation Tree.Program := do
  let program ← phase "Parsing" (parse job)
  let program ← phase "Resolving" (resolve program)
  artifact job.artifacts.names "names" (.ok program.render)
  phase "Checking" (check program)

/-- Lowers a checked program to intermediate code. -/
def lower (program : Tree.Program) : Compilation Code.Program := ofExcept (Code.lower program)

/-- Optimizes intermediate code. -/
def optimize (code : Code.Program) : Compilation Code.Program := pure code.optimize

/-- Generates code and delivers it. -/
def emit (job : Job) (code : Code.Program) : Compilation Unit :=
  let target := job.profile.target
  artifact (outputPath job.path job.profile.output target.extension) "output"
    (target.emit code .empty).2

/-- The phases that make code of a checked program. -/
def generate (job : Job) (program : Tree.Program) : Compilation Unit := do
  let code ← phase "Lowering" (lower program)
  let code ← if job.profile.optimize then phase "Optimizing" (optimize code) else pure code
  artifact job.artifacts.listing "3AC" (code.render job.profile.verbose)
  phase "Generating" (emit job code)

/-- All phases. -/
def build (job : Job) : Compilation Unit := do generate job (← analyze job)

/-- Runs a compilation of a job from the start and closes with a summary. The result
comes with the reporter as it is left. -/
def run {α : Type} (work : Compilation α) (job : Job) (level : LogLevel) :
    Script (Option α × Reporter) := do
  let start : Reporter := { level, path := job.path, source := job.text }
  let (result, reporter) ← (OptionT.run work).run start
  Script.print reporter.finished
  return (result, reporter)

end Compilation

end Shanty
