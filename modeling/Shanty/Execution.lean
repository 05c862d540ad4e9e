/-
# Execution

The program as a whole: it reads its command line, does what it is asked to, and ends
with an exit code, which is zero if all went well. Whatever goes wrong on the way is
told under a tag that says where. A fault is announced and ends everything.
-/

import Shanty.CommandLine

namespace Shanty

/-- What becomes of a script when a fault in it is dealt with. -/
def Script.recover {α : Type} (deal : Fault → Script α) : Script α → Script α
  | .done result => .done result
  | .broken fault => deal fault
  | .ask request rest => .ask request fun reply => (rest reply).recover deal

namespace Execution

open CommandLine

/-- The version of the program. -/
def version : String := "0.1.0"

/-- The exit code after success. -/
def success : Nat := 0

/-- The exit code after failure. -/
def failure : Nat := 1

/-- The exit code for an outcome. -/
def exitCode (ok : Bool) : Nat := if ok then success else failure

/-- Complains and fails. -/
def complain (tag text : String) : Script Nat := do
  Script.print (tagged tag text)
  return failure

/-- Reads a source. Goes on with its absolute path and its text. -/
def withSource (workDir path : String) (next : String → String → Script Nat) : Script Nat := do
  let place := Path.absolute workDir path
  match ← Script.request (.read place) with
  | .ok text => next place text
  | .error reason =>
    complain "Source Error" ("failed to read " ++ path ++ ": " ++ reason.message)

/-- The profile with which a source is built. Without a project it is the standard one,
unless a profile was asked for. -/
def profileFor (source selected : String) : Script (Except String Profile) := do
  match ← Project.load (Path.directory source) selected with
  | .ok project => return .ok project.profile
  | .error .noFile =>
    if selected = "" then return .ok {}
    return .error ("profile `" ++ selected ++ "` selected but no " ++ Project.fileName ++ " found")
  | .error reason => return .error reason.message

/-- A profile after what the command line says. -/
def adjust (profile : Profile) (request : BuildRequest) : Profile :=
  { profile with
    target := request.target.getD profile.target
    output := if request.output = "" then profile.output else request.output
    optimize := profile.optimize && request.optimize }

/-- Builds a source. -/
def build (workDir : String) (level : LogLevel) (source : String) (request : BuildRequest) :
    Script Nat :=
  withSource workDir source fun path text => do
    match ← profileFor path request.profile with
    | .error reason => complain "Project Error" reason
    | .ok profile =>
      let job : Compilation.Job := ⟨path, text, adjust profile request, request.artifacts⟩
      let (result, _) ← Compilation.run (Compilation.build job) job level
      return exitCode result.isSome

/-- Checks a source. -/
def check (workDir : String) (level : LogLevel) (source : String) : Script Nat :=
  withSource workDir source fun path text => do
    let job : Compilation.Job := { path, text }
    let (result, _) ← Compilation.run (Compilation.analyze job) job level
    return exitCode result.isSome

/-- Makes a project in the working directory. -/
def init (workDir name : String) : Script Nat := do
  match ← Project.init workDir name with
  | .ok () => return success
  | .error reason => complain "Project Init Error" reason.message

/-- Does what was asked for. -/
def carryOut (workDir : String) (level : LogLevel) : Order → Script Nat
  | .build source request => build workDir level source request
  | .check source => check workDir level source
  | .init name => init workDir name
  | .version => do
    Script.print (tagged "cshantyc Version" version)
    return success

/-- Runs the program on a command line, which does not include the program's own name. -/
def execute (workDir : String) (pieces : List String) : Script Nat :=
  Script.recover (fun fault => do Script.print fault.announce; return failure) <|
    match read pieces with
    | .error mistake => complain "CLI Usage Error" mistake.message
    | .ok (level, order) => carryOut workDir level order

end Execution

end Shanty
