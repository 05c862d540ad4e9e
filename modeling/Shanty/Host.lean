/-
# Talking to the host

What the compiler wants from its surroundings is written down as a script: a tree of
requests in which what comes next depends on the reply. A script does nothing by
itself. It is run by answering its requests, and the same script can be answered by
the operating system, by a disk that is only imagined, or by a host on which nothing
ever goes wrong.

A script may also break off with a fault.
-/

import Shanty.Fault

namespace Shanty

/-- Why the host did not do something with a path. -/
inductive HostError.Cause
  | missing
  | isFolder
  | notFolder
  | nameTooLong
  | other (text : String)
  deriving DecidableEq

/-- The cause in words. -/
def HostError.Cause.text : HostError.Cause → String
  | .missing => "no such file or directory"
  | .isFolder => "is a directory"
  | .notFolder => "not a directory"
  | .nameTooLong => "file name too long"
  | .other text => text

/-- A refusal of the host: what it was asked to do, with which path, and why it did
not do it. -/
structure HostError where
  operation : String
  path : String
  cause : HostError.Cause
  deriving DecidableEq

/-- The refusal in words. -/
def HostError.message (error : HostError) : String :=
  error.operation ++ " " ++ error.path ++ ": " ++ error.cause.text

namespace Host

/-- A request to the host. -/
inductive Request
  /-- Shows a text. -/
  | print (text : String)
  /-- Asks for the text of a file. -/
  | read (path : String)
  /-- Asks whether there is something at a path. -/
  | probe (path : String)
  /-- Makes a folder and all folders on the way to it, as far as they are missing. -/
  | makeFolder (path : String)
  /-- Makes a file with a text, or gives the file that is there a new one. -/
  | write (path text : String)
  /-- Starts the watch. -/
  | startWatch
  /-- Asks for the time since the watch was started, as it is shown. -/
  | readWatch

/-- What a request is replied to with. -/
abbrev Request.Reply : Request → Type
  | .print _ | .startWatch => Unit
  | .read _ => Except HostError String
  | .probe _ | .makeFolder _ | .write _ _ => Except HostError Unit
  | .readWatch => String

end Host

open Host

/-- Requests to the host, each chosen by the replies so far, and a result. -/
inductive Script (α : Type)
  | done (result : α)
  | broken (fault : Fault)
  | ask (request : Request) (rest : request.Reply → Script α)

namespace Script

/-- One script after the other. -/
def bind {α β : Type} : Script α → (α → Script β) → Script β
  | .done result, next => next result
  | .broken fault, _ => .broken fault
  | .ask request rest, next => .ask request fun reply => (rest reply).bind next

instance : Monad Script where
  pure := .done
  bind := .bind

/-- Runs a script by answering its requests. -/
def run {m : Type → Type} [Monad m] {α : Type} (answer : (request : Request) → m request.Reply) :
    Script α → m (Except Fault α)
  | .done result => pure (.ok result)
  | .broken fault => pure (.error fault)
  | .ask request rest => do run answer (rest (← answer request))

/-- A single request. -/
def request (request : Request) : Script request.Reply := .ask request .done

/-- Shows a text. -/
def print (text : String) : Script Unit := request (.print text)

/-- A result that may be a fault. -/
def ofExcept {α : Type} : Except Fault α → Script α
  | .ok result => .done result
  | .error fault => .broken fault

/-- A script that is followed by nothing is itself. -/
@[simp]
theorem bind_done {α : Type} (script : Script α) : script.bind .done = script := by
  induction script with
  | done => rfl
  | broken => rfl
  | ask request rest ih => exact congrArg (Script.ask request) (funext ih)

/-- It does not matter how scripts that follow each other are grouped. -/
theorem bind_assoc {α β γ : Type} (script : Script α) (next : α → Script β) (last : β → Script γ) :
    (script.bind next).bind last = script.bind fun result => (next result).bind last := by
  induction script with
  | done => rfl
  | broken => rfl
  | ask request rest ih => exact congrArg (Script.ask request) (funext ih)

instance : LawfulMonad Script :=
  LawfulMonad.mk' Script bind_done (fun _ _ => rfl) bind_assoc

end Script

end Shanty
