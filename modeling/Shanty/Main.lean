/-
# The program

The scripts of the library answered by the operating system. Nothing is decided here:
requests are passed on, and refusals are put into the words of the library.
-/

import Shanty.Execution
import Shanty.Text.Utf8

namespace Shanty.Main

open Host

/-- Why the operating system refused something. That something is there already is only
said where a folder is to be made and there is a file. -/
def causeOf : IO.Error → HostError.Cause
  | .noFileOrDirectory _ _ _ => .missing
  | .alreadyExists _ _ _ => .notFolder
  | .inappropriateType _ _ "Is a directory" => .isFolder
  | .inappropriateType _ _ "Not a directory" => .notFolder
  | error => .other (toString error)

/-- Does something with a path and turns a failure into a refusal. -/
def attempt {α : Type} (operation path : String) (action : IO α) : IO (Except HostError α) := do
  try return .ok (← action)
  catch error => return .error ⟨operation, path, causeOf error⟩

/-- The text of a file, in which bytes that are no text are replaced. -/
def readText (path : String) : IO String := do
  let bytes ← IO.FS.readBinFile path
  return String.ofList (Text.Utf8.decode bytes.toList)

/-- Reads a file. A folder can be opened, but not read. -/
def readFile (path : String) : IO (Except HostError String) := do
  match ← attempt "open" path (readText path) with
  | .error ⟨_, path, .isFolder⟩ => return .error ⟨"read", path, .isFolder⟩
  | reply => return reply

/-- A number of milliseconds as seconds. -/
def renderElapsed (milliseconds : Nat) : String :=
  let thousandths := toString (1000 + milliseconds % 1000)
  "(" ++ toString (milliseconds / 1000) ++ "." ++ String.ofList (thousandths.toList.drop 1) ++ "s)"

/-- Replies to a request. The watch holds the time at which it was started. -/
def answer (watch : IO.Ref Nat) : (request : Request) → IO request.Reply
  | .print text => do
    let out ← IO.getStdout
    out.putStr text
    out.flush
  | .read path => readFile path
  | .probe path => attempt "stat" path do
    let _ ← IO.FS.Handle.mk path .read
  | .makeFolder path => attempt "mkdir" path (IO.FS.createDirAll path)
  | .write path text => attempt "open" path (IO.FS.writeFile path text)
  | .startWatch => do watch.set (← IO.monoMsNow)
  | .readWatch => do return renderElapsed ((← IO.monoMsNow) - (← watch.get))

end Shanty.Main

/-- Runs the program on its command line. -/
def main (pieces : List String) : IO UInt32 := do
  let watch ← IO.mkRef 0
  let workDir := toString (← IO.currentDir)
  match ← (Shanty.Execution.execute workDir pieces).run (Shanty.Main.answer watch) with
  | .ok code => return UInt32.ofNat code
  | .error _ => return UInt32.ofNat Shanty.Execution.failure
