/-
# An imagined disk

A disk that exists only as a value: files with texts and folders, each named by the
names on the way to it from the root. Paths are followed name by name, so that a path
that leads through something that is missing, or that is no folder, is refused just
where it does.

A script can be rehearsed on such a disk. A rehearsal keeps what is shown and what
becomes of the disk.
-/

import Shanty.Host

namespace Shanty

/-- What a place on a disk holds. -/
inductive Disk.Content
  | file (text : String)
  | folder
  deriving DecidableEq

/-- A disk and a working directory. The root is always a folder. -/
structure Disk where
  /-- The names on the way to the working directory. -/
  workDir : List String := []
  contents : List (List String × Disk.Content) := []

namespace Disk

/-- What a place holds, if anything. -/
def content? (disk : Disk) (place : List String) : Option Content :=
  if place = [] then some .folder else disk.contents.lookup place

/-- The disk with something at a place. -/
def put (disk : Disk) (place : List String) (content : Content) : Disk :=
  { disk with
    contents :=
      if (disk.contents.lookup place).isSome then
        disk.contents.map fun entry => if entry.1 = place then (place, content) else entry
      else disk.contents ++ [(place, content)] }

/-- The number of bytes that a name may have. -/
def nameLimit : Nat := 255

/-- Follows one name from a place, which has to be a folder. -/
def follow (disk : Disk) (place : List String) (name : String) :
    Except HostError.Cause (List String) :=
  match disk.content? place with
  | none => .error .missing
  | some (.file _) => .error .notFolder
  | some .folder =>
    if name = "" || name = "." then .ok place
    else if name = ".." then .ok place.dropLast
    else if nameLimit < name.utf8ByteSize then .error .nameTooLong
    else .ok (place ++ [name])

/-- The number of bytes that a path may have. -/
def pathLimit : Nat := 4095

/-- The place that a path leads to, which may be empty. -/
def locate (disk : Disk) (path : String) : Except HostError.Cause (List String) :=
  let start := if path.startsWith "/" then [] else disk.workDir
  if path.toList.contains '\x00' then .error (.other "invalid argument")
  else if pathLimit < path.utf8ByteSize then .error .nameTooLong
  else (path.splitOn "/").foldlM disk.follow start

/-- The place that a path leads to and what it holds. -/
def find (disk : Disk) (path : String) : Except HostError.Cause (List String × Content) := do
  let place ← disk.locate path
  match disk.content? place with
  | none => .error .missing
  | some content => return (place, content)

/-- The text of a file. -/
def read (disk : Disk) (path : String) : Except HostError String :=
  match disk.find path with
  | .error cause => .error ⟨"open", path, cause⟩
  | .ok (_, .folder) => .error ⟨"read", path, .isFolder⟩
  | .ok (_, .file text) => .ok text

/-- Whether there is something at a path. -/
def probe (disk : Disk) (path : String) : Except HostError Unit :=
  match disk.find path with
  | .error cause => .error ⟨"stat", path, cause⟩
  | .ok _ => .ok ()

/-- Makes a file with a text, or gives the file that is there a new one. -/
def write (disk : Disk) (path text : String) : Disk × Except HostError Unit :=
  match disk.locate path with
  | .error cause => (disk, .error ⟨"open", path, cause⟩)
  | .ok place =>
    match disk.content? place with
    | some .folder => (disk, .error ⟨"open", path, .isFolder⟩)
    | _ => (disk.put place (.file text), .ok ())

/-- Makes the folders at some paths, of which each leads into the one before it, as far
as they are missing. -/
def makeFolders (disk : Disk) : List String → Disk × Except HostError Unit
  | [] => (disk, .ok ())
  | path :: rest =>
    match disk.locate path with
    | .error cause => (disk, .error ⟨"mkdir", path, cause⟩)
    | .ok place =>
      match disk.content? place with
      | some .folder => disk.makeFolders rest
      | some (.file _) => (disk, .error ⟨"mkdir", path, .notFolder⟩)
      | none => (disk.put place .folder).makeFolders rest

/-- The paths on the way to a path, itself included, given what is before it and its
names. -/
def waypoints (before : String) : List String → List String
  | [] => []
  | name :: rest => (before ++ name) :: waypoints (before ++ name ++ "/") rest

/-- Makes a folder and all folders on the way to it, as far as they are missing. -/
def makeFolder (disk : Disk) (path : String) : Disk × Except HostError Unit :=
  disk.makeFolders ((waypoints "" (path.splitOn "/")).filter (· ≠ ""))

/-- An otherwise empty disk with some files, named by their paths as seen from the
working directory. -/
def ofFiles (workDir : List String) (files : List (String × String)) : Disk :=
  let bare : Disk := ⟨workDir, (List.range workDir.length).map fun n =>
    (workDir.take (n + 1), .folder)⟩
  files.foldl (fun disk (path, text) =>
    let folder := String.intercalate "/" (path.splitOn "/").dropLast
    ((if folder = "" then disk else (disk.makeFolder folder).1).write path text).1) bare

/-- The files below the working directory with their texts, named by their paths as
seen from there. -/
def files (disk : Disk) : List (String × String) :=
  disk.contents.filterMap fun
    | (place, .file text) =>
      if disk.workDir.isPrefixOf place then
        some (String.intercalate "/" (place.drop disk.workDir.length), text)
      else none
    | (_, .folder) => none

end Disk

/-- How a rehearsal stands: the disk and all that has been shown. -/
structure Rehearsal where
  disk : Disk
  shown : String := ""

namespace Rehearsal

open Host

/-- Replies to a request. All times are shown alike. -/
def answer (elapsed : String) : (request : Request) → StateM Rehearsal request.Reply
  | .print text => modify fun state => { state with shown := state.shown ++ text }
  | .read path => do return (← get).disk.read path
  | .probe path => do return (← get).disk.probe path
  | .makeFolder path => do
    let (disk, reply) := (← get).disk.makeFolder path
    modify fun state => { state with disk }
    return reply
  | .write path text => do
    let (disk, reply) := (← get).disk.write path text
    modify fun state => { state with disk }
    return reply
  | .startWatch => pure ()
  | .readWatch => pure elapsed

end Rehearsal

/-- Runs a script on an imagined disk. -/
def Script.rehearse {α : Type} (script : Script α) (elapsed : String) (disk : Disk) :
    Except Fault α × Rehearsal :=
  (script.run (Rehearsal.answer elapsed)).run { disk }

end Shanty
