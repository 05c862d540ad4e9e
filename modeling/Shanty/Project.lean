/-
# Projects

A project file stands next to the sources of a project. It names the project and
lists build profiles, of which one is chosen by name or because it is the default. A
project without profiles is built with the standard profile.

A new project file comes with a profile for debugging, which is the default, and one
for releases.
-/

import Shanty.Host
import Shanty.Target
import Shanty.Text.Path
import Shanty.Toml.Reader
import Shanty.Toml.Writer

namespace Shanty

/-- The choices that control a build. An empty output path puts the code next to the
source. -/
structure Profile where
  name : String := ""
  target : Target := .x64
  output : String := ""
  optimize : Bool := true
  /-- Whether the listing of the intermediate code shows comments. -/
  verbose : Bool := false
  deriving DecidableEq

namespace Project

/-- The name of project files. -/
def fileName : String := "shanty.toml"

/-- A profile as it stands in a project file. -/
structure Entry where
  name : String
  target : String
  output : String
  optimize : Bool
  verbose : Bool
  isDefault : Bool

/-- What stands in a project file. Without a project table the name is empty. -/
structure File where
  name : String
  profiles : List Entry

/-- Why no profile was chosen. -/
inductive ChoiceError
  | noSuchProfile (name : String)
  | noDefault
  | unknownTarget (profile target : String)
  deriving DecidableEq

/-- The error in words. -/
def ChoiceError.message : ChoiceError → String
  | .noSuchProfile name => "no profile named `" ++ name ++ "`"
  | .noDefault => "no default profile; the `-p` argument is required"
  | .unknownTarget profile target =>
    "in profile `" ++ profile ++ "`: " ++ Target.unknownNameMessage target

/-- Why a project was not loaded. -/
inductive LoadError
  | noFile
  | unreadable (path : String) (reason : HostError)
  | malformed (path : String)
  | unnamed (path : String)
  | choice (project : String) (reason : ChoiceError)
  deriving DecidableEq

/-- The error in words. -/
def LoadError.message : LoadError → String
  | .noFile => "no project file"
  | .unreadable path reason => "failed to read project file " ++ path ++ ": " ++ reason.message
  | .malformed path => "failed to decode project file " ++ path
  | .unnamed path => "missing project name in " ++ path
  | .choice project reason => "in project `" ++ project ++ "`: " ++ reason.message

/-- Why a project file was not made. -/
inductive InitError
  | alreadyThere (path : String)
  | unclear (reason : HostError)
  | noName
  | unwritable (path : String) (reason : HostError)
  deriving DecidableEq

/-- The error in words. -/
def InitError.message : InitError → String
  | .alreadyThere path => "project file " ++ path ++ " already exists"
  | .unclear reason => "project file error: " ++ reason.message
  | .noName => "project name must not be empty"
  | .unwritable path reason => "failed to write project file " ++ path ++ ": " ++ reason.message

/-- The value of a key, which may also be written in capitals. -/
def value? (entries : Toml.Entries) (key : String) : Option Toml.Value :=
  (entries.lookup key).or (entries.lookup key.toUpper)

/-- The text that a key has. It is empty if the key is missing, and there is none if
the key has a value of another kind. -/
def text? (entries : Toml.Entries) (key : String) : Option String :=
  match value? entries key with
  | none => some ""
  | some (.string text) => some text
  | some _ => none

/-- The truth value that a key has. It is false if the key is missing, and there is
none if the key has a value of another kind. -/
def flag? (entries : Toml.Entries) (key : String) : Option Bool :=
  match value? entries key with
  | none => some false
  | some (.bool flag) => some flag
  | some _ => none

/-- Reads a profile from its table. -/
def Entry.ofToml? (entries : Toml.Entries) : Option Entry := do
  return {
    name := ← text? entries "name"
    target := ← text? entries "target"
    output := ← text? entries "output"
    optimize := ← flag? entries "optimize"
    verbose := ← flag? entries "verbose-3ac"
    isDefault := ← flag? entries "default" }

/-- The table of a profile. -/
def Entry.toToml (entry : Entry) : Toml.Entries :=
  [("default", .bool entry.isDefault), ("name", .string entry.name),
    ("optimize", .bool entry.optimize), ("output", .string entry.output),
    ("target", .string entry.target), ("verbose-3ac", .bool entry.verbose)]

/-- The name that a document gives its project. -/
def name? (document : Toml.Entries) : Option String :=
  match value? document "project" with
  | none => some ""
  | some (.table entries _) => text? entries "name"
  | some _ => none

/-- The profiles of a document. -/
def profiles? (document : Toml.Entries) : Option (List Entry) :=
  match value? document "profiles" with
  | none => some []
  | some (.tables items) => items.mapM fun (entries, _) => Entry.ofToml? entries
  | some _ => none

/-- Reads a project file from its document. -/
def File.ofToml? (document : Toml.Entries) : Option File := do
  return ⟨← name? document, ← profiles? document⟩

/-- The document of a project file. -/
def File.toToml (file : File) : Toml.Entries :=
  [("profiles", .tables (file.profiles.map fun entry => (entry.toToml, false))),
    ("project", .table [("name", .string file.name)] false)]

/-- The profile that an entry describes. Without a target it is for the first one. -/
def Entry.profile (entry : Entry) : Except ChoiceError Profile :=
  let build (target : Target) : Profile :=
    ⟨entry.name, target, entry.output, entry.optimize, entry.verbose⟩
  if entry.target = "" then .ok (build .x64)
  else
    match Target.ofName? entry.target with
    | some target => .ok (build target)
    | none => .error (.unknownTarget entry.name entry.target)

/-- Chooses a profile by its name, or the default one if the name is empty. -/
def choose (profiles : List Entry) (selected : String) : Except ChoiceError Profile :=
  if selected ≠ "" then
    match profiles.find? (·.name = selected) with
    | some entry => entry.profile
    | none => .error (.noSuchProfile selected)
  else if profiles.isEmpty then .ok {}
  else
    match profiles.find? (·.isDefault) with
    | some entry => entry.profile
    | none => .error .noDefault

end Project

/-- A project of which a profile has been chosen. The root is the folder of its file. -/
structure Project where
  name : String
  root : String
  profile : Profile
  deriving DecidableEq

namespace Project

/-- A project from the document in its file. -/
def ofToml (dir selected : String) (document : Toml.Entries) : Except LoadError Project :=
  let path := Path.join dir fileName
  match File.ofToml? document with
  | none => .error (.malformed path)
  | some file =>
    if file.name = "" then .error (.unnamed path)
    else
      match choose file.profiles selected with
      | .error reason => .error (.choice file.name reason)
      | .ok profile => .ok ⟨file.name, dir, profile⟩

/-- The fault of a project file in which something stands in the place of a value that
nobody has foreseen there. -/
def unforeseen : Fault :=
  .crash "interface conversion: interface \x7b\x7d is *errors.errorString, not string"

/-- Loads the project of a folder and chooses a profile of it. -/
def load (dir selected : String) : Script (Except LoadError Project) := do
  let path := Path.join dir fileName
  match ← Script.request (.read path) with
  | .ok text =>
    match Toml.read text with
    | .ok document => return ofToml dir selected document
    | .error .malformed => return .error (.malformed path)
    | .error .unforeseen => Script.broken unforeseen
  | .error reason =>
    return .error (if reason.cause = .missing then .noFile else .unreadable path reason)

/-- The file of a new project. -/
def File.fresh (name : String) : File :=
  let entry (profile suffix : String) (debug : Bool) : Entry :=
    { name := profile, target := Target.x64.name, output := Path.join "out" (name ++ suffix)
      optimize := !debug, verbose := debug, isDefault := debug }
  ⟨name, [entry "debug" "_debug.s" true, entry "release" ".s" false]⟩

/-- Makes the file of a new project in a folder that has none. -/
def init (dir name : String) : Script (Except InitError Unit) := do
  let path := Path.join dir fileName
  match ← Script.request (.probe path) with
  | .ok () => return .error (.alreadyThere path)
  | .error reason =>
    if reason.cause ≠ .missing then return .error (.unclear reason)
    if name = "" then return .error .noName
    match ← Script.request (.write path (Toml.render (File.fresh name).toToml)) with
    | .ok () => return .ok ()
    | .error reason => return .error (.unwritable path reason)

end Project

end Shanty
